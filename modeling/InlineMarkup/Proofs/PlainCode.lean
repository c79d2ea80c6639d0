import InlineMarkup.Proofs.Layout
import InlineMarkup.Proofs.Stream
import InlineMarkup.Restore

/-!
Code without markup. Where no markup begins, translating hands every token on as it is, and where no
call holds markup, restoring does. Laid out again, the tokens are the source.
-/
namespace InlineMarkup

open Text Layout List

/-! ### Tokens that end with a newline -/

variable {row : Int} {ts : List Token} {left : Option OpenString} {ls : List Text}

variable {col : Int} {s l : Text} {before : Option OpenString}

theorem row_newline (h : Row row col s ts left) :
    ∀ t ∈ ts, t.text.getLast? = some '\n' → t.kind.isLineEnd = true := by
  induction h with
  | blank | opens => simp
  | word t _ _ htext _ _ _ _ ih =>
    intro u hu hlast
    rcases mem_cons.mp hu with rfl | hu
    · exact absurd rfl (htext _ (mem_of_getLast? hlast))
    · exact ih u hu hlast
  | lineEnd t _ hkind =>
    intro u hu _
    rw [mem_singleton.mp hu]
    exact hkind
  | joined t _ _ _ htext =>
    intro u hu hlast
    rw [mem_singleton.mp hu, htext] at hlast
    exact absurd hlast (by decide)

theorem lineRead_newline (h : Scan.LineRead row l before ts left) (hbegun : ∀ p, before = some p → p.Begun)
    (hne : l ≠ []) :
    ∀ t ∈ ts, t.text.getLast? = some '\n' → t.kind.isLineEnd = true ∨ (t.kind = .error ∧ 1 < t.text.length) := by
  cases h with
  | fresh hrow => exact fun t ht hlast => Or.inl (row_newline hrow t ht hlast)
  | closes p n t hkind hle hlast htext hstart hstop hrow =>
    intro u hu hu2
    rcases mem_cons.mp hu with rfl | hu
    · have hq := (hbegun p rfl).quote
      have hmark : p.closer.mark = '\n' := by
        rw [htext, getLast?_append, hlast] at hu2
        simpa using hu2
      rw [hmark] at hq
      exact absurd hq (by decide)
    · exact Or.inl (row_newline hrow u hu hu2)
  | spoiled p t hkind htext =>
    intro u hu _
    rw [mem_singleton.mp hu]
    refine Or.inr ⟨hkind, ?_⟩
    have h1 := length_pos_iff.mpr (hbegun p rfl).ne_nil
    have h2 := length_pos_iff.mpr hne
    rw [htext, length_append]
    omega
  | goesOn => simp

theorem all_newline (hls : ∀ l ∈ ls, Tidy l) {scan : Scan} (hbegun : ∀ p, scan.pending = some p → p.Begun) :
    ∀ t ∈ scan.all ls, t.text.getLast? = some '\n' →
      t.kind.isLineEnd = true ∨ (t.kind = .error ∧ 1 < t.text.length) := by
  induction ls generalizing scan with
  | nil =>
    intro t ht hlast
    rw [Scan.all] at ht
    cases hp : scan.pending with
    | none =>
      rw [(mem_line_nil hp ht).2.1] at hlast
      exact absurd hlast (by simp)
    | some p =>
      rw [line_nil_pending hp, mem_singleton] at ht
      subst ht
      exact Or.inr ⟨rfl, (hbegun p hp).one_lt_length hlast⟩
  | cons l rest ih =>
    obtain ⟨after, hrow, hread, hall⟩ :=
      all_cons_tidy scan rest (hls l mem_cons_self)
    intro t ht hlast
    rw [hall, mem_append] at ht
    rcases ht with ht | ht
    · exact lineRead_newline hread hbegun (hls l mem_cons_self).ne_nil t ht hlast
    · exact ih (fun k hk => hls k (mem_cons_of_mem _ hk)) (hread.begun hbegun) t ht hlast

theorem map_trimNewline_eq (hls : ∀ l ∈ ls, Tidy l)
    (hstrings : ∀ t ∈ tokenize ls, t.kind = .error → t.text.length ≤ 1) :
    (tokenize ls).map Token.trimNewline = tokenize ls := by
  have hid : ∀ t ∈ tokenize ls, t.trimNewline = t := by
    intro t ht
    rw [Token.trimNewline, if_neg]
    intro htrim
    simp only [Bool.and_eq_true, beq_iff_eq, Bool.not_eq_true'] at htrim
    rcases @all_newline ls hls {} (by simp) t ht htrim.1 with hkind | ⟨hkind, hlen⟩
    · rw [hkind] at htrim
      exact absurd htrim.2 (by simp)
    · exact absurd (hstrings t ht hkind) (not_le.mpr hlen)
  exact (map_congr_left hid).trans (map_id _)

/-! ### The last token -/

theorem row_getLast (h : Row row col s ts left) (hs : Tidy s) (hjoin : ¬ ['\\', '\n'] <:+ s)
    (hleft : left = none) : ∃ t, ts.getLast? = some t ∧ t.kind.isLineEnd = true := by
  induction h with
  | blank hspace => exact absurd hspace hs.not_spacing
  | opens => exact absurd hleft (by simp)
  | @word col g s ts left t hgap hkind htext hstart hstop _ hrest ih =>
    have hs2 : Tidy s := (hs.of_append (Scan.spacing_noNewline hgap)).of_append htext
    obtain ⟨u, hu, hukind⟩ := ih hs2
      (fun hsuffix => hjoin (hsuffix.trans ((suffix_append _ _).trans (suffix_append _ _))))
      hleft
    exact ⟨u, by rw [getLast?_cons, hu]; rfl, hukind⟩
  | lineEnd t _ hkind => exact ⟨t, rfl, hkind⟩
  | @joined col g e t hgap hend =>
    refine absurd ?_ hjoin
    rcases hend with rfl | rfl
    · exact suffix_append _ _
    · exact absurd rfl (hs.plain '\r' (by simp)).2.2

theorem lineRead_getLast (h : Scan.LineRead row l before ts none) (hl : Tidy l) (hjoin : ¬ ['\\', '\n'] <:+ l)
    (hbegun : ∀ p, before = some p → p.Begun) {t : Token} (ht : ts.getLast? = some t) :
    t.kind ≠ .name ∧ t.kind ≠ .op := by
  have hend {u : Token} (hu : u.kind.isLineEnd = true) : u.kind ≠ .name ∧ u.kind ≠ .op := by
    constructor <;> (intro hkind; rw [hkind] at hu; exact absurd hu (by decide))
  cases h with
  | fresh hrow =>
    obtain ⟨u, hu, hkind⟩ := row_getLast hrow hl hjoin rfl
    rw [ht] at hu
    exact hend (Option.some.inj hu ▸ hkind)
  | closes p n v hkind hle hlast htext hstart hstop hrow =>
    obtain ⟨u, hu, hukind⟩ := row_getLast hrow (hl.after_string (hbegun p rfl) hlast)
      (fun hsuffix => hjoin (hsuffix.trans (drop_suffix n l))) rfl
    rw [getLast?_cons, hu] at ht
    exact hend (Option.some.inj ht ▸ hukind)
  | spoiled p v hkind =>
    cases ht
    simp [hkind]

theorem all_getLast (hls : ∀ l ∈ ls, Tidy l)
    (hjoin : ∀ l, ls.getLast? = some l → ¬ ['\\', '\n'] <:+ l) {scan : Scan} {t : Token}
    (hbegun : ∀ p, scan.pending = some p → p.Begun) (h : (scan.all ls).getLast? = some t) :
    t.kind ≠ .name ∧ t.kind ≠ .op := by
  induction ls generalizing scan with
  | nil =>
    rw [Scan.all] at h
    cases hp : scan.pending with
    | none =>
      rcases (mem_line_nil hp (mem_of_getLast? h)).1 with hkind | hkind
      · simp [hkind]
      · simp [hkind]
    | some p =>
      rw [line_nil_pending hp] at h
      cases h
      simp
  | cons l rest ih =>
    have hl := hls l mem_cons_self
    have hrest : ∀ k ∈ rest, Tidy k := fun k hk => hls k (mem_cons_of_mem _ hk)
    obtain ⟨after, hrow, hread, hall⟩ := all_cons_tidy scan rest hl
    rw [hall] at h
    by_cases hnil : after.all rest = []
    · have hempty : rest = [] := by
        cases rest with
        | nil => rfl
        | cons k more => exact absurd hnil (all_ne_nil hrest)
      have hover : after.pending = none := by
        by_contra hsome
        exact all_ne_nil_of_pending hrest (Option.isSome_iff_ne_none.mpr hsome) hnil
      rw [hnil, append_nil] at h
      rw [hover] at hread
      exact lineRead_getLast hread hl (hjoin l (by rw [hempty]; rfl)) hbegun h
    · rw [getLast?_append_of_ne_nil _ hnil] at h
      refine ih hrest (fun k hk => hjoin k ?_) (hread.begun hbegun) h
      rw [getLast?_cons, hk]
      rfl

/-! ### Translating -/

namespace Translate

def NoMarkup (tokens : List Token) : Prop :=
  ∀ front t rest, tokens = front ++ t :: rest → t.isOp ['<'] = true →
    opensAfter (front.filter isSignificant).getLast? = false

def BracesClose (tokens : List Token) : Prop :=
  ∀ front, front <+: tokens → front.countP (·.isOp ['\x7d']) ≤ front.countP (·.isOp ['\x7b'])

instance (tokens : List Token) : Decidable (NoMarkup tokens) :=
  decidable_of_iff
    (∀ n (h : n < tokens.length), tokens[n].isOp ['<'] = true →
      opensAfter ((tokens.take n).filter isSignificant).getLast? = false) <| by
    constructor
    · rintro h front t rest rfl
      simpa using h front.length (by simp)
    · intro h n hn
      exact h (tokens.take n) tokens[n] (tokens.drop (n + 1)) (by simp)

instance (tokens : List Token) : Decidable (BracesClose tokens) :=
  decidable_of_iff
    (∀ front ∈ tokens.inits, front.countP (·.isOp ['\x7d']) ≤ front.countP (·.isOp ['\x7b'])) <| by
    simp only [mem_inits, BracesClose]

def codeAfter (read : List Token) : Code where
  last := (read.filter isSignificant).getLast?
  depth := read.countP (·.isOp ['\x7b']) - read.countP (·.isOp ['\x7d'])
  made := read.toArray

theorem isOp_exclusive {t : Token} {a b : Text} (hab : a ≠ b) (ha : t.isOp a = true) : t.isOp b = false := by
  simp only [Token.isOp_iff] at ha
  simp [Token.isOp, ha.2, hab]

theorem codeAfter_append (read : List Token) (t : Token) : codeAfter (read ++ [t]) =
      { (codeAfter read).add t (isSignificant t) with
        depth := if t.isOp ['\x7b'] then (codeAfter read).depth + 1
          else if t.isOp ['\x7d'] then (codeAfter read).depth - 1 else (codeAfter read).depth } := by
  have hlast : ((read ++ [t]).filter isSignificant).getLast? =
      if isSignificant t then some t else (read.filter isSignificant).getLast? := by
    rw [filter_append]
    by_cases ht : isSignificant t <;> simp [ht]
  unfold codeAfter Code.add
  rw [hlast]
  congr 1
  · simp only [countP_append, countP_singleton]
    by_cases hopen : t.isOp ['\x7b'] = true
    · have hclose := isOp_exclusive (b := ['\x7d']) (by decide) hopen
      simp only [hopen, hclose, if_true]
      simp
      omega
    · by_cases hclose : t.isOp ['\x7d'] = true
      · simp only [hopen, hclose]
        simp
        omega
      · simp [hopen, hclose]
  · simp

theorem codeToken_plain {mode : Mode} {s : Stream} {read rest : List Token} {t : Token}
    (hmarkup : NoMarkup (read ++ t :: rest)) (hbraces : BracesClose (read ++ t :: rest)) :
    codeToken mode s (codeAfter read) t [] = .ok ⟨s, [.code (codeAfter (read ++ [t]))]⟩ := by
  have hprefix : read ++ [t] <+: read ++ t :: rest := ⟨rest, by simp⟩
  have hcount := hbraces _ hprefix
  have hdepth : 0 ≤ (codeAfter (read ++ [t])).depth := by
    simp only [codeAfter]
    omega
  have happend := codeAfter_append read t
  unfold codeToken
  dsimp only
  rw [happend] at hdepth
  dsimp only [Code.add] at hdepth
  rw [if_neg, if_neg, happend]
  · rfl
  · intro hopen
    simp only [Bool.and_eq_true] at hopen
    have hno := hmarkup read t rest rfl hopen.1
    exact absurd hopen.2 (by simpa [codeAfter] using hno)
  · intro hclose
    simp only [Bool.and_eq_true, decide_eq_true_eq] at hclose
    omega

theorem round_plain {mode : Mode} {n : Nat} {s : Stream} {read : List Token}
    (hmarkup : NoMarkup (read ++ s.tokens)) (hbraces : BracesClose (read ++ s.tokens)) (hn : s.tokens.length < n) :
    round mode n ⟨s, [.code (codeAfter read)]⟩ = .error ((read ++ s.tokens).toArray, none) := by
  induction n generalizing s read with
  | zero => omega
  | succ n ih =>
    rw [round, step]
    dsimp only
    rcases hnext : s.next with ⟨t, after⟩
    cases t with
    | none =>
      rw [Stream.tokens_of_next_none hnext, append_nil]
      rfl
    | some t =>
      have htokens := Stream.tokens_of_next_some hnext
      rw [htokens] at hmarkup hbraces hn ⊢
      dsimp only
      rw [codeToken_plain hmarkup hbraces]
      dsimp only
      have happ : read ++ t :: after.tokens = (read ++ [t]) ++ after.tokens := by simp
      rw [happ] at hmarkup hbraces ⊢
      exact ih hmarkup hbraces (by simpa using hn)

theorem extent_suffices (lines : List Text) :
    (tokenize lines).length < ({ source := lines } : Stream).extent + 1 := by
  have hlength := Scan.all_length {} lines
  have hextent : ({ source := lines } : Stream).extent = 2 + 2 * (lines.flatten.length + lines.length) := by
    simp [Stream.extent]
  unfold tokenize
  simp only [length_nil] at hlength
  omega

theorem translateTokens_plain {mode : Mode} {lines : List Text}
    (hmarkup : NoMarkup (tokenize lines)) (hbraces : BracesClose (tokenize lines)) :
    translateTokens mode lines = ((tokenize lines).map Token.trimNewline, none) := by
  have htokens := Stream.tokens_of_source lines
  have hrun := @round_plain mode _ { source := lines } []
    (by rwa [htokens]) (by rwa [htokens]) (by rw [htokens]; exact extent_suffices lines)
  rw [htokens] at hrun
  unfold translateTokens
  have hcode : codeAfter [] = {} := rfl
  rw [hcode] at hrun
  rw [budget, run, hrun]
  simp

end Translate

/-! ### Restoring -/

namespace Restore

def NoCall (tokens : List Token) : Prop :=
  ∀ front a b c d rest, tokens = front ++ a :: b :: c :: d :: rest →
    a.isName "html".toList = true → b.isOp ['.'] = true → c.isName "PYXL".toList = true →
    d.isOp ['('] = false

def BracketsClose (tokens : List Token) : Prop :=
  ∀ front, front <+: tokens →
    front.countP (isBracket · "\x7d)]".toList) ≤ front.countP (isBracket · "\x7b([".toList)

instance (tokens : List Token) : Decidable (NoCall tokens) :=
  decidable_of_iff
    (∀ n (h : n < tokens.length - 3), tokens[n].isName "html".toList = true →
      tokens[n + 1].isOp ['.'] = true → tokens[n + 2].isName "PYXL".toList = true →
      tokens[n + 3].isOp ['('] = false) <| by
    constructor
    · rintro h front a b c d rest rfl
      simpa using h front.length (by simp; omega)
    · intro h n hn
      refine h (tokens.take n) tokens[n] tokens[n + 1] tokens[n + 2] tokens[n + 3]
        (tokens.drop (n + 4)) ?_
      simp

instance (tokens : List Token) : Decidable (BracketsClose tokens) :=
  decidable_of_iff
    (∀ front ∈ tokens.inits, front.countP (isBracket · "\x7d)]".toList) ≤
      front.countP (isBracket · "\x7b([".toList)) <| by
    simp only [mem_inits, BracketsClose]

inductive Front : List Token → Prop where
  | none : Front []
  | name {a : Token} (ha : a.isName "html".toList = true) : Front [a]
  | point {a b : Token} (ha : a.isName "html".toList = true) (hb : b.isOp ['.'] = true) : Front [a, b]
  | whole {a b c : Token} (ha : a.isName "html".toList = true) (hb : b.isOp ['.'] = true)
      (hc : c.isName "PYXL".toList = true) : Front [a, b, c]

variable {saved read : List Token} {t : Token} {s : State}

theorem Front.append (h : Front saved) (ht : goesOn saved t = true) : Front (saved ++ [t]) := by
  cases h with
  | none => exact .name ht
  | name ha => exact .point ha ht
  | point ha hb => exact .whole ha hb ht
  | whole => exact absurd ht (by simp [goesOn])

theorem isBracket_of_goesOn (h : goesOn saved t = true) :
    isBracket t "\x7d)]".toList = false ∧ isBracket t "\x7b([".toList = false := by
  have hname {word : Text} (hw : t.isName word = true) (brackets : Text) : isBracket t brackets = false := by
    simp only [Token.isName, Bool.and_eq_true, beq_iff_eq] at hw
    simp [isBracket, hw.1]
  unfold goesOn at h
  split at h
  · exact ⟨hname h _, hname h _⟩
  · simp only [Token.isOp_iff] at h
    simp only [isBracket, h.2]
    exact ⟨by rw [Bool.and_eq_false_iff]; exact Or.inr (by decide),
      by rw [Bool.and_eq_false_iff]; exact Or.inr (by decide)⟩
  · exact ⟨hname h _, hname h _⟩
  · exact absurd h (by simp)

def depthAfter (read : List Token) : Int :=
  read.countP (isBracket · "\x7b([".toList) - read.countP (isBracket · "\x7d)]".toList)

/-- What has been read of code without calls: what is made, and what may be the front of a call. -/
structure Reading (s : State) (read : List Token) : Prop where
  calls : s.calls = []
  front : Front s.saved
  made : s.made.toList ++ s.saved = read
  depth : s.depth = depthAfter read

theorem depthAfter_append (read : List Token) (t : Token) : depthAfter (read ++ [t]) = depthAfter read +
      (if isBracket t "\x7b([".toList then 1 else 0) - (if isBracket t "\x7d)]".toList then 1 else 0) := by
  simp only [depthAfter, countP_append, countP_singleton]
  split <;> split <;> push_cast <;> omega

theorem depthAfter_nonneg {tokens front : List Token} (h : BracketsClose tokens)
    (hfront : front <+: tokens) : 0 ≤ depthAfter front := by
  have hcount := h front hfront
  unfold depthAfter
  omega

theorem plainToken_of_calls_nil (t : Token) (hcalls : s.calls = []) : plainToken s t =
      let depth := s.depth + (if isBracket t "\x7b([".toList then 1 else 0) -
        (if isBracket t "\x7d)]".toList then 1 else 0)
      if isBracket t "\x7d)]".toList ∧ depth < 0 then .error (s.made, none)
      else .ok ({ s with depth }.add [t]) := by
  unfold plainToken
  generalize isBracket t "\x7b([".toList = opening
  generalize isBracket t "\x7d)]".toList = closing
  cases opening <;> cases closing <;> simp [hcalls, State.add]

theorem plainToken_reading (hcalls : s.calls = [])
    (hsaved : s.saved = []) (hmade : s.made.toList = read) (hdepth : s.depth = depthAfter read)
    (hclose : 0 ≤ depthAfter (read ++ [t])) :
    ∃ after, plainToken s t = .ok after ∧ Reading after (read ++ [t]) := by
  rw [plainToken_of_calls_nil t hcalls, hdepth]
  dsimp only
  rw [← depthAfter_append, if_neg (fun h => absurd h.2 (not_lt.mpr hclose))]
  refine ⟨_, rfl, ?_⟩
  constructor <;> simp [State.add, hcalls, hsaved, hmade, Front.none]

theorem step_reading {rest : List Token} (h : Reading s read)
    (hcall : NoCall (read ++ t :: rest)) (hclose : BracketsClose (read ++ t :: rest)) :
    ∃ after, step s t = .ok after ∧ Reading after (read ++ [t]) := by
  have hdepth : 0 ≤ depthAfter (read ++ [t]) := depthAfter_nonneg hclose ⟨rest, by simp⟩
  have hplain : ∃ after, plainToken ({ s with saved := [] }.add s.saved) t = .ok after ∧
      Reading after (read ++ [t]) :=
    plainToken_reading (by simp [State.add, h.calls]) (by simp [State.add, h.calls])
      (by simp [State.add, h.calls, h.made]) (by simp [State.add, h.calls, h.depth]) hdepth
  unfold step
  by_cases hgoes : goesOn s.saved t = true
  · rw [if_pos hgoes]
    have hno := isBracket_of_goesOn hgoes
    refine ⟨_, rfl, h.calls, h.front.append hgoes, ?_, ?_⟩
    · rw [← h.made, append_assoc]
    · rw [depthAfter_append, hno.1, hno.2]
      simpa using h.depth
  · rw [if_neg hgoes]
    obtain ⟨hcalls, hfront, hmade, -⟩ := h
    cases hsaved : s.saved with
    | nil => simpa [hsaved] using hplain
    | cons a more =>
      rw [hsaved] at hfront hmade hplain
      cases hfront with
      | name => exact hplain
      | point => exact hplain
      | whole ha hb hc =>
        have hno := hcall s.made.toList a _ _ t rest (by rw [← hmade]; simp) ha hb hc
        simpa [hno] using hplain

theorem run_reading {rest : List Token} (h : Reading s read)
    (hcall : NoCall (read ++ rest)) (hclose : BracketsClose (read ++ rest)) :
    ∃ after, Reading after (read ++ rest) ∧ run s rest = (after.made, none) := by
  induction rest generalizing s read with
  | nil => exact ⟨s, by simpa using h, by simp [run, h.calls]⟩
  | cons t rest ih =>
    obtain ⟨after, hstep, hafter⟩ := step_reading h hcall hclose
    have happ : read ++ t :: rest = (read ++ [t]) ++ rest := by simp
    rw [happ] at hcall hclose ⊢
    rw [run, hstep]
    exact ih hafter hcall hclose

theorem Front.kind_getLast (h : Front saved) (ht : saved.getLast? = some t) : t.kind = .name ∨ t.kind = .op := by
  cases h with
  | none => exact absurd ht (by simp)
  | name ha | whole _ _ ha =>
    cases ht
    simp only [Token.isName, Bool.and_eq_true, beq_iff_eq] at ha
    exact Or.inl ha.1
  | point _ hb =>
    cases ht
    simp only [Token.isOp_iff] at hb
    exact Or.inr hb.1

theorem Reading.made_eq (h : Reading s read) (hlast : ∀ t, read.getLast? = some t → t.kind ≠ .name ∧ t.kind ≠ .op) :
    s.made.toList = read := by
  have hnone : s.saved.getLast? = none := by
    by_contra hsome
    obtain ⟨t, ht⟩ := Option.ne_none_iff_exists'.mp hsome
    have hread : read.getLast? = some t := by
      rw [← h.made, getLast?_append, ht]
      rfl
    rcases h.front.kind_getLast ht with hkind | hkind
    · exact (hlast t hread).1 hkind
    · exact (hlast t hread).2 hkind
  have hmade := h.made
  rwa [getLast?_eq_none_iff.mp hnone, append_nil] at hmade

theorem restoreTokens_plain {lines : List Text} (hcall : NoCall (tokenize lines))
    (hclose : BracketsClose (tokenize lines))
    (hlast : ∀ t, (tokenize lines).getLast? = some t → t.kind ≠ .name ∧ t.kind ≠ .op) :
    restoreTokens lines = ((tokenize lines).map Token.trimNewline, none) := by
  have hstart : Reading {} [] := ⟨rfl, .none, rfl, rfl⟩
  obtain ⟨after, hafter, hrun⟩ := run_reading hstart (by simpa using hcall) (by simpa using hclose)
  rw [nil_append] at hafter
  unfold restoreTokens
  rw [hrun]
  dsimp only
  rw [hafter.made_eq hlast]

end Restore

/-! ### Code passes through -/

def StringsEnd (tokens : List Token) : Prop :=
  ∀ t ∈ tokens, t.kind = .error → t.text.length ≤ 1

instance (tokens : List Token) : Decidable (StringsEnd tokens) :=
  inferInstanceAs (Decidable (∀ t ∈ tokens, t.kind = .error → t.text.length ≤ 1))

theorem StringsEnd.unbroken {tokens : List Token} (h : StringsEnd tokens) : Unbroken tokens := by
  intro front t rest heq hkind hlen
  have hmem : t ∈ tokens := by simp [heq]
  exact absurd (h t hmem hkind) (not_le.mpr hlen)

theorem renderResult_plain {source : Text} (h : TidySource source)
    (hstrings : StringsEnd (tokenize (lines source))) :
    renderResult ((tokenize (lines source)).map Token.trimNewline, none) = .ok source := by
  rw [map_trimNewline_eq h.tidy hstrings]
  unfold renderResult
  rw [Layout.file_tokenize h hstrings.unbroken]
  rfl

/-- Code passes through unchanged: translating leaves a source alone in which no markup begins, and
restoring leaves one alone in which no call holds markup. -/
theorem plain_code_unchanged {source : Text} (h : TidySource source)
    (hstrings : StringsEnd (tokenize (lines source))) :
    (Translate.NoMarkup (tokenize (lines source)) → Translate.BracesClose (tokenize (lines source)) →
      ∀ mode, translate mode source = .ok source) ∧ (Restore.NoCall (tokenize (lines source)) →
      Restore.BracketsClose (tokenize (lines source)) → restore source = .ok source) := by
  constructor
  · intro hmarkup hbraces mode
    rw [translate, Translate.translateTokens_plain hmarkup hbraces]
    exact renderResult_plain h hstrings
  · intro hcall hclose
    have hlast : ∀ t, (tokenize (lines source)).getLast? = some t → t.kind ≠ .name ∧ t.kind ≠ .op :=
      fun t ht => all_getLast h.tidy h.not_joined (by simp) ht
    rw [restore, Restore.restoreTokens_plain hcall hclose hlast]
    exact renderResult_plain h hstrings

theorem plain_code_unchanged_comparison : (∀ mode, translate mode "d = \x7b1: a < b,\n  2: ''\x7d\n".toList =
      .ok "d = \x7b1: a < b,\n  2: ''\x7d\n".toList) ∧
    restore "d = \x7b1: a < b,\n  2: ''\x7d\n".toList = .ok "d = \x7b1: a < b,\n  2: ''\x7d\n".toList := by
  obtain ⟨htranslate, hrestore⟩ := @plain_code_unchanged "d = \x7b1: a < b,\n  2: ''\x7d\n".toList
    ⟨by decide, by simp, by decide +kernel, by decide +kernel⟩ (by decide +kernel)
  exact ⟨htranslate (by decide +kernel) (by decide +kernel), hrestore (by decide +kernel) (by decide +kernel)⟩

end InlineMarkup

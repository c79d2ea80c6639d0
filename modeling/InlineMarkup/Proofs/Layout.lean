import InlineMarkup.Proofs.Tiling
import InlineMarkup.Token.Layout

/-!
Layout undoes scanning. A source whose lines are tidy, that is ended by newlines and spaced by
single spaces that no newline follows, comes back from its tokens: between the tokens of a row the
layout puts as many spaces as there were, and a line end or a joint stands for the newline.
-/
namespace InlineMarkup

open Lexeme Text List

/-! ### Tidy text -/

/-- A text up to the end of its line that has no spacing but spaces, and none at its end. -/
structure Tidy (s : Text) : Prop where
  singleLine : SingleLine s
  ended : s.getLast? = some '\n'
  plain : ∀ c ∈ s, c ≠ '\t' ∧ c ≠ '\x0c' ∧ c ≠ '\r'
  trimmed : ¬ [' ', '\n'] <:+ s

theorem Tidy.of_append {a b : Text} (h : Tidy (a ++ b)) (ha : ∀ c ∈ a, c ≠ '\n') : Tidy b := by
  have hb : b ≠ [] := by
    rintro rfl
    have hended := h.ended
    rw [append_nil] at hended
    exact ha _ (mem_of_getLast? hended) rfl
  refine ⟨?_, ?_, fun c hc => h.plain c (mem_append_right a hc), ?_⟩
  · simpa using h.singleLine.drop a.length
  · rw [← h.ended, getLast?_append_of_ne_nil a hb]
  · intro hsuffix
    exact h.trimmed (hsuffix.trans (suffix_append a b))

theorem eq_replicate_of_spacing {gap s : Text} (hgap : Spacing gap)
    (hplain : ∀ c ∈ gap ++ s, c ≠ '\t' ∧ c ≠ '\x0c' ∧ c ≠ '\r') : gap = List.replicate gap.length ' ' := by
  refine eq_replicate_iff.mpr ⟨rfl, fun c hc => ?_⟩
  have hspace := hgap c hc
  obtain ⟨htab, hfeed, -⟩ := hplain c (mem_append_left s hc)
  simp only [isSpacing, Bool.or_eq_true, beq_iff_eq] at hspace
  rcases hspace with (hspace | hspace) | hspace
  · exact hspace
  · exact absurd hspace htab
  · exact absurd hspace hfeed

theorem Tidy.endsRow {gap tail : Text} (h : Tidy (gap ++ tail)) (hgap : Spacing gap)
    (htail : EndsRow tail) : gap = [] ∧ tail = ['\n'] := by
  have hrest := h.of_append (Scan.spacing_noNewline hgap)
  have htext : tail = ['\n'] := by
    rcases htail with htail | htail | htail
    · exact htail
    · rw [htail] at hrest
      exact absurd hrest.ended (by simp)
    · exact absurd rfl (hrest.plain _ (mem_of_head? htail)).2.2
  refine ⟨?_, htext⟩
  rcases eq_nil_or_concat' gap with hnil | ⟨front, c, rfl⟩
  · exact hnil
  · have hreplicate := eq_replicate_of_spacing hgap h.plain
    have hc : c = ' ' := (eq_replicate_iff.mp hreplicate).2 c (by simp)
    refine absurd ⟨front, ?_⟩ h.trimmed
    rw [hc, htext]
    simp

theorem Tidy.not_spacing {l : Text} (h : Tidy l) : ¬ Spacing l := fun hspace =>
  absurd (hspace _ (mem_of_getLast? h.ended)) (by decide)

theorem Tidy.ne_nil {l : Text} (h : Tidy l) : l ≠ [] := by
  rintro rfl
  exact absurd h.ended (by simp)

theorem Tidy.after_string {l : Text} (h : Tidy l) {p : OpenString} (hbegun : p.Begun) {n : Nat}
    (hlast : (l.take n).getLast? = some p.closer.mark) : Tidy (l.drop n) := by
  have hmark : p.closer.mark ≠ '\n' := by
    intro hnl
    have hq := hbegun.quote
    rw [hnl] at hq
    exact absurd hq (by decide)
  refine Tidy.of_append (a := l.take n) ?_ (h.singleLine.noNewline_take hlast hmark)
  rwa [take_append_drop]

namespace Layout

/-! ### Laying out -/

/-- `LaysOut p tokens s q`: after a text that ends at `p`, the tokens are laid out as `s`, and the
text then ends at `q`. -/
inductive LaysOut : Pos → List Token → Text → Pos → Prop where
  | nil (p : Pos) : LaysOut p [] [] p
  | cons {p q : Pos} {t : Token} {ts : List Token} {s : Text}
      (hrow : (origin (some p) t).row ≤ t.start.row) (h : LaysOut (after t) ts s q) :
      LaysOut p (t :: ts) (gap (origin (some p) t) t.start ++ (t.text ++ s)) q

variable {p q : Pos} {xs ys ts : List Token} {s owed source : Text} {t : Token} {row col : Int} {scan : Scan}
  {rest : List Text}

theorem LaysOut.append {r : Pos} {u : Text} (h : LaysOut p xs s q)
    (k : LaysOut q ys u r) : LaysOut p (xs ++ ys) (s ++ u) r := by
  induction h with
  | nil => exact k
  | cons hrow _ ih =>
    simp only [cons_append, append_assoc]
    exact .cons hrow (ih k)

theorem LaysOut.text_append {u : Text} (h : LaysOut p xs s q)
    (k : text (some q) ys = .ok u) : text (some p) (xs ++ ys) = .ok (s ++ u) := by
  induction h with
  | nil => exact k
  | cons hrow _ ih =>
    rw [cons_append, text, if_neg (not_lt.mpr hrow), ih k]
    simp [Except.map]

theorem LaysOut.text (h : LaysOut p ts s q) : text (some p) ts = .ok s := by
  have happ := h.text_append (u := []) (rfl : Layout.text (some q) [] = .ok [])
  simpa using happ

theorem origin_of_not_lineEnd (h : t.kind.isLineEnd = false) (p : Pos) : origin (some p) t = p := by
  simp [origin, h]

theorem after_of_not_lineEnd (h : t.kind.isLineEnd = false) : after t = t.stop := by
  simp [after, h]

theorem LaysOut.one (h : t.kind.isLineEnd = false) {p : Pos}
    (hrow : p.row ≤ t.start.row) : LaysOut p [t] (gap p t.start ++ t.text) t.stop := by
  have hcons := @LaysOut.cons p _ t [] []
    (by rwa [origin_of_not_lineEnd h]) (.nil _)
  rw [origin_of_not_lineEnd h, append_nil] at hcons
  rwa [after_of_not_lineEnd h] at hcons

/-! ### Rows -/

def Before (p : Pos) (row col : Int) (owed : Text) : Prop :=
  (p = ⟨row, col⟩ ∧ owed = []) ∨ (p.row + 1 = row ∧ col = 0 ∧ owed = ['\n'])

theorem Before.row_le (h : Before p row col owed) : p.row ≤ row := by
  rcases h with ⟨rfl, -⟩ | ⟨h, -, -⟩
  · exact le_rfl
  · omega

theorem Before.gap (h : Before p row col owed) (k : Nat) : gap p ⟨row, col + k⟩ = owed ++ List.replicate k ' ' := by
  rcases h with ⟨rfl, rfl⟩ | ⟨hrow, rfl, rfl⟩
  · simp [Layout.gap, Text.copies]
  · have hne : row ≠ p.row := by omega
    have hone : row - p.row = 1 := by omega
    simp [Layout.gap, Text.copies, hne, hone]

theorem Before.gap_spacing {g : Text} (h : Before p row col owed)
    (hg : Spacing g) (hs : Tidy (g ++ s)) : Layout.gap p ⟨row, col + g.length⟩ = owed ++ g := by
  rw [h.gap, ← eq_replicate_of_spacing hg hs.plain]

theorem Before.gap_lineEnd (h : Before p row col owed)
    {t : Token} (hkind : t.kind.isLineEnd = true) (hstart : t.start = ⟨row, col⟩)
    (hstop : t.stop = ⟨row, col + 1⟩) : Layout.gap (origin (some p) t) t.start = owed := by
  rcases h with ⟨rfl, rfl⟩ | ⟨hrow, rfl, rfl⟩
  · simp [Layout.gap, Text.copies, origin, hkind, hstart, hstop]
  · have hne : row ≠ p.row := by omega
    have hone : row - p.row = 1 := by omega
    simp [Layout.gap, Text.copies, origin, hkind, hstart, hne, hone]

theorem LaysOut.lineEnd (h : Before p row col owed)
    {t : Token} (hkind : t.kind.isLineEnd = true) (hstart : t.start = ⟨row, col⟩)
    (hstop : t.stop = ⟨row, col + 1⟩) : LaysOut p [t] (owed ++ t.text) ⟨row + 1, 0⟩ := by
  have hrow : (origin (some p) t).row ≤ t.start.row := by
    rw [hstart]
    simpa [origin, hkind] using h.row_le
  have hcons := @LaysOut.cons p _ t [] [] hrow (.nil _)
  rw [h.gap_lineEnd hkind hstart hstop, append_nil] at hcons
  simpa [after, hkind, hstop] using hcons

def RowLaidOut (p : Pos) (row : Int) (owed s : Text) (ts : List Token) : Option OpenString → Prop
  | none => LaysOut p ts (owed ++ s) ⟨row + 1, 0⟩ ∨
      ∃ out q, LaysOut p ts out q ∧ out ++ ['\n'] = owed ++ s ∧ q.row = row ∧ ['\\', '\n'] <:+ s
  | some o => ∃ out q, LaysOut p ts out q ∧ q.row ≤ o.start.row ∧ out ++ (gap q o.start ++ o.text) = owed ++ s

theorem row_laysOut {left : Option OpenString} (h : Row row col s ts left) (hs : Tidy s) {p : Pos} {owed : Text}
    (hp : Before p row col owed) : RowLaidOut p row owed s ts left := by
  induction h generalizing p owed with
  | blank hspace =>
    exact absurd (hspace _ (mem_of_getLast? hs.ended)) (by decide)
  | @opens col g o hgap hbegun hstart =>
    refine ⟨[], p, .nil p, ?_, ?_⟩
    · rw [hstart]
      exact hp.row_le
    · rw [hstart, hp.gap_spacing hgap hs]
      simp
  | @word col g s ts left t hgap hkind htext hstart hstop _ hrest ih =>
    have hone : LaysOut p [t] (owed ++ g ++ t.text) t.stop := by
      have h1 := LaysOut.one hkind (p := p) (by rw [hstart]; exact hp.row_le)
      rwa [hstart, hp.gap_spacing hgap hs] at h1
    have hs2 : Tidy s :=
      (hs.of_append (Scan.spacing_noNewline hgap)).of_append htext
    have hrec := @ih hs2 t.stop [] (Or.inl ⟨hstop, rfl⟩)
    cases left with
    | none =>
      rcases hrec with hrec | ⟨out, q, hrec, hout, hq, hsuffix⟩
      · left
        simpa using hone.append hrec
      · right
        refine ⟨_, q, hone.append hrec, ?_, hq, ?_⟩
        · rw [nil_append] at hout
          rw [append_assoc, hout]
          simp
        · exact hsuffix.trans ((suffix_append _ _).trans (suffix_append _ _))
    | some o =>
      obtain ⟨out, q, hrec, hq, hout⟩ := hrec
      refine ⟨_, q, hone.append hrec, hq, ?_⟩
      rw [nil_append] at hout
      rw [append_assoc, hout]
      simp
  | @lineEnd col g t hgap hkind htext hstart hstop =>
    obtain ⟨rfl, htail⟩ := hs.endsRow hgap htext
    left
    exact LaysOut.lineEnd hp hkind (by simpa using hstart) (by simpa [htail] using hstop)
  | @joined col g e t hgap hend hkind htext hstart hstop =>
    right
    have hnewline : e = ['\n'] := by
      rcases hend with hend | hend
      · exact hend
      · exact absurd rfl (hs.plain '\r' (by simp [hend])).2.2
    have hone := LaysOut.one (t := t) (by rw [hkind]; rfl) (p := p) (by rw [hstart]; exact hp.row_le)
    rw [hstart, hp.gap_spacing hgap hs] at hone
    refine ⟨_, _, hone, ?_, by rw [hstop], ?_⟩
    · rw [htext, hnewline]
      simp
    · rw [hnewline]
      exact suffix_append _ _

/-! ### Whole sources -/

def Unbroken (ts : List Token) : Prop :=
  ∀ front t rest, ts = front ++ t :: rest → t.kind = .error → 1 < t.text.length →
    t.text.getLast? = some '\n' → rest = []

theorem Unbroken.of_append (h : Unbroken (xs ++ ys)) : Unbroken ys := by
  intro front t rest heq
  exact h (xs ++ front) t rest (by rw [heq, append_assoc])

def Owes (scan : Scan) (p : Pos) (ls : List Text) (owed : Text) : Prop :=
  match scan.pending with
  | none => (p = ⟨scan.row + 1, 0⟩ ∧ owed = []) ∨ (p.row = scan.row ∧ owed = ['\n'] ∧ ls ≠ [])
  | some o => o.Begun ∧ p.row ≤ o.start.row ∧ owed = gap p o.start ++ o.text

theorem all_cons_tidy (scan : Scan) {l : Text} (rest : List Text) (hl : Tidy l) :
    ∃ after : Scan, after.row = scan.row + 1 ∧
      Scan.LineRead (scan.row + 1 : Nat) l scan.pending (scan.line l).1 after.pending ∧
      scan.all (l :: rest) = (scan.line l).1 ++ after.all rest := by
  rcases Scan.line_read scan hl.singleLine hl.ne_nil with
    ⟨after, hafter, hrow, hread⟩ | ⟨hspace, -, -⟩
  · exact ⟨after, hrow, hread, Scan.all_cons_some (Prod.ext rfl hafter)⟩
  · exact absurd hspace hl.not_spacing

theorem line_nil_pending {o : OpenString} (h : scan.pending = some o) : (scan.line []).1 =
      [{ kind := .error, text := o.text, start := o.start, stop := ⟨(scan.row + 1 : Nat), 0⟩,
         line := o.line }] := by
  simp [Scan.line, h, Scan.stringLine]

theorem LaysOut.empty (h : ∀ t ∈ ts, t.kind.isLineEnd = false ∧ t.text = [] ∧ t.start = p ∧ t.stop = p) :
    LaysOut p ts [] p := by
  induction ts with
  | nil => exact .nil p
  | cons t rest ih =>
    obtain ⟨hkind, htext, hstart, hstop⟩ := h t mem_cons_self
    have hone := LaysOut.one hkind (p := p) (by rw [hstart])
    have hgap : gap p t.start = [] := by simp [gap, Text.copies, hstart]
    rw [hgap, htext, hstop] at hone
    exact hone.append (ih fun u hu => h u (mem_cons_of_mem _ hu))

theorem mem_line_nil (h : scan.pending = none) {t : Token} (ht : t ∈ (scan.line []).1) :
    (t.kind = .dedent ∨ t.kind = .endMarker) ∧ t.text = [] ∧ t.start = ⟨scan.row + 1, 0⟩ ∧
      t.stop = ⟨scan.row + 1, 0⟩ := by
  simp only [Scan.line, h] at ht
  split at ht
  · simp only [isEmpty_nil, if_true, Scan.finish, mem_append, mem_map, mem_singleton] at ht
    rcases ht with ⟨n, -, rfl⟩ | rfl
    · exact ⟨Or.inl rfl, rfl, by simp, by simp⟩
    · exact ⟨Or.inr rfl, rfl, by simp, by simp⟩
  · simp at ht

theorem line_nil_empty (h : scan.pending = none) :
    LaysOut ⟨scan.row + 1, 0⟩ (scan.line []).1 [] ⟨scan.row + 1, 0⟩ := by
  refine LaysOut.empty fun t ht => ?_
  obtain ⟨hkind, htext, hstart, hstop⟩ := mem_line_nil h ht
  refine ⟨?_, htext, hstart, hstop⟩
  rcases hkind with hkind | hkind
  · rw [hkind]
    rfl
  · rw [hkind]
    rfl

theorem all_ne_nil_of_pending {ls : List Text} (hls : ∀ l ∈ ls, Tidy l)
    (h : scan.pending.isSome) : scan.all ls ≠ [] := by
  induction ls generalizing scan with
  | nil =>
    obtain ⟨o, ho⟩ := Option.isSome_iff_exists.mp h
    rw [Scan.all, line_nil_pending ho]
    simp
  | cons l rest ih =>
    obtain ⟨after, -, hread, hall⟩ :=
      all_cons_tidy scan rest (hls l mem_cons_self)
    rw [hall]
    obtain ⟨o, ho⟩ := Option.isSome_iff_exists.mp h
    generalize (scan.line l).1 = ts at hread
    rw [ho] at hread
    generalize hleft : after.pending = left at hread
    cases hread with
    | closes | spoiled => simp
    | goesOn _ q =>
      have hpending : after.pending.isSome := by rw [hleft]; rfl
      simpa using ih (fun l hl => hls l (mem_cons_of_mem _ hl)) hpending

theorem all_ne_nil {l : Text} (hls : ∀ k ∈ l :: rest, Tidy k) : scan.all (l :: rest) ≠ [] := by
  have hl := hls l mem_cons_self
  cases hp : scan.pending with
  | some o => exact all_ne_nil_of_pending hls (by rw [hp]; rfl)
  | none =>
    obtain ⟨after, -, hread, hall⟩ := all_cons_tidy scan rest hl
    rw [hall]
    generalize (scan.line l).1 = ts at hread
    rw [hp] at hread
    generalize hleft : after.pending = left at hread
    cases hread with
    | fresh hrow =>
      cases hrow with
      | blank hspace => exact absurd hspace hl.not_spacing
      | opens o =>
        have hrest := @all_ne_nil_of_pending after _
          (fun k hk => hls k (mem_cons_of_mem _ hk)) (by rw [hleft]; rfl)
        simpa using hrest
      | word | lineEnd | joined => simp

theorem RowLaidOut.owes {row : Nat} {after : Scan} (h : RowLaidOut p row owed s ts after.pending)
    (hrow : after.row = row) (hbegun : ∀ o, after.pending = some o → o.Begun)
    (hjoin : ['\\', '\n'] <:+ s → rest ≠ []) :
    ∃ out q owing, LaysOut p ts out q ∧ out ++ owing = owed ++ s ∧ Owes after q rest owing := by
  unfold Owes
  cases hleft : after.pending with
  | none =>
    rw [hleft] at h
    rcases h with h | ⟨out, q, h, hout, hq, hsuffix⟩
    · exact ⟨_, _, [], h, by simp, Or.inl ⟨by rw [hrow], rfl⟩⟩
    · exact ⟨out, q, ['\n'], h, hout, Or.inr ⟨by rw [hq, hrow], rfl, hjoin hsuffix⟩⟩
  | some o =>
    rw [hleft] at h
    obtain ⟨out, q, h, hq, hout⟩ := h
    exact ⟨out, q, _, h, hout, hbegun o hleft, hq, rfl⟩

theorem lineRead_owes {after : Scan} {l : Text} (hl : Tidy l) (hrow : after.row = scan.row + 1)
    (hread : Scan.LineRead (scan.row + 1 : Nat) l scan.pending ts after.pending)
    (howes : Owes scan p (l :: rest) owed) (hjoin : ['\\', '\n'] <:+ l → rest ≠ []) :
    (∃ out q owing, LaysOut p ts out q ∧ out ++ owing = owed ++ l ∧ Owes after q rest owing) ∨
      ∃ t q, ts = [t] ∧ t.kind = .error ∧ 1 < t.text.length ∧ t.text.getLast? = some '\n' ∧
        LaysOut p ts (owed ++ l) q := by
  unfold Owes at howes
  generalize hbefore : scan.pending = before at hread howes
  generalize hleft : after.pending = left at hread
  cases hread with
  | fresh hr =>
    have hp : Before p (scan.row + 1 : Nat) 0 owed := by
      rcases howes with ⟨hp, ho⟩ | ⟨hp, ho, -⟩
      · exact Or.inl ⟨by simpa using hp, ho⟩
      · exact Or.inr ⟨by rw [hp]; simp, rfl, ho⟩
    have hlaid := row_laysOut hr hl hp
    subst hleft
    exact Or.inl (hlaid.owes hrow hr.begun hjoin)
  | closes o n t hkind hle hlast htext hstart hstop hr =>
    obtain ⟨hbegun, hrowle, rfl⟩ := howes
    have hdrop := hl.after_string hbegun hlast
    have hone := LaysOut.one (t := t) (by rw [hkind]; rfl) (p := p) (by rw [hstart]; exact hrowle)
    have hlaid := @row_laysOut _ _ _ _ _ hr hdrop t.stop [] (Or.inl ⟨hstop, rfl⟩)
    subst hleft
    obtain ⟨out, q, owing, hout, happ, how⟩ := hlaid.owes hrow hr.begun
      (fun hsuffix => hjoin (hsuffix.trans (drop_suffix n l)))
    refine Or.inl ⟨_, q, owing, hone.append hout, ?_, how⟩
    rw [nil_append] at happ
    rw [append_assoc, happ, hstart, htext]
    simp [append_assoc]
  | spoiled o t hkind htext hstart hstop =>
    obtain ⟨hbegun, hrowle, rfl⟩ := howes
    have hone := LaysOut.one (t := t) (by rw [hkind]; rfl) (p := p) (by rw [hstart]; exact hrowle)
    refine Or.inr ⟨t, t.stop, rfl, hkind, ?_, ?_, ?_⟩
    · have h1 := length_pos_iff.mpr hbegun.ne_nil
      have h2 := length_pos_iff.mpr hl.ne_nil
      rw [htext, length_append]
      omega
    · rw [htext, getLast?_append_of_ne_nil _ hl.ne_nil]
      exact hl.ended
    · rwa [htext, hstart, ← append_assoc] at hone
  | goesOn o o2 htext hstart hcloser =>
    obtain ⟨hbegun, hrowle, rfl⟩ := howes
    refine Or.inl ⟨[], p, gap p o2.start ++ o2.text, .nil p, ?_, ?_⟩
    · rw [hstart, htext]
      simp [append_assoc]
    · unfold Owes
      rw [hleft]
      exact ⟨hbegun.extend htext hcloser, by rwa [hstart], rfl⟩

theorem text_all {ls : List Text} (hls : ∀ l ∈ ls, Tidy l)
    (hjoin : ∀ l, ls.getLast? = some l → ¬ ['\\', '\n'] <:+ l) {scan : Scan} {p : Pos} {owed : Text}
    (howes : Owes scan p ls owed) (hunbroken : Unbroken (scan.all ls)) :
    text (some p) (scan.all ls) = .ok (owed ++ ls.flatten) := by
  induction ls generalizing scan p owed with
  | nil =>
    unfold Owes at howes
    rw [Scan.all, flatten_nil, append_nil]
    cases hp : scan.pending with
    | none =>
      rw [hp] at howes
      rcases howes with ⟨rfl, rfl⟩ | ⟨-, -, hne⟩
      · exact (line_nil_empty hp).text
      · exact absurd rfl hne
    | some o =>
      rw [hp] at howes
      obtain ⟨-, hrow, rfl⟩ := howes
      rw [line_nil_pending hp]
      exact (LaysOut.one rfl hrow).text
  | cons l rest ih =>
    have hl := hls l mem_cons_self
    have hrest : ∀ k ∈ rest, Tidy k := fun k hk => hls k (mem_cons_of_mem _ hk)
    have hjoinl : ['\\', '\n'] <:+ l → rest ≠ [] := by
      rintro hsuffix rfl
      exact hjoin l rfl hsuffix
    have hjoinrest : ∀ k, rest.getLast? = some k → ¬ ['\\', '\n'] <:+ k := by
      intro k hk
      refine hjoin k ?_
      rw [getLast?_cons, hk]
      rfl
    obtain ⟨after, hrow, hread, hall⟩ := all_cons_tidy scan rest hl
    rw [hall] at hunbroken ⊢
    rw [flatten_cons, ← append_assoc]
    rcases lineRead_owes hl hrow hread howes hjoinl with
      ⟨out, q, owing, hout, happ, how⟩ | ⟨t, q, hts, hkind, hlen, hlast, hout⟩
    · rw [← happ, append_assoc]
      exact hout.text_append (ih hrest hjoinrest how hunbroken.of_append)
    · have hnil : after.all rest = [] :=
        hunbroken [] t (after.all rest) (by rw [hts]; rfl) hkind hlen hlast
      have hempty : rest = [] := by
        cases rest with
        | nil => rfl
        | cons k more => exact absurd hnil (all_ne_nil hrest)
      rw [hnil, hempty, append_nil, flatten_nil, append_nil]
      exact hout.text

/-- A source that layout can restore: its lines are tidy and the last is not joined to a next. -/
structure TidySource (source : Text) : Prop where
  ended : source = [] ∨ source.getLast? = some '\n'
  plain : ∀ c ∈ source, c ≠ '\t' ∧ c ≠ '\x0c' ∧ c ≠ '\r'
  trimmed : ¬ [' ', '\n'] <:+: source
  complete : ¬ ['\\', '\n'] <:+ source

theorem TidySource.tidy (h : TidySource source) : ∀ l ∈ Text.lines source, Tidy l := by
  intro l hl
  have hline := Text.isLine_of_mem_lines h.ended l hl
  have hwithin : l <:+: source := by
    rw [← Text.flatten_lines source]
    exact infix_of_mem_flatten hl
  exact ⟨hline.1, hline.2, fun c hc => h.plain c (hwithin.subset hc),
    fun hsuffix => h.trimmed (hsuffix.isInfix.trans hwithin)⟩

theorem TidySource.not_joined (h : TidySource source) :
    ∀ l, (Text.lines source).getLast? = some l → ¬ ['\\', '\n'] <:+ l := by
  intro l hl hsuffix
  obtain ⟨front, hfront⟩ := getLast?_eq_some_iff.mp hl
  refine h.complete (hsuffix.trans ⟨front.flatten, ?_⟩)
  rw [← Text.flatten_lines source, hfront]
  simp

theorem file_tokenize (h : TidySource source) (hunbroken : Unbroken (tokenize (Text.lines source))) :
    file (tokenize (Text.lines source)) = .ok source := by
  have howes : Owes ({} : Scan) ⟨1, 0⟩ (Text.lines source) [] := Or.inl ⟨rfl, rfl⟩
  have htext := text_all h.tidy h.not_joined howes hunbroken
  rwa [nil_append, Text.flatten_lines] at htext

/-- A source with blanks and newlines only where layout puts them is restored from its tokens, and no token lies
above the one before it. Brackets need not match, nor indents agree; but no string is broken off by the end of a line
that another token follows. -/
theorem layout_restores_source {source : Text} (h : TidySource source)
    (hbroken : ∀ front t rest, tokenize (Text.lines source) = front ++ t :: rest → t.kind = .error →
      t.text.getLast? = some '\n' → rest = []) : file (tokenize (Text.lines source)) = .ok source :=
  file_tokenize h fun front t rest hsplit hkind _ hlast => hbroken front t rest hsplit hkind hlast

def unruly : Text := "if x:\n    y)\n  z = [\n\n 'a b\n".toList

theorem layout_restores_unruly :
    (∃ t ∈ tokenize (Text.lines unruly), t.kind = .error) ∧ file (tokenize (Text.lines unruly)) = .ok unruly := by
  have hplain : unruly.all (fun c => c != '\t' && c != '\x0c' && c != '\r') = true := by decide +kernel
  have htidy : TidySource unruly :=
    { ended := by decide +kernel
      plain := fun c hc => by simpa [and_assoc] using all_eq_true.mp hplain c hc
      trimmed := by decide +kernel
      complete := by decide +kernel }
  refine ⟨by decide +kernel, layout_restores_source htidy ?_⟩
  intro front t rest hsplit hkind hlast
  have hnone : ∀ t ∈ tokenize (Text.lines unruly), t.kind = .error → t.text.getLast? ≠ some '\n' := by decide +kernel
  exact absurd hlast (hnone t (by simp [hsplit]) hkind)

end Layout

end InlineMarkup

import InlineMarkup.Proofs.Layout

/-!
Places. In neat text, whose lines are tidy and never joined by a backslash, every token stands where
it says: some spaces lead from the token before it to its start, and its own text from its start to
the place after it.
-/
namespace InlineMarkup

open Lexeme Text List

/-! ### Neat text -/

/-- Whole lines that layout restores, none of which a backslash joins to the next. -/
structure Neat (s : Text) : Prop where
  ended : s = [] ∨ s.getLast? = some '\n'
  plain : ∀ c ∈ s, c ≠ '\t' ∧ c ≠ '\x0c' ∧ c ≠ '\r'
  trimmed : ¬ [' ', '\n'] <:+: s
  unjoined : ¬ ['\\', '\n'] <:+: s

instance (s : Text) : Decidable (Neat s) :=
  decidable_of_iff ((s = [] ∨ s.getLast? = some '\n') ∧
      (s.all fun c => c != '\t' && c != '\x0c' && c != '\r') = true ∧
      ¬ [' ', '\n'] <:+: s ∧ ¬ ['\\', '\n'] <:+: s)
    ⟨fun ⟨hended, hplain, htrimmed, hunjoined⟩ =>
      ⟨hended, by simpa [and_assoc] using hplain, htrimmed, hunjoined⟩,
    fun h => ⟨h.ended, by simpa [and_assoc] using h.plain, h.trimmed, h.unjoined⟩⟩

theorem neat_nil : Neat [] := ⟨Or.inl rfl, by simp, by simp, by simp⟩

variable {s t : Text}

theorem Neat.within (h : Neat t) (hst : s <:+: t) (hs : s = [] ∨ s.getLast? = some '\n') : Neat s :=
  ⟨hs, fun c hc => h.plain c (hst.subset hc), fun hp => h.trimmed (hp.trans hst),
    fun hp => h.unjoined (hp.trans hst)⟩

theorem Neat.of_append (h : Neat (s ++ t)) : Neat t := by
  refine h.within (suffix_append s t).isInfix ?_
  by_cases ht : t = []
  · exact Or.inl ht
  · rcases h.ended with hnil | hlast
    · exact absurd (append_eq_nil_iff.mp hnil).2 ht
    · rw [getLast?_append_of_ne_nil s ht] at hlast
      exact Or.inr hlast

theorem pair_within_append {c : Char} (hc : c ≠ '\n')
    (hs : s = [] ∨ s.getLast? = some '\n') (h : [c, '\n'] <:+: s ++ t) : [c, '\n'] <:+: s ∨ [c, '\n'] <:+: t := by
  obtain ⟨front, rest, heq⟩ := h
  rw [append_assoc, append_eq_append_iff] at heq
  rcases heq with ⟨more, hs', ht'⟩ | ⟨more, hs', ht'⟩
  · match more, ht' with
    | [], ht' =>
      exact Or.inr ⟨[], rest, by simpa using ht'⟩
    | [a], ht' =>
      simp only [cons_append, nil_append, List.cons.injEq] at ht'
      rcases hs with hnil | hlast
      · rw [hnil] at hs'
        simp at hs'
      · rw [hs', ← ht'.1] at hlast
        simp at hlast
        exact absurd hlast hc
    | a :: b :: tail, ht' =>
      simp only [cons_append, nil_append, List.cons.injEq] at ht'
      exact Or.inl ⟨front, tail, by rw [hs', ← ht'.1, ← ht'.2.1]; simp⟩
  · exact Or.inr ⟨more, rest, by rw [ht', append_assoc]⟩

theorem Neat.append {s t : Text} (hs : Neat s) (ht : Neat t) : Neat (s ++ t) := by
  refine ⟨?_, ?_, ?_, ?_⟩
  · by_cases hnil : t = []
    · rw [hnil, append_nil]
      exact hs.ended
    · rcases ht.ended with h | h
      · exact absurd h hnil
      · exact Or.inr (by rw [getLast?_append_of_ne_nil s hnil, h])
  · intro c hc
    rcases mem_append.mp hc with hc | hc
    · exact hs.plain c hc
    · exact ht.plain c hc
  · intro h
    rcases pair_within_append (by decide) hs.ended h with h | h
    · exact hs.trimmed h
    · exact ht.trimmed h
  · intro h
    rcases pair_within_append (by decide) hs.ended h with h | h
    · exact hs.unjoined h
    · exact ht.unjoined h

theorem Neat.not_joins (h : Neat s) : ¬ Joins s := by
  rintro ⟨e, rfl | rfl, hs⟩
  · exact h.unjoined hs
  · exact (h.plain '\r' (hs.subset (by simp))).2.2 rfl

structure NeatLine (l : Text) : Prop where
  neat : Neat l
  isLine : IsLine l

theorem Neat.lines (h : Neat s) : ∀ l ∈ Text.lines s, NeatLine l := by
  intro l hl
  have hline := isLine_of_mem_lines h.ended l hl
  have hwithin : l <:+: s := by
    rw [← flatten_lines s]
    exact infix_of_mem_flatten hl
  exact ⟨h.within hwithin (Or.inr hline.2), hline⟩

theorem NeatLine.tidy {l : Text} (h : NeatLine l) : Tidy l :=
  ⟨h.isLine.1, h.isLine.2, h.neat.plain, fun hs => h.neat.trimmed hs.isInfix⟩

theorem neat_flatten {ls : List Text} (h : ∀ l ∈ ls, NeatLine l) : Neat ls.flatten := by
  induction ls with
  | nil => exact neat_nil
  | cons l rest ih =>
    exact (h l mem_cons_self).neat.append (ih fun k hk => h k (mem_cons_of_mem _ hk))

/-! ### Positions -/

namespace Pos

theorem advance_of_noNewline {s : Text} (h : ∀ c ∈ s, c ≠ '\n') (p : Pos) :
    p.advance s = ⟨p.row, p.col + s.length⟩ := by
  induction s generalizing p with
  | nil => simp
  | cons c rest ih =>
    have hc : c ≠ '\n' := h c mem_cons_self
    rw [advance_cons, ih (fun d hd => h d (mem_cons_of_mem _ hd)), step, if_neg hc]
    simp only [length_cons]
    push_cast
    rw [add_assoc, add_comm (1 : Int)]

theorem row_le_advance (p : Pos) (s : Text) : p.row ≤ (p.advance s).row := by
  induction s generalizing p with
  | nil => exact le_rfl
  | cons c rest ih =>
    refine le_trans ?_ (ih (p.step c))
    unfold step
    split
    · simp
    · exact le_rfl

theorem advance_isLine {l : Text} (h : IsLine l) (p : Pos) : p.advance l = ⟨p.row + 1, 0⟩ := by
  obtain ⟨body, rfl, hbody⟩ := h.eq_append
  rw [advance_append, advance_of_noNewline hbody]
  rfl

theorem advance_replicate (p : Pos) (k : Nat) : p.advance (List.replicate k ' ') = ⟨p.row, p.col + k⟩ := by
  rw [advance_of_noNewline fun c hc => by rw [eq_of_mem_replicate hc]; decide]
  simp

end Pos

/-! ### Strings that are not spoiled -/

namespace Scan

variable {scan after : Scan} {l : Text}

variable {line body : Text} {col size : Nat} {front : Front}

theorem read_suspended_strict (hfront : front? body = some (front, size)) (hjoins : ¬ Joins body)
    (h : scan.read line col body front size = .suspended after) : after.strict = scan.strict := by
  obtain ⟨closer, strict, rfl, ⟨-, hstrict, -⟩ | ⟨rfl, -⟩⟩ := read_suspended_eq h
  · exact hstrict
  · exact absurd (front?_reaches hfront).2.2.2 hjoins

theorem readFrom_strict (line : Text) (scan : Scan) (col skip : Nat) (body : Text)
    (hjoins : ¬ Joins body) : (readFrom line scan col skip body).2.strict = scan.strict := by
  induction body generalizing scan col skip with
  | nil => rfl
  | cons c rest ih =>
    have hrest : ¬ Joins rest := fun h => hjoins (h.mono (suffix_cons c rest).isInfix)
    cases skip with
    | succ k =>
      simp only [readFrom]
      exact ih scan (col + 1) k hrest
    | zero =>
      rw [readFrom]
      dsimp only
      split
      · rfl
      · split
        · exact ih scan (col + 1) 0 hrest
        · rename_i hfront
          split
          · rename_i after hread
            refine read_suspended_strict hfront (fun h => hjoins (h.mono ?_)) hread
            exact (drop_suffix _ _).isInfix
          · rename_i t taken after hread
            rw [ih after (col + 1) _ hrest]
            exact (read_after hread).2

theorem statementLine_strict (hjoins : ¬ Joins l)
    (h : (scan.statementLine l).2 = some after) : after.strict = scan.strict := by
  unfold statementLine at h
  dsimp only at h
  split at h
  · cases h
  · rename_i c rest hdrop
    have hrest : ¬ Joins (c :: rest) := by
      rw [← hdrop]
      exact fun hj => hjoins (hj.mono (drop_suffix _ _).isInfix)
    split at h
    · cases h
      rfl
    · split at h
      · cases h
        rfl
      · cases h
        exact readFrom_strict l _ _ _ _ hrest

theorem line_strict (hstrict : scan.strict = false)
    (hjoins : ¬ Joins l) (h : (scan.line l).2 = some after) : after.strict = false := by
  unfold line at h
  dsimp only at h
  split at h
  · rename_i p hp
    unfold stringLine at h
    dsimp only at h
    split at h
    · cases h
    · split at h
      · cases h
        exact readFrom_strict l _ _ _ _ hjoins
      · rw [hstrict] at h
        cases h
        rfl
  · split at h
    · split at h
      · cases h
      · rw [statementLine_strict hjoins h]
        exact hstrict
    · split at h
      · cases h
      · cases h
        rw [readFrom_strict l _ _ _ _ hjoins]
        exact hstrict

theorem line_pending {p : OpenString} (hstrict : scan.strict = false)
    (hp : scan.pending = some p) (hne : l ≠ []) {t : Token} (ht : (scan.line l).1 = [t]) : t.kind ≠ .error := by
  unfold line at ht
  dsimp only at ht
  rw [hp] at ht
  dsimp only at ht
  unfold stringLine at ht
  dsimp only at ht
  rw [if_neg (by simpa using hne), hstrict] at ht
  split at ht
  · rw [← (List.cons.inj ht).1]
    simp
  · cases ht

end Scan

/-! ### Tokens in their places -/

/-- The token starts after `k` spaces from `p`, its text leads from its start to the place after it,
and only a line end, or a string that is broken off, ends with a newline. -/
structure Placed (p : Pos) (k : Nat) (t : Token) : Prop where
  start : t.start = ⟨p.row, p.col + k⟩
  stop : t.start.advance t.text = Layout.after t
  lineEnd : t.kind.isLineEnd = true → k = 0 ∧ t.text = ['\n'] ∧ t.start.col ≤ t.stop.col
  newline : t.text.getLast? = some '\n' → t.kind.isLineEnd = true ∨ t.kind = .error
  comment : t.kind = .comment → t.text.head? = some '#' ∧ ∀ c ∈ t.text, c ≠ '\n'

def EndsFirst (ts : List Token) : Prop := ∃ u us, ts = u :: us ∧ u.kind.isLineEnd = true

/-- `Tiles p tokens s q`: from `p` to `q` the tokens stand in their places and make up `s`. -/
inductive Tiles : Pos → List Token → Text → Pos → Prop where
  | nil (p : Pos) : Tiles p [] [] p
  | cons {p q : Pos} {k : Nat} {t : Token} {ts : List Token} {s : Text} (ht : Placed p k t)
      (hcomment : t.kind = .comment → EndsFirst ts) (h : Tiles (Layout.after t) ts s q) :
      Tiles p (t :: ts) (List.replicate k ' ' ++ (t.text ++ s)) q

variable {p q : Pos} {k : Nat} {t : Token} {ts : List Token} {s owed : Text}

theorem gap_after_spaces (hstart : t.start = ⟨p.row, p.col + k⟩)
    (hend : t.kind.isLineEnd = true → k = 0 ∧ t.start.col ≤ t.stop.col) :
    Layout.gap (Layout.origin (some p) t) t.start = List.replicate k ' ' := by
  cases hkind : t.kind.isLineEnd with
  | true =>
    obtain ⟨rfl, hcol⟩ := hend hkind
    have hneg : t.start.col - t.stop.col ≤ 0 := by omega
    have hrow : t.start.row = p.row := by rw [hstart]
    simp [Layout.gap, Layout.origin, hkind, hrow, Text.copies, Int.toNat_of_nonpos hneg]
  | false =>
    rw [Layout.origin_of_not_lineEnd hkind, hstart]
    simp [Layout.gap, Text.copies]

theorem Placed.gap (h : Placed p k t) : Layout.gap (Layout.origin (some p) t) t.start = List.replicate k ' ' :=
  gap_after_spaces h.start fun hend => ⟨(h.lineEnd hend).1, (h.lineEnd hend).2.2⟩

theorem Placed.not_lineEnd (h : Placed p k t) {c : Char} {more : Text} (htext : t.text = c :: more) (hc : c ≠ '\n') :
    t.kind.isLineEnd = false := by
  by_contra hkind
  have hnewline := (h.lineEnd (by simpa using hkind)).2.1
  exact hc (List.cons.inj (htext.symm.trans hnewline)).1

theorem Placed.row (h : Placed p k t) : (Layout.origin (some p) t).row ≤ t.start.row := by
  rw [Layout.origin_row, h.start]

theorem Tiles.laysOut (h : Tiles p ts s q) : Layout.LaysOut p ts s q := by
  induction h with
  | nil p => exact .nil p
  | cons ht _ _ ih =>
    rw [← ht.gap]
    exact .cons ht.row ih

theorem Placed.advance (h : Placed p k t) : p.advance (List.replicate k ' ' ++ t.text) = Layout.after t := by
  rw [Pos.advance_append, Pos.advance_replicate, ← h.start, h.stop]

theorem Tiles.append {r : Pos} {xs ys : List Token} {u : Text} (h : Tiles p xs s q)
    (k : Tiles q ys u r) : Tiles p (xs ++ ys) (s ++ u) r := by
  induction h with
  | nil => exact k
  | cons ht hcomment _ ih =>
    simp only [cons_append, append_assoc]
    refine .cons ht (fun hkind => ?_) (ih k)
    obtain ⟨u, us, rfl, hu⟩ := hcomment hkind
    exact ⟨u, us ++ ys, rfl, hu⟩

/-! ### Rows -/

/-- A string is open at `q`: after `k` spaces it starts, and what was read of it leads to the start
of a row. -/
structure OpenAt (q : Pos) (row : Int) (o : OpenString) (owed : Text) : Prop where
  begun : o.Begun
  start : ∃ k : Nat, o.start = ⟨q.row, q.col + k⟩ ∧ owed = List.replicate k ' ' ++ o.text
  stop : o.start.advance o.text = ⟨row, 0⟩

def Owed (q : Pos) (row : Int) (owed : Text) : Option OpenString → Prop
  | none => q = ⟨row, 0⟩ ∧ owed = []
  | some o => OpenAt q row o owed

theorem placed_word {row col : Int} {g : Text} (hkind : t.kind.isLineEnd = false)
    (hcomment : t.kind = .comment → t.text.head? = some '#') (htext : ∀ c ∈ t.text, c ≠ '\n')
    (hstart : t.start = ⟨row, col + g.length⟩)
    (hstop : t.stop = ⟨row, col + g.length + t.text.length⟩) : Placed ⟨row, col⟩ g.length t := by
  refine ⟨hstart, ?_, fun h => ?_, fun h => ?_, fun hc => ⟨hcomment hc, htext⟩⟩
  · rw [Pos.advance_of_noNewline htext, Layout.after_of_not_lineEnd hkind, hstop, hstart]
  · rw [hkind] at h
    cases h
  · exact absurd rfl (htext _ (mem_of_getLast? h))

theorem Tidy.eq_newline (h : Tidy s) (hhead : ∀ c, s.head? = some c → c = '\r' ∨ c = '\n') : s = ['\n'] := by
  obtain ⟨c, rest, rfl⟩ := exists_cons_of_ne_nil h.ne_nil
  rcases hhead c rfl with rfl | rfl
  · exact absurd rfl (h.plain '\r' mem_cons_self).2.2
  · rw [h.singleLine [] rest rfl]

theorem row_tiles {row col : Int} {left : Option OpenString}
    (h : Row row col s ts left) (hs : Tidy s) (hjoins : ¬ Joins s) :
    ∃ out owed q, Tiles ⟨row, col⟩ ts out q ∧ Owed q (row + 1) owed left ∧ s = out ++ owed := by
  induction h with
  | blank hspace => exact absurd hspace hs.not_spacing
  | @opens col g o hgap hbegun hstart =>
    have hg := eq_replicate_of_spacing hgap hs.plain
    refine ⟨[], g ++ o.text, _, .nil _, ⟨hbegun, ⟨g.length, hstart, by rw [← hg]⟩, ?_⟩, rfl⟩
    have hrest := hs.of_append (Scan.spacing_noNewline hgap)
    rw [Pos.advance_isLine ⟨hrest.singleLine, hrest.ended⟩, hstart]
  | @word col g s ts left t hgap hkind htext hstart hstop hcomment hrest ih =>
    have hg := eq_replicate_of_spacing hgap hs.plain
    have hs2 : Tidy s := (hs.of_append (Scan.spacing_noNewline hgap)).of_append htext
    have hsuffix : s <:+ g ++ (t.text ++ s) :=
      (suffix_append _ _).trans (suffix_append _ _)
    obtain ⟨out, owed, q, htiles, howed, hout⟩ := ih hs2 fun hj => hjoins (hj.mono hsuffix.isInfix)
    have hplaced := placed_word hkind (fun hc => (hcomment hc).1) htext hstart hstop
    have hafter : Layout.after t = ⟨row, col + g.length + t.text.length⟩ := by
      rw [Layout.after_of_not_lineEnd hkind, hstop]
    rw [← hafter] at htiles
    refine ⟨_, owed, q, .cons hplaced (fun hc => ?_) htiles, howed, ?_⟩
    · obtain ⟨-, hhead, hnext⟩ := hcomment hc
      obtain ⟨u, hu, hend⟩ := hnext (hs2.eq_newline hhead)
      exact ⟨u, [], hu, hend⟩
    · rw [← hg, hout]
      simp
  | @lineEnd col g t hgap hkind htext hstart hstop =>
    obtain ⟨rfl, hnl⟩ := hs.endsRow hgap htext
    have hafter : Layout.after t = ⟨row + 1, 0⟩ := by simp [Layout.after, hkind, hstop]
    have hplaced : Placed ⟨row, col⟩ 0 t := by
      refine ⟨hstart, ?_, fun _ => ⟨rfl, hnl, ?_⟩, fun _ => Or.inl hkind, fun hc => ?_⟩
      · rw [hafter, hnl, hstart]
        rfl
      · rw [hstart, hstop]
        simp
      · rw [hc] at hkind
        cases hkind
    refine ⟨_, [], _, .cons hplaced (fun hc => ?_) (.nil _), ⟨hafter, rfl⟩, ?_⟩
    · rw [hc] at hkind
      cases hkind
    · simp
  | @joined col g e t hgap hend =>
    exact absurd ⟨e, hend, (suffix_append g _).isInfix⟩ hjoins

/-! ### Lines -/

def Scan.Owes (scan : Scan) (q : Pos) (owed : Text) : Prop :=
  Owed q (scan.row + 1) owed scan.pending

theorem OpenAt.placed {row : Int} {o : OpenString} {l : Text} {n : Nat}
    (h : OpenAt q row o owed) (hl : SingleLine l) (hkind : t.kind = .string) (hle : n ≤ l.length)
    (hlast : (l.take n).getLast? = some o.closer.mark) (htext : t.text = o.text ++ l.take n)
    (hstart : t.start = o.start) (hstop : t.stop = ⟨row, n⟩) :
    ∃ k, Placed q k t ∧ owed ++ l.take n = List.replicate k ' ' ++ t.text := by
  obtain ⟨k, hk, rfl⟩ := h.start
  have hmark : o.closer.mark ≠ '\n' := by
    intro hnl
    have hquote := h.begun.quote
    rw [hnl] at hquote
    exact absurd hquote (by decide)
  have hfree := hl.noNewline_take hlast hmark
  have hend : t.kind.isLineEnd = false := by
    rw [hkind]
    rfl
  refine ⟨k, ⟨hstart.trans hk, ?_, fun hline => ?_, fun hnl => ?_, by simp [hkind]⟩, ?_⟩
  · rw [hstart, htext, Pos.advance_append, h.stop, Pos.advance_of_noNewline hfree,
      Layout.after_of_not_lineEnd hend, hstop, length_take, Nat.min_eq_left hle]
    simp
  · rw [hend] at hline
    cases hline
  · rw [htext, getLast?_append, hlast] at hnl
    exact absurd (by simpa using hnl) hmark
  · rw [htext, append_assoc]

theorem line_tiles {scan : Scan} {l : Text} (hstrict : scan.strict = false)
    (howes : scan.Owes q owed) (hl : NeatLine l) :
    ∃ after out owing r, (scan.line l).2 = some after ∧ after.strict = false ∧
      Tiles q (scan.line l).1 out r ∧ after.Owes r owing ∧ owed ++ l = out ++ owing := by
  rcases Scan.line_read scan hl.tidy.singleLine hl.tidy.ne_nil with
    ⟨after, hafter, hrow, hread⟩ | ⟨hspace, -, -⟩
  · have hstrict2 := Scan.line_strict hstrict hl.neat.not_joins hafter
    have hpending := fun p hp t ht => @Scan.line_pending scan l p hstrict hp hl.tidy.ne_nil t ht
    have hnext : ((after.row : Int) + 1) = (scan.row + 1 : Nat) + 1 := by rw [hrow]
    unfold Scan.Owes at howes ⊢
    generalize (scan.line l).1 = ts at hread hpending ⊢
    generalize scan.pending = before at hread hpending howes
    generalize hleft : after.pending = left at hread
    refine ⟨after, ?_⟩
    rw [hnext, hleft]
    cases hread with
    | fresh hr =>
      obtain ⟨hq, ho⟩ := howes
      obtain ⟨out, owing, r, htiles, howing, hout⟩ := row_tiles hr hl.tidy hl.neat.not_joins
      have hq2 : q = ⟨(scan.row + 1 : Nat), 0⟩ := by
        rw [hq]
        simp
      refine ⟨out, owing, r, hafter, hstrict2, hq2 ▸ htiles, howing, ?_⟩
      rw [ho, ← hout]
      rfl
    | closes o n t hkind hle hlast htext hstart hstop hr =>
      obtain ⟨k, hplaced, hspell⟩ :=
        OpenAt.placed howes hl.tidy.singleLine hkind hle hlast htext hstart (by simpa using hstop)
      have hdrop := hl.tidy.after_string (OpenAt.begun howes) hlast
      have hjoins : ¬ Joins (l.drop n) :=
        fun hj => hl.neat.not_joins (hj.mono (drop_suffix n l).isInfix)
      obtain ⟨out, owing, r, htiles, howing, hout⟩ := row_tiles hr hdrop hjoins
      have hplace : Layout.after t = ⟨(scan.row + 1 : Nat), n⟩ := by
        simp [Layout.after, hkind, hstop, Kind.isLineEnd]
      refine ⟨_, owing, r, hafter, hstrict2, .cons hplaced (by simp [hkind]) (hplace ▸ htiles), howing, ?_⟩
      conv_lhs => rw [← take_append_drop n l, ← append_assoc, hspell, hout]
      simp
    | spoiled o t hkind => exact absurd hkind (hpending o rfl t rfl)
    | goesOn o o2 htext hstart hcloser =>
      obtain ⟨k, hk, rfl⟩ := OpenAt.start howes
      refine ⟨[], _, q, hafter, hstrict2, .nil q, ⟨?_, ⟨k, hstart.trans hk, rfl⟩, ?_⟩, ?_⟩
      · exact (OpenAt.begun howes).extend htext hcloser
      · rw [hstart, htext, Pos.advance_append, OpenAt.stop howes, Pos.advance_isLine hl.isLine]
        simp
      · rw [htext]
        simp
  · exact absurd hspace hl.tidy.not_spacing

theorem tiles_empty (h : ∀ t ∈ ts, (t.kind = .dedent ∨ t.kind = .endMarker) ∧ t.text = [] ∧ t.start = p ∧
      t.stop = p) : Tiles p ts [] p := by
  induction ts with
  | nil => exact .nil p
  | cons t rest ih =>
    obtain ⟨hkinds, htext, hstart, hstop⟩ := h t mem_cons_self
    have hkind : t.kind.isLineEnd = false := by
      rcases hkinds with hkind | hkind <;> rw [hkind] <;> rfl
    have hcomment : t.kind ≠ .comment := by
      rcases hkinds with hkind | hkind <;> simp [hkind]
    have hafter : Layout.after t = p := by rw [Layout.after_of_not_lineEnd hkind, hstop]
    have hplaced : Placed p 0 t := by
      refine ⟨by simp [hstart], by simp [htext, hstart, hafter], by simp [hkind], by simp [htext],
        fun hc => absurd hc hcomment⟩
    have hrest := ih fun u hu => h u (mem_cons_of_mem _ hu)
    have hcons : Tiles p (t :: rest) _ p :=
      .cons hplaced (fun hc => absurd hc hcomment) (by rwa [hafter])
    simpa [htext] using hcons

theorem line_nil_tiles {scan : Scan} (howes : scan.Owes q owed) : ∃ r, Tiles q (scan.line []).1 owed r := by
  unfold Scan.Owes at howes
  cases hp : scan.pending with
  | none =>
    rw [hp] at howes
    obtain ⟨rfl, rfl⟩ := howes
    exact ⟨_, tiles_empty fun t ht => Layout.mem_line_nil hp ht⟩
  | some o =>
    rw [hp] at howes
    rw [Layout.line_nil_pending hp]
    obtain ⟨k, hk, rfl⟩ := OpenAt.start howes
    have hplaced : Placed q k { kind := .error, text := o.text, start := o.start,
                                stop := ⟨(scan.row + 1 : Nat), 0⟩, line := o.line } := by
      refine ⟨hk, ?_, by simp [Kind.isLineEnd], fun _ => Or.inr rfl, by simp⟩
      rw [OpenAt.stop howes]
      simp [Layout.after, Kind.isLineEnd]
    have hcons := Tiles.cons hplaced (by simp) (.nil _)
    exact ⟨_, by simpa using hcons⟩

end InlineMarkup

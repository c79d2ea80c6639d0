import InlineMarkup.Proofs.Places

/-!
Replacing markup in a text. `Replaces` relates a source and a text in which some pieces of the
source, each from a `<` to a `>`, are replaced by tokens that say where they stood. Main statement:
the lines of the source on rows that no such piece touches are lines of the result, in their order.
-/
namespace InlineMarkup

open Text List

def IsTrailing (s : Text) : Prop :=
  ∃ k comment, s = List.replicate k ' ' ++ comment ∧ comment.head? = some '#' ∧ ∀ c ∈ comment, c ≠ '\n'

theorem IsTrailing.advance_row {s : Text} (h : IsTrailing s) (p : Pos) : (p.advance s).row = p.row := by
  obtain ⟨k, comment, rfl, -, hcomment⟩ := h
  rw [Pos.advance_append, Pos.advance_replicate, Pos.advance_of_noNewline hcomment]

/-- `Replaces comments p literals s out`: the text `s` starts at `p`, and `out` is `s` with the markup
from the start to the stop of each of the literals replaced by the literal's text. -/
inductive Replaces (comments : Bool) : Pos → List Token → Text → Text → Prop where
  | rest (p : Pos) (s : Text) : Replaces comments p [] s s
  | literal {p : Pos} {t : Token} {literals : List Token} {code markup trailing s out : Text}
      (hstart : p.advance code = t.start) (hstop : t.start.advance markup = t.stop)
      (hopen : markup.head? = some '<') (hclose : markup.getLast? = some '>')
      (htrailing : trailing = [] ∨ comments = true ∧ IsTrailing trailing)
      (h : Replaces comments (t.stop.advance trailing) literals s out) :
      Replaces comments p (t :: literals) (code ++ (markup ++ (trailing ++ s)))
        (code ++ (t.text ++ out))

section

variable {comments : Bool} {p : Pos} {literals : List Token} {s out : Text}

theorem Replaces.append_code (h : Replaces comments p literals s out) (code : Text) :
    Replaces comments p literals (s ++ code) (out ++ code) := by
  induction h with
  | rest p s => exact .rest p _
  | literal hstart hstop hopen hclose htrailing _ ih =>
    simp only [append_assoc]
    exact .literal hstart hstop hopen hclose htrailing ih

theorem Replaces.append_literal (h : Replaces comments p literals s out) {t : Token}
    {code markup trailing : Text} (hstart : p.advance (s ++ code) = t.start)
    (hstop : t.start.advance markup = t.stop) (hopen : markup.head? = some '<')
    (hclose : markup.getLast? = some '>') (htrailing : trailing = [] ∨ comments = true ∧ IsTrailing trailing) :
    Replaces comments p (literals ++ [t]) (s ++ (code ++ (markup ++ trailing))) (out ++ (code ++ t.text)) := by
  induction h with
  | rest p s =>
    have hone := Replaces.literal hstart hstop hopen hclose htrailing (.rest _ [])
    simpa using hone
  | @literal p u _ code' markup' trailing' s' _ hstart' hstop' hopen' hclose' htrailing' _ ih =>
    have hrest : (u.stop.advance trailing').advance (s' ++ code) = t.start := by
      rw [← hstart]
      simp only [Pos.advance_append, hstart', hstop']
    simp only [append_assoc, cons_append]
    exact .literal hstart' hstop' hopen' hclose' htrailing' (ih hrest)

end

/-! ### Lines that markup leaves alone -/

def untouched (touched : Int → Bool) : Int → List Text → List Text
  | _, [] => []
  | row, l :: rest =>
    if touched row then untouched touched (row + 1) rest
    else l :: untouched touched (row + 1) rest

def touches (literals : List Token) (row : Int) : Bool :=
  literals.any fun t => t.start.row ≤ row && row ≤ t.stop.row

section

variable {touched : Int → Bool}

theorem untouched_sublist (row : Int) (ls : List Text) : (untouched touched row ls).Sublist ls := by
  induction ls generalizing row with
  | nil => exact List.Sublist.refl _
  | cons l rest ih =>
    rw [untouched]
    split
    · exact (ih _).cons l
    · exact (ih _).cons_cons l

theorem untouched_append (row : Int) (xs ys : List Text) : untouched touched row (xs ++ ys) =
      untouched touched row xs ++ untouched touched (row + xs.length) ys := by
  induction xs generalizing row with
  | nil => simp [untouched]
  | cons l rest ih =>
    have hrow : row + 1 + (rest.length : Int) = row + ((rest.length + 1 : Nat) : Int) := by
      push_cast
      omega
    rw [cons_append, untouched, untouched, ih, length_cons, hrow]
    split <;> simp

theorem lines_ended_append {s : Text} (hs : s = [] ∨ s.getLast? = some '\n') (u : Text) :
    lines (s ++ u) = lines s ++ lines u := by
  induction s with
  | nil => rfl
  | cons c rest ih =>
    have hrest : rest = [] ∨ rest.getLast? = some '\n' := by
      cases rest with
      | nil => exact Or.inl rfl
      | cons d more => exact Or.inr (by simpa using hs)
    rw [cons_append]
    simp only [lines]
    rw [ih hrest]
    split
    · simp
    · cases hl : lines rest with
      | nil =>
        have hnil : rest = [] := by rw [← flatten_lines rest, hl]; rfl
        rw [hnil] at hs
        rcases hs with hs | hs
        · cases hs
        · exact absurd (by simpa using hs) ‹_›
      | cons l more => simp

theorem advance_row_lines {s : Text} (hs : s = [] ∨ s.getLast? = some '\n') (p : Pos) :
    (p.advance s).row = p.row + (lines s).length := by
  have hflat : ∀ ls : List Text, (∀ l ∈ ls, IsLine l) → ∀ p : Pos,
      (p.advance ls.flatten).row = p.row + ls.length := by
    intro ls hls
    induction ls with
    | nil => simp
    | cons l rest ih =>
      intro p
      rw [flatten_cons, Pos.advance_append, Pos.advance_isLine (hls l mem_cons_self),
        ih fun k hk => hls k (mem_cons_of_mem _ hk)]
      simp only [length_cons]
      push_cast
      omega
  have hlines := hflat (lines s) (isLine_of_mem_lines hs) p
  rwa [flatten_lines] at hlines

theorem untouched_skip (p : Pos) (s u : Text)
    (h : ∀ row, p.row ≤ row → row ≤ (p.advance s).row → touched row = true) :
    untouched touched p.row (lines (s ++ u)) = untouched touched (p.advance s).row (lines u) := by
  induction s generalizing p with
  | nil => rfl
  | cons c rest ih =>
    have hfirst : touched p.row = true := h p.row le_rfl (Pos.row_le_advance p _)
    rw [Pos.advance_cons] at h ⊢
    rw [cons_append]
    simp only [lines]
    split
    · rename_i hc
      have hstep : (p.step c).row = p.row + 1 := by rw [Pos.step, if_pos hc]
      rw [untouched, if_pos hfirst, ← hstep, ih]
      exact fun row hle => h row (by omega)
    · rename_i hc
      have hstep : (p.step c).row = p.row := by rw [Pos.step, if_neg hc]
      have hrest := ih (p.step c) fun row hle => h row (by omega)
      rw [hstep] at hrest
      rw [← hrest]
      cases lines (rest ++ u) with
      | nil => simp [untouched, hfirst]
      | cons l more => simp [untouched, hfirst]

theorem exists_whole_lines (s : Text) : ∃ whole part, s = whole ++ part ∧
    (whole = [] ∨ whole.getLast? = some '\n') ∧ ∀ c ∈ part, c ≠ '\n' := by
  induction s with
  | nil => exact ⟨[], [], rfl, Or.inl rfl, by simp⟩
  | cons c rest ih =>
    obtain ⟨whole, part, rfl, hwhole, hpart⟩ := ih
    rcases hwhole with rfl | hlast
    · by_cases hc : c = '\n'
      · exact ⟨[c], part, rfl, Or.inr (by simp [hc]), hpart⟩
      · exact ⟨[], c :: part, rfl, Or.inl rfl, by simpa [hc] using hpart⟩
    · refine ⟨c :: whole, part, rfl, Or.inr ?_, hpart⟩
      rw [getLast?_cons, hlast]
      rfl

theorem tail_lines_suffix (before s : Text) : (lines s).tail <:+ (lines (before ++ s)).tail := by
  induction before with
  | nil => exact suffix_refl _
  | cons c rest ih =>
    rw [cons_append]
    simp only [lines]
    split
    · exact ih.trans (tail_suffix _)
    · cases hl : lines (rest ++ s) with
      | nil => simpa [hl] using ih
      | cons l more => simpa [hl] using ih

theorem untouched_kept {row : Int} {before : Text} (s : Text) (hbefore : before = [] ∨ touched row = true) :
    (untouched touched row (lines s)).Sublist (lines (before ++ s)) := by
  rcases hbefore with rfl | hrow
  · exact untouched_sublist row _
  have htail := tail_lines_suffix before s
  cases hl : lines s with
  | nil => exact nil_sublist _
  | cons l more =>
    rw [hl, tail_cons] at htail
    rw [untouched, if_pos hrow]
    exact (untouched_sublist _ _).trans (htail.sublist.trans (tail_sublist _))

theorem Replaces.untouched_sublist_lines {comments : Bool} {p : Pos} {literals : List Token}
    {s out : Text} (h : Replaces comments p literals s out)
    (htouched : ∀ row, touches literals row = true → touched row = true) {before : Text}
    (hbefore : before = [] ∨ touched p.row = true) :
    (untouched touched p.row (lines s)).Sublist (lines (before ++ out)) := by
  induction h generalizing before with
  | rest p s => exact untouched_kept s hbefore
  | @literal p t literals code markup trailing s out hstart hstop hopen hclose htrailing _ ih =>
    have hrest : ∀ row, touches literals row = true → touched row = true := by
      intro row hrow
      refine htouched row ?_
      rw [touches, any_cons, Bool.or_eq_true]
      exact Or.inr hrow
    have hmarkup : ∀ row, t.start.row ≤ row → row ≤ t.stop.row → touched row = true := by
      intro row hfirst hlast
      refine htouched row ?_
      simp [touches, hfirst, hlast]
    have hstays : (t.stop.advance trailing).row = t.stop.row := by
      rcases htrailing with rfl | ⟨-, htrailing⟩
      · rfl
      · exact htrailing.advance_row _
    obtain ⟨whole, part, rfl, hwhole, hpart⟩ := exists_whole_lines code
    have hrow : (p.advance whole).row = t.start.row := by
      rw [← hstart, Pos.advance_append, Pos.advance_of_noNewline hpart]
    -- From the row where the markup starts to the one where it stops every row is touched.
    have hskip : untouched touched (p.advance whole).row
          (lines (part ++ (markup ++ (trailing ++ s)))) =
        untouched touched (t.stop.advance trailing).row (lines s) := by
      have happ : part ++ (markup ++ (trailing ++ s)) = (part ++ (markup ++ trailing)) ++ s := by simp
      have hend : (p.advance whole).advance (part ++ (markup ++ trailing)) = t.stop.advance trailing := by
        rw [← Pos.advance_append, ← append_assoc, Pos.advance_append, hstart, Pos.advance_append, hstop]
      rw [happ, untouched_skip _ _ _ (hend ▸ hstays ▸ hrow ▸ hmarkup), hend]
    have hlater (before : Text) : (untouched touched (t.stop.advance trailing).row (lines s)).Sublist
        (lines (before ++ out)) := by
      refine ih hrest (Or.inr ?_)
      rw [hstays]
      exact hmarkup _ (hstop ▸ Pos.row_le_advance _ _) le_rfl
    rw [append_assoc, lines_ended_append hwhole, untouched_append, ← advance_row_lines hwhole, hskip]
    rcases hwhole with rfl | hends
    · have hout := hlater (before ++ (part ++ t.text))
      simpa [lines, untouched] using hout
    · have hsplit : before ++ (whole ++ part ++ (t.text ++ out)) =
          (before ++ whole) ++ ((part ++ t.text) ++ out) := by simp
      have hended : (before ++ whole).getLast? = some '\n' := by
        rw [getLast?_append, hends]
        rfl
      rw [hsplit, lines_ended_append (Or.inr hended)]
      exact (untouched_kept whole hbefore).append (hlater _)

end

theorem Replaces.lines_kept {comments : Bool} {literals : List Token} {s out : Text}
    (h : Replaces comments ⟨1, 0⟩ literals s out) :
    (untouched (touches literals) 1 (lines s)).Sublist (lines out) :=
  h.untouched_sublist_lines (fun _ => id) (Or.inl (Eq.refl []))

end InlineMarkup

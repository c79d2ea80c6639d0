import InlineMarkup.Proofs.Places

/-!
Where layout puts tokens. Main statement: tokens that do not overlap are laid out without a fault, and the text before
each leads to the place where the token says that it starts, whatever newlines stand in the tokens themselves.
-/
namespace InlineMarkup

namespace Pos

/-- The second position is the first one or comes after it; columns are counted from zero. -/
def Precedes (p q : Pos) : Prop := p.row = q.row ∧ p.col ≤ q.col ∨ p.row < q.row ∧ 0 ≤ q.col

instance (p q : Pos) : Decidable (p.Precedes q) := inferInstanceAs (Decidable (_ ∨ _))

theorem advance_newlines (p : Pos) (n : Nat) : p.advance (List.replicate (n + 1) '\n') = ⟨p.row + (n + 1), 0⟩ := by
  induction n generalizing p with
  | zero => rfl
  | succ n ih =>
    rw [List.replicate_succ, advance_cons, ih]
    simp only [step, if_true, Pos.mk.injEq, and_true]
    push_cast
    ring

end Pos

namespace Layout

/-- The token's text leads from its start to its stop. A line end is one newline, and stops one column on. -/
structure Spans (t : Token) : Prop where
  lineEnd : t.kind.isLineEnd = true → t.text = ['\n'] ∧ t.stop = ⟨t.start.row, t.start.col + 1⟩
  word : t.kind.isLineEnd = false → t.stop = t.start.advance t.text

/-- After a text that ends at a position, each token starts where the one before has ended, or later; after a line end,
on a later row. -/
inductive InPlace : Pos → List Token → Prop
  | nil (p : Pos) : InPlace p []
  | cons {p : Pos} {t : Token} {rest : List Token} (hspans : Spans t) (hstart : p.Precedes t.start)
      (hrest : InPlace (after t) rest) : InPlace p (t :: rest)

variable {p : Pos} {t : Token} {front back tokens : List Token}

theorem advance_gap {q : Pos} (h : p.Precedes q) : p.advance (gap p q) = q := by
  obtain ⟨row, col⟩ := q
  rcases h with ⟨rfl, hcol⟩ | ⟨hrow, hcol⟩ <;> dsimp only at *
  · have hgap : gap p ⟨p.row, col⟩ = List.replicate (col - p.col).toNat ' ' := by simp [gap, Text.copies]
    rw [hgap, Pos.advance_replicate, Pos.mk.injEq]
    exact ⟨rfl, by omega⟩
  · obtain ⟨n, hn⟩ : ∃ n : Nat, (row - p.row).toNat = n + 1 := ⟨(row - p.row).toNat - 1, by omega⟩
    have hgap : gap p ⟨row, col⟩ = List.replicate (n + 1) '\n' ++ List.replicate col.toNat ' ' := by
      simp [gap, Text.copies, hn, hrow.ne']
    rw [hgap, Pos.advance_append, Pos.advance_newlines, Pos.advance_replicate, Pos.mk.injEq]
    dsimp only
    omega

theorem gap_lineEnd (h : Spans t) (hend : t.kind.isLineEnd = true) :
    gap (origin (some p) t) t.start = if p.row = t.start.row then [] else gap p t.start := by
  obtain ⟨-, hstop⟩ := h.lineEnd hend
  split
  · rename_i hrow
    simp [gap, origin, hend, hstop, hrow, Text.copies]
  · rename_i hrow
    simp [gap, origin, hend, Ne.symm hrow]

/-- One token: the gap and the text lead from where the text ended to where it ends now. -/
theorem advance_token (h : Spans t) (hstart : p.Precedes t.start) :
    p.advance (gap (origin (some p) t) t.start ++ t.text) = after t := by
  cases hend : t.kind.isLineEnd with
  | true =>
    obtain ⟨htext, hstop⟩ := h.lineEnd hend
    rw [gap_lineEnd h hend, Pos.advance_append, htext, after, if_pos hend, hstop]
    split
    · rename_i hrow
      rw [← hrow]
      rfl
    · rw [advance_gap hstart]
      rfl
  | false =>
    rw [origin_of_not_lineEnd hend, Pos.advance_append, advance_gap hstart, after_of_not_lineEnd hend, h.word hend]

theorem origin_row_le (h : p.Precedes t.start) : (origin (some p) t).row ≤ t.start.row := by
  rw [origin_row]
  exact h.elim (fun h => h.1.le) fun h => h.1.le

theorem InPlace.laysOut (h : InPlace p tokens) : ∃ out q, LaysOut p tokens out q := by
  induction h with
  | nil p => exact ⟨[], p, .nil p⟩
  | cons hspans hstart _ ih =>
    obtain ⟨out, q, hout⟩ := ih
    exact ⟨_, q, .cons (origin_row_le hstart) hout⟩

theorem InPlace.split (h : InPlace p (front ++ back)) : ∃ laid, LaysOut p front laid (p.advance laid) ∧
    p.advance laid = (front.getLast?.map after).getD p ∧ InPlace (p.advance laid) back := by
  induction front generalizing p with
  | nil => exact ⟨[], .nil p, rfl, h⟩
  | cons t front ih =>
    obtain _ | ⟨hspans, hstart, hrest⟩ := h
    obtain ⟨laid, hlaid, hlast, hback⟩ := ih hrest
    have hplace : p.advance (gap (origin (some p) t) t.start ++ (t.text ++ laid)) = (after t).advance laid := by
      rw [← List.append_assoc, Pos.advance_append, advance_token hspans hstart]
    refine ⟨gap (origin (some p) t) t.start ++ (t.text ++ laid), ?_, ?_, ?_⟩
    · rw [hplace]
      exact .cons (origin_row_le hstart) hlaid
    · rw [hplace, hlast, List.getLast?_cons]
      cases front.getLast? <;> rfl
    · rwa [hplace]

/-- Tokens in their places are laid out without a fault. What is laid out before the text of a token leads to the
token's start; a line end on the row where the token before it ended follows that one directly. -/
theorem tokens_laid_in_place (h : InPlace p tokens) : ∃ out, text (some p) tokens = .ok out ∧
    ∀ front t back, tokens = front ++ t :: back → ∃ laid space more, text (some p) front = .ok laid ∧
      p.advance laid = (front.getLast?.map after).getD p ∧ out = laid ++ space ++ t.text ++ more ∧
      (∀ c ∈ space, c = '\n' ∨ c = ' ') ∧
      (t.kind.isLineEnd = false → p.advance (laid ++ space) = t.start) ∧
      (t.kind.isLineEnd = true → (p.advance laid).row = t.start.row → space = []) := by
  obtain ⟨out, q, hout⟩ := h.laysOut
  refine ⟨out, hout.text, ?_⟩
  rintro front t back rfl
  obtain ⟨laid, hlaid, hlast, hplaced⟩ := h.split
  obtain _ | ⟨hspans, hstart, hback⟩ := hplaced
  obtain ⟨more, _, hmore⟩ := hback.laysOut
  have hwhole := hlaid.text_append (LaysOut.cons (origin_row_le hstart) hmore).text
  rw [hout.text] at hwhole
  refine ⟨laid, gap (origin (some (p.advance laid)) t) t.start, more, hlaid.text, hlast, ?_, ?_, fun hword => ?_,
    fun hend hrow => ?_⟩
  · exact (Except.ok.inj hwhole).trans (by simp only [List.append_assoc])
  · intro c hc
    simp only [gap, Text.copies, List.mem_append, List.mem_replicate] at hc
    exact hc.imp And.right And.right
  · rw [origin_of_not_lineEnd hword, Pos.advance_append, advance_gap hstart]
  · rw [gap_lineEnd hspans hend, if_pos hrow]

def placedRows : List Token := [⟨.string, "'a\nb'".toList, ⟨1, 2⟩, ⟨2, 2⟩, []⟩, ⟨.newline, ['\n'], ⟨2, 4⟩, ⟨2, 5⟩, []⟩,
  ⟨.name, ['x'], ⟨4, 1⟩, ⟨4, 2⟩, []⟩]

/-- A string of two rows, a line end after blanks, and a name two rows down. -/
theorem tokens_laid_in_place_rows : InPlace ⟨1, 0⟩ placedRows ∧ ∃ out, text (some ⟨1, 0⟩) placedRows = .ok out ∧
    ∃ laid more, out = laid ++ ['x'] ++ more ∧ Pos.advance ⟨1, 0⟩ laid = ⟨4, 1⟩ := by
  have hplaced : InPlace ⟨1, 0⟩ placedRows := .cons ⟨by decide, by decide⟩ (by decide) <|
    .cons ⟨by decide, by decide⟩ (by decide) <| .cons ⟨by decide, by decide⟩ (by decide) (.nil _)
  obtain ⟨out, hout, hall⟩ := tokens_laid_in_place hplaced
  obtain ⟨laid, space, more, -, -, heq, -, hstart, -⟩ := hall [_, _] _ [] rfl
  exact ⟨hplaced, out, hout, laid ++ space, more, heq, hstart rfl⟩

end Layout

end InlineMarkup

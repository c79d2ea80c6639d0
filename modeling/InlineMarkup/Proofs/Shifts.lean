import Mathlib
import InlineMarkup.Restore

/-!
Moving a block sideways. Main statements: a move to the right is undone by the move back, and two moves to
the right are one; and a block that ends in a tag is moved so that the tag stands in the column asked for.
-/
namespace InlineMarkup

open List hiding splitAt_eq


namespace Text

theorem splitAt_eq (c : Char) (s : Text) : splitAt c s = s.splitOn c := by
  induction s with
  | nil => rfl
  | cons d rest ih =>
    rw [splitAt, ih, splitOn_cons_eq_if_modifyHead]
    by_cases hd : d = c
    · simp [hd]
    · rw [if_neg hd, if_neg (by simpa using hd)]
      cases hrest : rest.splitOn c with
      | nil => exact absurd hrest (splitOn_ne_nil c rest)
      | cons part more => rfl

theorem not_mem_of_mem_splitAt {c : Char} {s : Text} : ∀ l ∈ splitAt c s, c ∉ l := by
  induction s with
  | nil => simp [splitAt]
  | cons d rest ih =>
    rw [splitAt]
    split
    · exact forall_mem_cons.2 ⟨not_mem_nil, ih⟩
    · rename_i hd
      split
      · simpa using Ne.symm hd
      · rename_i part more hrest
        rw [hrest] at ih
        obtain ⟨hpart, hmore⟩ := forall_mem_cons.1 ih
        exact forall_mem_cons.2 ⟨by simp [Ne.symm hd, hpart], hmore⟩

end Text

namespace Indentation

open Text

variable {s head : Text} {ls : List Text}

/-! ### One line -/

theorem not_mem_moveLine {l : Text} (h : '\n' ∉ l) (n : Int) : '\n' ∉ moveLine n l := by
  unfold moveLine
  split
  · simpa using h
  · split
    · exact fun hmem => h (mem_of_mem_drop hmem)
    · exact h

@[simp] theorem moveLine_zero (l : Text) : moveLine 0 l = l := by simp [moveLine]

theorem moveLine_nil (n : Int) : moveLine n [] = [] := by
  simp [moveLine]

theorem moveLine_nat (n : Nat) {l : Text} (h : l ≠ []) : moveLine n l = List.replicate n ' ' ++ l := by
  cases n with
  | zero => simp
  | succ n => exact if_pos ⟨by omega, h⟩

theorem moveLine_neg (n : Nat) (l : Text) : moveLine (-n) (List.replicate n ' ' ++ l) = l := by
  cases n with
  | zero => simp
  | succ n =>
    have habs : (-((n + 1 : Nat) : Int)).natAbs = n + 1 := by omega
    rw [moveLine, if_neg (by omega), habs, takeWhile_append_of_pos (by simp), if_pos (by simp; omega)]
    exact drop_left' (by simp)

theorem moveLine_back (a : Nat) (l : Text) : moveLine (-a) (moveLine a l) = l := by
  by_cases hl : l = []
  · rw [hl, moveLine_nil, moveLine_nil]
  · rw [moveLine_nat a hl, moveLine_neg]

theorem moveLine_moveLine (a b : Nat) (l : Text) : moveLine b (moveLine a l) = moveLine (a + b : Nat) l := by
  by_cases hl : l = []
  · simp [hl, moveLine_nil]
  · rw [moveLine_nat a hl, moveLine_nat b (by simp [hl]), moveLine_nat _ hl, ← append_assoc,
      replicate_append_replicate, Nat.add_comm]

/-! ### All lines -/

theorem moveLines_length (early late : Int) (first i : Nat) (ls : List Text) :
    (moveLines early late first i ls).length = ls.length := by
  induction ls generalizing i with
  | nil => rfl
  | cons l rest ih => simp [moveLines, ih]

theorem getElem?_moveLines (early late : Int) (first i j : Nat) (ls : List Text) :
    (moveLines early late first i ls)[j]? = (ls[j]?).map (moveLine (if first ≤ i + j then late else early)) := by
  induction ls generalizing i j with
  | nil => rfl
  | cons l rest ih =>
    cases j with
    | zero => rfl
    | succ j => simp [moveLines, ih, Nat.add_assoc, Nat.add_comm 1]

theorem moveLines_concat (early late : Int) (first i : Nat) (ls : List Text) (last : Text) :
    moveLines early late first i (ls ++ [last]) = moveLines early late first i ls ++
      [moveLine (if first ≤ i + ls.length then late else early) last] := by
  induction ls generalizing i with
  | nil => rfl
  | cons l rest ih => simp [moveLines, ih, Nat.add_assoc, Nat.add_comm 1]

theorem moveLines_same (n : Int) (first i : Nat) (ls : List Text) :
    moveLines n n first i ls = ls.map (moveLine n) := by
  refine ext_getElem? fun j => ?_
  rw [getElem?_moveLines, getElem?_map, ite_self]

theorem not_mem_moveLines {early late : Int} {first i : Nat} (h : ∀ l ∈ ls, '\n' ∉ l) :
    ∀ l ∈ moveLines early late first i ls, '\n' ∉ l := by
  intro l hl
  obtain ⟨j, hj⟩ := mem_iff_getElem?.1 hl
  rw [getElem?_moveLines] at hj
  obtain ⟨k, hk, rfl⟩ := Option.map_eq_some_iff.1 hj
  exact not_mem_moveLine (h k (mem_of_getElem? hk)) _

theorem splitAt_move {shift : Int} (column : Option Int) (first : Nat) (hshift : shift ≠ 0) {line : Text}
    (hs : splitAt '\n' s = head :: line :: ls) :
    splitAt '\n' (move s shift column first) = head :: moveLines (shifts shift column (line :: ls)).1
      (shifts shift column (line :: ls)).2 first 1 (line :: ls) := by
  have hnone := not_mem_of_mem_splitAt (c := '\n') (s := s)
  rw [hs] at hnone
  obtain ⟨hhead, hlines⟩ := forall_mem_cons.1 hnone
  rw [move, if_neg hshift, hs, splitAt_eq]
  exact splitOn_intercalate '\n' (forall_mem_cons.2 ⟨hhead, not_mem_moveLines hlines⟩) (by simp)

theorem join_splitAt (s : Text) : join ['\n'] (splitAt '\n' s) = s := by
  rw [splitAt_eq]
  exact intercalate_splitOn '\n'

theorem splitAt_move_none (n : Int) (hs : splitAt '\n' s = head :: ls) :
    splitAt '\n' (move s n) = head :: ls.map (moveLine n) := by
  cases ls with
  | nil =>
    have hsame : move s n = s := by simp [move, hs]
    rw [hsame, hs, map_nil]
  | cons line ls =>
    by_cases hn : n = 0
    · have hid : (line :: ls).map (moveLine 0) = line :: ls := map_id'' moveLine_zero _
      rw [hn, hid, ← hs]
      rfl
    · rw [splitAt_move none 0 hn hs]
      simp only [shifts, alignment, Int.add_zero, moveLines_same]

theorem move_move (s : Text) {a b c : Int} (h : ∀ l, moveLine b (moveLine a l) = moveLine c l) :
    move (move s a) b = move s c := by
  cases hs : splitAt '\n' s with
  | nil => exact absurd (splitAt_eq '\n' s ▸ hs) (splitOn_ne_nil '\n' s)
  | cons head ls =>
    have hleft := splitAt_move_none b (splitAt_move_none a hs)
    have hright := splitAt_move_none c hs
    rw [map_map, show moveLine b ∘ moveLine a = moveLine c from funext h, ← hright] at hleft
    rw [← join_splitAt (move (move s a) b), hleft, join_splitAt]

theorem move_back (s : Text) (a : Nat) : move (move s a) (-a) = s :=
  (move_move s (c := 0) fun l => (moveLine_back a l).trans (moveLine_zero l).symm).trans rfl

/-! ### Moves that can be made -/

theorem check_ok {limit n : Nat} (h : n ≤ limit) (hlimit : limit ≤ Extent.textLimit) :
    Extent.check limit n = .ok () := by
  have hcount : Extent.textLimit < Extent.countLimit := by decide
  rw [Extent.check, if_neg (by omega), if_neg (by omega)]

def Near (shift : Int) : Prop := shift.natAbs ≤ Extent.runLimit ∨ shift ≤ 0 ∧ shift.natAbs ≤ Extent.textLimit

theorem checkShift_ok (ls : List Text) {shift : Int} (h : Near shift) : checkShift ls shift = .ok () := by
  have hlimit : Extent.runLimit ≤ Extent.textLimit := by decide
  unfold checkShift
  dsimp only
  split
  · refine check_ok ?_ hlimit
    rcases h with h | h <;> omega
  · refine check_ok ?_ le_rfl
    rcases h with h | h <;> omega

theorem tryMove_eq (s : Text) {shift : Int} {column : Option Int} (first : Nat) (h : Near shift)
    (hlate : ∀ last, (splitAt '\n' s).getLast? = some last → Near (shift + alignment column last)) :
    tryMove s shift column first = .ok (move s shift column first) := by
  have hcheck : checkMove s shift column = .ok () := by
    unfold checkMove
    split
    · rfl
    · split
      · rename_i head line rest hs
        obtain ⟨last, hlast⟩ := getLast?_isSome.2 (cons_ne_nil line rest) |> Option.isSome_iff_exists.1
        rw [hs, getLast?_cons_cons] at hlate
        simp only [shifts, hlast, Option.getD_some, checkShift_ok _ h, checkShift_ok _ (hlate last hlast)]
        rfl
      · rfl
  rw [tryMove, hcheck]
  rfl

theorem tryMove_none (s : Text) {shift : Int} (h : Near shift) : tryMove s shift = .ok (move s shift) :=
  tryMove_eq s 0 h fun _ _ => by simpa [alignment] using h

/-! ### Pieces of code in their columns -/

/-- A piece of code, the column it was in, and how far its lines were moved to the right from there. -/
structure Piece where
  text : Text
  column : Int
  moved : Nat
  tokens : List Token

def Piece.Stands (p : Piece) : Prop :=
  Layout.stripped p.tokens = .ok (move p.text p.moved) ∧ p.moved ≤ Extent.textLimit

theorem fragment_back {p : Piece} (h : p.Stands) :
    Restore.fragment p.tokens p.column (p.column + p.moved) = .ok p.text := by
  have hshift : p.column - (p.column + p.moved) = -(p.moved : Int) := by omega
  rw [Restore.fragment, h.1, hshift]
  exact (tryMove_none _ (.inr ⟨by omega, by simpa using h.2⟩)).trans (congrArg _ (move_back p.text p.moved))

theorem fragments_back {ps : List Piece} (h : ∀ p ∈ ps, p.Stands) :
    Restore.fragments (ps.map (·.tokens)) (ps.map (·.column)) (ps.map fun p => p.column + p.moved) =
      .ok (ps.map (·.text)) := by
  induction ps with
  | nil => rfl
  | cons p ps ih =>
    obtain ⟨hp, hps⟩ := forall_mem_cons.1 h
    simp only [map_cons, Restore.fragments, fragment_back hp, ih hps]
    rfl

/-! ### Blocks that end in a tag -/

/-- A line after it was moved by so many columns. -/
inductive Moved (n : Int) : Text → Text → Prop where
  | right (k : Nat) (l : Text) (hn : n = k) (hl : l ≠ []) : Moved n l (List.replicate k ' ' ++ l)
  | left (k : Nat) (l : Text) (hn : n = -k) : Moved n (List.replicate k ' ' ++ l) l
  | stays (l : Text) (hn : n < 0) (hl : ¬ List.replicate n.natAbs ' ' <+: l) : Moved n l l
  | empty : Moved n [] []

theorem moved_moveLine (n : Int) (l : Text) : Moved n l (moveLine n l) := by
  by_cases hl : l = []
  · rw [hl, moveLine_nil]
    exact .empty
  · rcases le_or_gt 0 n with hn | hn
    · obtain ⟨k, rfl⟩ := Int.eq_ofNat_of_zero_le hn
      rw [moveLine_nat k hl]
      exact .right k l rfl hl
    · obtain ⟨k, rfl⟩ : ∃ k : Nat, n = -k := ⟨n.natAbs, by omega⟩
      by_cases hfits : List.replicate k ' ' <+: l
      · obtain ⟨rest, rfl⟩ := hfits
        rw [moveLine_neg]
        exact .left k rest rfl
      · have hshort : ¬ k ≤ (l.takeWhile (· == ' ')).length := by
          refine fun hlong => hfits (.trans ?_ ( takeWhile_prefix (· == ' ')))
          have hspaces : l.takeWhile (· == ' ') = List.replicate (l.takeWhile (· == ' ')).length ' ' :=
            eq_replicate_iff.2 ⟨rfl, fun c hc => by simpa using mem_takeWhile_imp hc⟩
          rw [hspaces]
          exact prefix_replicate_iff.2 ⟨by simpa using hlong, by simp⟩
        rw [moveLine, if_neg (by omega), if_neg fun h => hshort (by simpa using h.2)]
        exact .stays l hn (by simpa using hfits)

theorem moveLine_tag (k : Nat) (rest : Text) {column : Int} (h : 0 ≤ column) :
    moveLine (column - k) (List.replicate k ' ' ++ '<' :: rest) =
      List.replicate column.toNat ' ' ++ '<' :: rest := by
  rcases le_or_gt (k : Int) column with hk | hk
  · obtain ⟨m, rfl⟩ : ∃ m : Nat, column = m + k := ⟨(column - k).toNat, by omega⟩
    rw [Int.add_sub_cancel, moveLine_nat m (by simp), ← append_assoc, replicate_append_replicate]
    rfl
  · obtain ⟨m, hm⟩ : ∃ m : Nat, k = m + column.toNat := ⟨k - column.toNat, by omega⟩
    have hshift : column - k = -(m : Int) := by omega
    rw [hshift, hm, ← replicate_append_replicate, append_assoc, moveLine_neg]

theorem alignment_tag (column : Int) (k : Nat) (rest : Text) :
    alignment (some column) (List.replicate k ' ' ++ '<' :: rest) = column - k := by
  have hbody : trimLeft (· == ' ') (List.replicate k ' ' ++ '<' :: rest) = '<' :: rest := by
    rw [trimLeft, dropWhile_append_of_pos (by simp)]
    rfl
  simp only [alignment, hbody, head?_cons, if_true]
  simp

/-- Moved blocks end aligned with their start. A block whose last line is a tag after spaces keeps its first
line and the number of its lines. Each line between moves by the shift, and from the line numbered `first`
on by as much as the last line, and the tag gets to the column `column + shift`. -/
theorem moved_block_aligned {s head rest : Text} {middle : List Text} {k first : Nat} {shift column : Int}
    (hs : splitAt '\n' s = head :: (middle ++ [List.replicate k ' ' ++ '<' :: rest])) (hshift : shift ≠ 0)
    (hcolumn : 0 ≤ column + shift) (hfirst : first ≤ middle.length + 1) :
    (∃ lines, splitAt '\n' (move s shift (some column) first) =
        head :: (lines ++ [List.replicate (column + shift).toNat ' ' ++ '<' :: rest]) ∧
      lines.length = middle.length ∧ ∀ i l m, middle[i]? = some l → lines[i]? = some m →
        Moved (if first ≤ i + 1 then shift + (column - k) else shift) l m) ∧
    (shift.natAbs ≤ Extent.runLimit → (shift + (column - k)).natAbs ≤ Extent.runLimit →
      tryMove s shift (some column) first = .ok (move s shift (some column) first)) := by
  refine ⟨⟨moveLines shift (shift + (column - k)) first 1 middle, ?_, moveLines_length .., fun i l m hl hm => ?_⟩,
    fun hnear hlate => tryMove_eq s first (.inl hnear) fun last hlast => ?_⟩
  · obtain ⟨line, ls, hls⟩ := exists_cons_of_ne_nil
      (append_ne_nil_of_right_ne_nil middle (cons_ne_nil (List.replicate k ' ' ++ '<' :: rest) []))
    have hmoved := splitAt_move (some column) first hshift (hs.trans (congrArg _ hls))
    have hlate : shift + (column - k) = column + shift - k := by omega
    rw [hmoved, ← hls, shifts, getLast?_concat, Option.getD_some, alignment_tag, moveLines_concat,
      if_pos (by omega), hlate, moveLine_tag k rest hcolumn]
  · rw [getElem?_moveLines, hl] at hm
    cases hm
    rw [Nat.add_comm 1 i]
    exact moved_moveLine _ l
  · rw [hs, getLast?_cons, getLast?_concat] at hlast
    cases hlast
    exact .inl ((alignment_tag column k rest).symm ▸ hlate)

def listing : Text := "<ul>\n        <li/>\n  </ul>".toList

theorem moved_block_aligned_listing : ∃ lines,
    splitAt '\n' (move listing (-2) (some 4) 2) = "<ul>".toList :: (lines ++ ["  </ul>".toList]) ∧
      lines.length = 1 ∧ ∀ m, lines[0]? = some m → Moved (-2) "        <li/>".toList m := by
  have hs : splitAt '\n' listing = "<ul>".toList ::
      (["        <li/>".toList] ++ [List.replicate 2 ' ' ++ '<' :: "/ul>".toList]) := rfl
  obtain ⟨⟨lines, hlines, hlength, hmoved⟩, -⟩ := moved_block_aligned hs (by decide : (-2 : Int) ≠ 0)
    (by decide : (0 : Int) ≤ 4 + -2) (by decide : 2 ≤ 2)
  exact ⟨lines, hlines, hlength, fun m hm => hmoved 0 _ m rfl hm⟩

/-- An empty line is not moved, though all others are. -/
theorem empty_line_not_moved : splitAt '\n' (move "a\n\n<".toList 1 (some 0)) = [['a'], [], [' ', '<']] := rfl

end Indentation
end InlineMarkup

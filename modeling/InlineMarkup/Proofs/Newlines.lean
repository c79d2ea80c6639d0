import Mathlib
import InlineMarkup.Markup.Builder

/-!
Newlines in what a builder writes. Names, quoted values and normalised data hold none. Code that is laid
out holds as many as the rows it goes down, but for the rows that its tokens take without a newline.
-/
namespace InlineMarkup

def newlines (s : Text) : Nat := Text.tally '\n' s

@[simp] theorem newlines_nil : newlines [] = 0 := rfl

@[simp] theorem newlines_append (s t : Text) : newlines (s ++ t) = newlines s + newlines t := by
  simp [newlines, Text.tally]

theorem newlines_eq_zero {s : Text} (h : '\n' ∉ s) : newlines s = 0 := by
  simpa [newlines, Text.tally, List.countP_eq_zero] using fun c hc (heq : c = '\n') => h (heq ▸ hc)

theorem newlines_cons (c : Char) (s : Text) : newlines (c :: s) = newlines s + if c = '\n' then 1 else 0 := by
  simp [newlines, Text.tally, List.countP_cons]

theorem newlines_copies_newline {n : Int} (h : 0 ≤ n) : (newlines (Text.copies n '\n') : Int) = n := by
  have hcount : newlines (Text.copies n '\n') = n.toNat := by
    simp [newlines, Text.tally, Text.copies, List.countP_replicate]
  rw [hcount, Int.toNat_of_nonneg h]

theorem newlines_copies_space (n : Int) : newlines (Text.copies n ' ') = 0 :=
  newlines_eq_zero (by simp [Text.copies])

theorem Pos.advance_row (p : Pos) (s : Text) : (p.advance s).row = p.row + newlines s := by
  induction s generalizing p with
  | nil => simp
  | cons c s ih =>
    rw [Pos.advance_cons, ih, newlines_cons]
    unfold Pos.step
    split_ifs <;> simp; omega

/-! ### Texts without newlines -/

theorem toLower_ne_newline {c : Char} (hc : c ≠ '\n') : c.toLower ≠ '\n' := by
  unfold Char.toLower
  split
  · rename_i h
    intro heq
    have hlow : 65 ≤ c.val.toNat := UInt32.le_iff_toNat_le.mp h.1
    have hhigh : c.val.toNat ≤ 90 := UInt32.le_iff_toNat_le.mp h.2
    have hval := congrArg (fun d : Char => d.val.toNat) heq
    dsimp only at hval
    have hshift : ('a'.val - 'A'.val).toNat = 32 := rfl
    have hline : '\n'.val.toNat = 10 := rfl
    rw [UInt32.toNat_add, hshift, hline] at hval
    omega
  · exact hc

theorem ofNat_ne_newline {n : Nat} (h : 10 < n) : Char.ofNat n ≠ '\n' := by
  intro heq
  have hval := congrArg Char.toNat heq
  have hline : '\n'.toNat = 10 := rfl
  rw [Char.toNat_ofNat, hline] at hval
  split at hval <;> omega

theorem newline_not_mem_lowercase {c : Char} (hc : c ≠ '\n') : '\n' ∉ lowercase c := by
  have hruns : ∀ r ∈ caseRuns, 10 < (r.first : Int) + r.shift := by decide +kernel
  unfold lowercase
  split_ifs with h1 h2
  · simpa using (toLower_ne_newline hc).symm
  · decide
  · split
    · rename_i r hfind
      have hcovers : r.covers c = true := by simpa using List.find?_some hfind
      have hfirst : r.first ≤ c.toNat := by
        simp only [CaseRun.covers, Bool.and_eq_true, decide_eq_true_eq] at hcovers
        exact hcovers.1.1
      have hlow := hruns r (List.mem_of_find?_eq_some hfind)
      have hcode : 10 < (c.toNat + r.shift).toNat := by omega
      simpa using (ofNat_ne_newline hcode).symm
    · simpa using hc.symm

namespace Markup.Builder

theorem newline_not_mem_normalize (data : Text) (afterCode beforeCode : Bool) :
    '\n' ∉ normalize data afterCode beforeCode := by
  unfold normalize
  split
  · simp
  split
  · split
    · decide
    · simp
  · intro hmem
    obtain ⟨c, -, hc⟩ := List.mem_map.mp hmem
    split at hc
    · exact absurd hc (by decide)
    · rename_i hne
      exact hne (Or.inr hc)

end Markup.Builder

/-! ### Code that is laid out -/

namespace Layout

def slack (t : Token) : Int := (after t).row - t.start.row - newlines t.text

variable {p : Pos} {ts : List Token} {s : Text}

theorem newlines_gap {start : Pos} (h : p.row ≤ start.row) : (newlines (gap p start) : Int) = start.row - p.row := by
  rw [gap, newlines_append, newlines_copies_space, Nat.add_zero, newlines_copies_newline (by omega)]

def rowAfter (p : Pos) (ts : List Token) : Int := (ts.getLast?.map fun t => (after t).row).getD p.row

theorem rowAfter_cons (p : Pos) (t : Token) (ts : List Token) : rowAfter p (t :: ts) = rowAfter (after t) ts := by
  cases ts with
  | nil => rfl
  | cons u us => simp [rowAfter, List.getLast?_cons]

theorem text_cons_ok {t : Token} (h : text (some p) (t :: ts) = .ok s) :
    ∃ between more, s = between ++ t.text ++ more ∧ (newlines between : Int) = t.start.row - p.row ∧
      text (some (after t)) ts = .ok more := by
  rw [text] at h
  split at h
  · cases h
  rename_i hrow
  cases hmore : text (some (after t)) ts with
  | error f =>
    rw [hmore] at h
    cases h
  | ok more =>
    rw [hmore] at h
    cases h
    have hgap := newlines_gap (not_lt.mp hrow)
    have horigin := origin_row p t
    rw [horigin] at hgap
    exact ⟨_, more, rfl, hgap, rfl⟩

theorem newlines_text (h : text (some p) ts = .ok s) :
    (newlines s : Int) + (ts.map slack).sum = rowAfter p ts - p.row := by
  induction ts generalizing p s with
  | nil =>
    cases h
    simp [rowAfter]
  | cons t ts ih =>
    obtain ⟨between, more, rfl, hgap, hmore⟩ := text_cons_ok h
    have hrest := ih hmore
    rw [rowAfter_cons]
    simp only [newlines_append, List.map_cons, List.sum_cons, slack, Nat.cast_add]
    omega

theorem newlines_plain {t : Token} (h : plain (t :: ts) = .ok s) :
    (newlines s : Int) + ((t :: ts).map slack).sum = rowAfter t.start (t :: ts) - t.start.row := by
  have hsome : text (some t.start) (t :: ts) = text none (t :: ts) := by
    unfold text
    rfl
  exact newlines_text (hsome.trans h)

end Layout

end InlineMarkup

import Mathlib
import InlineMarkup.Text.Basic

/-!
The lines of a text. They make up the text again, and a newline stands only at the end of a line.
-/
namespace InlineMarkup.Text

open List

def SingleLine (s : Text) : Prop := ∀ front rest, s = front ++ '\n' :: rest → rest = []

theorem flatten_lines (s : Text) : (lines s).flatten = s := by
  induction s with
  | nil => rfl
  | cons c rest ih =>
    simp only [lines]
    split
    · rename_i hc
      simp [hc, ih]
    · split
      · rename_i hrest
        rw [hrest] at ih
        simp [← ih]
      · rename_i line more hrest
        rw [hrest] at ih
        simp [← ih]

variable {s l : Text}

theorem ne_nil_of_mem_lines (h : l ∈ lines s) : l ≠ [] := by
  induction s with
  | nil => simp [lines] at h
  | cons c rest ih =>
    simp only [lines] at h
    split at h
    · rcases mem_cons.mp h with rfl | h
      · simp
      · exact ih h
    · split at h
      · rw [mem_singleton] at h
        simp [h]
      · rename_i line more hrest
        rcases mem_cons.mp h with rfl | h
        · simp
        · exact ih (hrest ▸ mem_cons_of_mem _ h)

theorem singleLine_newline : SingleLine ['\n'] := by
  intro front rest h
  have hlen := congrArg List.length h
  simp only [length_cons, length_nil, length_append] at hlen
  exact eq_nil_of_length_eq_zero (by omega)

theorem SingleLine.cons {c : Char} (hc : c ≠ '\n') (h : SingleLine s) : SingleLine (c :: s) := by
  intro front rest heq
  cases front with
  | nil => exact absurd (List.cons.inj heq).1 hc
  | cons d front => exact h front rest (List.cons.inj heq).2

theorem singleLine_nil : SingleLine [] := by
  intro front rest h
  simp at h

theorem SingleLine.drop (h : SingleLine s) (n : Nat) : SingleLine (s.drop n) := by
  intro front rest heq
  refine h (s.take n ++ front) rest ?_
  rw [append_assoc, ← heq, take_append_drop]

theorem singleLine_of_mem_lines (h : l ∈ lines s) : SingleLine l := by
  induction s generalizing l with
  | nil => simp [lines] at h
  | cons c rest ih =>
    simp only [lines] at h
    split at h
    · rcases mem_cons.mp h with rfl | h
      · exact singleLine_newline
      · exact ih h
    · rename_i hc
      split at h
      · rw [mem_singleton] at h
        exact h ▸ singleLine_nil.cons hc
      · rename_i line more hrest
        rcases mem_cons.mp h with rfl | h
        · exact (ih (hrest ▸ mem_cons_self)).cons hc
        · exact ih (hrest ▸ mem_cons_of_mem _ h)

theorem SingleLine.noNewline_take (h : SingleLine s) {n : Nat} {c : Char}
    (hlast : (s.take n).getLast? = some c) (hc : c ≠ '\n') : ∀ d ∈ s.take n, d ≠ '\n' := by
  rintro d hd rfl
  obtain ⟨front, rest, hsplit⟩ := append_of_mem hd
  have hrest : rest ++ s.drop n = [] := by
    refine h front _ ?_
    rw [← cons_append, ← append_assoc, ← hsplit, take_append_drop]
  rw [hsplit, (append_eq_nil_iff.mp hrest).1, getLast?_append] at hlast
  exact hc (by simpa using hlast.symm)

theorem trimRight_append (p : Char → Bool) (s : Text) : ∃ tail, s = trimRight p s ++ tail ∧ (∀ c ∈ tail, p c) ∧
      ∀ c, (trimRight p s).getLast? = some c → p c = false := by
  refine ⟨(s.reverse.takeWhile p).reverse, ?_, ?_, ?_⟩
  · have h := takeWhile_append_dropWhile (p := p) (l := s.reverse)
    have h2 := congrArg List.reverse h
    rw [reverse_append, reverse_reverse] at h2
    exact h2.symm
  · intro c hc
    exact mem_takeWhile_imp (mem_reverse.mp hc)
  · intro c hc
    rw [trimRight, getLast?_reverse] at hc
    have hhead := head?_dropWhile_not p s.reverse
    rw [hc] at hhead
    simpa using hhead

/-! ### Complete lines -/

def IsLine (l : Text) : Prop := SingleLine l ∧ l.getLast? = some '\n'

theorem IsLine.ne_nil (h : IsLine l) : l ≠ [] := by
  rintro rfl
  exact absurd h.2 (by simp)

theorem IsLine.eq_append (h : IsLine l) : ∃ body, l = body ++ ['\n'] ∧ ∀ c ∈ body, c ≠ '\n' := by
  obtain ⟨body, hbody⟩ := getLast?_eq_some_iff.mp h.2
  refine ⟨body, hbody, ?_⟩
  rintro c hc rfl
  obtain ⟨front, rest, hsplit⟩ := append_of_mem hc
  have := h.1 front (rest ++ ['\n']) (by rw [hbody, hsplit]; simp)
  simp at this

theorem isLine_append {body : Text} (h : ∀ c ∈ body, c ≠ '\n') : IsLine (body ++ ['\n']) := by
  refine ⟨?_, by simp⟩
  induction body with
  | nil => exact singleLine_newline
  | cons c rest ih =>
    exact (ih fun d hd => h d (mem_cons_of_mem _ hd)).cons (h c mem_cons_self)

theorem isLine_of_mem_lines (hs : s = [] ∨ s.getLast? = some '\n') : ∀ l ∈ lines s, IsLine l := by
  induction s with
  | nil => simp [lines]
  | cons c rest ih =>
    have hrest : rest = [] ∨ rest.getLast? = some '\n' := by
      cases rest with
      | nil => exact Or.inl rfl
      | cons d more => exact Or.inr (by simpa [getLast?_cons_cons] using hs)
    intro l hl
    refine ⟨singleLine_of_mem_lines hl, ?_⟩
    simp only [lines] at hl
    split at hl
    · rcases mem_cons.mp hl with rfl | hl
      · rfl
      · exact (ih hrest l hl).2
    · rename_i hc
      split at hl
      · rename_i hnil
        have hempty : rest = [] := by rw [← flatten_lines rest, hnil]; rfl
        rw [hempty] at hs
        simp [hc] at hs
      · rename_i line more hmore
        rcases mem_cons.mp hl with rfl | hl
        · have hline := (ih hrest line (hmore ▸ mem_cons_self)).2
          rw [getLast?_cons, hline]
          rfl
        · exact (ih hrest l (hmore ▸ mem_cons_of_mem _ hl)).2

theorem lines_append (hl : IsLine l) (s : Text) : lines (l ++ s) = l :: lines s := by
  obtain ⟨body, rfl, hbody⟩ := hl.eq_append
  clear hl
  induction body with
  | nil => rfl
  | cons c rest ih =>
    have hc : c ≠ '\n' := hbody c mem_cons_self
    have hrest := ih fun d hd => hbody d (mem_cons_of_mem _ hd)
    rw [cons_append, cons_append, lines, if_neg hc, hrest]

theorem lines_of_noNewline (hs : ∀ c ∈ s, c ≠ '\n') (hne : s ≠ []) : lines s = [s] := by
  induction s with
  | nil => exact absurd rfl hne
  | cons c rest ih =>
    have hc : c ≠ '\n' := hs c mem_cons_self
    rw [lines, if_neg hc]
    cases rest with
    | nil => rfl
    | cons d more => rw [ih (fun e he => hs e (mem_cons_of_mem _ he)) (by simp)]

theorem lines_flatten_append {ls : List Text} (hls : ∀ l ∈ ls, IsLine l) (s : Text) :
    lines (ls.flatten ++ s) = ls ++ lines s := by
  induction ls with
  | nil => rfl
  | cons l ls ih =>
    rw [flatten_cons, append_assoc, lines_append (hls l mem_cons_self),
      ih fun k hk => hls k (mem_cons_of_mem _ hk), cons_append]

end InlineMarkup.Text

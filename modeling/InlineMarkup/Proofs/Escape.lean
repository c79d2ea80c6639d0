import Mathlib
import InlineMarkup.Text.Escape

/-!
Text in markup stands for itself. Escaping replaces one character after another throughout the text, and comes to
the same as escaping character by character: what is escaped holds no character that marks up, and resolving its
references gives the text back.
-/
namespace InlineMarkup.Text

open List

/-! ### One character at a time -/

def escapeChar (c : Char) : Text :=
  if c = '&' then "&amp;".toList
  else if c = '<' then "&lt;".toList
  else if c = '>' then "&gt;".toList
  else if c = '"' then "&quot;".toList
  else [c]

theorem replaceChar_append (old : Char) (new s t : Text) :
    replaceChar old new (s ++ t) = replaceChar old new s ++ replaceChar old new t := flatMap_append

@[simp] theorem escape_nil : escape [] = [] := rfl

@[simp] theorem escape_append (s t : Text) : escape (s ++ t) = escape s ++ escape t := by
  simp only [escape, replaceChar_append]

-- the ampersand goes first, so no later pass touches one that stands in a reference
theorem escape_singleton (c : Char) : escape [c] = escapeChar c := by
  by_cases hmarked : c = '&' ∨ c = '<' ∨ c = '>'
  · rcases hmarked with rfl | rfl | rfl <;> decide
  · simp only [not_or] at hmarked
    simp [escape, escapeChar, replaceChar, hmarked]

@[simp] theorem escape_cons (c : Char) (s : Text) : escape (c :: s) = escapeChar c ++ escape s := by
  rw [← escape_singleton, ← escape_append, singleton_append]

theorem escape_eq_flatMap (s : Text) : escape s = s.flatMap escapeChar := by
  induction s with
  | nil => rfl
  | cons c s ih => rw [escape_cons, ih, flatMap_cons]

theorem escapeChar_ne_nil (c : Char) : escapeChar c ≠ [] := by
  unfold escapeChar
  split_ifs <;> simp

theorem escape_eq_nil_iff (s : Text) : escape s = [] ↔ s = [] := by
  cases s with
  | nil => simp
  | cons c rest => simp [escapeChar_ne_nil]

variable {c x : Char}

theorem not_mem_escape (hc : c = '<' ∨ c = '>' ∨ c = '"') (s : Text) : c ∉ escape s := by
  intro hmem
  rw [escape_eq_flatMap] at hmem
  obtain ⟨d, -, hd⟩ := mem_flatMap.mp hmem
  unfold escapeChar at hd
  split_ifs at hd with h1 h2 h3 h4
  · rcases hc with rfl | rfl | rfl <;> simp at hd
  · rcases hc with rfl | rfl | rfl <;> simp at hd
  · rcases hc with rfl | rfl | rfl <;> simp at hd
  · rcases hc with rfl | rfl | rfl <;> simp at hd
  · rw [mem_singleton.mp hd] at hc
    exact hc.elim h2 fun h => h.elim h3 h4

/-! ### Resolving references -/

def IsMarked (c : Char) : Prop := c = '&' ∨ c = '<' ∨ c = '>' ∨ c = '"'

theorem escapeChar_of_not_isMarked (h : ¬ IsMarked c) : escapeChar c = [c] := by
  obtain ⟨h1, h2, h3, h4⟩ : c ≠ '&' ∧ c ≠ '<' ∧ c ≠ '>' ∧ c ≠ '"' := by simpa [IsMarked] using h
  simp [escapeChar, h1, h2, h3, h4]

theorem escapeChar_eq_cons (h : IsMarked c) : ∃ rest, escapeChar c = '&' :: rest := by
  rcases h with rfl | rfl | rfl | rfl <;> exact ⟨_, rfl⟩

theorem length_le_escape (s : Text) : s.length ≤ (escape s).length := by
  induction s with
  | nil => exact le_rfl
  | cons c s ih =>
    have hc := length_pos_iff.2 (escapeChar_ne_nil c)
    simp only [escape_cons, length_append, length_cons]
    omega

theorem escape_eq_self_iff (s : Text) : escape s = s ↔ ∀ c ∈ s, ¬ IsMarked c := by
  induction s with
  | nil => simp
  | cons c s ih =>
    by_cases hc : IsMarked c
    · refine ⟨fun h => ?_, fun h => absurd hc (h c mem_cons_self)⟩
      have hlong : 2 ≤ (escapeChar c).length := by rcases hc with rfl | rfl | rfl | rfl <;> decide
      have hlength := congrArg List.length h
      have hle := length_le_escape s
      simp only [escape_cons, length_append, length_cons] at hlength
      omega
    · rw [escape_cons, escapeChar_of_not_isMarked hc, singleton_append, List.cons.injEq, ih]
      simp [hc]

def escapeCharExcept (done : List Char) (c : Char) : Text := if c ∈ done then [c] else escapeChar c

theorem replace_cons_of_not_prefix {old new rest : Text} (h : old.isPrefixOf (c :: rest) = false) :
    replace old new (c :: rest) = c :: replace old new rest := by
  simp [replace, replaceFrom, h]

theorem replace_cons_of_ne {old new : Text} {d : Char} (rest : Text) (hd : c ≠ d) :
    replace (d :: old) new (c :: rest) = c :: replace (d :: old) new rest :=
  replace_cons_of_not_prefix (by simp [List.isPrefixOf, hd.symm])

theorem replaceFrom_append (old new s rest : Text) :
    replaceFrom old new s.length (s ++ rest) = replaceFrom old new 0 rest := by
  induction s with
  | nil => rfl
  | cons c s ih => exact ih

theorem replace_pattern (c : Char) (old new rest : Text) :
    replace (c :: old) new ((c :: old) ++ rest) = new ++ replace (c :: old) new rest := by
  have hprefix : (c :: old).isPrefixOf (c :: (old ++ rest)) = true := by simp
  unfold replace
  rw [cons_append, replaceFrom, if_pos hprefix]
  exact congrArg (new ++ ·) (replaceFrom_append (c :: old) new old rest)

theorem replace_other (hx : IsMarked x) (hc : IsMarked c) (hne : c ≠ x) (rest : Text) :
    replace (escapeChar x) [x] (escapeChar c ++ rest) = escapeChar c ++ replace (escapeChar x) [x] rest := by
  rcases hx with rfl | rfl | rfl | rfl <;> rcases hc with rfl | rfl | rfl | rfl <;>
    simp [escapeChar, replace, replaceFrom, List.isPrefixOf] at hne ⊢

theorem replace_escapeCharExcept {done : List Char} (hx : IsMarked x) (hdone : x ∉ done)
    (hamp : '&' ∉ done) (c : Char) (rest : Text) : replace (escapeChar x) [x] (escapeCharExcept done c ++ rest) =
      escapeCharExcept (x :: done) c ++ replace (escapeChar x) [x] rest := by
  obtain ⟨name, hname⟩ := escapeChar_eq_cons hx
  by_cases hcx : c = x
  · subst hcx
    simp only [escapeCharExcept, if_neg hdone, mem_cons_self, if_true, hname]
    exact replace_pattern '&' name [c] rest
  have hsame : escapeCharExcept (x :: done) c = escapeCharExcept done c := by
    simp [escapeCharExcept, hcx]
  rw [hsame]
  by_cases hmarked : IsMarked c ∧ c ∉ done
  · simp only [escapeCharExcept, if_neg hmarked.2]
    exact replace_other hx hmarked.1 hcx rest
  · have hplain : escapeCharExcept done c = [c] := by
      unfold escapeCharExcept
      split
      · rfl
      · rename_i hc
        exact escapeChar_of_not_isMarked fun h => hmarked ⟨h, hc⟩
    have hne : c ≠ '&' := by
      rintro rfl
      exact hmarked ⟨Or.inl rfl, hamp⟩
    rw [hplain, hname]
    exact replace_cons_of_ne rest hne

theorem replace_flatMap {x : Char} {done : List Char} (hx : IsMarked x) (hdone : x ∉ done) (hamp : '&' ∉ done)
    (s : Text) :
    replace (escapeChar x) [x] (s.flatMap (escapeCharExcept done)) = s.flatMap (escapeCharExcept (x :: done)) := by
  induction s with
  | nil => rfl
  | cons c s ih =>
    rw [flatMap_cons, flatMap_cons, replace_escapeCharExcept hx hdone hamp, ih]

theorem unescape_escape (s : Text) : unescape (escape s) = s := by
  have hstart : escape s = s.flatMap (escapeCharExcept []) := escape_eq_flatMap s
  have hend : s.flatMap (escapeCharExcept ['&', '"', '<', '>']) = s := by
    have hchar : ∀ c, escapeCharExcept ['&', '"', '<', '>'] c = [c] := by
      intro c
      unfold escapeCharExcept
      split
      · rfl
      · rename_i hc
        exact escapeChar_of_not_isMarked fun h => hc (by simpa [IsMarked, or_comm, or_left_comm] using h)
    simp [funext hchar]
  have hgt := @replace_flatMap '>' [] (by simp [IsMarked]) (by simp) (by simp) s
  have hlt := @replace_flatMap '<' ['>'] (by simp [IsMarked]) (by simp) (by simp) s
  have hquot := @replace_flatMap '"' ['<', '>'] (by simp [IsMarked]) (by simp) (by simp) s
  have hamp := @replace_flatMap '&' ['"', '<', '>'] (by simp [IsMarked]) (by simp) (by simp) s
  rw [hend] at hamp
  rw [← hquot, ← hlt, ← hgt, ← hstart] at hamp
  exact hamp

/-- Escaping goes character by character, each of the four that mark up becoming its reference, and resolving the
references undoes it. -/
theorem escape_charwise (s : Text) : escape s = (s.map fun c => escape [c]).flatten ∧ (∀ c, escape [c] = escapeChar c) ∧
    (∀ t, escape (s ++ t) = escape s ++ escape t) ∧ unescape (escape s) = s := by
  refine ⟨?_, escape_singleton, escape_append s, unescape_escape s⟩
  simp only [escape_singleton, escape_eq_flatMap s, flatMap_def]

example : unescape "&amp;quot;&amp;lt;".toList = "&quot;&lt;".toList := by decide

end InlineMarkup.Text

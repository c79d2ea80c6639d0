import Mathlib
import InlineMarkup.Element.Class
import InlineMarkup.Markup.Builder
import InlineMarkup.Proofs.Escape

/-!
Names of attributes as names of arguments. A name becomes that of an argument by substitutions throughout it, and the
opposite substitutions lead back. Main statement: a name that has nothing of what the substitutions write comes back,
so that different names of a tag are different arguments.
-/
namespace InlineMarkup.Element

open Markup.Builder Text List

/-- A name that has nothing of what stands for something else in the name of an argument. -/
structure PlainName (name : Text) : Prop where
  underscore : '_' ∉ name
  word : ¬ "COLON".toList <:+: name
  notClass : name ≠ "xclass".toList
  notFor : name ≠ "xfor".toList

variable {name p : Text}

theorem hyphens_restored (h : '_' ∉ name) : replaceChar '_' ['-'] (replaceChar ':' "COLON".toList
    (replaceChar '-' ['_'] name)) = replaceChar ':' "COLON".toList name := by
  simp only [replaceChar, flatMap_assoc]
  refine flatMap_congr fun c hc => ?_
  have hne : c ≠ '_' := fun heq => h (heq ▸ hc)
  by_cases hmarked : c = '-' ∨ c = ':'
  · rcases hmarked with rfl | rfl <;> decide
  · rw [not_or] at hmarked
    simp [hmarked, hne]

-- the word is found only where it was written, since its first letter comes up in it once
theorem prefix_of_prefix_replaceChar (hp : 'C' ∉ p) (h : p <+: replaceChar ':' "COLON".toList name) : p <+: name := by
  induction name generalizing p with
  | nil => exact h
  | cons c name ih =>
    cases p with
    | nil => exact nil_prefix
    | cons d p =>
      by_cases hc : c = ':'
      · subst hc
        have hfirst : d = 'C' := (cons_prefix_cons.1 h).1
        exact absurd (hfirst ▸ mem_cons_self) hp
      · rw [replaceChar, flatMap_cons, if_neg hc, singleton_append, cons_prefix_cons] at h
        exact cons_prefix_cons.2 ⟨h.1, ih (fun hmem => hp (mem_cons_of_mem d hmem)) h.2⟩

theorem colons_restored (h : ¬ "COLON".toList <:+: name) :
    replace "COLON".toList [':'] (replaceChar ':' "COLON".toList name) = name := by
  induction name with
  | nil => rfl
  | cons c name ih =>
    have hrest := ih fun hin => h (hin.trans (suffix_cons c name).isInfix)
    by_cases hc : c = ':'
    · subst hc
      have hword := replace_pattern 'C' "OLON".toList [':'] (replaceChar ':' "COLON".toList name)
      exact hword.trans (congrArg (':' :: ·) hrest)
    · have hcons : replaceChar ':' "COLON".toList (c :: name) = c :: replaceChar ':' "COLON".toList name := by
        simp [replaceChar, hc]
      have hfront : "COLON".toList.isPrefixOf (c :: replaceChar ':' "COLON".toList name) = false := by
        rw [Bool.eq_false_iff, Ne, isPrefixOf_iff_prefix]
        intro hprefix
        obtain ⟨rfl, hmore⟩ := cons_prefix_cons.1 hprefix
        exact h (cons_prefix_cons.2 ⟨rfl, prefix_of_prefix_replaceChar (by decide) hmore⟩).isInfix
      rw [hcons, replace_cons_of_not_prefix hfront, hrest]

theorem attributeName_argumentName (h : PlainName name) : attributeName (argumentName name) = name := by
  have hback := (congrArg (replace "COLON".toList [':']) (hyphens_restored h.underscore)).trans (colons_restored h.word)
  unfold argumentName
  split_ifs with hclass hfor
  · rw [hclass]
    decide
  · rw [hfor]
    decide
  · unfold attributeName
    rw [if_neg, if_neg, hback]
    · intro heq
      rw [heq] at hback
      exact h.notFor (hback.symm.trans (by decide))
    · intro heq
      rw [heq] at hback
      exact h.notClass (hback.symm.trans (by decide))

/-- A plain name comes back from the name of its argument, so the different names of a tag are different arguments. -/
theorem argument_names_tell_attributes : (∀ name, PlainName name → attributeName (argumentName name) = name) ∧
    ∀ names : List Text, (∀ name ∈ names, PlainName name) → names.Nodup → (names.map argumentName).Nodup := by
  refine ⟨fun name h => attributeName_argumentName h, fun names hplain hnames => hnames.map_on fun m hm n hn heq => ?_⟩
  rw [← attributeName_argumentName (hplain m hm), heq, attributeName_argumentName (hplain n hn)]

theorem argument_names_tell_attributes_colons : PlainName "C:OLON-O:".toList ∧
    attributeName (argumentName "C:OLON-O:".toList) = "C:OLON-O:".toList ∧
    (["class".toList, "C:OLON-O:".toList].map argumentName).Nodup := by
  have hclass : PlainName "class".toList := ⟨by decide, by decide, by decide, by decide⟩
  have hcolons : PlainName "C:OLON-O:".toList := ⟨by decide, by decide, by decide, by decide⟩
  refine ⟨hcolons, argument_names_tell_attributes.1 _ hcolons, argument_names_tell_attributes.2 _ ?_ (by decide)⟩
  exact forall_mem_cons.2 ⟨hclass, forall_mem_singleton.2 hcolons⟩

end InlineMarkup.Element

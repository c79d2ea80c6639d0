import InlineMarkup.Markup.Builder
import InlineMarkup.Proofs.Reading

/-!
Trees of elements, text and conditionals, the expressions they become, and the children they contribute.
-/
namespace InlineMarkup.Conditional

open Reading (Expr Value IsName path graft quoted)
open Markup.Builder (normalize)

/-! ### Trees -/

structure TagName where
  text : Text
  identifier : isIdentifier text = true
  letter : text.head?.any isAlphabetic = true
  ne_if : text ≠ "if".toList
  ne_else : text ≠ "else".toList

structure ConditionName where
  text : Text
  identifier : isIdentifier text = true
  isName : IsName text

structure Words where
  text : Text
  plain : ∀ c ∈ text, c ≠ '<' ∧ c ≠ '\\'

def Words.content (s : Words) : Text := normalize s.text false false

structure Gap extends Words where
  blank : normalize text false false = []

mutual

inductive Node where
  | element (tag : TagName) (body : Body)
  | choice (test : ConditionName) (yes : Body)
  | choiceElse (test : ConditionName) (yes : Body) (gap : Gap) (no : Body)

/-- The children of an element: text, then perhaps a node and more children. -/
inductive Body where
  | last (s : Words)
  | cons (s : Words) (node : Node) (rest : Body)

end

/-! ### Children that are selected -/

def made (cls : Expr) (children : List Value) : List Value :=
  if cls.isLibrary "x_frag".toList then children else [.element cls children]

def library : Option Text := some "html".toList

def TagName.home (tag : TagName) : Option Text :=
  if Element.Vocabulary.htmlTags.contains tag.text then library else none

def TagName.cls (tag : TagName) : Expr := path tag.home ("x_".toList ++ tag.text)

def Words.values (s : Words) : List Value := if s.content = [] then [] else [.text s.content]

mutual

def Node.selects (holds : Text → Bool) : Node → List Value
  | .element tag body => made tag.cls (body.selects holds)
  | .choice test yes => if holds test.text then yes.selects holds else []
  | .choiceElse test yes _ no => if holds test.text then yes.selects holds else no.selects holds

def Body.selects (holds : Text → Bool) : Body → List Value
  | .last s => s.values
  | .cons s node rest => s.values ++ (node.selects holds ++ rest.selects holds)

end

/-! ### Expressions -/

def Node.count : Node → Nat
  | .element _ _ => 1
  | .choice _ _ => 1
  | .choiceElse _ _ _ _ => 2

def Words.count (s : Words) : Nat := if s.content = [] then 0 else 1

def Body.count : Body → Nat
  | .last s => s.count
  | .cons s node rest => s.count + (node.count + rest.count)

def textExpr (s : Text) : Expr :=
  if quoted s ≠ Text.escape (quoted s) then .call (path library "rawhtml".toList) [.text s]
  else .text s

def Words.exprs (s : Words) : List Expr := if s.content = [] then [] else [textExpr s.content]

def fragment (es : List Expr) : Expr :=
  .call (.call (path library "x_frag".toList) []) es

def joined (count : Nat) (es : List Expr) : Expr := if count = 1 then es.headD .none else fragment es

mutual

def Node.expr : Node → Expr
  | .element tag body => .call (.call tag.cls []) body.exprs
  | .choice test yes => graft (.name test.text) .none (joined yes.count yes.exprs)
  | .choiceElse test yes _ no =>
    graft (.name test.text) (joined no.count no.exprs) (joined yes.count yes.exprs)

def Body.exprs : Body → List Expr
  | .last s => s.exprs
  | .cons s node rest => s.exprs ++ node.expr :: rest.exprs

end

def Body.branch (body : Body) : Expr := joined body.count body.exprs

/-! ### Children that are contributed -/

mutual

def Node.fires (holds : Text → Bool) : Node → Bool
  | .choice test yes => holds test.text || yes.fires holds
  | _ => false

def Body.fires (holds : Text → Bool) : Body → Bool
  | .last _ => false
  | .cons s node rest => if s.count + (node.count + rest.count) = 1 then node.fires holds else false

end

mutual

def Node.contributes (holds : Text → Bool) : Node → List Value
  | .element tag body => made tag.cls (body.contributes holds)
  | .choice test yes => if holds test.text || yes.fires holds then yes.contributes holds else []
  | .choiceElse test yes _ no =>
    if holds test.text || yes.fires holds then yes.contributes holds else no.contributes holds

def Body.contributes (holds : Text → Bool) : Body → List Value
  | .last s => s.values
  | .cons s node rest => s.values ++ (node.contributes holds ++ rest.contributes holds)

end

mutual

def Node.leaks (holds : Text → Bool) : Node → Bool
  | .element _ body => body.leaks holds
  | .choice test yes => if holds test.text then yes.leaks holds else yes.fires holds
  | .choiceElse test yes _ no =>
    if holds test.text then yes.leaks holds else yes.fires holds || no.leaks holds

def Body.leaks (holds : Text → Bool) : Body → Bool
  | .last _ => false
  | .cons _ node rest => node.leaks holds || rest.leaks holds

end

mutual

theorem Node.contributes_of_not_leaks {holds : Text → Bool} :
    ∀ {node : Node}, node.leaks holds = false → node.contributes holds = node.selects holds
  | .element tag body, h => by
    simp only [Node.contributes, Node.selects]
    rw [Body.contributes_of_not_leaks h]
  | .choice test yes, h => by
    simp only [Node.contributes, Node.selects]
    cases htest : holds test.text with
    | true =>
      rw [Node.leaks, if_pos htest] at h
      simp [Body.contributes_of_not_leaks h]
    | false =>
      rw [Node.leaks, if_neg (by simp [htest])] at h
      simp [h]
  | .choiceElse test yes gap no, h => by
    simp only [Node.contributes, Node.selects]
    cases htest : holds test.text with
    | true =>
      rw [Node.leaks, if_pos htest] at h
      simp [Body.contributes_of_not_leaks h]
    | false =>
      rw [Node.leaks, if_neg (by simp [htest]), Bool.or_eq_false_iff] at h
      simp [h.1, Body.contributes_of_not_leaks h.2]

theorem Body.contributes_of_not_leaks {holds : Text → Bool} :
    ∀ {body : Body}, body.leaks holds = false → body.contributes holds = body.selects holds
  | .last s, _ => rfl
  | .cons s node rest, h => by
    rw [Body.leaks, Bool.or_eq_false_iff] at h
    simp only [Body.contributes, Body.selects]
    rw [Node.contributes_of_not_leaks h.1, Body.contributes_of_not_leaks h.2]

end

/-! ### The values of expressions -/

def firing (holds : Text → Bool) : Expr → Bool
  | .cond _ test other => test.holds holds || firing holds other
  | _ => false

theorem firing_eq_false (holds : Text → Bool) {e : Expr}
    (he : ∀ value test other, e = .cond value test other → False) : firing holds e = false := by
  cases e with
  | cond value test other => exact absurd rfl (he value test other)
  | _ => rfl

theorem values_graft (holds : Text → Bool) (test other e : Expr) : (graft test other e).values holds =
      if firing holds e || test.holds holds then e.values holds else other.values holds := by
  fun_induction graft test other e with
  | case1 value first last ih =>
    rw [Expr.values, ih, firing, Expr.values]
    cases first.holds holds <;> simp
  | case2 e he =>
    rw [Expr.values, firing_eq_false holds he, Bool.false_or]

theorem firing_graft (holds : Text → Bool) (test other e : Expr) :
    firing holds (graft test other e) = (firing holds e || (test.holds holds || firing holds other)) := by
  fun_induction graft test other e with
  | case1 value first last ih => rw [firing, ih, firing, Bool.or_assoc]
  | case2 e he =>
    rw [firing, firing_eq_false holds he, Bool.false_or]

theorem firing_textExpr (holds : Text → Bool) (s : Text) : firing holds (textExpr s) = false := by
  unfold textExpr
  split <;> rfl

theorem Node.count_pos (node : Node) : 0 < node.count := by
  cases node <;> simp [Node.count]

theorem Words.exprs_of_count {s : Words} (h : s.count = 0) : s.exprs = [] := by
  unfold Words.count at h
  unfold Words.exprs
  split at h
  · rw [if_pos ‹_›]
  · cases h

theorem Body.exprs_of_count {body : Body} (h : body.count = 0) : body.exprs = [] := by
  cases body with
  | last s => exact Words.exprs_of_count h
  | cons s node rest =>
    rw [Body.count] at h
    have hpos := node.count_pos
    omega

theorem Body.single {body : Body} (h : body.count = 1) : (∃ s, body = .last s ∧ s.exprs = [textExpr s.content]) ∨
      ∃ s node rest, body = .cons s node rest ∧ node.count = 1 ∧ body.exprs = [node.expr] := by
  cases body with
  | last s =>
    refine Or.inl ⟨s, rfl, ?_⟩
    rw [Body.count, Words.count] at h
    unfold Words.exprs
    split at h
    · cases h
    · rw [if_neg ‹_›]
  | cons s node rest =>
    rw [Body.count] at h
    have hpos := node.count_pos
    refine Or.inr ⟨s, node, rest, rfl, by omega, ?_⟩
    rw [Body.exprs, Words.exprs_of_count (by omega), Body.exprs_of_count (by omega)]
    rfl

mutual

theorem Node.firing_expr (holds : Text → Bool) :
    ∀ node : Node, node.count = 1 → firing holds node.expr = node.fires holds
  | .element tag body, _ => rfl
  | .choice test yes, _ => by
    rw [Node.expr, firing_graft, Node.fires]
    have hyes : firing holds (joined yes.count yes.exprs) = yes.fires holds := Body.firing_branch holds yes
    rw [hyes]
    simp [firing, Expr.holds, Bool.or_comm]
  | .choiceElse _ _ _ _, h => by cases h

theorem Body.firing_branch (holds : Text → Bool) : ∀ body : Body, firing holds body.branch = body.fires holds
  | .last s => by
    by_cases h : s.count = 1
    · obtain ⟨u, hu, hexprs⟩ | ⟨u, node, rest, hu, -⟩ := @Body.single (.last s) h
      · cases hu
        rw [Body.branch, joined, Body.count, if_pos h, Body.exprs, hexprs]
        exact firing_textExpr holds _
      · cases hu
    · rw [Body.branch, joined, Body.count, if_neg h]
      rfl
  | .cons s node rest => by
    by_cases h : s.count + (node.count + rest.count) = 1
    · obtain ⟨u, hu, -⟩ | ⟨u, n, r, hu, hcount, hexprs⟩ := @Body.single (.cons s node rest) h
      · cases hu
      · cases hu
        rw [Body.branch, joined, Body.count, if_pos h, hexprs, Body.fires, if_pos h]
        exact Node.firing_expr holds node hcount
    · rw [Body.branch, joined, Body.count, if_neg h, Body.fires, if_neg h]
      rfl

end

theorem values_textExpr (holds : Text → Bool) (s : Text) : (textExpr s).values holds = [.text s] := by
  unfold textExpr
  split
  · rfl
  · rfl

theorem Words.valuesOf_exprs (holds : Text → Bool) (s : Words) : Reading.valuesOf holds s.exprs = s.values := by
  unfold Words.exprs Words.values
  split
  · rfl
  · rw [Reading.valuesOf, values_textExpr]
    rfl

theorem valuesOf_append (holds : Text → Bool) (es fs : List Expr) :
    Reading.valuesOf holds (es ++ fs) = Reading.valuesOf holds es ++ Reading.valuesOf holds fs := by
  induction es with
  | nil => rfl
  | cons e es ih => rw [List.cons_append, Reading.valuesOf, ih, Reading.valuesOf, List.append_assoc]

theorem values_fragment (holds : Text → Bool) (es : List Expr) :
    (fragment es).values holds = Reading.valuesOf holds es := by
  rw [fragment, Expr.values]
  exact if_pos (by decide)

theorem Body.values_branch (holds : Text → Bool) (body : Body) :
    body.branch.values holds = Reading.valuesOf holds body.exprs := by
  unfold Body.branch joined
  split
  · have hone : ∃ e, body.exprs = [e] := by
      obtain ⟨s, rfl, hexprs⟩ | ⟨_, node, _, _, _, hexprs⟩ := Body.single ‹_›
      · exact ⟨_, hexprs⟩
      · exact ⟨_, hexprs⟩
    obtain ⟨e, he⟩ := hone
    rw [he]
    simp [Reading.valuesOf]
  · exact values_fragment holds body.exprs

mutual

theorem Node.values_expr (holds : Text → Bool) : ∀ node : Node, node.expr.values holds = node.contributes holds
  | .element tag body => by
    rw [Node.expr, Expr.values, Body.valuesOf_exprs holds body]
    rfl
  | .choice test yes => by
    have hgraft := values_graft holds (.name test.text) .none yes.branch
    rw [Body.firing_branch, Body.values_branch, Body.valuesOf_exprs holds yes, Bool.or_comm] at hgraft
    exact hgraft
  | .choiceElse test yes gap no => by
    have hgraft := values_graft holds (.name test.text) no.branch yes.branch
    rw [Body.firing_branch, Body.values_branch, Body.values_branch, Body.valuesOf_exprs holds yes,
      Body.valuesOf_exprs holds no, Bool.or_comm] at hgraft
    exact hgraft

theorem Body.valuesOf_exprs (holds : Text → Bool) :
    ∀ body : Body, Reading.valuesOf holds body.exprs = body.contributes holds
  | .last s => s.valuesOf_exprs holds
  | .cons s node rest => by
    rw [Body.exprs, valuesOf_append, Words.valuesOf_exprs, Reading.valuesOf, Node.values_expr holds node,
      Body.valuesOf_exprs holds rest]
    rfl

end

end InlineMarkup.Conditional

import InlineMarkup.Proofs.Inputs
import InlineMarkup.Proofs.Weaving
import InlineMarkup.Translate

/-!
How far the expression that markup becomes is complete. If nothing that a builder is told has parentheses,
those of the expression match, but for one that each conditional leaves open that begins and ends at once.
The main statement is `expression_complete`.
-/
namespace InlineMarkup.Markup

open List

/-! ### Parentheses -/

def climb : Nat → Text → Option Nat
  | n, [] => some n
  | n, c :: s =>
    if c = '(' then climb (n + 1) s
    else if c = ')' then if n = 0 then none else climb (n - 1) s
    else climb n s

def Turns (k m : Nat) (s : Text) : Prop := ∀ j, climb (j + k) s = some (j + m)

def NotParen (c : Char) : Prop := c ≠ '(' ∧ c ≠ ')'

instance : DecidablePred NotParen := fun _ => inferInstanceAs (Decidable (_ ∧ _))

instance (s : Text) : Decidable (Over NotParen s) := List.decidableBAll NotParen s

theorem climb_append (n : Nat) (s t : Text) : climb n (s ++ t) = (climb n s).bind (climb · t) := by
  induction s generalizing n with
  | nil => rfl
  | cons c s ih =>
    simp only [cons_append, climb]
    split_ifs <;> simp [ih]

theorem Turns.append {k m n : Nat} {s t : Text} (hs : Turns k m s) (ht : Turns m n t) : Turns k n (s ++ t) := by
  intro j
  rw [climb_append, hs, Option.bind_some, ht]

theorem Turns.up {k m : Nat} {s : Text} (h : Turns k m s) (i : Nat) : Turns (k + i) (m + i) s := by
  intro j
  have hup := h (j + i)
  rwa [Nat.add_assoc, Nat.add_assoc, Nat.add_comm i k, Nat.add_comm i m] at hup

theorem Over.turns {s : Text} (h : Over NotParen s) (k : Nat) : Turns k k s := by
  intro j
  induction s with
  | nil => rfl
  | cons c s ih =>
    obtain ⟨⟨hopen, hclose⟩, hs⟩ := over_cons.1 h
    rw [climb, if_neg hopen, if_neg hclose, ih hs]

theorem turns_open (k : Nat) : Turns k (k + 1) ['('] := fun _ => rfl

theorem turns_close (k : Nat) : Turns (k + 1) k [')'] := fun _ => rfl

theorem wording_notParen : Wording NotParen := by
  intro w hw _ c hc
  have hfree := (mem_filter.1 hw).2
  simp only [Bool.and_eq_true, Bool.not_eq_true', contains_eq_mem, decide_eq_false_iff_not] at hfree
  refine ⟨?_, ?_⟩ <;> rintro rfl
  · exact hfree.1 hc
  · exact hfree.2 hc

def CodeFree (tokens : List Token) : Prop := ∀ s ∈ (Layout.plain tokens).toOption, Over NotParen s

theorem CodeFree.over {tokens : List Token} (h : CodeFree tokens) : Over NotParen (Builder.codeText tokens) := by
  unfold CodeFree at h
  unfold Builder.codeText
  cases hcode : (Layout.plain tokens).toOption with
  | none => exact over_nil
  | some s => exact h s hcode

def PartFree : Part → Prop
  | .text s => Over NotParen s
  | .code tokens => CodeFree tokens

def AttributesFree (attributes : List Attribute) : Prop :=
  ∀ a ∈ attributes, (∀ name ∈ a.name, Over NotParen name) ∧ ∀ parts ∈ a.value, ∀ p ∈ parts, PartFree p

def EventFree : Event → Prop
  | .start tag attributes | .startEnd tag attributes =>
    (∀ name ∈ tag, Over NotParen name) ∧ AttributesFree attributes
  | .finish _ => True
  | .data s | .comment s | .doctype s | .cdata s => Over NotParen s

instance (tokens : List Token) : Decidable (CodeFree tokens) := inferInstanceAs (Decidable (∀ s ∈ _, _))

instance : DecidablePred PartFree
  | .text s => inferInstanceAs (Decidable (Over NotParen s))
  | .code tokens => inferInstanceAs (Decidable (CodeFree tokens))

instance (attributes : List Attribute) : Decidable (AttributesFree attributes) :=
  inferInstanceAs (Decidable (∀ a ∈ attributes, _ ∧ _))

instance : DecidablePred EventFree
  | .start tag attributes | .startEnd tag attributes =>
    inferInstanceAs (Decidable ((∀ name ∈ tag, Over NotParen name) ∧ AttributesFree attributes))
  | .finish _ => .isTrue trivial
  | .data s | .comment s | .doctype s | .cdata s => inferInstanceAs (Decidable (Over NotParen s))

namespace Builder

/-! ### The parentheses of pieces -/

def texts (ps : List Piece) : Text := (ps.map Piece.text).flatten

section

variable {k m n : Nat} {ps qs : List Piece}

theorem turns_append (hps : Turns k m (texts ps)) (hqs : Turns m n (texts qs)) : Turns k n (texts (ps ++ qs)) := by
  rw [texts, map_append, flatten_append]
  exact hps.append hqs

theorem turns_own {s : Text} (hs : Turns k m s) (hps : Turns m n (texts ps)) : Turns k n (texts (.own s :: ps)) :=
  hs.append hps

theorem turns_nil (k : Nat) : Turns k k (texts []) := fun _ => rfl

theorem turns_codePart {tokens : List Token} (h : CodeFree tokens) (hps : Turns k n (texts ps)) :
    Turns k n (texts (codePart tokens :: ps)) := by
  have hcode : (codePart tokens).text = codeText tokens := by simp [codePart, Piece.text]
  have hall := (h.over.turns k).append hps
  rwa [← hcode] at hall

end

section

variable {f : Text} (hf : Over NotParen f)

include hf

theorem turns_valuePieces {parts : List Part} (h : ∀ p ∈ parts, PartFree p) (k : Nat) :
    Turns k k (texts (valuePieces f parts)) := by
  have hcomma (k : Nat) : Turns k k ", ".toList := fun _ => rfl
  have hparts (parts : List Part) (h : ∀ p ∈ parts, PartFree p) (k : Nat) :
      Turns k k (texts (parts.flatMap (partPieces f))) := by
    induction parts with
    | nil => exact turns_nil k
    | cons part rest ih =>
      obtain ⟨hpart, hrest⟩ := forall_mem_cons.1 h
      rw [flatMap_cons]
      refine turns_append ?_ (ih hrest)
      cases part with
      | text s => exact turns_own ((Over.quoted wording_notParen hpart).turns k) (turns_own (hcomma k) (turns_nil k))
      | code tokens =>
        exact turns_own ((hf.turns k).append (turns_open k)) (turns_codePart hpart
          (turns_own (turns_close k) (turns_own (hcomma k) (turns_nil k))))
  fun_cases valuePieces f parts
  · exact turns_codePart (h _ mem_cons_self) (turns_nil k)
  · exact turns_own ((Over.quoted wording_notParen (h _ mem_cons_self)).turns k) (turns_nil k)
  · have hopen : Turns k (k + 2) "u\"\".join((".toList := fun _ => rfl
    have hclose : Turns (k + 2) k "))".toList := fun _ => rfl
    exact turns_own hopen (turns_append (hparts parts h _) (turns_own hclose (turns_nil k)))

theorem turns_value {value : Option (List Part)} (h : ∀ parts ∈ value, ∀ p ∈ parts, PartFree p) (k : Nat) :
    Turns k k (texts (valuePieces f (valueParts value))) := by
  refine turns_valuePieces hf (forall_normalizeParts (P := PartFree) (fun _ h => h)
    (fun s hs => Over.normalize wording_notParen hs) false fun p hp => ?_) k
  cases value with
  | none => cases hp
  | some parts => exact h parts rfl p hp

theorem turns_attributesPieces {attributes : List Attribute} (h : AttributesFree attributes) (more : Bool) (k : Nat) :
    Turns k k (texts (attributesPieces f more attributes)) := by
  induction attributes generalizing more with
  | nil => exact turns_nil k
  | cons a rest ih =>
    obtain ⟨⟨hname, hvalue⟩, hrest⟩ := forall_mem_cons.1 h
    have hcomma : Turns k k (texts (if more then [.own ", ".toList] else [])) := by cases more <;> exact fun _ => rfl
    have hover : Over NotParen (a.name.getD []) := by
      cases hnone : a.name with
      | none => exact over_nil
      | some name => exact hname name hnone
    exact turns_append hcomma (turns_own ((Over.argumentName wording_notParen hover).turns k)
      (turns_own (fun _ => rfl) (turns_append (turns_value hf hvalue k) (ih hrest true))))

theorem turns_tagPieces {tag : Text} {attributes : List Attribute} (htag : Over NotParen tag)
    (h : AttributesFree attributes) (call : Bool) : Turns 0 call.toNat (texts (tagPieces f tag attributes call)) := by
  have hname : Turns 0 1 (texts ((classPieces tag).map .own)) := by
    have hpiece := ((Over.className wording_notParen htag).turns 0).append (turns_open 0)
    unfold classPieces
    split
    · exact turns_own (s := "html.".toList) (fun _ => rfl) (turns_own hpiece (turns_nil 1))
    · exact turns_own hpiece (turns_nil 1)
  have hcall : Turns 0 call.toNat (texts (if call then [.own ['(']] else [])) := by cases call <;> exact fun _ => rfl
  exact turns_append hname (turns_append (turns_attributesPieces hf h false 1) (turns_own (turns_close 0) hcall))

theorem turns_endPieces {t : OpenTag} (h : AttributesFree t.attributes) : Turns 0 0 (texts (endPieces f t)) := by
  unfold endPieces
  split
  · have hvalue : Turns 0 0 (texts (valuePieces f (valueParts ((conditionOf t).bind Attribute.value)))) := by
      refine turns_value hf (fun parts hparts => ?_) 0
      obtain ⟨a, ha, hvalue⟩ := Option.bind_eq_some_iff.1 hparts
      exact (h a (mem_of_find?_eq_some ha)).2 parts hvalue
    refine turns_own (s := " if ".toList) (fun _ => rfl) ?_
    unfold enclosed
    split
    · exact turns_own (turns_open 0) (turns_append (hvalue.up 1) (turns_own (turns_close 0) (turns_nil 0)))
    · exact turns_own (s := []) (fun _ => rfl) hvalue
  · exact turns_nil 0

end

theorem turns_dataPiece {d : Text} (h : Over NotParen d) : Turns 0 0 (dataPiece d) := by
  have hquoted (k : Nat) := (h.replaceChar (by simp [Over, NotParen] : Over NotParen ['\\', '"']) '"').turns k
  unfold dataPiece
  dsimp only
  split
  · exact .append (.append (fun _ => rfl) (hquoted 1)) fun _ => rfl
  · exact .append (.append (fun _ => rfl) (hquoted 0)) fun _ => rfl

theorem turns_codePiece {tokens : List Token} (h : CodeFree tokens) : Turns 0 0 (codePiece tokens (codeText
    tokens)) := by
  unfold codePiece
  split
  · exact .append (.append (turns_open 0) (h.over.turns 1)) fun _ => rfl
  · exact .append (h.over.turns 0) fun _ => rfl

/-! ### The parentheses of open elements -/

def isParen (c : Char) : Bool := c == '(' || c == ')'

def parens (out : List Text) : List Text := out.map (List.filter isParen)

theorem climb_filter (n : Nat) (s : Text) : climb n (s.filter isParen) = climb n s := by
  induction s generalizing n with
  | nil => rfl
  | cons c s ih =>
    by_cases hopen : c = '('
    · simp [hopen, isParen, climb, ih]
    · by_cases hclose : c = ')'
      · simp [hclose, isParen, climb, ih]
      · simp [hopen, hclose, isParen, climb, ih]

theorem turns_parens {k m : Nat} {ps : List Text} : Turns k m (parens ps).flatten ↔ Turns k m ps.flatten := by
  have hfilter : (parens ps).flatten = ps.flatten.filter isParen := filter_flatten.symm
  simp only [Turns, hfilter, climb_filter]

theorem parens_append (ps qs : List Text) : parens (ps ++ qs) = parens ps ++ parens qs := map_append

theorem Cut.parens {out new : List Text} (h : Cut out new) : parens new = parens out := by
  obtain ⟨front, x, blanks, tail, rfl, rfl, -⟩ := h
  simp [Builder.parens, isParen]

theorem Resolved.parens {out mid : List Text} {after : Bool} (h : Resolved out after mid) :
    ∃ qs : List Text, parens mid = parens out ++ qs ∧ Turns 0 0 qs.flatten := by
  cases h with
  | nothing => exact ⟨[], (append_nil _).symm, fun _ => rfl⟩
  | added _ hcut => exact ⟨[[]], by rw [parens_append, hcut.parens]; rfl, fun _ => rfl⟩

/-- The parentheses of the pieces, element by element: an open element has a call open, an open
conditional its fragment. -/
inductive Stacked (free : Prop) : List OpenTag → Nat → List Text → Prop where
  | nil {n : Nat} {ps : List Text} (hps : free → Turns 0 n ps.flatten) : Stacked free [] n ps
  | element {t : OpenTag} {tags : List OpenTag} {n m : Nat} {front ps : List Text} (h : Stacked free tags n front)
      (hopening : t.opening = none) (hps : free → Turns 0 (m + 1) ps.flatten) :
      Stacked free (t :: tags) (n + m) (front ++ ps)
  | branch {t : OpenTag} {tags : List OpenTag} {n m : Nat} {front ps : List Text} (h : Stacked free tags n front)
      (hopening : t.opening = some front.length) (hps : free → Turns 0 m ps.flatten) :
      Stacked free (t :: tags) (n + m) (front ++ "()(".toList :: ps)

section

variable {free : Prop} {t : OpenTag} {tags : List OpenTag} {n m : Nat} {L qs : List Text}

theorem Stacked.append (h : Stacked free tags n L) (hqs : free → Turns 0 m qs.flatten) :
    Stacked free tags (n + m) (L ++ qs) := by
  have hmore {k l : Nat} {ps : List Text} (hps : Turns k l ps.flatten) (hf : free) :
      Turns k (l + m) (ps ++ qs).flatten := by
    rw [flatten_append]
    have hup := (hqs hf).up l
    rw [Nat.zero_add, Nat.add_comm m l] at hup
    exact hps.append hup
  cases h with
  | nil hps => exact .nil fun hf => hmore (hps hf) hf
  | element h hopening hps =>
    rw [append_assoc, Nat.add_assoc]
    refine .element h hopening fun hf => ?_
    have hall := hmore (hps hf) hf
    rwa [Nat.add_right_comm] at hall
  | branch h hopening hps =>
    rw [append_assoc, Nat.add_assoc]
    exact .branch h hopening fun hf => hmore (hps hf) hf

theorem Stacked.counted (h : Stacked free tags n L) : Stacked free (bump tags) n L := by
  cases h with
  | nil hps => exact .nil hps
  | element h hopening hps => exact .element h hopening hps
  | branch h hopening hps => exact .branch h hopening hps

theorem Stacked.close (h : Stacked free (t :: tags) n L) (hqs : free → Turns 1 0 qs.flatten) :
    Stacked free tags n (L ++ qs) := by
  cases h with
  | @element _ _ _ m front ps h _ hps =>
    rw [append_assoc]
    refine h.append fun hf => ?_
    have hup := (hqs hf).up m
    rw [Nat.add_comm 1, Nat.zero_add] at hup
    rw [flatten_append]
    exact (hps hf).append hup
  | @branch _ _ _ m front ps h _ hps =>
    rw [append_assoc]
    refine h.append fun hf => ?_
    have hup := (hqs hf).up m
    rw [Nat.add_comm 1, Nat.zero_add] at hup
    have hopen : Turns 0 1 "()(".toList := fun _ => rfl
    rw [flatten_append, flatten_cons]
    exact (hopen.append (by simpa using (hps hf).up 1)).append hup

variable {v w : View} {f tag : Text} {new : List Text} {e : Event}

theorem Stacked.drop {i : Nat} (h : Stacked free (t :: tags) n L) (hopening : t.opening = some i) :
    L[i]? = some "()(".toList ∧ Stacked free tags n (L.set i []) := by
  cases h with
  | element _ hnone => simp [hnone] at hopening
  | @branch _ _ _ _ front ps h hsome hps =>
    obtain rfl : front.length = i := Option.some.inj (hsome.symm.trans hopening)
    refine ⟨by simp, ?_⟩
    have hset : (front ++ "()(".toList :: ps).set front.length [] = front ++ [] :: ps := by simp
    rw [hset]
    exact h.append hps

theorem Stacked.resolved {out mid : List Text} {after : Bool} (h : Stacked free tags n (parens out))
    (hmid : Resolved out after mid) : Stacked free tags n (parens mid) := by
  obtain ⟨qs, hqs, hturns⟩ := hmid.parens
  rw [hqs]
  exact h.append fun _ => hturns

theorem Stacked.write {ps out : List Text} (h : Stacked free tags n (parens out))
    (hps : free → Turns 0 m ps.flatten) : Stacked free tags (n + m) (parens (out ++ ps)) := by
  rw [parens_append]
  exact h.append fun hf => turns_parens.2 (hps hf)

theorem Stacked.calms {C : Part → Prop} (hC : free → ∀ p, C p → PartFree p)
    (hv : Stacked free v.tags n (parens v.output)) (h : Calms C v w) : Stacked free w.tags n (parens w.output) := by
  induction h with
  | refl => exact hv
  | tail _ hstep ih =>
    cases hstep with
    | resolve hmid => exact ih.resolved hmid
    | @rows ps hps =>
      refine ih.write (m := 0) fun _ => Over.turns (fun c hc => ?_) 0
      obtain ⟨p, hp, hcp⟩ := mem_flatten.1 hc
      rw [hps p hp c hcp]
      decide
    | @text s _ hs afterCode beforeCode =>
      have hturns (hf : free) := turns_dataPiece (Over.normalize wording_notParen (hC hf _ hs) afterCode beforeCode)
      exact (ih.write (m := 0) fun hf => by simpa using hturns hf).counted
    | @code tokens _ htokens =>
      exact (ih.write (m := 0) fun hf => by simpa using turns_codePiece (hC hf _ htokens)).counted

theorem parens_fragment (out : List Text) : parens (out ++ [fragmentPiece]) = parens out ++ ["()(".toList] := by
  rw [parens_append]
  exact congrArg (parens out ++ ·) (by decide)

theorem Stacked.begins {attributes : List Attribute} {opening : Option Nat}
    (h : Stacked free v.tags n (parens v.output)) (hf : free → Over NotParen f) (htag : free → Over NotParen tag)
    (hattributes : free → AttributesFree attributes) (hbegin : Begins f true v tag attributes opening new) (row : Int) :
    Stacked free (⟨tag, row, attributes, 0, opening⟩ :: bump v.tags) n (parens new) := by
  cases hbegin with
  | element hif helse hmid =>
    rw [parens_append]
    exact .element (m := 0) (h.resolved hmid).counted rfl fun hfree =>
      turns_parens.2 (turns_tagPieces (hf hfree) (htag hfree) (hattributes hfree) true)
  | condition _ _ _ hmid =>
    rw [parens_fragment]
    exact .branch (m := 0) (h.resolved hmid).counted (by simp [parens]) fun _ _ => rfl
  | @alternative new _ _ _ hnew =>
    have helse : new ++ ["else ".toList, fragmentPiece] = new ++ ["else ".toList] ++ [fragmentPiece] := by simp
    rw [← hnew.parens] at h
    rw [helse, parens_fragment]
    have hword : Turns 0 0 ["else ".toList].flatten := fun _ => rfl
    exact .branch (m := 0) (h.write fun _ => hword).counted (by simp [parens]) fun _ _ => rfl

def selfClosed (e : Event) : Bool :=
  match wholeTag e with
  | some tag => tag = "if".toList ∨ tag = "else".toList
  | none => false

theorem Stacked.whole {attributes : List Attribute} {opening : Option Nat} (h : Stacked free v.tags n (parens
    v.output)) (hf : free → Over NotParen f)
    (htag : free → Over NotParen tag) (hattributes : free → AttributesFree attributes) (he : wholeTag e = some tag)
    (hbegin : Begins f false v tag attributes opening new) :
    Stacked free v.tags (n + (selfClosed e).toNat) (parens new) := by
  cases hbegin with
  | element hif helse hmid =>
    have hclosed : selfClosed e = false := by simpa [selfClosed, he] using And.intro hif helse
    rw [hclosed]
    exact (h.resolved hmid).write fun hfree => turns_tagPieces (hf hfree) (htag hfree) (hattributes hfree) false
  | condition hif _ _ hmid =>
    have hclosed : selfClosed e = true := by simp [selfClosed, he, hif]
    rw [hclosed]
    exact (h.resolved hmid).write fun _ _ => rfl
  | alternative helse _ _ hnew =>
    have hclosed : selfClosed e = true := by simp [selfClosed, he, helse]
    rw [hclosed]
    rw [← hnew.parens] at h
    exact h.write fun _ _ => rfl

theorem Stacked.ends (h : Stacked free (t :: tags) n (parens v.output))
    (hf : free → Over NotParen f) (ht : free → AttributesFree t.attributes) (hend : Ends f true t v new) :
    Stacked free tags n (parens new) := by
  have hps (hfree : free) := turns_endPieces (hf hfree) (ht hfree)
  cases hend with
  | @closed mid hkeep hmid =>
    rw [if_pos rfl, append_assoc, parens_append]
    refine (h.resolved hmid).close fun hfree => turns_parens.2 ?_
    exact (turns_close 0).append (hps hfree)
  | @dropped mid new i hcond hcall hone hmid hnew hopening =>
    obtain ⟨hget, hdrop⟩ := (h.resolved hmid).drop hopening
    refine .write (m := 0) ?_ hps
    have hset : parens (new.set i []) = (parens mid).set i [] ++ [[]] := by
      have hmap : parens (new.set i []) = (parens new).set i [] := map_set
      rw [hmap, hnew.parens, parens_append, set_append_left _ _ (List.getElem?_eq_some_iff.1 hget).1]
      rfl
    rw [hset]
    exact hdrop.append (m := 0) fun _ _ => rfl

theorem turns_comma (tags : List OpenTag) : Turns 0 0 (comma tags).flatten := by
  unfold comma
  split <;> exact fun _ => rfl

def TagsFree (tags : List OpenTag) : Prop := ∀ t ∈ tags, AttributesFree t.attributes

theorem tagsFree_bump (h : TagsFree tags) : TagsFree (bump tags) := by
  cases tags with
  | nil => exact h
  | cons t rest => exact forall_mem_cons.2 (forall_mem_cons.1 h)

theorem whole_free (h : EventFree e) (he : wholeTag e = some tag) :
    Over NotParen tag ∧ AttributesFree (wholeAttributes e) := by
  have hdeclared (name argument : String) {s : Text} (hname : Over NotParen name.toList)
      (hargument : Over NotParen argument.toList) (hs : Over NotParen s) (he : some name.toList = some tag) :
      Over NotParen tag ∧ AttributesFree [⟨some argument.toList, some [.text s]⟩] := by
    cases he
    refine ⟨hname, forall_mem_singleton.2 ⟨?_, ?_⟩⟩
    · rintro _ ⟨⟩
      exact hargument
    · rintro _ ⟨⟩
      exact forall_mem_singleton.2 hs
  cases e with
  | data | start | finish => cases he
  | startEnd name attributes => exact ⟨h.1 tag he, h.2⟩
  | comment s =>
    exact hdeclared "html_comment" "comment" (by simp [Over, NotParen]) (by simp [Over, NotParen])
      (Over.trim h _) he
  | doctype s =>
    exact hdeclared "html_decl" "decl" (by simp [Over, NotParen]) (by simp [Over, NotParen])
      (over_append.2 ⟨by simp [Over, NotParen], h⟩) he
  | cdata s =>
    exact hdeclared "html_marked_decl" "decl" (by simp [Over, NotParen])
      (by simp [Over, NotParen]) (over_append.2 ⟨by simp [Over, NotParen], h⟩) he

theorem Stacked.handled (hf : free → Over NotParen f) (he : free → EventFree e)
    (htags : free → TagsFree v.tags) (hv : Stacked free v.tags n (parens v.output)) (h : Handled f v e w) :
    Stacked free w.tags (n + (selfClosed e).toNat) (parens w.output) := by
  cases h with
  | blank => exact hv
  | @data s mid hmid afterCode beforeCode =>
    have hcalms : Calms (Told [s] []) v _ := (Handled.data (f := f) hmid afterCode beforeCode).calms (mem_singleton.2 rfl)
    refine hv.calms (fun hfree p hp => ?_) hcalms
    cases p with
    | text t => exact mem_singleton.1 hp ▸ he hfree
    | code tokens => cases hp
  | start row hbegin => exact hv.begins hf (fun hfree => (he hfree).1 _ rfl) (fun hfree => (he hfree).2) hbegin row
  | @finish t rest out hopen hend =>
    rw [hopen] at hv
    have ht (hfree : free) := htags hfree t (hopen ▸ mem_cons_self)
    exact (hv.ends hf ht hend).write fun _ => turns_comma _
  | whole row hwhole hbegin =>
    have hfrees (hfree : free) := whole_free (he hfree) hwhole
    have hbegun := hv.whole hf (fun hfree => (hfrees hfree).1) (fun hfree => (hfrees hfree).2) hwhole hbegin
    refine ((hbegun.write (m := 0) fun hfree => ?_).write (m := 0) fun _ => turns_comma _).counted
    exact turns_endPieces (hf hfree) (hfrees hfree).2

theorem Handled.tagsFree (h : Handled f v e w) (he : EventFree e) (hv : TagsFree v.tags) : TagsFree w.tags := by
  cases h with
  | blank => exact hv
  | data | whole => exact tagsFree_bump hv
  | start row hbegin => exact forall_mem_cons.2 ⟨he.2, tagsFree_bump hv⟩
  | finish htags hend => exact (forall_mem_cons.1 (htags ▸ hv)).2

theorem Calms.tagsFree {C : Part → Prop} (h : Calms C v w) (hv : TagsFree v.tags) : TagsFree w.tags := by
  induction h with
  | refl => exact hv
  | tail _ hstep ih =>
    cases hstep with
    | resolve | rows => exact ih
    | text | code => exact tagsFree_bump ih

end

/-! ### The `else` of a condition -/

def IsElse (p : Text) : Prop := p = "else ".toList ∨ p = " else None, ".toList ∨ p = " else None ".toList

def Answered (k : Nat) (out : List Text) : Prop :=
  ∃ j p, k ≤ j ∧ out[j]? = some p ∧ IsElse p ∧ ∀ i q, k ≤ i → i < j → out[i]? = some q → ¬ Counts q

def Pending (k : Nat) (out : List Text) : Prop :=
  out[k]? = some [','] ∧ ∀ i q, k < i → out[i]? = some q → ¬ Counts q

def Keeps (out new : List Text) : Prop :=
  ∀ (i : Nat) p, out[i]? = some p → ∃ q, new[i]? = some q ∧ (¬ Counts p → ¬ Counts q) ∧ (IsElse p → IsElse q)

section

variable {out mid new : List Text} {k : Nat}

theorem Keeps.trans (h : Keeps out mid) (hmid : Keeps mid new) : Keeps out new := by
  intro i p hp
  obtain ⟨q, hq, hcounts, helse⟩ := h i p hp
  obtain ⟨r, hr, hcounts', helse'⟩ := hmid i q hq
  exact ⟨r, hr, hcounts' ∘ hcounts, helse' ∘ helse⟩

theorem keeps_append (out ps : List Text) : Keeps out (out ++ ps) := fun i p hp =>
  ⟨p, by rw [getElem?_append_left (List.getElem?_eq_some_iff.1 hp).1, hp], id, id⟩

variable {v w : View} {f : Text}

theorem isElse_cut {x blanks : Text} (hblanks : ∀ c ∈ blanks, isBlank c = true) (h : IsElse (x ++ ',' :: blanks)) :
    IsElse (x ++ blanks) := by
  have htrim := trimRight_comma x hblanks
  have hcomma : ',' ∈ x ++ ',' :: blanks := by simp
  rcases h with h | h | h
  · rw [h] at hcomma
    exact absurd hcomma (by decide)
  · rw [h] at htrim
    have hx : x ++ [','] = " else None".toList ++ [','] := htrim.symm.trans (by decide)
    obtain rfl := append_cancel_right hx
    have hblank : blanks = [' '] := by simpa using h
    rw [hblank]
    exact .inr (.inr rfl)
  · rw [h] at hcomma
    exact absurd hcomma (by decide)

theorem keeps_cut (h : Cut out new) : Keeps out new := by
  obtain ⟨front, x, blanks, tail, rfl, rfl, hx, hblanks, -⟩ := h
  intro i p hp
  rcases lt_trichotomy i front.length with hi | rfl | hi
  · rw [getElem?_append_left hi] at hp ⊢
    exact ⟨p, hp, id, id⟩
  · obtain rfl : x ++ ',' :: blanks = p := by simpa using hp
    exact ⟨x ++ blanks, by simp, fun hno => absurd (counts_comma hx hblanks) hno, isElse_cut hblanks⟩
  · obtain ⟨j, rfl⟩ := Nat.exists_eq_add_of_lt hi
    refine ⟨p, ?_, id, id⟩
    rw [getElem?_append_right (by omega)] at hp ⊢
    simpa [Nat.add_sub_cancel_left, Nat.add_assoc] using hp

theorem keeps_set {i : Nat} (h : ∀ p, out[i]? = some p → ¬ IsElse p) : Keeps out (out.set i []) := by
  intro j p hp
  rcases eq_or_ne i j with rfl | hne
  · have hi := (List.getElem?_eq_some_iff.1 hp).1
    exact ⟨[], by simp [hi], fun _ => not_counts_nil, fun helse => absurd helse (h p hp)⟩
  · exact ⟨p, by rw [getElem?_set_ne hne, hp], id, id⟩

theorem Answered.keeps (h : Answered k out) (hkeeps : Keeps out new) : Answered k new := by
  obtain ⟨j, p, hkj, hp, helse, hgap⟩ := h
  obtain ⟨q, hq, -, hqelse⟩ := hkeeps j p hp
  refine ⟨j, q, hkj, hq, hqelse helse, fun i r hki hij hr => ?_⟩
  have hi : i < out.length := hij.trans (List.getElem?_eq_some_iff.1 hp).1
  obtain ⟨r', hr', hcounts, -⟩ := hkeeps i out[i] (getElem?_eq_getElem hi)
  obtain rfl : r' = r := Option.some.inj (hr'.symm.trans hr)
  exact hcounts (hgap i _ hki hij (getElem?_eq_getElem hi))

theorem Pending.answered (h : Pending k out) (hcut : Cut out new) {p : Text} (hp : IsElse p) (more : List Text) :
    Answered k (new ++ p :: more) := by
  obtain ⟨front, x, blanks, tail, rfl, rfl, hx, hblanks, htail⟩ := hcut
  have hcounts := counts_comma hx hblanks
  obtain rfl : front.length = k := by
    rcases lt_trichotomy front.length k with hlt | heq | hgt
    · obtain ⟨j, rfl⟩ := Nat.exists_eq_add_of_lt hlt
      have hin := h.1
      rw [getElem?_append_right (by omega)] at hin
      have hmem : [','] ∈ tail := mem_of_getElem? (by simpa [Nat.add_sub_cancel_left, Nat.add_assoc] using hin)
      exact absurd (counts_comma (x := []) (by decide) (forall_mem_nil _)) (htail _ hmem)
    · exact heq
    · exact absurd hcounts (h.2 front.length _ hgt (by simp))
  have hpiece : x ++ ',' :: blanks = [','] := by simpa using h.1
  obtain ⟨rfl, rfl⟩ : x = [] ∧ blanks = [] := by
    cases x with
    | nil => simpa using hpiece
    | cons c x => simp at hpiece
  refine ⟨(front ++ [] :: tail).length, p, by simp, by simp, hp, fun i q hki hi hq => ?_⟩
  rw [append_nil, getElem?_append_left (by simpa using hi)] at hq
  rcases hki.eq_or_lt with rfl | hlt
  · obtain rfl : [] = q := by simpa using hq
    exact not_counts_nil
  · rw [getElem?_append_right hki] at hq
    refine htail q (mem_of_getElem? (i := i - front.length - 1) ?_)
    have hsucc : i - front.length = i - front.length - 1 + 1 := by omega
    rwa [hsucc, getElem?_cons_succ] at hq

theorem keeps_resolved {after : Bool} (h : Resolved out after mid) : Keeps out mid := by
  cases h with
  | nothing => exact fun _ p hp => ⟨p, hp, id, id⟩
  | added _ hcut => exact (keeps_cut hcut).trans (keeps_append _ _)

def Waits (k : Nat) (v : View) : Prop :=
  Answered k v.output ∨ v.tags ≠ [] ∧ v.afterIf = true ∧ Pending k v.output

theorem Waits.resolved (h : Waits k v) (hmid : Resolved v.output v.afterIf mid) : Answered k mid := by
  rcases h with h | ⟨-, hafter, h⟩
  · exact h.keeps (keeps_resolved hmid)
  · cases hmid with
    | nothing hno => exact absurd (hno.symm.trans hafter) Bool.false_ne_true
    | added _ hcut => exact h.answered hcut (.inr (.inl rfl)) []

theorem Waits.write (h : Waits k v) {ps : List Text} (hps : ∀ p ∈ ps, ¬ Counts p) :
    Waits k { v with output := v.output ++ ps } := by
  refine h.imp (·.keeps (keeps_append _ _)) (.imp_right (.imp_right fun hpending => ⟨?_, fun i q hi hq => ?_⟩))
  · rw [getElem?_append_left (List.getElem?_eq_some_iff.1 hpending.1).1, hpending.1]
  · rw [getElem?_append] at hq
    split at hq
    · exact hpending.2 i q hi hq
    · exact hps q (mem_of_getElem? hq)

theorem Waits.calms {C : Part → Prop} (hv : Waits k v) (h : Calms C v w) : Waits k w := by
  induction h with
  | refl => exact hv
  | tail _ hstep ih =>
    cases hstep with
    | resolve hmid => exact .inl (ih.resolved hmid)
    | rows hps => exact ih.write fun p hp => not_counts_blank fun c hc => by rw [hps p hp c hc]; decide
    | text hafter | code hafter =>
      rcases ih with ih | ⟨-, hyes, -⟩
      · exact .inl (ih.keeps (keeps_append _ _))
      · exact absurd (hafter.symm.trans hyes) Bool.false_ne_true

theorem Waits.begins {tag : Text} {call : Bool} {attributes : List Attribute} {opening : Option Nat}
    (h : Waits k v) (hbegin : Begins f call v tag attributes opening new) : Answered k new := by
  cases hbegin with
  | element _ _ hmid => exact (h.resolved hmid).keeps (keeps_append _ _)
  | condition _ _ _ hmid => exact (h.resolved hmid).keeps (keeps_append _ _)
  | alternative _ _ _ hcut =>
    rcases h with h | ⟨-, -, h⟩
    · exact h.keeps ((keeps_cut hcut).trans (keeps_append _ _))
    · exact h.answered hcut (.inl rfl) [fragmentPiece]

theorem Waits.ends {free : Prop} {n : Nat} {t : OpenTag} {rest : List OpenTag} (h : Waits k v)
    (htags : v.tags = t :: rest) (hstacked : Stacked free v.tags n (parens v.output))
    (hend : Ends f true t v new) : Answered k new := by
  cases hend with
  | closed hkeep hmid => exact ((h.resolved hmid).keeps (keeps_append _ _)).keeps (keeps_append _ _)
  | @dropped mid new i hcond hcall hone hmid hnew hopening =>
    rw [htags] at hstacked
    have hget := ((hstacked.resolved hmid).drop hopening).1
    have hnew' := (h.resolved hmid).keeps ((keeps_append _ _).trans (keeps_cut hnew))
    refine (hnew'.keeps (keeps_set fun p hp helse => ?_)).keeps (keeps_append _ _)
    have hfilter : (parens new)[i]? = some (p.filter isParen) := by simp [parens, hp]
    rw [hnew.parens, parens_append, getElem?_append_left (List.getElem?_eq_some_iff.1 hget).1, hget] at hfilter
    rcases helse with rfl | rfl | rfl <;> exact absurd hfilter (by decide)

theorem Waits.handled {free : Prop} {n : Nat} {e : Event} (h : Waits k v)
    (hstacked : Stacked free v.tags n (parens v.output)) (hhandled : Handled f v e w) : Waits k w := by
  cases hhandled with
  | blank => exact h
  | data hmid => exact .inl ((h.resolved hmid).keeps (keeps_append _ _))
  | start row hbegin => exact .inl (h.begins hbegin)
  | finish htags hend => exact .inl ((h.ends htags hstacked hend).keeps (keeps_append _ _))
  | whole row he hbegin => exact .inl (((h.begins hbegin).keeps (keeps_append _ _)).keeps (keeps_append _ _))

theorem Handled.pending {e : Event} (h : Handled f v e w) (he : endsIf e = true)
    (htags : w.tags ≠ []) : Waits (w.output.length - 1) w := by
  have hlast (out : List Text) : Pending ((out ++ [[',']]).length - 1) (out ++ [[',']]) := by
    refine ⟨by simp, fun i q hi hq => ?_⟩
    have hlt := (List.getElem?_eq_some_iff.1 hq).1
    simp only [length_append, length_singleton] at hi hlt
    omega
  have hcomma {tags : List OpenTag} (h : tags ≠ []) : comma tags = [[',']] := by simp [comma, h]
  cases h with
  | blank | data | start => cases he
  | finish _ hend =>
    refine .inr ⟨htags, ?_, ?_⟩
    · simpa [endsIf] using he
    · dsimp only
      rw [hcomma htags]
      exact hlast _
  | @whole e tag opening out row hwhole hbegin =>
    refine .inr ⟨htags, ?_, ?_⟩
    · cases e with
      | startEnd name attributes =>
        obtain rfl : name = some tag := hwhole
        simpa [endsIf] using he
      | finish => cases hwhole
      | data | start | comment | doctype | cdata => cases he
    · dsimp only
      rw [hcomma htags]
      exact hlast _

end

def Log.Free (function : Text) (log : Log) : Prop :=
  Over NotParen function ∧ (∀ e ∈ log.events, EventFree e) ∧ (∀ tokens ∈ log.codes, CodeFree tokens) ∧
    ∀ p ∈ log.comments, Over NotParen p.2

instance (function : Text) (log : Log) : Decidable (log.Free function) := inferInstanceAs (Decidable (_ ∧ _ ∧ _ ∧ _))

theorem Stacked.mono {free free' : Prop} {tags : List OpenTag} {n : Nat} {L : List Text} (h : Stacked free tags n L)
    (hfree : free' → free) : Stacked free' tags n L := by
  induction h with
  | nil hps => exact .nil fun h => hps (hfree h)
  | element _ hopening hps ih => exact .element ih hopening fun h => hps (hfree h)
  | branch _ hopening hps ih => exact .branch ih hopening fun h => hps (hfree h)

structure Complete (function : Text) (log : Log) (v : View) : Prop where
  stacked : Stacked (log.Free function) v.tags (log.events.countP selfClosed) (parens v.output)
  tags : log.Free function → TagsFree v.tags
  waits : ∀ k ∈ log.conditions, Waits k v

theorem Complete.advances {function : Text} {log log' : Log} {v w : View} (h : Complete function log v)
    (hadvances : Advances function log v log' w) : Complete function log' w := by
  cases hadvances with
  | calm texts codes hcalms =>
    have hcount : (texts.map Event.data).countP selfClosed = 0 := by
      simp [countP_eq_zero, selfClosed, wholeTag]
    have hless (hfree : Log.Free function
        { log with events := log.events ++ texts.map .data, codes := log.codes ++ codes }) : log.Free function :=
      ⟨hfree.1, (forall_mem_append.1 hfree.2.1).1, (forall_mem_append.1 hfree.2.2.1).1, hfree.2.2.2⟩
    refine ⟨?_, fun hfree => hcalms.tagsFree (h.tags (hless hfree)), fun k hk => (h.waits k hk).calms hcalms⟩
    rw [countP_append, hcount]
    refine (h.stacked.mono hless).calms (fun hfree p hp => ?_) hcalms
    cases p with
    | text s => exact (forall_mem_append.1 hfree.2.1).2 _ (mem_map_of_mem hp)
    | code tokens => exact (forall_mem_append.1 hfree.2.2.1).2 tokens hp
  | @comment s hs =>
    have hless (hfree : Log.Free function { log with comments := log.comments ++ [(v.output.length, s)] }) :
        log.Free function ∧ Over NotParen s := by
      obtain ⟨hold, hnew⟩ := forall_mem_append.1 hfree.2.2.2
      exact ⟨⟨hfree.1, hfree.2.1, hfree.2.2.1, hold⟩, hnew _ (mem_singleton.2 rfl)⟩
    refine ⟨(h.stacked.mono fun hfree => (hless hfree).1).write (m := 0) fun hfree => ?_,
      fun hfree => h.tags (hless hfree).1, fun k hk =>
        (h.waits k hk).write (forall_mem_singleton.2 (not_counts_hash hs))⟩
    simpa using (hless hfree).2.turns 0
  | @event e w hhandled =>
    have hless {conditions : List Nat} (hfree : Log.Free function { log with events := log.events ++ [e], conditions }) :
        log.Free function ∧ EventFree e := by
      obtain ⟨hold, hnew⟩ := forall_mem_append.1 hfree.2.1
      exact ⟨⟨hfree.1, hold, hfree.2.2⟩, forall_mem_singleton.1 hnew⟩
    refine ⟨?_, fun hfree => hhandled.tagsFree (hless hfree).2 (h.tags (hless hfree).1), fun k hk => ?_⟩
    · have hone : [e].countP selfClosed = (selfClosed e).toNat := by cases he : selfClosed e <;> simp [he]
      rw [countP_append, hone]
      exact (h.stacked.mono fun hfree => (hless hfree).1).handled (fun hfree => hfree.1) (fun hfree => (hless hfree).2)
        (fun hfree => h.tags (hless hfree).1) hhandled
    · rcases mem_append.1 hk with hk | hk
      · exact (h.waits k hk).handled h.stacked hhandled
      · split at hk
        · rename_i hends
          rw [Bool.and_eq_true, Bool.not_eq_true', isEmpty_eq_false_iff] at hends
          rw [mem_singleton.1 hk]
          exact hhandled.pending hends.1 hends.2
        · cases hk

/-- The condition of an `if` in an element has an `else`. If nothing has parentheses, those of the expression never
close more than are open, and as many stay open as conditionals begin and end at once. -/
theorem expression_complete {start : Pos} {function : Text} {inputs : List Input} {log : Log} {b : Builder}
    (h : feedEach start function inputs = some (log, b)) (hdone : b.isDone = true) :
    (∀ k ∈ log.conditions, Answered k b.output.toList) ∧
      (log.Free function → climb 0 b.token.text = some (log.events.countP selfClosed)) := by
  have hopen : b.openTags = [] := by
    simp only [isDone, Bool.and_eq_true, List.isEmpty_iff] at hdone
    exact hdone.1.1
  have hcomplete := (feedEach_advances (P := Complete function) ⟨.nil fun _ _ => rfl, fun _ => forall_mem_nil _, by simp⟩
    (fun _ _ _ _ hv hadvances => hv.advances hadvances) h).1
  refine ⟨fun k hk => (hcomplete.waits k hk).resolve_right fun hpending => hpending.1 hopen, fun hfree => ?_⟩
  have hstacked := hcomplete.stacked
  rw [show b.view.tags = [] from hopen] at hstacked
  cases hstacked with
  | nil hturns =>
    have hclimb := turns_parens.1 (hturns hfree) 0
    rwa [Nat.zero_add, Nat.zero_add] at hclimb

def conditionInElement : List Input :=
  "<p><if cond=".toList.map .char ++ [.code [⟨.name, ['a'], ⟨1, 12⟩, ⟨1, 13⟩, []⟩]] ++ ">b</if></p>".toList.map .char

theorem expression_complete_conditionInElement :
    ∃ log b, feedEach ⟨1, 0⟩ "str".toList conditionInElement = some (log, b) ∧ log.conditions ≠ [] ∧
      (∀ k ∈ log.conditions, Answered k b.output.toList) ∧ climb 0 b.token.text = some 0 := by
  have hfed : ((feedEach ⟨1, 0⟩ "str".toList conditionInElement).any fun s => s.2.isDone && decide (s.1.conditions ≠ []) &&
      decide (s.1.Free "str".toList) && s.1.events.countP selfClosed == 0) = true := by
    decide +kernel
  obtain ⟨⟨log, b⟩, hfeed, hs⟩ := (Option.any_eq_true _ _).1 hfed
  simp only [Bool.and_eq_true, decide_eq_true_eq, beq_iff_eq] at hs
  obtain ⟨⟨⟨hdone, hconditions⟩, hfree⟩, hcount⟩ := hs
  obtain ⟨hanswered, hclimb⟩ := expression_complete hfeed hdone
  exact ⟨log, b, hfeed, hconditions, hanswered, hcount ▸ hclimb hfree⟩

/-- An `if` that begins and ends at once leaves its fragment open, and one that is in no element has no `else`. -/
theorem expression_incomplete :
    ((translate {} "x = <p><if cond=\"\x7ba\x7d\" /></p>\n".toList).toOption.map fun out =>
      (out, climb 0 out)) = some ("x = html.x_p()(html.x_frag()( if a  else None, )\n".toList, some 1) ∧
      (translate {} "x = <if cond=\"\x7ba\x7d\">y</if>\n".toList).toOption = some "x = u\"y\"  if a \n".toList := by
  decide +kernel

end Builder

end InlineMarkup.Markup

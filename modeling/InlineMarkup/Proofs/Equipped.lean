import InlineMarkup.Markup.Listing
import InlineMarkup.Proofs.HeldCode

/-!
The markup reader never lacks what it needs. Each state relies on what was read before it was entered: the
tag and its name inside a tag, the name and the parts of an attribute, the front of a declaration, the end
of a section as far as it has been seen.
-/
namespace InlineMarkup

def Fault.isRefusal : Fault → Bool
  | .unexpectedChar _ _ | .repeatedAttribute _ | .closedTwice | .codeMisplaced _ => true
  | _ => false

namespace Markup

def Part.isText : Part → Bool
  | .text _ => true
  | .code _ => false

structure Merged (parts : List Part) : Prop where
  filled : ∀ p ∈ parts, p ≠ .text []
  apart : parts.IsChain fun p q => p.isText = false ∨ q.isText = false

def State.hasName : State → Bool
  | .attributeName | .afterAttributeName | .beforeAttributeValue => true
  | s => s.hasValue

namespace Machine

def Tagged (m : Machine) : Prop := ∃ tag name, m.tag = some tag ∧ tag.name = some name

structure Equipped (m : Machine) : Prop where
  known : ∀ n, m.state ≠ .unknown n
  endTag : m.state = .endTagOpen → ∃ tag, m.tag = some tag
  tag : m.state.isTag = true → m.Tagged
  attributeName : m.state.hasName = true → ∃ name, m.attributeName = some name
  attributeValue : m.state.hasValue = true → ∃ parts, m.attributeValue = some parts ∧ Merged parts
  declaration : m.state = .declarationOpen → ∃ s, m.declaration = some s
  sectionEnd : m.state = .cdataSection → ∃ s, m.sectionEnd = some s ∧ s <+: sectionMark ∧ s ≠ sectionMark

end Machine

def Step.Equips : Step → Prop
  | .quiet n | .again n | .event _ _ n => n.Equipped
  | .fault _ f => f.isRefusal = true

/-! ### Values -/

theorem merged_nil : Merged [] := ⟨List.forall_mem_nil _, .nil⟩

theorem merged_code (tokens : List Token) {parts : List Part} (h : Merged parts) : Merged
    (parts ++ [.code tokens]) := by
  constructor
  · intro p hp
    rcases List.mem_append.1 hp with hp | hp
    · exact h.filled p hp
    · rw [List.mem_singleton.1 hp]
      exact Part.noConfusion
  · refine List.isChain_append.2 ⟨h.apart, .singleton _, ?_⟩
    intro p _ q hq
    cases hq
    exact Or.inr rfl

theorem head_addChar (q : Part) (more : List Part) (c : Char) :
    ∃ r rest, Machine.addChar (q :: more) c = r :: rest ∧ r.isText = q.isText := by
  rw [Machine.addChar.eq_def]
  split <;> simp_all [Part.isText]

theorem merged_addChar {parts : List Part} (h : Merged parts) (c : Char) : Merged (Machine.addChar parts c) := by
  fun_induction Machine.addChar parts c with
  | case1 c => exact ⟨by simp, .singleton _⟩
  | case2 s c => exact ⟨by simp, .singleton _⟩
  | case3 p rest c hlone ih =>
    obtain ⟨hp, hfilled⟩ := List.forall_mem_cons.1 h.filled
    obtain ⟨hhead, htail⟩ := List.isChain_cons.1 h.apart
    have hrest := ih ⟨hfilled, htail⟩
    refine ⟨List.forall_mem_cons.2 ⟨hp, hrest.filled⟩, List.isChain_cons.2 ⟨?_, hrest.apart⟩⟩
    intro r hr
    cases rest with
    | nil =>
      cases p with
      | text s => exact absurd rfl (hlone s rfl)
      | code => exact Or.inl rfl
    | cons q more =>
      obtain ⟨first, others, heq, hsame⟩ := head_addChar q more c
      rw [heq] at hr
      cases hr
      rw [hsame]
      exact hhead q rfl

/-! ### Steps -/

def State.isFree : State → Bool
  | .endTagOpen | .declarationOpen | .cdataSection | .unknown _ => false
  | s => !s.isTag

namespace Machine

variable {m : Machine}

theorem Equipped.of_isFree (h : m.state.isFree = true) : m.Equipped := by
  constructor <;> cases hstate : m.state <;> simp_all [State.isFree, State.isTag, State.hasName, State.hasValue]

theorem Equipped.of_isTag (hs : m.state.isTag = true) (htag : m.Tagged)
    (hname : m.state.hasName = true → ∃ name, m.attributeName = some name)
    (hvalue : m.state.hasValue = true → ∃ parts, m.attributeValue = some parts ∧ Merged parts) : m.Equipped := by
  have hother {s : State} (hno : s.isTag = false) (heq : m.state = s) : False := by
    rw [heq, hno] at hs
    cases hs
  exact ⟨fun n => hother rfl, fun h => (hother rfl h).elim, fun _ => htag, hname, hvalue,
    fun h => (hother rfl h).elim, fun h => (hother rfl h).elim⟩

theorem equips_closeTag (h : m.Tagged) : m.closeTag.Equips := by
  obtain ⟨tag, name, htag, -⟩ := h
  rw [closeTag, htag]
  dsimp only
  split
  · rfl
  · exact .of_isFree rfl

theorem equips_withAttribute {next : Machine → Step} (h : m.Tagged) (hnext : ∀ k : Machine, k.Tagged → (next
    k).Equips) : (m.withAttribute next).Equips := by
  obtain ⟨tag, name, htag, hname⟩ := h
  rw [withAttribute, closeAttribute, htag]
  dsimp only
  cases tag.attributes.any (·.name == m.attributeName) with
  | true => rfl
  | false => exact hnext _ ⟨_, name, rfl, hname⟩

theorem Equipped.extendValue (h : m.Equipped) (hs : m.state.isTag = true) (hvalue : m.state.hasValue = true)
    (c : Char) : (m.extendValue c).Equips := by
  obtain ⟨parts, hparts, hmerged⟩ := h.attributeValue hvalue
  rw [Machine.extendValue, hparts]
  exact .of_isTag hs (h.tag hs) h.attributeName fun _ => ⟨_, rfl, merged_addChar hmerged c⟩

theorem equips_openName (tag : Tag) (c : Char) : (m.openName tag c).Equips := by
  unfold openName
  split
  · exact .of_isTag rfl ⟨_, _, rfl, rfl⟩ nofun nofun
  · rfl

theorem Equipped.openDeclaration (h : m.Equipped) (hstate : m.state = .declarationOpen) (c : Char) :
    (m.openDeclaration c).Equips := by
  obtain ⟨read, hread⟩ := h.declaration hstate
  rw [Machine.openDeclaration, hread]
  dsimp only
  split_ifs
  · exact .of_isFree rfl
  · exact .of_isFree rfl
  · exact ⟨nofun, nofun, nofun, nofun, nofun, nofun, fun _ => ⟨[], rfl, List.nil_prefix, by decide⟩⟩
  · refine ⟨h.known, h.endTag, h.tag, h.attributeName, h.attributeValue, fun _ => ⟨_, rfl⟩, h.sectionEnd⟩
  · rfl

theorem settle_isPrefix (s : Text) : (settle s).2 <+: sectionMark := by
  induction s with
  | nil => exact List.nil_prefix
  | cons c rest ih =>
    rw [settle]
    split
    · rename_i hmark
      exact List.isPrefixOf_iff_prefix.1 hmark
    · exact ih

theorem Equipped.readSection (h : m.Equipped) (hstate : m.state = .cdataSection) (c : Char) :
    (m.readSection c).Equips := by
  obtain ⟨seen, hseen, hfront, hpart⟩ := h.sectionEnd hstate
  rw [Machine.readSection, hseen]
  dsimp only
  split
  · exact .of_isFree rfl
  · rename_i hmark
    refine ⟨h.known, h.endTag, h.tag, h.attributeName, h.attributeValue, h.declaration, fun _ => ⟨_, rfl, settle_isPrefix _, ?_⟩⟩
    -- no more than the mark was seen, so that keeping the mark would be keeping all
    intro hkept
    have hsplit := settle_eq (seen ++ [c])
    have hlength := congrArg List.length hsplit
    have hshort : seen.length < sectionMark.length :=
      lt_of_le_of_ne hfront.length_le fun heq => hpart (hfront.eq_of_length heq)
    rw [hkept, List.length_append, List.length_append, List.length_singleton] at hlength
    have hdata : (settle (seen ++ [c])).1 = [] := List.eq_nil_of_length_eq_zero (by omega)
    rw [hdata, hkept] at hsplit
    exact hmark hsplit.symm

theorem step_equips (h : m.Equipped) (c : Char) : (m.step c).Equips := by
  unfold step
  cases hstate : m.state with
  | data =>
    dsimp only
    split
    · exact .of_isFree rfl
    · exact .of_isFree rfl
  | tagOpen =>
    dsimp only
    split_ifs
    · exact ⟨nofun, nofun, nofun, nofun, nofun, fun _ => ⟨[], rfl⟩, nofun⟩
    · exact ⟨nofun, fun _ => ⟨_, rfl⟩, nofun, nofun, nofun, nofun, nofun⟩
    · exact equips_openName _ c
  | endTagOpen =>
    obtain ⟨tag, htag⟩ := h.endTag hstate
    rw [htag]
    exact equips_openName _ c
  | tagName =>
    have htagged := h.tag (hstate ▸ rfl)
    have ⟨tag, name, htag, hname⟩ := htagged
    dsimp only
    rw [htag]
    dsimp only
    rw [hname]
    split_ifs
    · exact .of_isTag rfl htagged nofun nofun
    · exact .of_isTag rfl htagged nofun nofun
    · exact equips_closeTag htagged
    · exact .of_isTag rfl ⟨_, _, rfl, rfl⟩ nofun nofun
  | beforeAttributeName =>
    have htag := h.tag (hstate ▸ rfl)
    dsimp only
    split_ifs
    · exact h
    · exact .of_isTag rfl htag nofun nofun
    · exact equips_closeTag htag
    · rfl
    · exact .of_isTag rfl htag (fun _ => ⟨_, rfl⟩) nofun
  | attributeName =>
    have htag := h.tag (hstate ▸ rfl)
    obtain ⟨name, hname⟩ := h.attributeName (hstate ▸ rfl)
    dsimp only
    rw [hname]
    split_ifs
    · exact .of_isTag rfl htag (fun _ => ⟨name, hname⟩) nofun
    · exact equips_withAttribute htag fun k hk => .of_isTag rfl hk nofun nofun
    · exact .of_isTag rfl htag (fun _ => ⟨name, hname⟩) nofun
    · exact equips_closeTag htag
    · rfl
    · exact .of_isTag rfl htag (fun _ => ⟨_, rfl⟩) nofun
  | afterAttributeName =>
    have htag := h.tag (hstate ▸ rfl)
    have hname := h.attributeName (hstate ▸ rfl)
    dsimp only
    split_ifs
    · exact h
    · exact equips_withAttribute htag fun k hk => .of_isTag rfl hk nofun nofun
    · exact .of_isTag rfl htag (fun _ => hname) nofun
    · exact equips_withAttribute htag fun k hk => equips_closeTag hk
    · rfl
    · exact h
  | beforeAttributeValue =>
    have htag := h.tag (hstate ▸ rfl)
    have hname := h.attributeName (hstate ▸ rfl)
    dsimp only
    split_ifs
    · exact h
    · exact .of_isTag rfl htag (fun _ => hname) fun _ => ⟨[], rfl, merged_nil⟩
    · exact .of_isTag rfl htag (fun _ => hname) fun _ => ⟨[], rfl, merged_nil⟩
    · exact .of_isTag rfl htag (fun _ => hname) fun _ => ⟨[], rfl, merged_nil⟩
    · rfl
    · exact .of_isTag rfl htag (fun _ => hname) fun _ => ⟨_, rfl, merged_addChar merged_nil c⟩
  | valueDoubleQuoted | valueSingleQuoted =>
    dsimp only
    split
    · exact .of_isTag rfl (h.tag (hstate ▸ rfl)) (fun _ => h.attributeName (hstate ▸ rfl)) fun _ => h.attributeValue (hstate ▸ rfl)
    · exact h.extendValue (hstate ▸ rfl) (hstate ▸ rfl) c
  | valueUnquoted =>
    have htag := h.tag (hstate ▸ rfl)
    dsimp only
    split_ifs
    · exact equips_withAttribute htag fun k hk => .of_isTag rfl hk nofun nofun
    · exact equips_withAttribute htag fun k hk => equips_closeTag hk
    · rfl
    · exact h.extendValue (hstate ▸ rfl) (hstate ▸ rfl) c
  | afterAttributeValue =>
    refine equips_withAttribute (h.tag (hstate ▸ rfl)) fun k hk => ?_
    split_ifs
    · exact .of_isTag rfl hk nofun nofun
    · exact .of_isTag rfl hk nofun nofun
    · exact equips_closeTag hk
    · rfl
  | selfClosingStartTag =>
    obtain ⟨tag, name, htag, hname⟩ := h.tag (hstate ▸ rfl)
    rw [htag]
    dsimp only
    split
    · exact equips_closeTag ⟨_, name, rfl, hname⟩
    · rfl
  | declarationOpen => exact h.openDeclaration hstate c
  | cdataSection => exact h.readSection hstate c
  | unknown n => exact absurd hstate (h.known n)
  | commentStart | commentStartDash | comment | commentEndDash | commentEnd | doctype | doctypeContents =>
    dsimp only
    split_ifs <;> first | rfl | exact .of_isFree rfl

theorem readCode_equips (h : m.Equipped) (tokens : List Token) :
    match m.readCode tokens with
    | .ok n => n.Equipped
    | .error f => f.isRefusal = true := by
  unfold readCode
  by_cases hbefore : m.state = .beforeAttributeValue
  · rw [if_pos hbefore]
    exact .of_isTag rfl (h.tag (hbefore ▸ rfl)) (fun _ => h.attributeName (hbefore ▸ rfl))
      fun _ => ⟨_, rfl, merged_code tokens merged_nil⟩
  rw [if_neg hbefore]
  by_cases hin : m.inValue = true
  · have hstate : m.state.isTag = true ∧ m.state.hasValue = true := by
      simp only [inValue, Bool.or_eq_true, beq_iff_eq] at hin
      rcases hin with (hin | hin) | hin <;> rw [hin] <;> exact ⟨rfl, rfl⟩
    obtain ⟨parts, hparts, hmerged⟩ := h.attributeValue hstate.2
    rw [if_pos hin, hparts]
    exact .of_isTag hstate.1 (h.tag hstate.1) h.attributeName fun _ => ⟨_, rfl, merged_code tokens hmerged⟩
  · rw [if_neg hin]
    cases hstate : m.state
    case unknown n => exact absurd hstate (h.known n)
    all_goals rfl

end Machine

/-! ### Runs -/

section

variable {σ : Type} (listen : Event → EStateM Fault σ Unit)

def Step.heard (s : σ) : Step → EStateM.Result Fault (Machine × σ) Unit
  | .quiet n | .again n => .ok () (n, s)
  | .fault n f => .error f (n, s)
  | .event during e n =>
    match listen e s with
    | .ok _ s => .ok () (n, s)
    | .error f s => .error f (during, s)

def Machine.wholeStep (m : Machine) (c : Char) : Step :=
  match m.step c with
  | .again n => n.step c
  | step => step

theorem Machine.hear_eq (m : Machine) (s : σ) (c : Char) :
    Machine.hear listen c (m, s) = (m.wholeStep c).heard listen s := by
  unfold Machine.hear Machine.wholeStep
  simp only [bind, EStateM.bind, get, getThe, MonadStateOf.get, EStateM.get]
  have hevent (during : Machine) (e : Event) (n : Machine) : (match (listen e).run s with
        | .ok _ t => set (n, t)
        | .error f t => EStateM.bind (set (during, t)) fun _ => throw f : EStateM Fault (Machine × σ) Unit) (m, s) =
        (Step.event during e n).heard listen s := by
    dsimp only [Step.heard, EStateM.run]
    cases listen e s <;> rfl
  rcases m.step c with n | ⟨during, e, n⟩ | n | ⟨n, f⟩
  · rfl
  · exact hevent during e n
  · dsimp only
    rcases n.step c with k | ⟨during, e, k⟩ | k | ⟨k, f⟩
    · rfl
    · exact hevent during e k
    · rfl
    · rfl
  · rfl

inductive Input where
  | char (c : Char)
  | code (tokens : List Token)

def Machine.take : Input → EStateM Fault (Machine × σ) Unit
  | .char c => hear listen c
  | .code tokens => do
    let (m, s) ← get
    match m.readCode tokens with
    | .ok n => set (n, s)
    | .error f => throw f

def Machine.takeAll : List Input → EStateM Fault (Machine × σ) Unit
  | [] => pure ()
  | i :: rest => do
    take listen i
    takeAll rest

end

def Sound {σ : Type} : EStateM.Result Fault (Machine × σ) Unit → Prop
  | .ok _ (m, _) => m.Equipped
  | .error f _ => f.isRefusal = true

section

variable {σ : Type} {listen : Event → EStateM Fault σ Unit}

theorem Step.Equips.sound {step : Step} (h : step.Equips) (hlisten : ∀ e s, ∃ t, listen e s = .ok () t) (s : σ) :
    Sound (step.heard listen s) := by
  cases step with
  | quiet n => exact h
  | again n => exact h
  | fault n f => exact h
  | event during e n =>
    obtain ⟨t, ht⟩ := hlisten e s
    rw [Step.heard, ht]
    exact h

theorem Machine.Equipped.wholeStep {m : Machine} (h : m.Equipped) (c : Char) : (m.wholeStep c).Equips := by
  have hstep := step_equips h c
  unfold Machine.wholeStep
  cases hkind : m.step c with
  | again n =>
    rw [hkind] at hstep
    exact step_equips hstep c
  | quiet | fault | event => rwa [hkind] at hstep

theorem Machine.Equipped.take {m : Machine} (h : m.Equipped) (hlisten : ∀ e s, ∃ t, listen e s = .ok () t) (s : σ)
    (i : Input) : Sound (Machine.take listen i (m, s)) := by
  cases i with
  | char c =>
    rw [Machine.take, Machine.hear_eq]
    exact (h.wholeStep c).sound hlisten s
  | code tokens =>
    have hcode := readCode_equips h tokens
    simp only [Machine.take, bind, EStateM.bind, get, getThe, MonadStateOf.get, EStateM.get]
    cases hread : m.readCode tokens <;> rw [hread] at hcode <;> exact hcode

/-- Whatever characters and code a fresh reader is given, and whatever a listener that does not fail makes of the
events: up to the first failure what each state relies on is there, and the reader fails only by refusing what it is
given. -/
theorem reader_never_lacks (hlisten : ∀ e s, ∃ t, listen e s = .ok () t) (inputs : List Input) (s : σ) :
    (∀ m t, Machine.takeAll listen inputs ({}, s) = .ok () (m, t) → m.Equipped) ∧
      ∀ f after, Machine.takeAll listen inputs ({}, s) = .error f after → f.isRefusal = true := by
  have hrun (m : Machine) (h : m.Equipped) : Sound (Machine.takeAll listen inputs (m, s)) := by
    induction inputs generalizing m s with
    | nil => exact h
    | cons i rest ih =>
      have hone := h.take hlisten s i
      simp only [Machine.takeAll, bind, EStateM.bind]
      cases htake : Machine.take listen i (m, s) with
      | ok _ after =>
        rw [htake] at hone
        exact ih after.2 after.1 hone
      | error f after =>
        rw [htake] at hone
        exact hone
  have hsound := hrun {} (.of_isFree rfl)
  constructor
  · intro m t h
    rwa [h] at hsound
  · intro f after h
    rwa [h] at hsound

end

def mixedValue : List Input := "<a b=&x".toList.map .char ++ [.code []] ++ "y".toList.map .char

theorem reader_never_lacks_mixedValue : ∃ m heard, Machine.takeAll record mixedValue ({}, #[]) = .ok () (m, heard) ∧
      m.attributeValue = some [.text ['&', 'x'], .code [], .text ['y']] ∧ m.Equipped := by
  have hvalue : (match Machine.takeAll record mixedValue ({}, #[]) with
      | .ok _ (m, _) => m.attributeValue
      | .error _ _ => none) = some [.text ['&', 'x'], .code [], .text ['y']] := by
    decide +kernel
  cases hrun : Machine.takeAll record mixedValue ({}, #[]) with
  | ok _ after =>
    rw [hrun] at hvalue
    exact ⟨after.1, after.2, rfl, hvalue, (reader_never_lacks (fun _ _ => ⟨_, rfl⟩) mixedValue #[]).1 _ _ hrun⟩
  | error =>
    rw [hrun] at hvalue
    cases hvalue

end Markup

end InlineMarkup

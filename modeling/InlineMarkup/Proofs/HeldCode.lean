import InlineMarkup.Proofs.Newlines

/-!
Code that the markup reader holds, and the characters that it reports.
-/
namespace InlineMarkup.Markup

open List

/-! ### Characters -/

def Over (P : Char → Prop) (s : Text) : Prop := ∀ c ∈ s, P c

def ownWords : List String :=
  ["html.", "x_", "(", ")", "=", ", ", ",", "html.x_frag()(", "else ", " else None, ", " if ", "u\"\".join((", "))",
    "u\"", "html.rawhtml(u\"", "\", ", "\"), ", "), ", "xclass", "xfor", "COLON", "_", "html_comment", "comment",
    "html_decl", "html_marked_decl", "decl", "DOCTYPE ", "CDATA[", "\"", "'", "\\", "\\\"", "\\n", "\\r", "\\t", "\\x",
    "\\u", "\\U", "0123456789abcdef", "-", "<", " ", "\n"]

/-- Characters among which are those of the words that markup brings along and, with any, its lower case. -/
structure Alphabet (P : Char → Prop) : Prop where
  own : ∀ w ∈ ownWords, Over P w.toList
  lower : ∀ c, P c → ∀ d ∈ lowercase c, P d

def Words (P : Char → Prop) : Prop := ∀ w ∈ ownWords, w ≠ "\n" → Over P w.toList

def Wording (P : Char → Prop) : Prop :=
  ∀ w ∈ ownWords.filter fun w => !w.toList.contains '(' && !w.toList.contains ')', w ≠ "\n" → Over P w.toList

section

variable {P : Char → Prop}

@[simp] theorem over_nil : Over P [] := forall_mem_nil _

variable {s t : Text}

@[simp] theorem over_append : Over P (s ++ t) ↔ Over P s ∧ Over P t :=
  forall_mem_append

@[simp] theorem over_cons {c : Char} : Over P (c :: s) ↔ P c ∧ Over P s :=
  forall_mem_cons

theorem Over.sublist (h : Over P t) (hs : s ⊆ t) : Over P s := fun c hc => h c (hs hc)

theorem Over.mono {A : Char → Prop} (h : Over P s) (hA : ∀ c, P c → A c) : Over A s := fun c hc => hA c (h c hc)

theorem Alphabet.words (hP : Alphabet P) : Words P := fun w hw _ => hP.own w hw

theorem Words.wording (hP : Words P) : Wording P := fun w hw => hP w (mem_of_mem_filter hw)

end

/-! ### Code -/

def Part.codes : Part → List (List Token)
  | .text _ => []
  | .code tokens => [tokens]

def partsCodes (parts : List Part) : List (List Token) := parts.flatMap Part.codes

def valueCodes (value : Option (List Part)) : List (List Token) := partsCodes (value.getD [])

def attributesCodes (attributes : List Attribute) : List (List Token) :=
  attributes.flatMap fun a => valueCodes a.value

def Event.codes : Event → List (List Token)
  | .start _ attributes => attributesCodes attributes
  | .startEnd _ attributes => attributesCodes attributes
  | _ => []

theorem partsCodes_addChar (parts : List Part) (c : Char) :
    partsCodes (Machine.addChar parts c) = partsCodes parts := by
  fun_induction Machine.addChar parts c with
  | case1 => rfl
  | case2 => rfl
  | case3 p rest c _ ih => exact congrArg (p.codes ++ ·) ih

/-! ### Names and texts of these characters -/

section

variable (N P : Char → Prop)

def Part.Over : Part → Prop
  | .text s => Markup.Over P s
  | .code _ => True

/-- The names are made of the characters `N`, and the texts of the characters `P`. -/
structure Attribute.Made (a : Attribute) : Prop where
  name : ∀ name, a.name = some name → Markup.Over N name
  value : ∀ parts, a.value = some parts → ∀ p ∈ parts, p.Over P

structure Tag.Made (tag : Tag) : Prop where
  name : ∀ name, tag.name = some name → Markup.Over N name
  attributes : ∀ a ∈ tag.attributes, a.Made N P

def Event.Made : Event → Prop
  | .start tag attributes | .startEnd tag attributes =>
    (∀ name, tag = some name → Markup.Over N name) ∧ ∀ a ∈ attributes, a.Made N P
  | .finish _ => True
  | .data s | .comment s | .doctype s | .cdata s => Markup.Over P s

end

theorem over_addChar {P : Char → Prop} {parts : List Part} {c : Char} (h : ∀ p ∈ parts, p.Over P)
    (hc : P c) : ∀ p ∈ Machine.addChar parts c, p.Over P := by
  fun_induction Machine.addChar parts c with
  | case1 => simpa [Part.Over] using hc
  | case2 =>
    have hs := h _ mem_cons_self
    simpa [Part.Over, hc] using hs
  | case3 p rest c _ ih =>
    intro q hq
    rcases mem_cons.1 hq with rfl | hq
    · exact h q mem_cons_self
    · exact ih (fun r hr => h r (mem_cons_of_mem p hr)) hc q hq

/-! ### What the reader holds -/

def State.isTag : State → Bool
  | .tagName | .beforeAttributeName | .attributeName | .afterAttributeName | .beforeAttributeValue
  | .valueDoubleQuoted | .valueSingleQuoted | .valueUnquoted | .afterAttributeValue
  | .selfClosingStartTag => true
  | _ => false

def State.hasValue : State → Bool
  | .valueDoubleQuoted | .valueSingleQuoted | .valueUnquoted | .afterAttributeValue => true
  | _ => false

namespace Machine

def tagCodes (m : Machine) : List (List Token) :=
  match m.tag with
  | none => []
  | some tag => if tag.isEnd then [] else attributesCodes tag.attributes ++ valueCodes m.attributeValue

def heldCodes (m : Machine) : List (List Token) := if m.state.isTag then m.tagCodes else []

/-- There is a value only while one is read, and what is held is of these characters. -/
structure Made (N P : Char → Prop) (m : Machine) : Prop where
  value : m.state.hasValue = false → m.attributeValue = none
  data : Markup.Over P m.data
  tag : ∀ tag, m.tag = some tag → tag.Made N P
  attributeName : ∀ name, m.attributeName = some name → Markup.Over N name
  parts : ∀ parts, m.attributeValue = some parts → ∀ p ∈ parts, p.Over P
  sectionEnd : ∀ s, m.sectionEnd = some s → Markup.Over P s

abbrev Over (P : Char → Prop) (m : Machine) : Prop := m.Made P P

theorem made_empty (N P : Char → Prop) (s : State) : Made N P { state := s } :=
  ⟨fun _ => rfl, over_nil, nofun, nofun, nofun, nofun⟩

theorem heldCodes_of_isTag {m : Machine} (h : m.state.isTag = true) : m.heldCodes = m.tagCodes := by
  rw [heldCodes, if_pos h]

theorem heldCodes_of_not_isTag {m : Machine} (h : m.state.isTag = false) : m.heldCodes = [] := by
  rw [heldCodes, h, if_neg Bool.false_ne_true]

end Machine

def Step.Keeps (N P : Char → Prop) (codes : List (List Token)) : Step → Prop
  | .quiet n | .again n => n.Made N P ∧ n.heldCodes = codes
  | .event _ e n =>
    n.Made N P ∧ e.Made N P ∧ n.heldCodes = [] ∧ e.codes = codes ∧ (n.state = .data ∨ ∃ s, e = .data s)
  | .fault _ _ => True

namespace Machine

variable {N P : Char → Prop} {m : Machine}

theorem Made.goto (h : m.Made N P) {s : State} (hs : s.hasValue = true ∨ m.attributeValue = none) :
    (m.goto s).Made N P := by
  refine ⟨fun hvalue => ?_, h.data, h.tag, h.attributeName, h.parts, h.sectionEnd⟩
  rcases hs with hs | hs
  · exact absurd (hs.symm.trans hvalue) Bool.noConfusion
  · exact hs

theorem keeps_goto (h : m.Made N P) {s : State} (hs : s.isTag = true)
    (hvalue : s.hasValue = true ∨ m.attributeValue = none) : Step.Keeps N P m.tagCodes (.quiet (m.goto s)) :=
  ⟨h.goto hvalue, heldCodes_of_isTag hs⟩

theorem keeps_stay (h : m.Made N P) (hm : m.state.isTag = true) : Step.Keeps N P m.tagCodes (.quiet m) :=
  ⟨h, heldCodes_of_isTag hm⟩

variable {n : Machine} {tag : Tag} {s : State}

theorem keeps_outside (hm : m.state.isTag = false) (hn : n.Made N P)
    (hstate : n.state.isTag = false) : Step.Keeps N P m.heldCodes (.quiet n) :=
  ⟨hn, by rw [heldCodes_of_not_isTag hm, heldCodes_of_not_isTag hstate]⟩

theorem keeps_data (h : m.Made N P) (hm : m.state.isTag = false) (hvalue : m.attributeValue = none)
    {s : Text} (hs : Markup.Over P s) {next : State} (hnext : next.isTag = false) :
    Step.Keeps N P m.heldCodes (.quiet (m.extendData s next)) :=
  keeps_outside hm ⟨fun _ => hvalue, over_append.2 ⟨h.data, hs⟩, h.tag, h.attributeName, h.parts,
    h.sectionEnd⟩ hnext

theorem keeps_closeTag (h : m.Made N P) (hvalue : m.attributeValue = none) : m.closeTag.Keeps N P m.tagCodes := by
  unfold closeTag
  split
  · trivial
  rename_i tag htag
  have hover := h.tag tag htag
  split
  · trivial
  rename_i hboth
  have hnone : valueCodes none = [] := rfl
  have hcodes : m.tagCodes = if tag.isEnd then [] else attributesCodes tag.attributes := by
    rw [tagCodes, htag, hvalue, hnone]
    simp only [append_nil]
  refine ⟨h.goto (Or.inr hvalue), ?_, heldCodes_of_not_isTag rfl, ?_, Or.inl rfl⟩
  · split
    · exact ⟨hover.name, hover.attributes⟩
    · split
      · trivial
      · exact ⟨hover.name, hover.attributes⟩
  · rw [hcodes]
    split
    · rename_i hself
      have hend : tag.isEnd = false := by simpa [hself] using hboth
      rw [hend]
      rfl
    · split
      · rfl
      · rfl

theorem keeps_withAttribute (h : m.Made N P) {next : Machine → Step} {codes : List (List Token)}
    (hnext : ∀ k : Machine, k.Made N P → k.attributeValue = none → k.tagCodes = m.tagCodes →
      (next k).Keeps N P codes) : (m.withAttribute next).Keeps N P codes := by
  unfold withAttribute
  split
  · rename_i k hk
    unfold closeAttribute at hk
    split at hk
    · cases hk
    rename_i tag htag
    split at hk
    · cases hk
    cases hk
    have hover := h.tag tag htag
    refine hnext _ ⟨fun _ => rfl, h.data, ?_, nofun, nofun, h.sectionEnd⟩ rfl ?_
    · intro t ht
      cases ht
      refine ⟨hover.name, fun a ha => ?_⟩
      rcases mem_append.mp ha with ha | ha
      · exact hover.attributes a ha
      · rw [mem_singleton.mp ha]
        exact ⟨h.attributeName, h.parts⟩
    · simp [tagCodes, htag, attributesCodes, valueCodes, partsCodes]
  · trivial

theorem keeps_extendValue (h : m.Made N P) (hvalue : m.state.hasValue = true)
    (htag : m.state.isTag = true) {c : Char} (hc : P c) : (m.extendValue c).Keeps N P m.tagCodes := by
  unfold extendValue
  split
  · rename_i parts hparts
    refine ⟨⟨fun hno => absurd (hvalue.symm.trans hno) Bool.noConfusion, h.data, h.tag,
      h.attributeName, ?_, h.sectionEnd⟩, ?_⟩
    · intro new hnew
      cases hnew
      exact over_addChar (h.parts parts hparts) hc
    · rw [heldCodes_of_isTag (m := { m with attributeValue := some (addChar parts c) }) htag]
      simp [tagCodes, hparts, valueCodes, partsCodes_addChar]
  · trivial

theorem keeps_openName {c : Char} (h : m.Made N P) (hvalue : m.attributeValue = none)
    (hm : m.state.isTag = false) (hover : tag.Made N P) (hcodes : tag.isEnd = true ∨ tag.attributes = [])
    (hc : ¬ isSpace c = true → N c) : (m.openName tag c).Keeps N P m.heldCodes := by
  unfold openName
  split
  · rename_i hletter
    have hspace : ¬ isSpace c = true := by
      simp only [isSpace, Bool.or_eq_true, beq_iff_eq]
      rintro (((rfl | rfl) | rfl) | rfl) <;> exact absurd hletter (by decide)
    refine ⟨⟨fun _ => hvalue, h.data, ?_, h.attributeName, h.parts, h.sectionEnd⟩, ?_⟩
    · intro t ht
      cases ht
      refine ⟨fun name hname => ?_, hover.attributes⟩
      cases hname
      exact over_cons.2 ⟨hc hspace, over_nil⟩
    · rw [heldCodes_of_not_isTag hm, heldCodes_of_isTag rfl]
      rcases hcodes with hend | hnone
      · simp [tagCodes, hend]
      · simp [tagCodes, hnone, hvalue, attributesCodes, valueCodes, partsCodes]
  · trivial

theorem keeps_openDeclaration (h : m.Made N P) (hstate : m.state = .declarationOpen) (c : Char) :
    (m.openDeclaration c).Keeps N P m.heldCodes := by
  have hm : m.state.isTag = false := hstate ▸ rfl
  have hvalue := h.value (hstate ▸ rfl)
  unfold openDeclaration
  split
  · trivial
  dsimp only
  split_ifs
  · exact keeps_outside hm ⟨fun _ => hvalue, over_nil, h.tag, h.attributeName, h.parts, h.sectionEnd⟩ rfl
  · exact keeps_outside hm ⟨fun _ => hvalue, h.data, h.tag, h.attributeName, h.parts, h.sectionEnd⟩ rfl
  · refine keeps_outside hm ⟨fun _ => hvalue, over_nil, h.tag, h.attributeName, h.parts, ?_⟩ rfl
    intro s hs
    cases hs
    exact over_nil
  · exact keeps_outside hm ⟨fun _ => hvalue, h.data, h.tag, h.attributeName, h.parts, h.sectionEnd⟩ hm
  · trivial

theorem keeps_closeData (h : m.Made N P) (hm : m.state.isTag = false) (hvalue : m.attributeValue = none)
    {e : Text → Event} {next : State} (hnext : next.isTag = false)
    (hover : ∀ s, Markup.Over P s → (e s).Made N P ∧ (e s).codes = [])
    (hback : next = .data ∨ ∀ s, e s = .data s) : (m.closeData e next).Keeps N P m.heldCodes := by
  refine ⟨⟨fun _ => hvalue, over_nil, h.tag, h.attributeName, h.parts, h.sectionEnd⟩, (hover _ h.data).1,
    heldCodes_of_not_isTag hnext, ?_, ?_⟩
  · rw [heldCodes_of_not_isTag hm]
    exact (hover _ h.data).2
  · rcases hback with rfl | hback
    · exact Or.inl rfl
    · exact Or.inr ⟨_, hback _⟩

theorem settle_eq (s : Text) : (settle s).1 ++ (settle s).2 = s := by
  induction s with
  | nil => rfl
  | cons c rest ih =>
    rw [settle]
    split
    · rfl
    · exact congrArg (c :: ·) ih

theorem keeps_readSection (h : m.Made N P) (hstate : m.state = .cdataSection) {c : Char} (hc : P c) :
    (m.readSection c).Keeps N P m.heldCodes := by
  have hm : m.state.isTag = false := hstate ▸ rfl
  have hvalue := h.value (hstate ▸ rfl)
  unfold readSection
  split
  · trivial
  rename_i seen hseen
  have hmore : Markup.Over P (seen ++ [c]) :=
    over_append.2 ⟨h.sectionEnd seen hseen, over_cons.2 ⟨hc, over_nil⟩⟩
  dsimp only
  split
  · have hover : ({ m with sectionEnd := some (seen ++ [c]) } : Machine).Made N P := by
      refine ⟨h.value, h.data, h.tag, h.attributeName, h.parts, fun s hs => ?_⟩
      cases hs
      exact hmore
    exact keeps_closeData hover hm hvalue rfl (fun s hs => ⟨hs, rfl⟩) (Or.inl rfl)
  · rw [← settle_eq (seen ++ [c]), over_append] at hmore
    refine keeps_outside hm ⟨h.value, over_append.2 ⟨h.data, hmore.1⟩, h.tag, h.attributeName, h.parts, ?_⟩ hm
    intro s hs
    cases hs
    exact hmore.2

theorem keeps_retag {new : Tag} (h : m.Made N P) (hvalue : m.attributeValue = none)
    (hs : s.isTag = true) (htag : m.tag = some tag) (hover : new.Made N P)
    (hattributes : new.attributes = tag.attributes) (hend : new.isEnd = tag.isEnd) :
    Step.Keeps N P m.tagCodes (.quiet { m with tag := some new, state := s }) := by
  refine ⟨⟨fun _ => hvalue, h.data, ?_, h.attributeName, h.parts, h.sectionEnd⟩, ?_⟩
  · intro t ht
    cases ht
    exact hover
  · rw [heldCodes_of_isTag (m := { m with tag := some new, state := s }) hs]
    simp only [tagCodes, htag, hattributes, hend]

theorem keeps_attributeName {name : Text} (h : m.Made N P) (hvalue : m.attributeValue = none)
    (hs : s.isTag = true) (hname : Markup.Over N name) :
    Step.Keeps N P m.tagCodes (.quiet { m with attributeName := some name, state := s }) := by
  refine ⟨⟨fun _ => hvalue, h.data, h.tag, ?_, h.parts, h.sectionEnd⟩, heldCodes_of_isTag hs⟩
  intro n hn
  cases hn
  exact hname

theorem keeps_openValue {parts : List Part} (h : m.Made N P) (hvalue : m.attributeValue = none)
    (hs : s.isTag = true ∧ s.hasValue = true) (hcodes : partsCodes parts = []) (hparts : ∀ p ∈ parts, p.Over P) :
    Step.Keeps N P m.tagCodes (.quiet { m with attributeValue := some parts, state := s }) := by
  refine ⟨⟨fun hno => absurd (hs.2.symm.trans hno) Bool.noConfusion, h.data, h.tag, h.attributeName, ?_,
    h.sectionEnd⟩, ?_⟩
  · intro new hnew
    cases hnew
    exact hparts
  · rw [heldCodes_of_isTag (m := { m with attributeValue := some parts, state := s }) hs.1]
    have hnone : valueCodes none = [] := rfl
    have hsome : valueCodes (some parts) = [] := hcodes
    simp only [tagCodes, hvalue, hnone, hsome]

theorem step_made (hlower : ∀ c, N c → ∀ d ∈ lowercase c, N d) (hdash : P '-') (h : m.Made N P) {c : Char} (hc : P c)
    (hname : ¬ isSpace c = true → N c) : (m.step c).Keeps N P m.heldCodes := by
  have hone : Markup.Over P [c] := over_cons.2 ⟨hc, over_nil⟩
  unfold step
  cases hstate : m.state with
  | data =>
    have hm : m.state.isTag = false := hstate ▸ rfl
    have hvalue := h.value (hstate ▸ rfl)
    dsimp only
    split
    · exact keeps_closeData h hm hvalue rfl (fun s hs => ⟨hs, rfl⟩) (Or.inr fun _ => rfl)
    · exact keeps_data h hm hvalue hone rfl
  | tagOpen =>
    have hm : m.state.isTag = false := hstate ▸ rfl
    have hvalue := h.value (hstate ▸ rfl)
    have hempty : Tag.Made N P {} := ⟨nofun, forall_mem_nil _⟩
    have htag (t : Tag) (ht : some {} = some t) : t.Made N P := by
      cases ht
      exact hempty
    dsimp only
    split_ifs
    · exact keeps_outside hm ⟨fun _ => hvalue, h.data, htag, h.attributeName, h.parts, h.sectionEnd⟩ rfl
    · exact keeps_outside hm ⟨fun _ => hvalue, h.data, htag, h.attributeName, h.parts, h.sectionEnd⟩ rfl
    · rw [heldCodes_of_not_isTag hm,
        ← heldCodes_of_not_isTag (m := { m with tag := some {}, state := .tagOpen }) rfl]
      exact keeps_openName ⟨fun _ => hvalue, h.data, htag, h.attributeName, h.parts, h.sectionEnd⟩ hvalue
        rfl hempty (Or.inr rfl) hname
  | endTagOpen =>
    dsimp only
    split
    · trivial
    · rename_i tag htag
      exact keeps_openName h (h.value (hstate ▸ rfl)) (hstate ▸ rfl)
        ⟨(h.tag tag htag).name, (h.tag tag htag).attributes⟩ (Or.inl rfl) hname
  | tagName =>
    have hvalue := h.value (hstate ▸ rfl)
    rw [heldCodes_of_isTag (hstate ▸ rfl)]
    dsimp only
    split_ifs with hspace
    · exact keeps_goto h rfl (Or.inr hvalue)
    · exact keeps_goto h rfl (Or.inr hvalue)
    · exact keeps_closeTag h hvalue
    · split
      · trivial
      rename_i tag htag
      split
      · trivial
      rename_i name htagName
      refine keeps_retag h hvalue rfl htag ⟨?_, (h.tag tag htag).attributes⟩ rfl rfl
      intro n hn
      cases hn
      exact over_append.2 ⟨(h.tag tag htag).name name htagName, over_cons.2 ⟨hname hspace, over_nil⟩⟩
  | beforeAttributeName =>
    have hvalue := h.value (hstate ▸ rfl)
    rw [heldCodes_of_isTag (hstate ▸ rfl)]
    dsimp only
    split_ifs with hspace
    · exact keeps_stay h (hstate ▸ rfl)
    · exact keeps_goto h rfl (Or.inr hvalue)
    · exact keeps_closeTag h hvalue
    · trivial
    · exact keeps_attributeName h hvalue rfl (hlower c (hname hspace))
  | attributeName =>
    have hvalue := h.value (hstate ▸ rfl)
    rw [heldCodes_of_isTag (hstate ▸ rfl)]
    dsimp only
    split_ifs with hspace
    · exact keeps_goto h rfl (Or.inr hvalue)
    · exact keeps_withAttribute h fun k hk hnone hcodes => hcodes ▸ keeps_goto hk rfl (Or.inr hnone)
    · exact keeps_goto h rfl (Or.inr hvalue)
    · exact keeps_closeTag h hvalue
    · trivial
    · split
      · trivial
      rename_i name hold
      exact keeps_attributeName h hvalue rfl (over_append.2 ⟨h.attributeName name hold, hlower c (hname hspace)⟩)
  | afterAttributeName =>
    rw [heldCodes_of_isTag (hstate ▸ rfl)]
    dsimp only
    split_ifs
    · exact keeps_stay h (hstate ▸ rfl)
    · exact keeps_withAttribute h fun k hk hnone hcodes => hcodes ▸ keeps_goto hk rfl (Or.inr hnone)
    · exact keeps_goto h rfl (Or.inr (h.value (hstate ▸ rfl)))
    · exact keeps_withAttribute h fun k hk hnone hcodes => hcodes ▸ keeps_closeTag hk hnone
    · trivial
    · exact keeps_stay h (hstate ▸ rfl)
  | beforeAttributeValue =>
    have hvalue := h.value (hstate ▸ rfl)
    rw [heldCodes_of_isTag (hstate ▸ rfl)]
    dsimp only
    split_ifs
    · exact keeps_stay h (hstate ▸ rfl)
    · exact keeps_openValue h hvalue ⟨rfl, rfl⟩ rfl (forall_mem_nil _)
    · exact keeps_openValue h hvalue ⟨rfl, rfl⟩ rfl (forall_mem_nil _)
    · exact keeps_openValue h hvalue ⟨rfl, rfl⟩ rfl (forall_mem_nil _)
    · trivial
    · exact keeps_openValue h hvalue ⟨rfl, rfl⟩ rfl (forall_mem_singleton.2 hone)
  | valueDoubleQuoted | valueSingleQuoted =>
    rw [heldCodes_of_isTag (hstate ▸ rfl)]
    dsimp only
    split
    · exact keeps_goto h rfl (Or.inl rfl)
    · exact keeps_extendValue h (hstate ▸ rfl) (hstate ▸ rfl) hc
  | valueUnquoted =>
    rw [heldCodes_of_isTag (hstate ▸ rfl)]
    dsimp only
    split_ifs
    · exact keeps_withAttribute h fun k hk hnone hcodes => hcodes ▸ keeps_goto hk rfl (Or.inr hnone)
    · exact keeps_withAttribute h fun k hk hnone hcodes => hcodes ▸ keeps_closeTag hk hnone
    · trivial
    · exact keeps_extendValue h (hstate ▸ rfl) (hstate ▸ rfl) hc
  | afterAttributeValue =>
    rw [heldCodes_of_isTag (hstate ▸ rfl)]
    refine keeps_withAttribute h fun k hk hnone hcodes => hcodes ▸ ?_
    split_ifs
    · exact keeps_goto hk rfl (Or.inr hnone)
    · exact keeps_goto hk rfl (Or.inr hnone)
    · exact keeps_closeTag hk hnone
    · trivial
  | selfClosingStartTag =>
    have hvalue := h.value (hstate ▸ rfl)
    rw [heldCodes_of_isTag (hstate ▸ rfl)]
    dsimp only
    split
    · trivial
    rename_i tag htag
    have hover : Tag.Made N P { tag with selfClosed := true } :=
      ⟨(h.tag tag htag).name, (h.tag tag htag).attributes⟩
    obtain ⟨hnext, hcodes⟩ := keeps_retag (s := .selfClosingStartTag) h hvalue rfl htag hover rfl rfl
    split_ifs
    · rw [← hcodes, heldCodes_of_isTag rfl]
      exact keeps_closeTag hnext hvalue
    · trivial
  | declarationOpen => exact keeps_openDeclaration h hstate c
  | cdataSection => exact keeps_readSection h hstate hc
  | unknown n => trivial
  | commentStart | commentStartDash | comment | commentEndDash | commentEnd | doctype | doctypeContents =>
    have hm : m.state.isTag = false := hstate ▸ rfl
    have hvalue := h.value (hstate ▸ rfl)
    have hafterDash : Markup.Over P ['-', c] := over_cons.2 ⟨hdash, hone⟩
    dsimp only
    split_ifs
    -- Comments and document types: the data grows, begins or is reported, and nothing else changes but the state.
    all_goals first
      | trivial
      | exact keeps_outside hm (h.goto (Or.inr hvalue)) rfl
      | exact keeps_outside hm ⟨fun _ => hvalue, over_nil, h.tag, h.attributeName, h.parts, h.sectionEnd⟩ rfl
      | exact keeps_data h hm hvalue hone rfl
      | exact keeps_data h hm hvalue hafterDash rfl
      | exact keeps_closeData h hm hvalue rfl (fun s hs => ⟨hs, rfl⟩) (Or.inl rfl)

theorem step_keeps (hP : Alphabet P) (h : m.Over P) {c : Char} (hc : P c) : (m.step c).Keeps P P m.heldCodes :=
  step_made hP.lower (hP.own "-" (by decide) '-' (by decide)) h hc fun _ => hc

def takesCode (m : Machine) : Bool := m.tag.any fun tag => !tag.isEnd

theorem readCode_keeps {tokens : List Token} (h : m.Made N P) (hn : m.readCode tokens = .ok n) :
    n.Made N P ∧ n.heldCodes = m.heldCodes ++ (if m.takesCode then [tokens] else []) := by
  have htagCodes {parts : List Part} {codes : List (List Token)}
      (hcodes : partsCodes parts = valueCodes m.attributeValue ++ codes) :
      tagCodes { m with attributeValue := some parts } = m.tagCodes ++ if m.takesCode then codes else [] := by
    have hsome : valueCodes (some parts) = partsCodes parts := rfl
    unfold tagCodes takesCode
    cases htag : m.tag with
    | none => rfl
    | some tag =>
      cases hend : tag.isEnd with
      | true => simp [hend]
      | false => simp [hend, hsome, hcodes]
  have hcode : ∀ p ∈ [Part.code tokens], p.Over P := forall_mem_singleton.2 trivial
  unfold readCode at hn
  split_ifs at hn with hstate hvalue
  · cases hn
    have hnone := h.value (hstate ▸ rfl)
    refine ⟨⟨fun hno => absurd hno Bool.noConfusion, h.data, h.tag, h.attributeName, ?_, h.sectionEnd⟩, ?_⟩
    · intro new hnew
      cases hnew
      exact hcode
    · rw [heldCodes_of_isTag (m := m) (hstate ▸ rfl), heldCodes_of_isTag rfl]
      exact htagCodes (by simp [hnone, valueCodes, partsCodes, Part.codes])
  · have hin : m.state.isTag = true ∧ m.state.hasValue = true := by
      simp only [inValue, Bool.or_eq_true, beq_iff_eq] at hvalue
      rcases hvalue with (hvalue | hvalue) | hvalue <;> rw [hvalue] <;> exact ⟨rfl, rfl⟩
    split at hn
    · rename_i parts hparts
      cases hn
      refine ⟨⟨fun hno => absurd (hin.2.symm.trans hno) Bool.noConfusion, h.data, h.tag, h.attributeName, ?_,
        h.sectionEnd⟩, ?_⟩
      · intro new hnew
        cases hnew
        exact forall_mem_append.2 ⟨h.parts parts hparts, hcode⟩
      · rw [heldCodes_of_isTag hin.1,
          heldCodes_of_isTag (m := { m with attributeValue := some (parts ++ [.code tokens]) }) hin.1]
        exact htagCodes (by simp [hparts, valueCodes, partsCodes, Part.codes])
    · cases hn
  · split at hn <;> cases hn

end Machine

end InlineMarkup.Markup

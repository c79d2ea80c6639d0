import InlineMarkup.Markup.Machine
import InlineMarkup.Proofs.Reading

/-!
Tags as they are written, and what the markup reader makes of them.
-/
namespace InlineMarkup.Markup

open List

namespace Builder

inductive Quiet : Machine → Text → Machine → Prop where
  | nil (m : Machine) : Quiet m [] m
  | cons {m next last : Machine} {c : Char} {s : Text} (hstate : m.state ≠ .data)
      (hstep : m.step c = .quiet next) (hrest : Quiet next s last) : Quiet m (c :: s) last

def IsNameChar (c : Char) : Prop := Machine.isSpace c = false ∧ c ≠ '/' ∧ c ≠ '>'

structure IsTagName (name : Text) : Prop where
  letter : ∃ c rest, name = c :: rest ∧ isAlphabetic c = true
  name : ∀ c ∈ name, IsNameChar c

theorem isTagName_of_identifier {name : Text} (h : isIdentifier name = true)
    (hletter : name.head?.any isAlphabetic = true) : IsTagName name := by
  cases name with
  | nil => cases h
  | cons c rest =>
    refine ⟨⟨c, rest, rfl, by simpa using hletter⟩, fun d hd => ?_⟩
    have hlike := Reading.all_nameLike h d hd
    have hne {e : Char} (he : Expression.isNameLike e = false) : d ≠ e := by
      rintro rfl
      rw [hlike] at he
      cases he
    refine ⟨?_, hne (by decide), hne (by decide)⟩
    have htab : d ≠ '\t' := hne (by decide)
    have hline : d ≠ '\n' := hne (by decide)
    have hpage : d ≠ '\x0c' := hne (by decide)
    have hspace : d ≠ ' ' := hne (by decide)
    simp [Machine.isSpace, htab, hline, hpage, hspace]

def tagEvent (tag : Tag) : Event :=
  if tag.isEnd then .finish tag.name else .start tag.name tag.attributes

end Builder

open Builder (Quiet IsTagName IsNameChar tagEvent)
open Machine (isSpace)

/-! ### Attributes as they are written -/

def IsGap (s : Text) : Prop := ∀ c ∈ s, isSpace c = true

theorem isGap_space : IsGap [' '] := forall_mem_singleton.2 rfl

theorem space_ne_nil : [' '] ≠ ([] : Text) := cons_ne_nil _ _

def IsAttributeChar (c : Char) : Prop :=
  isSpace c = false ∧ c ≠ '/' ∧ c ≠ '>' ∧ c ≠ '"' ∧ c ≠ '\'' ∧ c ≠ '<' ∧ c ≠ '='

/-- An attribute as it is written in a tag: white space, the name, the equals sign with white space
around it, and the value in double quotes. -/
structure WrittenAttribute where
  gap : Text
  name : Text
  before : Text
  after : Text
  value : Text
  gap_ne_nil : gap ≠ []
  gap_isGap : IsGap gap
  name_ne_nil : name ≠ []
  name_char : ∀ c ∈ name, IsAttributeChar c
  before_isGap : IsGap before
  after_isGap : IsGap after
  value_char : ∀ c ∈ value, c ≠ '"'

def textParts (s : Text) : List Part := if s = [] then [] else [.text s]

theorem addChar_textParts (s : Text) (c : Char) : Machine.addChar (textParts s) c = textParts (s ++ [c]) := by
  unfold textParts
  split
  · rename_i h
    simp [h, Machine.addChar]
  · simp [Machine.addChar]

def lowercaseName (name : Text) : Text := name.flatMap lowercase

namespace WrittenAttribute

def body (a : WrittenAttribute) : Text :=
  a.name ++ (a.before ++ '=' :: (a.after ++ '"' :: (a.value ++ ['"'])))

def text (a : WrittenAttribute) : Text := a.gap ++ a.body

def reported (a : WrittenAttribute) : Attribute := ⟨some (lowercaseName a.name), some (textParts a.value)⟩

end WrittenAttribute

/-! ### Inside a tag -/

theorem Builder.Quiet.append {m n k : Machine} {s t : Text} (h : Quiet m s n) (ht : Quiet n t k) :
    Quiet m (s ++ t) k := by
  induction h with
  | nil => exact ht
  | cons hstate hstep _ ih => exact .cons hstate hstep (ih ht)

theorem Builder.Quiet.one {m n : Machine} {c : Char} (hstate : m.state ≠ .data) (h : m.step c = .quiet n) :
    Quiet m [c] n := .cons hstate h (.nil n)

/-- The reader is in a tag, of which it has read the given name and attributes. -/
inductive InTag (m : Machine) (tag : Tag) : Prop where
  | between (hstate : m.state = .tagName ∨ m.state = .beforeAttributeName) (htag : m.tag = some tag)
  | afterValue (hstate : m.state = .afterAttributeValue ∨ m.state = .valueUnquoted) (old : Tag) (htag : m.tag = some old)
      (hnew : ∀ a ∈ old.attributes, a.name ≠ m.attributeName)
      (hall : tag = { old with attributes := old.attributes ++ [⟨m.attributeName, m.attributeValue⟩] })

section

variable {m : Machine} {tag : Tag}

theorem InTag.state_ne_data (h : InTag m tag) : m.state ≠ .data := by
  rcases h with ⟨hstate | hstate, _⟩ | ⟨hstate | hstate, _⟩ <;> simp [hstate]

variable {name s : Text}

theorem closeAttribute_ok {old : Tag} (htag : m.tag = some old)
    (hnew : ∀ a ∈ old.attributes, a.name ≠ m.attributeName) :
    m.closeAttribute = .ok { m with
      tag := some { old with attributes := old.attributes ++ [⟨m.attributeName, m.attributeValue⟩] },
      attributeName := none, attributeValue := none } := by
  have hany : (old.attributes.any fun a => a.name == m.attributeName) = false := by
    simpa using hnew
  simp [Machine.closeAttribute, htag, hany]

theorem InTag.step_space (h : InTag m tag) {c : Char} (hc : isSpace c = true) :
    ∃ n, m.step c = .quiet n ∧ n.state = .beforeAttributeName ∧ n.tag = some tag ∧ n.data = m.data := by
  cases h with
  | between hstate htag =>
    rcases hstate with hstate | hstate
    · exact ⟨m.goto .beforeAttributeName, by simp [Machine.step, hstate, hc], rfl, htag, rfl⟩
    · exact ⟨m, by simp [Machine.step, hstate, hc], hstate, htag, rfl⟩
  | afterValue hstate old htag hnew hall =>
    subst hall
    refine ⟨{ m with
      tag := some { old with attributes := old.attributes ++ [⟨m.attributeName, m.attributeValue⟩] },
      attributeName := none, attributeValue := none, state := .beforeAttributeName }, ?_, rfl, rfl, rfl⟩
    rcases hstate with hstate | hstate <;>
      simp [Machine.step, hstate, Machine.withAttribute, closeAttribute_ok htag hnew, hc, Machine.goto]

theorem InTag.step_close (h : InTag m tag) (hself : tag.selfClosed = false) :
    ∃ n, m.step '>' = .event n (tagEvent tag) (n.goto .data) ∧ n.data = m.data := by
  have hspace : isSpace '>' = false := rfl
  cases h with
  | between hstate htag =>
    refine ⟨m, ?_, rfl⟩
    rcases hstate with hstate | hstate <;>
      simp [Machine.step, hstate, hspace, Machine.closeTag, htag, hself, tagEvent]
  | afterValue hstate old htag hnew hall =>
    subst hall
    refine ⟨{ m with
      tag := some { old with attributes := old.attributes ++ [⟨m.attributeName, m.attributeValue⟩] },
      attributeName := none, attributeValue := none }, ?_, rfl⟩
    have hold : old.selfClosed = false := hself
    rcases hstate with hstate | hstate <;>
      simp [Machine.step, hstate, Machine.withAttribute, closeAttribute_ok htag hnew, hspace, Machine.closeTag,
        hold, tagEvent]

theorem InTag.step_slash (h : InTag m tag) (hquoted : m.state ≠ .valueUnquoted) :
    ∃ n, m.step '/' = .quiet n ∧ n.state = .selfClosingStartTag ∧ n.tag = some tag ∧ n.data = m.data := by
  have hspace : isSpace '/' = false := rfl
  cases h with
  | between hstate htag =>
    refine ⟨m.goto .selfClosingStartTag, ?_, rfl, htag, rfl⟩
    rcases hstate with hstate | hstate <;> simp [Machine.step, hstate, hspace]
  | afterValue hstate old htag hnew hall =>
    subst hall
    refine ⟨{ m with
      tag := some { old with attributes := old.attributes ++ [⟨m.attributeName, m.attributeValue⟩] },
      attributeName := none, attributeValue := none, state := .selfClosingStartTag }, ?_, rfl, rfl, rfl⟩
    have hafter := hstate.resolve_right hquoted
    simp [Machine.step, hafter, Machine.withAttribute, closeAttribute_ok htag hnew, hspace, Machine.goto]

theorem step_selfClose (hstate : m.state = .selfClosingStartTag) (htag : m.tag = some tag)
    (hend : tag.isEnd = false) :
    ∃ n, m.step '>' = .event n (.startEnd tag.name tag.attributes) (n.goto .data) ∧ n.data = m.data := by
  refine ⟨{ m with tag := some { tag with selfClosed := true } }, ?_, rfl⟩
  simp [Machine.step, hstate, htag, Machine.closeTag, hend]

/-! ### Names, white space and attributes -/

theorem quiet_name (hstate : m.state = .tagName) (htag : m.tag = some tag)
    (hname : tag.name = some name) (hs : ∀ c ∈ s, IsNameChar c) :
    ∃ n, Quiet m s n ∧ n.state = .tagName ∧ n.tag = some { tag with name := some (name ++ s) } ∧
      n.data = m.data := by
  induction s generalizing m name tag with
  | nil =>
    refine ⟨m, .nil m, hstate, ?_, rfl⟩
    rw [append_nil, ← hname, htag]
  | cons c s ih =>
    obtain ⟨hspace, hslash, hclose⟩ := hs c mem_cons_self
    have hstep : m.step c = .quiet { m with tag := some { tag with name := some (name ++ [c]) } } := by
      simp [Machine.step, hstate, hspace, hslash, hclose, htag, hname]
    obtain ⟨n, hquiet, hn, hntag, hdata⟩ :=
      @ih { m with tag := some { tag with name := some (name ++ [c]) } } { tag with name := some (name ++ [c]) }
        (name ++ [c]) hstate rfl rfl fun d hd => hs d (mem_cons_of_mem _ hd)
    exact ⟨n, .cons (by rw [hstate]; nofun) hstep hquiet, hn, by simpa using hntag, hdata⟩

theorem quiet_startName (hstate : m.state = .tagOpen) (hname : IsTagName name) :
    ∃ n, Quiet m name n ∧ n.state = .tagName ∧ n.tag = some { name := some name } ∧ n.data = m.data := by
  obtain ⟨c, rest, rfl, hletter⟩ := hname.letter
  have hbang : c ≠ '!' := by
    rintro rfl
    exact absurd hletter (by decide)
  have hslash : c ≠ '/' := (hname.name c mem_cons_self).2.1
  have hstep : m.step c = .quiet { m with tag := some { name := some [c] }, state := .tagName } := by
    simp [Machine.step, hstate, hbang, hslash, Machine.openName, hletter]
  obtain ⟨n, hquiet, hn⟩ :=
    @quiet_name { m with tag := some { name := some [c] }, state := .tagName } { name := some [c] } [c] rest
      rfl rfl rfl fun d hd => hname.name d (mem_cons_of_mem _ hd)
  exact ⟨n, .cons (by rw [hstate]; nofun) hstep hquiet, hn⟩

theorem quiet_finishName (hstate : m.state = .tagOpen) (hname : IsTagName name) :
    ∃ n, Quiet m ('/' :: name) n ∧ n.state = .tagName ∧ n.tag = some { name := some name, isEnd := true } ∧
      n.data = m.data := by
  obtain ⟨c, rest, rfl, hletter⟩ := hname.letter
  have hslash : m.step '/' = .quiet { m with tag := some {}, state := .endTagOpen } := by
    simp [Machine.step, hstate, Machine.goto]
  have hstep : ({ m with tag := some {}, state := .endTagOpen } : Machine).step c =
      .quiet { m with tag := some { name := some [c], isEnd := true }, state := .tagName } := by
    simp [Machine.step, Machine.openName, hletter]
  obtain ⟨n, hquiet, hn⟩ :=
    @quiet_name { m with tag := some { name := some [c], isEnd := true }, state := .tagName }
      { name := some [c], isEnd := true } [c] rest rfl rfl rfl
      fun d hd => hname.name d (mem_cons_of_mem _ hd)
  exact ⟨n, .cons (by rw [hstate]; nofun) hslash (.cons nofun hstep hquiet), hn⟩

theorem quiet_stay (hstate : m.state ≠ .data) (hstay : ∀ c, isSpace c = true → m.step c = .quiet m)
    (hs : IsGap s) : Quiet m s m := by
  induction s with
  | nil => exact .nil m
  | cons c s ih => exact .cons hstate (hstay c (hs c mem_cons_self)) (ih fun d hd => hs d (mem_cons_of_mem _ hd))

theorem InTag.quiet_gap (h : InTag m tag) {s : Text} (hs : IsGap s) :
    ∃ n, Quiet m s n ∧ InTag n tag ∧ n.data = m.data ∧
      (s = [] ∧ n = m ∨ s ≠ [] ∧ n.state = .beforeAttributeName ∧ n.tag = some tag) := by
  cases s with
  | nil => exact ⟨m, .nil m, h, rfl, .inl ⟨rfl, rfl⟩⟩
  | cons c s =>
    obtain ⟨n, hstep, hstate, htag, hdata⟩ := h.step_space (hs c mem_cons_self)
    have hrest : Quiet n s n := quiet_stay (by rw [hstate]; nofun) (fun d hd => by simp [Machine.step, hstate, hd])
      fun d hd => hs d (mem_cons_of_mem _ hd)
    exact ⟨n, .cons h.state_ne_data hstep hrest, .between (.inr hstate) htag, hdata, .inr ⟨nofun, hstate, htag⟩⟩

theorem quiet_attributeName (hstate : m.state = .attributeName)
    (hname : m.attributeName = some name) (hs : ∀ c ∈ s, IsAttributeChar c) :
    Quiet m s { m with attributeName := some (name ++ lowercaseName s) } := by
  induction s generalizing m name with
  | nil =>
    have hsame : { m with attributeName := some (name ++ lowercaseName []) } = m := by
      simp [lowercaseName, ← hname]
    rw [hsame]
    exact .nil m
  | cons c s ih =>
    obtain ⟨hspace, hslash, hclose, hdouble, hsingle, hopen, hequals⟩ := hs c mem_cons_self
    have hstep : m.step c = .quiet { m with attributeName := some (name ++ lowercase c) } := by
      simp [Machine.step, hstate, hspace, hslash, hclose, hdouble, hsingle, hopen, hequals, hname]
    have hrest := @ih { m with attributeName := some (name ++ lowercase c) } (name ++ lowercase c) hstate rfl
      fun d hd => hs d (mem_cons_of_mem _ hd)
    refine .cons (by rw [hstate]; nofun) hstep ?_
    simpa [lowercaseName] using hrest

theorem quiet_equals (hstate : m.state = .attributeName ∨ m.state = .afterAttributeName)
    (hs : IsGap s) : Quiet m (s ++ ['=']) { m with state := .beforeAttributeValue } := by
  induction s generalizing m with
  | nil =>
    have hspace : isSpace '=' = false := rfl
    refine .one (by rcases hstate with hstate | hstate <;> simp [hstate]) ?_
    rcases hstate with hstate | hstate <;> simp [Machine.step, hstate, hspace, Machine.goto]
  | cons c s ih =>
    have hc := hs c mem_cons_self
    have hstep : m.step c = .quiet { m with state := .afterAttributeName } := by
      rcases hstate with hstate | hstate
      · simp [Machine.step, hstate, hc, Machine.goto]
      · have hsame : { m with state := .afterAttributeName } = m := by rw [← hstate]
        rw [hsame]
        simp [Machine.step, hstate, hc]
    have hrest := @ih { m with state := .afterAttributeName } (Or.inr rfl)
      fun d hd => hs d (mem_cons_of_mem _ hd)
    exact .cons (by rcases hstate with hstate | hstate <;> simp [hstate]) hstep hrest

theorem quiet_wholeName (hstate : m.state = .beforeAttributeName) (hne : name ≠ [])
    (hs : ∀ c ∈ name, IsAttributeChar c) :
    Quiet m name { m with attributeName := some (lowercaseName name), state := .attributeName } := by
  obtain ⟨c, rest, rfl⟩ := exists_cons_of_ne_nil hne
  obtain ⟨hspace, hslash, hclose, hdouble, hsingle, hopen, hequals⟩ := hs c mem_cons_self
  have hfirst : m.step c = .quiet { m with attributeName := some (lowercase c), state := .attributeName } := by
    simp [Machine.step, hstate, hspace, hslash, hclose, hdouble, hsingle, hopen, hequals]
  have hrest := @quiet_attributeName { m with attributeName := some (lowercase c), state := .attributeName }
    (lowercase c) rest rfl rfl fun d hd => hs d (mem_cons_of_mem _ hd)
  exact .cons (by rw [hstate]; nofun) hfirst hrest

theorem quiet_beforeValue (hstate : m.state = .beforeAttributeValue) (hs : IsGap s) : Quiet m s m :=
  quiet_stay (by rw [hstate]; nofun) (fun c hc => by simp [Machine.step, hstate, hc]) hs

theorem quiet_extend {st : State} {P : Char → Prop} (hst : st ≠ .data)
    (hextend : ∀ (m : Machine) (c : Char), m.state = st → P c → m.step c = m.extendValue c)
    {value s : Text} (hstate : m.state = st)
    (hvalue : m.attributeValue = some (textParts value)) (hs : ∀ c ∈ s, P c) :
    Quiet m s { m with attributeValue := some (textParts (value ++ s)) } := by
  induction s generalizing m value with
  | nil =>
    have hsame : { m with attributeValue := some (textParts (value ++ [])) } = m := by simp [← hvalue]
    rw [hsame]
    exact .nil m
  | cons c s ih =>
    have hstep : m.step c = .quiet { m with attributeValue := some (textParts (value ++ [c])) } := by
      rw [hextend m c hstate (hs c mem_cons_self), Machine.extendValue, hvalue]
      simp [addChar_textParts]
    have hrest := @ih { m with attributeValue := some (textParts (value ++ [c])) } (value ++ [c])
      hstate rfl fun d hd => hs d (mem_cons_of_mem _ hd)
    refine .cons (hstate ▸ hst) hstep ?_
    simpa using hrest

theorem quiet_doubleQuoted {value : Text} (hstate : m.state = .beforeAttributeValue)
    (hs : ∀ c ∈ value, c ≠ '"') :
    Quiet m ('"' :: (value ++ ['"']))
      { m with attributeValue := some (textParts value), state := .afterAttributeValue } := by
  have hspace : isSpace '"' = false := rfl
  have hopen : m.step '"' = .quiet { m with attributeValue := some [], state := .valueDoubleQuoted } := by
    simp [Machine.step, hstate, hspace]
  have hbody := @quiet_extend { m with attributeValue := some [], state := .valueDoubleQuoted }
    .valueDoubleQuoted (· ≠ '"') nofun (fun m c hm hc => by simp [Machine.step, hm, hc]) [] value rfl rfl hs
  exact .cons (by rw [hstate]; nofun) hopen (hbody.append (.one nofun rfl))

theorem quiet_body (a : WrittenAttribute) (hstate : m.state = .beforeAttributeName) (htag : m.tag = some tag)
    (hnew : ∀ b ∈ tag.attributes, b.name ≠ a.reported.name) :
    ∃ n, Quiet m a.body n ∧ InTag n { tag with attributes := tag.attributes ++ [a.reported] } ∧
      n.data = m.data ∧ n.state ≠ .valueUnquoted := by
  have hname := quiet_wholeName hstate a.name_ne_nil a.name_char
  have hsign := @quiet_equals { m with
    attributeName := some (lowercaseName a.name), state := .attributeName } a.before (Or.inl rfl) a.before_isGap
  have hgap := @quiet_beforeValue { m with
    attributeName := some (lowercaseName a.name), state := .beforeAttributeValue } a.after rfl a.after_isGap
  have hvalue := @quiet_doubleQuoted { m with
    attributeName := some (lowercaseName a.name), state := .beforeAttributeValue } a.value rfl a.value_char
  refine ⟨{ m with
    attributeName := some (lowercaseName a.name), attributeValue := some (textParts a.value),
    state := .afterAttributeValue }, ?_, .afterValue (.inl rfl) tag htag hnew rfl, rfl, nofun⟩
  simpa [WrittenAttribute.body] using hname.append (hsign.append (hgap.append hvalue))

theorem InTag.quiet_attributes {as : List WrittenAttribute} (h : InTag m tag) (hquoted : m.state ≠ .valueUnquoted)
    (hnew : ∀ a ∈ as, ∀ b ∈ tag.attributes, b.name ≠ a.reported.name)
    (hdistinct : as.Pairwise fun a b => a.reported.name ≠ b.reported.name) :
    ∃ n, Quiet m (as.flatMap WrittenAttribute.text) n ∧
      InTag n { tag with attributes := tag.attributes ++ as.map WrittenAttribute.reported } ∧
      n.data = m.data ∧ n.state ≠ .valueUnquoted := by
  induction as generalizing m tag with
  | nil => exact ⟨m, .nil m, by simpa using h, rfl, hquoted⟩
  | cons a as ih =>
    obtain ⟨hfirst, hrest⟩ := pairwise_cons.mp hdistinct
    obtain ⟨n, hgap, -, hdata, hbefore⟩ := h.quiet_gap a.gap_isGap
    obtain ⟨-, hstate, htag⟩ := hbefore.resolve_left fun hno => a.gap_ne_nil hno.1
    obtain ⟨k, hbody, hk, hkdata, hkquoted⟩ := quiet_body a hstate htag (hnew a mem_cons_self)
    have hnext : ∀ b ∈ as, ∀ x ∈ tag.attributes ++ [a.reported], x.name ≠ b.reported.name := fun b hb =>
      forall_mem_append.2 ⟨hnew b (mem_cons_of_mem _ hb), forall_mem_singleton.2 (hfirst b hb)⟩
    obtain ⟨l, hquiet, hl, hldata, hlquoted⟩ := ih hk hkquoted hnext hrest
    refine ⟨l, ?_, by simpa using hl, hldata.trans (hkdata.trans hdata), hlquoted⟩
    rw [flatMap_cons]
    exact (hgap.append hbody).append hquiet

end

/-! ### Whole tags -/

def Completes (s : Text) (e : Event) : Prop :=
  ∀ m : Machine, m.state = .tagOpen → ∃ k n, Quiet m s k ∧ k.step '>' = .event n e (n.goto .data) ∧ n.data = m.data

section

variable {name gap : Text} {as : List WrittenAttribute}

theorem quiet_tag (hname : IsTagName name)
    (hdistinct : as.Pairwise fun a b => a.reported.name ≠ b.reported.name) (hgap : IsGap gap) {m : Machine}
    (hstate : m.state = .tagOpen) : ∃ n, Quiet m (name ++ as.flatMap WrittenAttribute.text ++ gap) n ∧
      InTag n { name := some name, attributes := as.map WrittenAttribute.reported } ∧ n.data = m.data ∧
      n.state ≠ .valueUnquoted := by
  obtain ⟨k, hread, hk, hktag, hkdata⟩ := quiet_startName hstate hname
  obtain ⟨l, hattributes, hl, hldata, hlquoted⟩ :=
    (InTag.between (.inl hk) hktag).quiet_attributes (by simp [hk]) (by simp) hdistinct
  obtain ⟨n, hspace, hn, hndata, hlast⟩ := hl.quiet_gap hgap
  refine ⟨n, (hread.append hattributes).append hspace, hn, hndata.trans (hldata.trans hkdata), ?_⟩
  rcases hlast with ⟨-, rfl⟩ | ⟨-, hbefore, -⟩
  · exact hlquoted
  · simp [hbefore]

theorem completes_start (hname : IsTagName name)
    (hdistinct : as.Pairwise fun a b => a.reported.name ≠ b.reported.name) (hgap : IsGap gap) :
    Completes (name ++ as.flatMap WrittenAttribute.text ++ gap)
      (.start (some name) (as.map WrittenAttribute.reported)) := by
  intro m hstate
  obtain ⟨k, hquiet, hin, hdata, -⟩ := quiet_tag hname hdistinct hgap hstate
  obtain ⟨n, hclose, hndata⟩ := hin.step_close rfl
  exact ⟨k, n, hquiet, hclose, hndata.trans hdata⟩

theorem completes_single (hname : IsTagName name)
    (hdistinct : as.Pairwise fun a b => a.reported.name ≠ b.reported.name) (hgap : IsGap gap) :
    Completes (name ++ as.flatMap WrittenAttribute.text ++ gap ++ ['/'])
      (.startEnd (some name) (as.map WrittenAttribute.reported)) := by
  intro m hstate
  obtain ⟨k, hquiet, hin, hdata, hquoted⟩ := quiet_tag hname hdistinct hgap hstate
  obtain ⟨l, hslash, hl, hltag, hldata⟩ := hin.step_slash hquoted
  obtain ⟨n, hclose, hndata⟩ := step_selfClose hl hltag rfl
  exact ⟨l, n, hquiet.append (.one hin.state_ne_data hslash), hclose, hndata.trans (hldata.trans hdata)⟩

theorem completes_finish (hname : IsTagName name) (hgap : IsGap gap) :
    Completes ('/' :: name ++ gap) (.finish (some name)) := by
  intro m hstate
  obtain ⟨k, hread, hk, hktag, hkdata⟩ := quiet_finishName hstate hname
  obtain ⟨l, hspace, hl, hldata, -⟩ := (InTag.between (.inl hk) hktag).quiet_gap hgap
  obtain ⟨n, hclose, hndata⟩ := hl.step_close rfl
  exact ⟨l, n, hread.append hspace, hclose, hndata.trans (hldata.trans hkdata)⟩

end

end InlineMarkup.Markup

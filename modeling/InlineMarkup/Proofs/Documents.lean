import InlineMarkup.Proofs.Rendering

/-!
Documents. A document is a row of items: data, tags with their attributes in any of three forms of
quoting, comments, document types and character data sections. Main statement: the markup reader
takes any document in without failure and reports its items, each after the data before it.
-/
namespace InlineMarkup.Markup

open List

open Builder (Quiet IsTagName tagEvent)
open Machine (isSpace)

/-! ### Values -/

inductive Quoting where
  | double
  | single
  | bare
  deriving DecidableEq, Repr

def bareEnds : Text := ['>', '"', '\'', '<', '=', Char.ofNat 0x60]

namespace Quoting

def Allows : Quoting → Text → Prop
  | double, value => '"' ∉ value
  | single, value => '\'' ∉ value
  | bare, value => value ≠ [] ∧ ∀ c ∈ value, isSpace c = false ∧ c ∉ bareEnds

def text : Quoting → Text → Text
  | double, value => '"' :: (value ++ ['"'])
  | single, value => '\'' :: (value ++ ['\''])
  | bare, value => value

def left : Quoting → State
  | bare => .valueUnquoted
  | _ => .afterAttributeValue

end Quoting

theorem step_bare {m : Machine} {c : Char} (hstate : m.state = .valueUnquoted)
    (hc : isSpace c = false ∧ c ∉ bareEnds) : m.step c = m.extendValue c := by
  obtain ⟨hspace, hends⟩ := hc
  simp only [bareEnds, mem_cons, not_mem_nil, or_false, not_or] at hends
  obtain ⟨hclose, hdouble, hsingle, hopen, hequals, htick⟩ := hends
  simp [Machine.step, hstate, hspace, hclose, hdouble, hsingle, hopen, hequals, htick]

section

variable {m : Machine}

theorem hears_bareFirst {c : Char} (hstate : m.state = .beforeAttributeValue)
    (hc : isSpace c = false ∧ c ∉ bareEnds) :
    m.Hears [c] [] { m with attributeValue := some (textParts [c]), state := .valueUnquoted } := by
  obtain ⟨hspace, hends⟩ := hc
  by_cases hamp : c = '&'
  · have hagain : m.step c = .again { m with attributeValue := some [], state := .valueUnquoted } := by
      subst hamp
      simp [Machine.step, hstate, isSpace]
    refine .again hagain ?_ (.nil _)
    rw [step_bare rfl ⟨hspace, hends⟩, Machine.extendValue]
    rfl
  · simp only [bareEnds, mem_cons, not_mem_nil, or_false, not_or] at hends
    obtain ⟨hclose, hdouble, hsingle, hopen, hequals, htick⟩ := hends
    have hstep : m.step c = .quiet { m with attributeValue := some [.text [c]], state := .valueUnquoted } := by
      simp [Machine.step, hstate, hspace, hamp, hclose, hdouble, hsingle, hopen, hequals, htick]
    exact .quiet hstep (.nil _)

theorem hears_value {after value : Text} (q : Quoting) (hstate : m.state = .beforeAttributeValue)
    (hafter : IsGap after) (hvalue : q.Allows value) : m.Hears (after ++ q.text value) []
      { m with attributeValue := some (textParts value), state := q.left } := by
  have hgap := (quiet_beforeValue hstate hafter).hears
  refine hgap.append ?_
  cases q with
  | double => exact (quiet_doubleQuoted hstate fun c hc heq => hvalue (heq ▸ hc)).hears
  | single =>
    have hspace : isSpace '\'' = false := rfl
    have hopen : m.step '\'' = .quiet { m with attributeValue := some [], state := .valueSingleQuoted } := by
      simp [Machine.step, hstate, hspace]
    have hbody := @quiet_extend { m with attributeValue := some [], state := .valueSingleQuoted }
      .valueSingleQuoted (· ≠ '\'') (by decide) (fun m c hm hc => by simp [Machine.step, hm, hc]) [] value rfl rfl
      fun c hc heq => hvalue (heq ▸ hc)
    exact (Quiet.cons (by simp [hstate]) hopen (hbody.append (.one (by simp) rfl))).hears
  | bare =>
    obtain ⟨hne, hchars⟩ := hvalue
    obtain ⟨c, rest, rfl⟩ := exists_cons_of_ne_nil hne
    have hfirst := hears_bareFirst hstate (hchars c mem_cons_self)
    have hbody := @quiet_extend { m with attributeValue := some (textParts [c]), state := .valueUnquoted }
      .valueUnquoted (fun c => isSpace c = false ∧ c ∉ bareEnds) (by decide) (fun m c hm hc => step_bare hm hc)
      [c] rest rfl rfl fun d hd => hchars d (mem_cons_of_mem _ hd)
    exact hfirst.append hbody.hears

end

/-! ### Attributes -/

/-- An attribute with its value: white space, a name in lower case, an equals sign with white space
around it, and the value in one of the forms. -/
structure Assignment where
  gap : Text
  name : Text
  before : Text
  after : Text
  quoting : Quoting
  value : Text
  gap_ne_nil : gap ≠ []
  gap_isGap : IsGap gap
  name_ne_nil : name ≠ []
  name_char : ∀ c ∈ name, IsAttributeChar c
  name_lowercase : lowercaseName name = name
  before_isGap : IsGap before
  after_isGap : IsGap after
  value_allowed : quoting.Allows value

namespace Assignment

def body (a : Assignment) : Text :=
  a.name ++ ((a.before ++ ['=']) ++ (a.after ++ a.quoting.text a.value))

def text (a : Assignment) : Text := a.gap ++ a.body

def reported (a : Assignment) : Attribute := ⟨some a.name, some (textParts a.value)⟩

end Assignment

section

variable {m : Machine} {tag : Tag}

theorem hears_body (a : Assignment) (hstate : m.state = .beforeAttributeName) (htag : m.tag = some tag)
    (hnew : ∀ b ∈ tag.attributes, b.name ≠ some a.name) :
    ∃ n, m.Hears a.body [] n ∧ n.data = m.data ∧ n.state = a.quoting.left ∧
      InTag n { tag with attributes := tag.attributes ++ [a.reported] } := by
  have hread := quiet_wholeName hstate a.name_ne_nil a.name_char
  rw [a.name_lowercase] at hread
  have hsign := @quiet_equals { m with attributeName := some a.name, state := .attributeName } a.before
    (Or.inl rfl) a.before_isGap
  have hvalue := @hears_value { m with attributeName := some a.name, state := .beforeAttributeValue }
    a.after a.value a.quoting rfl a.after_isGap a.value_allowed
  refine ⟨_, hread.hears.append (hsign.hears.append hvalue), rfl, rfl, .afterValue ?_ tag htag hnew rfl⟩
  cases a.quoting <;> simp [Quoting.left]

theorem InTag.hears_assignments {as : List Assignment} (h : InTag m tag)
    (hnew : ∀ a ∈ as, ∀ b ∈ tag.attributes, b.name ≠ some a.name)
    (hdistinct : as.Pairwise fun a b => a.name ≠ b.name) :
    ∃ n, m.Hears (as.flatMap Assignment.text) [] n ∧ n.data = m.data ∧
      InTag n { tag with attributes := tag.attributes ++ as.map Assignment.reported } ∧
      n.state = (as.getLast?.map (·.quoting.left)).getD m.state := by
  induction as generalizing m tag with
  | nil => exact ⟨m, .nil m, rfl, by simpa using h, rfl⟩
  | cons a as ih =>
    obtain ⟨hfirst, hrest⟩ := pairwise_cons.mp hdistinct
    obtain ⟨k, hgap, -, hkdata, hbefore⟩ := h.quiet_gap a.gap_isGap
    obtain ⟨-, hkstate, hktag⟩ := hbefore.resolve_left fun hno => a.gap_ne_nil hno.1
    obtain ⟨l, hbody, hldata, hlstate, hl⟩ := hears_body a hkstate hktag (hnew a mem_cons_self)
    have hnext : ∀ b ∈ as, ∀ x ∈ tag.attributes ++ [a.reported], x.name ≠ some b.name := fun b hb =>
      forall_mem_append.2 ⟨hnew b (mem_cons_of_mem _ hb),
        forall_mem_singleton.2 fun heq => hfirst b hb (Option.some.inj heq)⟩
    obtain ⟨n, hhears, hndata, hn, hnstate⟩ := ih hl hnext hrest
    refine ⟨n, ?_, hndata.trans (hldata.trans hkdata), by simpa using hn, ?_⟩
    · rw [flatMap_cons]
      exact (hgap.hears.append hbody).append hhears
    · rw [hnstate, hlstate, getLast?_cons]
      cases as.getLast? <;> rfl

end

/-! ### Tags -/

/-- What stands in a tag: its name, its attributes, and white space before what closes it. -/
structure TagText where
  name : Text
  assignments : List Assignment
  gap : Text
  isTagName : IsTagName name
  distinct : assignments.Pairwise fun a b => a.name ≠ b.name
  gap_isGap : IsGap gap

namespace TagText

def text (t : TagText) : Text := t.name ++ (t.assignments.flatMap Assignment.text ++ t.gap)

def Closable (t : TagText) : Prop := t.gap ≠ [] ∨ ∀ a ∈ t.assignments.getLast?, a.quoting ≠ .bare

variable (t : TagText) {m : Machine}

theorem hears_rest {tag : Tag} (hstate : m.state = .tagName) (htag : m.tag = some tag) (hnone : tag.attributes = []) :
    ∃ n, m.Hears (t.assignments.flatMap Assignment.text ++ t.gap) [] n ∧ n.data = m.data ∧
      InTag n { tag with attributes := t.assignments.map Assignment.reported } ∧
      (t.Closable → n.state ≠ .valueUnquoted) := by
  have hnew : ∀ a ∈ t.assignments, ∀ b ∈ tag.attributes, b.name ≠ some a.name := by simp [hnone]
  obtain ⟨k, hhears, hkdata, hk, hkstate⟩ := (InTag.between (.inl hstate) htag).hears_assignments hnew t.distinct
  rw [hnone, nil_append] at hk
  obtain ⟨n, hgap, hn, hndata, hlast⟩ := hk.quiet_gap t.gap_isGap
  refine ⟨n, hhears.append hgap.hears, hndata.trans hkdata, hn, fun hclosable => ?_⟩
  rcases hlast with ⟨hempty, rfl⟩ | ⟨-, hbefore, -⟩
  · -- Without white space the reader is where the last attribute left it.
    have hquoted := hclosable.resolve_left fun hne => hne hempty
    rw [hkstate]
    cases hlist : t.assignments.getLast? with
    | none => simp [hstate]
    | some a => cases hq : a.quoting <;> simp_all [Quoting.left]
  · simp [hbefore]

end TagText

def Finishes (s : Text) (e : Event) : Prop :=
  ∀ m : Machine, m.state = .tagOpen → m.data = [] → ∃ n, m.Hears s [e] n ∧ n.state = .data ∧ n.data = []

theorem TagText.finishes_start (t : TagText) :
    Finishes (t.text ++ ['>']) (.start (some t.name) (t.assignments.map Assignment.reported)) := by
  intro m hstate hdata
  obtain ⟨k, hname, hk, hktag, hkdata⟩ := quiet_startName hstate t.isTagName
  obtain ⟨l, hrest, hldata, hl, -⟩ := t.hears_rest hk hktag rfl
  obtain ⟨n, hclose, hndata⟩ := hl.step_close rfl
  exact ⟨_, (hname.hears.append hrest).append (.event hclose (.nil _)), rfl,
    hndata.trans (hldata.trans (hkdata.trans hdata))⟩

theorem TagText.finishes_single (t : TagText) (hclosable : t.Closable) :
    Finishes (t.text ++ ['/', '>']) (.startEnd (some t.name) (t.assignments.map Assignment.reported)) := by
  intro m hstate hdata
  obtain ⟨k, hname, hk, hktag, hkdata⟩ := quiet_startName hstate t.isTagName
  obtain ⟨l, hrest, hldata, hl, hquoted⟩ := t.hears_rest hk hktag rfl
  obtain ⟨x, hslash, hx, hxtag, hxdata⟩ := hl.step_slash (hquoted hclosable)
  obtain ⟨n, hclose, hndata⟩ := step_selfClose hx hxtag rfl
  exact ⟨_, (hname.hears.append hrest).append (.quiet hslash (.event hclose (.nil _))), rfl,
    hndata.trans (hxdata.trans (hldata.trans (hkdata.trans hdata)))⟩

theorem TagText.finishes_finish (t : TagText) : Finishes ('/' :: (t.text ++ ['>'])) (.finish (some t.name)) := by
  intro m hstate hdata
  obtain ⟨k, hname, hk, hktag, hkdata⟩ := quiet_finishName hstate t.isTagName
  obtain ⟨l, hrest, hldata, hl, -⟩ := t.hears_rest hk hktag rfl
  obtain ⟨n, hclose, hndata⟩ := hl.step_close rfl
  exact ⟨_, (hname.hears.append hrest).append (.event hclose (.nil _)), rfl,
    hndata.trans (hldata.trans (hkdata.trans hdata))⟩

/-! ### Declarations -/

section

variable {m : Machine}

theorem quiet_bang (hstate : m.state = .tagOpen) :
    Quiet m ['!'] { m with tag := some {}, declaration := some [], state := .declarationOpen } :=
  .one (by rw [hstate]; nofun) (by simp [Machine.step, hstate])

structure IsCommentText (s : Text) : Prop where
  opens : ¬ ['>'] <+: s ∧ ¬ ['-', '>'] <+: s
  dashes : ¬ ['-', '-'] <:+: s
  ends : s.getLast? ≠ some '-'

variable {s read : Text} {k : Machine}

theorem quiet_comment (hstate : m.state = .comment) (hdashes : ¬ ['-', '-'] <:+: s)
    (hends : s.getLast? ≠ some '-') : Quiet m s { m with data := m.data ++ s } := by
  induction hn : s.length using Nat.strong_induction_on generalizing m s with
  | _ n ih =>
    cases s with
    | nil =>
      have hsame : { m with data := m.data ++ [] } = m := by simp
      rw [hsame]
      exact .nil m
    | cons c rest =>
      have hstay : m.state ≠ .data := by simp [hstate]
      have hrest : ¬ ['-', '-'] <:+: rest := fun h => hdashes (h.trans (suffix_cons c rest).isInfix)
      by_cases hc : c = '-'
      · subst hc
        cases rest with
        | nil => exact absurd rfl hends
        | cons d rest =>
          have hd : d ≠ '-' := by
            rintro rfl
            exact hdashes ⟨[], rest, rfl⟩
          have hdash : m.step '-' = .quiet (m.goto .commentEndDash) := by simp [Machine.step, hstate]
          have hnext : (m.goto .commentEndDash).step d = .quiet { m with data := m.data ++ ['-', d] } := by
            simp [Machine.step, Machine.goto, hd, Machine.extendData, ← hstate]
          have hmore := @ih rest.length (by simp [← hn]) { m with data := m.data ++ ['-', d] } rest hstate
            (fun h => hrest (h.trans (suffix_cons d rest).isInfix))
            (fun h => hends (by rw [getLast?_cons, getLast?_cons, h]; rfl)) rfl
          refine .cons hstay hdash (.cons (by simp [Machine.goto]) hnext ?_)
          simpa using hmore
      · have hstep : m.step c = .quiet { m with data := m.data ++ [c] } := by
          simp [Machine.step, hstate, hc, Machine.extendData]
        have hmore := @ih rest.length (by simp [← hn]) { m with data := m.data ++ [c] } rest hstate hrest
          (fun h => hends (by rw [getLast?_cons, h]; rfl)) rfl
        refine .cons hstay hstep ?_
        simpa using hmore

theorem hears_comment (hs : IsCommentText s) (hstate : m.state = .commentStart) (hdata : m.data = []) :
    m.Hears (s ++ ['-', '-', '>']) [.comment s] { m with data := [], state := .data } := by
  have hend : ∀ k : Machine, k.state = .comment →
      k.Hears ['-', '-', '>'] [.comment k.data] { k with data := [], state := .data } := by
    intro k hk
    have hdash : k.step '-' = .quiet (k.goto .commentEndDash) := by simp [Machine.step, hk]
    exact .quiet hdash (.quiet (n := k.goto .commentEnd) rfl (.event rfl (.nil _)))
  -- From the first character that is certain on, the reader is inside the comment.
  have hinside : ∀ front rest : Text, s = front ++ rest → m.Hears front [] { m with data := front, state := .comment } →
      m.Hears (s ++ ['-', '-', '>']) [.comment s] { m with data := [], state := .data } := by
    rintro front rest rfl hfront
    have hrest := @quiet_comment { m with data := front, state := .comment } rest rfl
      (fun h => hs.dashes (h.trans (suffix_append front rest).isInfix)) (by
        intro h
        refine hs.ends ?_
        rw [getLast?_append, h]
        rfl)
    have hall := (hfront.append hrest.hears).append (hend _ rfl)
    exact hall
  cases hshape : s with
  | nil =>
    have hdash : m.step '-' = .quiet (m.goto .commentStartDash) := by simp [Machine.step, hstate]
    have hclose : (m.goto .commentEnd).step '>' =
        .event (m.goto .commentEnd) (.comment []) { m with data := [], state := .data } := by
      simp [Machine.step, Machine.goto, Machine.closeData, hdata]
    exact .quiet hdash (.quiet (n := m.goto .commentEnd) rfl (.event hclose (.nil _)))
  | cons c rest =>
    rw [← hshape]
    by_cases hc : c = '-'
    · subst hc
      cases rest with
      | nil => exact absurd (by rw [hshape]; rfl) hs.ends
      | cons d rest =>
        have hd : d ≠ '-' := by
          rintro rfl
          exact hs.dashes ⟨[], rest, hshape.symm⟩
        have hopen : d ≠ '>' := by
          rintro rfl
          exact hs.opens.2 ⟨rest, hshape.symm⟩
        have hdash : m.step '-' = .quiet (m.goto .commentStartDash) := by simp [Machine.step, hstate]
        have hnext : (m.goto .commentStartDash).step d = .quiet { m with data := ['-', d], state := .comment } := by
          simp [Machine.step, Machine.goto, hd, hopen, Machine.extendData, hdata]
        exact hinside ['-', d] rest hshape (.quiet hdash (.quiet hnext (.nil _)))
    · have hopen : c ≠ '>' := by
        rintro rfl
        exact hs.opens.1 ⟨rest, hshape.symm⟩
      have hnext : m.step c = .quiet { m with data := [c], state := .comment } := by
        simp [Machine.step, hstate, hc, hopen, Machine.extendData, hdata]
      exact hinside [c] rest hshape (.quiet hnext (.nil _))

theorem finishes_comment (hs : IsCommentText s) :
    Finishes ("!--".toList ++ (s ++ ['-', '-', '>'])) (.comment s) := by
  intro m hstate hdata
  have hopen : Quiet m "!--".toList
      { m with tag := some {}, declaration := some ['-', '-'], data := [], state := .commentStart } :=
    (quiet_bang hstate).append (.cons nofun rfl (.cons nofun rfl (.nil _)))
  exact ⟨_, hopen.hears.append (hears_comment hs rfl rfl), rfl, rfl⟩

/-! ### Document types -/

theorem lowercase_ne_nil (c : Char) : lowercase c ≠ [] := by
  unfold lowercase
  split
  · simp
  · split
    · simp
    · split <;> simp

theorem quiet_doctypeWord {front rest : Text} (hword : lowercaseName (front ++ rest) = Machine.declarationDoctype)
    (hrest : rest ≠ []) (hstate : m.state = .declarationOpen) (hread : m.declaration = some front) :
    Quiet m rest { m with declaration := some (front ++ rest), state := .doctype } := by
  induction rest generalizing m front with
  | nil => exact absurd rfl hrest
  | cons c rest ih =>
    have hwhole : lowercaseName (front ++ [c]) ++ lowercaseName rest = Machine.declarationDoctype := by
      rw [← hword]
      simp [lowercaseName]
    have hnot : ∀ s : Text, ¬ lowercaseName s <+: Machine.declarationDoctype → front ++ [c] ≠ s := by
      rintro s hs rfl
      exact hs ⟨_, hwhole⟩
    have hcomment : front ++ [c] ≠ Machine.declarationComment := hnot _ (by decide)
    have hsection : front ++ [c] ≠ Machine.declarationSection := hnot _ (by decide)
    have hstep : m.step c = m.openDeclaration c := by simp [Machine.step, hstate]
    by_cases hlast : rest = []
    · subst hlast
      have hlower : (front ++ [c]).flatMap lowercase = Machine.declarationDoctype := by
        simpa [lowercaseName] using hwhole
      refine .one (by simp [hstate]) ?_
      simp only [hstep, Machine.openDeclaration, hread, if_neg hcomment, if_pos hlower]
      rfl
    · have hless : (front ++ [c]).flatMap lowercase ≠ Machine.declarationDoctype := by
        intro heq
        obtain ⟨d, more, rfl⟩ := exists_cons_of_ne_nil hlast
        have hnil : lowercaseName (d :: more) = [] := by
          have hsame : lowercaseName (front ++ [c]) = Machine.declarationDoctype := heq
          rw [hsame] at hwhole
          exact append_right_eq_self.mp hwhole
        have hd : lowercase d = [] := by
          simp only [lowercaseName, flatMap_cons, append_eq_nil_iff] at hnil
          exact hnil.1
        exact lowercase_ne_nil d hd
      have hfront : ((front ++ [c]).flatMap lowercase).isPrefixOf Machine.declarationDoctype = true :=
        isPrefixOf_iff_prefix.mpr ⟨_, hwhole⟩
      have hquiet : m.step c = .quiet { m with declaration := some (front ++ [c]) } := by
        simp only [hstep, Machine.openDeclaration, hread, if_neg hcomment, if_neg hless, if_neg hsection, hfront,
          Bool.or_true, Bool.true_or, if_true]
      have hmore := @ih { m with declaration := some (front ++ [c]) } (front ++ [c])
        (by simpa using hword) hlast hstate rfl
      refine .cons (by simp [hstate]) hquiet ?_
      simpa using hmore

theorem finishes_doctype {word contents : Text} {space : Char}
    (hword : lowercaseName word = Machine.declarationDoctype) (hspace : isSpace space = true)
    (hcontents : '>' ∉ contents) :
    Finishes ('!' :: (word ++ (space :: (contents ++ ['>'])))) (.doctype contents) := by
  intro m hstate hdata
  have hne : word ≠ [] := by
    rintro rfl
    exact absurd hword (by decide)
  have hread := @quiet_doctypeWord { m with tag := some {}, declaration := some [], state := .declarationOpen }
    [] word hword hne rfl rfl
  have hopen : ({ m with tag := some {}, declaration := some word, state := .doctype } : Machine).Hears [space] []
      { m with tag := some {}, declaration := some word, data := [], state := .doctypeContents } :=
    .quiet (by simp [Machine.step, hspace]) (.nil _)
  have hinside := @hears_collected .doctypeContents (· ≠ '>')
    (fun k c hk hc => by simp [Machine.step, hk, hc, Machine.extendData])
    { m with tag := some {}, declaration := some word, data := [], state := .doctypeContents } rfl contents
    fun c hc heq => hcontents (heq ▸ hc)
  have hclose : ({ m with tag := some {}, declaration := some word, data := contents, state := .doctypeContents } :
      Machine).Hears ['>'] [.doctype contents]
      { m with tag := some {}, declaration := some word, data := [], state := .data } :=
    .event rfl (.nil _)
  have hall := ((quiet_bang hstate).append hread).hears.append (hopen.append (hinside.append hclose))
  refine ⟨{ m with tag := some {}, declaration := some word, data := [], state := .data }, ?_, rfl, rfl⟩
  simpa using hall

/-! ### Character data sections -/

/-- In a section, the characters read are data and a front of the mark that would end it. -/
structure InSection (k : Machine) (read : Text) : Prop where
  state : k.state = .cdataSection
  kept : ∃ n ≤ 2, k.sectionEnd = some (List.replicate n ']') ∧ read = k.data ++ List.replicate n ']'

theorem InSection.step_mark (h : InSection k read) :
    ∃ next, k.step ']' = .quiet next ∧ InSection next (read ++ [']']) := by
  obtain ⟨n, hn, hend, rfl⟩ := h.kept
  have hstep : k.step ']' = k.readSection ']' := by simp [Machine.step, h.state]
  interval_cases n
  · refine ⟨{ k with sectionEnd := some [']'] }, ?_, h.state, 1, by decide, rfl, by simp⟩
    simp [hstep, Machine.readSection, hend, Machine.sectionMark, Machine.settle]
  · refine ⟨{ k with sectionEnd := some [']', ']'] }, ?_, h.state, 2, by decide, rfl, by simp⟩
    simp [hstep, Machine.readSection, hend, Machine.sectionMark, Machine.settle]
  · refine ⟨{ k with data := k.data ++ [']'], sectionEnd := some [']', ']'] }, ?_, h.state, 2, by decide, rfl,
      by simp⟩
    simp [hstep, Machine.readSection, hend, Machine.sectionMark, Machine.settle]

theorem InSection.step_other {c : Char} (h : InSection k read) (hc : c ≠ ']')
    (hmark : ¬ (c = '>' ∧ [']', ']'] <:+ read)) :
    ∃ next, k.step c = .quiet next ∧ InSection next (read ++ [c]) := by
  obtain ⟨n, hn, hend, rfl⟩ := h.kept
  have hstep : k.step c = k.readSection c := by simp [Machine.step, h.state]
  refine ⟨{ k with data := k.data ++ List.replicate n ']' ++ [c], sectionEnd := some [] }, ?_, h.state, 0,
    by decide, rfl, by simp⟩
  interval_cases n
  · simp [hstep, Machine.readSection, hend, Machine.sectionMark, Machine.settle, hc]
  · simp [hstep, Machine.readSection, hend, Machine.sectionMark, Machine.settle, hc]
  · have hclose : c ≠ '>' := by
      rintro rfl
      exact hmark ⟨rfl, suffix_append _ _⟩
    simp [hstep, Machine.readSection, hend, Machine.sectionMark, Machine.settle, hc, hclose]

theorem InSection.hears (h : InSection k read)
    (hs : ¬ Machine.sectionMark <:+: read ++ s) : ∃ n, k.Hears s [] n ∧ InSection n (read ++ s) := by
  induction s generalizing k read with
  | nil => exact ⟨k, .nil k, by simpa using h⟩
  | cons c s ih =>
    have hnext : ∃ next, k.step c = .quiet next ∧ InSection next (read ++ [c]) := by
      by_cases hc : c = ']'
      · subst hc
        exact h.step_mark
      · refine h.step_other hc ?_
        rintro ⟨rfl, front, rfl⟩
        exact hs ⟨front, s, by simp [Machine.sectionMark]⟩
    obtain ⟨next, hstep, hin⟩ := hnext
    obtain ⟨n, hhears, hn⟩ := ih hin (by simpa using hs)
    exact ⟨n, .quiet hstep hhears, by simpa using hn⟩

theorem InSection.hears_mark (h : InSection k read) :
    ∃ n, k.Hears Machine.sectionMark [.cdata read] n ∧ n.state = .data ∧ n.data = [] := by
  obtain ⟨first, hfirst, hin⟩ := h.step_mark
  obtain ⟨second, hsecond, hin'⟩ := hin.step_mark
  have hkept : second.sectionEnd = some [']', ']'] ∧ second.data = read := by
    obtain ⟨n, hn, hend, hread⟩ := h.kept
    have hstep : k.step ']' = k.readSection ']' := by simp [Machine.step, h.state]
    have hstep' : first.step ']' = first.readSection ']' := by simp [Machine.step, hin.state]
    rw [hstep] at hfirst
    rw [hstep'] at hsecond
    interval_cases n <;>
      simp [Machine.readSection, hend, Machine.sectionMark, Machine.settle] at hfirst <;>
      subst hfirst <;> simp [Machine.readSection, Machine.sectionMark, Machine.settle] at hsecond <;>
      subst hsecond <;> simp [hread]
  have hclose : second.step '>' = .event { second with sectionEnd := some Machine.sectionMark } (.cdata read)
        { second with sectionEnd := some Machine.sectionMark, data := [], state := .data } := by
    simp [Machine.step, hin'.state, Machine.readSection, hkept.1, hkept.2, Machine.sectionMark, Machine.closeData]
  exact ⟨_, .quiet hfirst (.quiet hsecond (.event hclose (.nil _))), rfl, rfl⟩

theorem finishes_cdata (hs : ¬ Machine.sectionMark <:+: s) :
    Finishes ("![CDATA[".toList ++ (s ++ Machine.sectionMark)) (.cdata s) := by
  intro m hstate hdata
  have hopen : Quiet m "![CDATA[".toList { m with
      tag := some {}, declaration := some Machine.declarationSection, data := [], sectionEnd := some [],
      state := .cdataSection } := by
    refine (quiet_bang hstate).append ?_
    exact .cons nofun rfl (.cons nofun rfl (.cons nofun rfl (.cons nofun rfl (.cons nofun rfl
      (.cons nofun rfl (.cons nofun rfl (.nil _)))))))
  have hin : InSection { m with
      tag := some {}, declaration := some Machine.declarationSection, data := [], sectionEnd := some [],
      state := .cdataSection } [] := ⟨rfl, 0, by decide, rfl, rfl⟩
  obtain ⟨k, hbody, hk⟩ := hin.hears (s := s) hs
  obtain ⟨n, hmark, hdone⟩ := hk.hears_mark
  exact ⟨n, hopen.hears.append (hbody.append hmark), hdone⟩

end

/-! ### Documents -/

inductive Item where
  | data (s : Text) (h : '<' ∉ s)
  | start (t : TagText)
  | single (t : TagText) (h : t.Closable)
  | finish (t : TagText)
  | comment (s : Text) (h : IsCommentText s)
  | doctype (word : Text) (space : Char) (contents : Text)
      (hword : lowercaseName word = Machine.declarationDoctype) (hspace : isSpace space = true)
      (hcontents : '>' ∉ contents)
  | cdata (s : Text) (h : ¬ Machine.sectionMark <:+: s)

namespace Item

def source : Item → Text
  | data s _ => s
  | start t => '<' :: (t.text ++ ['>'])
  | single t _ => '<' :: (t.text ++ ['/', '>'])
  | finish t => '<' :: '/' :: (t.text ++ ['>'])
  | comment s _ => '<' :: ("!--".toList ++ (s ++ ['-', '-', '>']))
  | doctype word space contents _ _ _ => '<' :: '!' :: (word ++ (space :: (contents ++ ['>'])))
  | cdata s _ => '<' :: ("![CDATA[".toList ++ (s ++ Machine.sectionMark))

def event? : Item → Option Event
  | data _ _ => none
  | start t => some (.start (some t.name) (t.assignments.map Assignment.reported))
  | single t _ => some (.startEnd (some t.name) (t.assignments.map Assignment.reported))
  | finish t => some (.finish (some t.name))
  | comment s _ => some (.comment s)
  | doctype _ _ contents _ _ _ => some (.doctype contents)
  | cdata s _ => some (.cdata s)

def events : Text → List Item → List Event
  | _, [] => []
  | pending, item :: rest =>
    match item.event? with
    | none => events (pending ++ item.source) rest
    | some e => .data pending :: e :: events [] rest

def pendingAfter : Text → List Item → Text
  | pending, [] => pending
  | pending, item :: rest =>
    if item.event?.isSome then pendingAfter [] rest else pendingAfter (pending ++ item.source) rest

theorem finishes {item : Item} {e : Event} (h : item.event? = some e) :
    ∃ s, item.source = '<' :: s ∧ Finishes s e := by
  cases item with
  | data s hs => cases h
  | start t =>
    cases h
    exact ⟨_, rfl, t.finishes_start⟩
  | single t hclosable =>
    cases h
    exact ⟨_, rfl, t.finishes_single hclosable⟩
  | finish t =>
    cases h
    exact ⟨_, rfl, t.finishes_finish⟩
  | comment s hs =>
    cases h
    exact ⟨_, rfl, finishes_comment hs⟩
  | doctype word space contents hword hspace hcontents =>
    cases h
    exact ⟨_, rfl, finishes_doctype hword hspace hcontents⟩
  | cdata s hs =>
    cases h
    exact ⟨_, rfl, finishes_cdata hs⟩

theorem hears_events (items : List Item) {m : Machine} (hstate : m.state = .data) :
    ∃ n, m.Hears (items.flatMap source) (events m.data items) n ∧ n.state = .data ∧
      n.data = pendingAfter m.data items := by
  induction items generalizing m with
  | nil => exact ⟨m, .nil m, hstate, rfl⟩
  | cons item rest ih =>
    rw [flatMap_cons, events, pendingAfter]
    cases he : item.event? with
    | none =>
      have hdata : m.Hears item.source [] { m with data := m.data ++ item.source } := by
        cases item with
        | data s hs => exact hears_data hstate fun c hc heq => hs (heq ▸ hc)
        | start | single | finish | comment | doctype | cdata => cases he
      obtain ⟨n, hhears, hdone⟩ := @ih { m with data := m.data ++ item.source } hstate
      exact ⟨n, hdata.append hhears, hdone⟩
    | some e =>
      obtain ⟨s, hsource, hs⟩ := finishes he
      have hopen : m.step '<' = .event m (.data m.data) { m with data := [], state := .tagOpen } := by
        simp [Machine.step, hstate, Machine.closeData]
      obtain ⟨k, hfinish, hk, hkdata⟩ := hs { m with data := [], state := .tagOpen } rfl rfl
      obtain ⟨n, hhears, hn, hndata⟩ := ih hk
      rw [hkdata] at hhears hndata
      refine ⟨n, ?_, hn, hndata⟩
      rw [hsource]
      exact .event hopen (hfinish.append hhears)

end Item

/-- The reader takes in every document without failure, reports each item of markup after the data
before it, and ends between tags, where data after the last item of markup is still pending. -/
theorem document_read_back (items : List Item) :
    ∃ m : Machine, Machine.hearAll record {} #[] (items.flatMap Item.source) =
        ((m, (Item.events [] items).toArray), (items.flatMap Item.source).length, none) ∧
      m.state = .data ∧ m.data = Item.pendingAfter [] items := by
  obtain ⟨m, hhears, hstate, hdata⟩ := Item.hears_events items (m := {}) rfl
  refine ⟨m, ?_, hstate, hdata⟩
  simpa using hhears.hearAll_record #[]

end InlineMarkup.Markup

import InlineMarkup.Proofs.Feeding
import InlineMarkup.Proofs.Newlines
import InlineMarkup.Proofs.Spelling

/-!
Markup without conditionals, laid out on one line: fed to a builder, in whatever chunks, it makes the
expression that its tree stands for, and it is complete with its last character and not before.
-/
namespace InlineMarkup.Markup.Builder

/-! ### What is fed -/

structure Fragment (row : Int) where
  tokens : List Token
  first : Token
  last : Token
  code : Text
  head : tokens.head? = some first
  getLast : tokens.getLast? = some last
  first_row : first.start.row = row
  last_row : last.stop.row = row
  plain : Layout.plain tokens = .ok code

def Fragment.text {row : Int} (f : Fragment row) : Text :=
  if isBareGenerator f.tokens then ['('] ++ f.code ++ "), ".toList else f.code ++ ", ".toList

inductive Item (row : Int) where
  | char (c : Char)
  | code (f : Fragment row)

inductive Feed (row : Int) where
  | text (kind : Kind) (s : Text) (h : IsRead kind s)
  | code (f : Fragment row)

section

variable {row : Int}

def Feed.items : Feed row → List (Item row)
  | .text _ s _ => s.map .char
  | .code f => [.code f]

def Feed.run : Feed row → Build Unit
  | .text kind s _ => do
    let p := (← get).stop
    read { kind, text := s, start := p, stop := p.advance s, line := [] }
  | .code f => do
    let p := (← get).stop
    passOver { kind := .op, text := ['\x7b'], start := p, stop := p.step '\x7b', line := [] }
    readCode f.tokens

def feedAll : List (Feed row) → Build Unit
  | [] => pure ()
  | f :: fs => do
    f.run
    feedAll fs

/-! ### Stages of reading -/

/-- What matters of a builder between two characters. It is fresh if it has no output yet. -/
structure Stage where
  machine : Machine
  written : Text
  tags : List Text
  fresh : Bool

def Stage.isDone (σ : Stage) : Bool := !σ.fresh && σ.tags.isEmpty && σ.machine.state == .data

structure At (row : Int) (b : Builder) (σ : Stage) : Prop where
  machine : b.machine = σ.machine
  written : b.output.toList.flatten = σ.written
  tags : b.openTags.map OpenTag.tag = σ.tags
  afterIf : b.afterIf = false
  stop : b.stop.row = row
  fresh : σ.fresh = true → b.output = #[]

variable {b : Builder} {σ τ : Stage} {s t : Text} {m n : Machine} {fresh : Bool}

theorem At.not_done (h : At row b σ) (hσ : σ.isDone = false) : b.isDone = false := by
  by_cases hfresh : σ.fresh = true
  · simp [isDone, h.fresh hfresh]
  by_cases hstate : b.machine.state = .data
  · have htags : σ.tags ≠ [] := by
      intro hnil
      simp [Stage.isDone, hfresh, hnil, ← h.machine, hstate] at hσ
    have hopen : b.openTags ≠ [] := by
      intro hnil
      exact htags (by rw [← h.tags, hnil]; rfl)
    simp [isDone, hopen]
  · exact not_done_of_state hstate

theorem At.done (h : At row b σ) (htags : σ.tags = []) (hstate : σ.machine.state = .data)
    (hwritten : σ.written ≠ []) : b.isDone = true := by
  have hopen : b.openTags = [] := by simpa [htags] using h.tags
  have hout : b.output ≠ #[] := by
    intro hnil
    exact hwritten (by rw [← h.written, hnil]; rfl)
  simp [isDone, hopen, h.machine, hstate, hout]

def Takes (row : Int) (σ : Stage) (τ : Stage) : Item row → Prop
  | .char c => c ≠ '\n' ∧ ∀ b, At row b σ → ∃ d, Reads [c] b d ∧ At row d τ
  | .code f => ∀ b, At row b σ → ∃ d, readCode f.tokens b = .ok () d ∧ At row d τ

/-- Items that lead from one stage to another. Markup is not complete before the last of them. -/
inductive Path (row : Int) : Stage → List (Item row) → Stage → Prop where
  | nil (σ : Stage) : Path row σ [] σ
  | cons {σ ρ τ : Stage} {i : Item row} {is : List (Item row)} (hdone : σ.isDone = false)
      (htakes : Takes row σ ρ i) (hrest : Path row ρ is τ) : Path row σ (i :: is) τ

theorem Path.append {ρ : Stage} {is js : List (Item row)} (h : Path row σ is ρ) (hj : Path row ρ js τ) :
    Path row σ (is ++ js) τ := by
  induction h with
  | nil => exact hj
  | cons hdone htakes _ ih => exact .cons hdone htakes (ih hj)

variable {c : Char} {tags u v : List Text} {e : Event} {d : Text}

theorem Path.split {is js : List (Item row)} (h : Path row σ (is ++ js) τ) :
    ∃ ρ, Path row σ is ρ ∧ Path row ρ js τ := by
  induction is generalizing σ with
  | nil => exact ⟨σ, .nil σ, h⟩
  | cons i is ih =>
    cases h with
    | cons hdone htakes hrest =>
      obtain ⟨ρ, hfirst, hlast⟩ := ih hrest
      exact ⟨ρ, .cons hdone htakes hfirst, hlast⟩

/-! ### Feeding along a path -/

theorem Path.reads (h : Path row σ (s.map .char) τ) {b : Builder} (hb : At row b σ) :
    (∀ c ∈ s, c ≠ '\n') ∧ ∃ d, Reads s b d ∧ At row d τ := by
  induction s generalizing σ b with
  | nil =>
    cases h
    exact ⟨nofun, b, fun _ => rfl, hb⟩
  | cons c s ih =>
    cases h with
    | cons _ htakes hrest =>
      obtain ⟨hc, htakes⟩ := htakes
      obtain ⟨d, hread, hd⟩ := htakes b hb
      obtain ⟨hs, e, hreads, he⟩ := ih hrest hd
      exact ⟨by simpa [hc] using hs, e, hread.cons hreads, he⟩

theorem At.rest (h : At row b σ) {p : Pos} (hp : p.row = row) (r : Option Token) :
    At row { b with stop := p, remainder := r } σ :=
  ⟨h.machine, h.written, h.tags, h.afterIf, hp, h.fresh⟩

theorem Path.feed {f : Feed row} (h : Path row σ f.items τ) {b : Builder} (hb : At row b σ) :
    ∃ c, f.run b = .ok () c ∧ At row c τ := by
  cases f with
  | text kind s hread =>
    obtain ⟨hs, c, hreads, hc⟩ := Path.reads h hb
    obtain ⟨p, r, hp, hrun⟩ := read_reads hread hreads
    refine ⟨_, hrun, hc.rest ?_ r⟩
    rcases hp with rfl | rfl
    · exact hc.stop
    · rw [Pos.advance_row, newlines_eq_zero fun hmem => hs '\n' hmem rfl, hb.stop, Nat.cast_zero, add_zero]
  | code f =>
    cases h with
    | cons hdone htakes hrest =>
      cases hrest
      have hpass := passOver_ok (t := ⟨.op, ['\x7b'], b.stop, b.stop.step '\x7b', []⟩) rfl rfl (hb.not_done hdone)
      have hat : At row { b with stop := b.stop.step '\x7b' } σ := hb.rest (by simpa [Pos.step] using hb.stop) b.remainder
      obtain ⟨c, hc, hτ⟩ := htakes _ hat
      exact ⟨c, (bind_ok hpass).trans hc, hτ⟩

theorem Path.feedAll {fs : List (Feed row)} (h : Path row σ (fs.flatMap Feed.items) τ) {b : Builder}
    (hb : At row b σ) : ∃ c, Builder.feedAll fs b = .ok () c ∧ At row c τ := by
  induction fs generalizing σ b with
  | nil =>
    cases h
    exact ⟨b, rfl, hb⟩
  | cons f fs ih =>
    rw [List.flatMap_cons] at h
    obtain ⟨ρ, hfirst, hrest⟩ := h.split
    obtain ⟨c, hc, hρ⟩ := hfirst.feed hb
    obtain ⟨d, hd, hτ⟩ := ih hrest hρ
    exact ⟨d, (bind_ok hc).trans hd, hτ⟩

/-! ### Steps of the reader -/

theorem takes_quiet (hc : c ≠ '\n')
    (hstep : m.step c = .quiet n) (hdone : (Stage.mk m s tags fresh).isDone = false) :
    Takes row ⟨m, s, tags, fresh⟩ ⟨n, s, tags, fresh⟩ (.char c) := by
  refine ⟨hc, fun b hb => ⟨_, reads_quiet (hb.not_done hdone) ((congrArg (Machine.step · c) hb.machine).trans hstep), ?_⟩⟩
  exact ⟨rfl, hb.written, hb.tags, hb.afterIf, by simpa [Pos.step, hc] using hb.stop, hb.fresh⟩

theorem takes_event {during : Machine}
    (hc : c ≠ '\n') (hstep : m.step c = .event during e n) (hhandle : Spells (handle e) u t v)
    (hdone : (Stage.mk m s u fresh).isDone = false) :
    Takes row ⟨m, s, u, fresh⟩ ⟨n, s ++ t, v, false⟩ (.char c) := by
  refine ⟨hc, fun b hb => ?_⟩
  have hstep' : b.machine.step c = .event during e n := (congrArg (Machine.step · c) hb.machine).trans hstep
  obtain ⟨d, hd, htags, hif, -, hstop, hout⟩ :=
    hhandle { b with stop := b.stop.step c, machine := during } hb.tags hb.afterIf
  refine ⟨_, reads_event (hb.not_done hdone) hstep' hd, ⟨rfl, ?_, htags, hif, ?_, nofun⟩⟩
  · exact hout.trans (congrArg (· ++ t) hb.written)
  · have hrow : (b.stop.step c).row = row := by simpa [Pos.step, hc] using hb.stop
    exact (congrArg Pos.row hstop).trans hrow

theorem path_quiet (h : Quiet m s n)
    (hs : OneLine s) : Path row ⟨m, t, tags, fresh⟩ (s.map .char) ⟨n, t, tags, fresh⟩ := by
  induction h with
  | nil m => exact .nil _
  | @cons m _ _ _ _ hstate hstep _ ih =>
    have hdone : (Stage.mk m t tags fresh).isDone = false := by simp [Stage.isDone, hstate]
    refine .cons hdone (takes_quiet (hs _ List.mem_cons_self).1 hstep hdone) (ih ?_)
    exact fun c hc => hs c (List.mem_cons_of_mem _ hc)

/-- The builder is between tags, with data on one line, and markup is not complete. -/
structure Between (σ : Stage) (d : Text) : Prop where
  state : σ.machine.state = .data
  data : σ.machine.data = d
  oneLine : OneLine d
  isOpen : σ.isDone = false

theorem path_text (hstate : m.state = .data)
    (hopen : (Stage.mk m t u fresh).isDone = false) (hs : OneLine s) (hplain : ∀ c ∈ s, c ≠ '<') :
    Path row ⟨m, t, u, fresh⟩ (s.map .char) ⟨{ m with data := m.data ++ s }, t, u, fresh⟩ := by
  induction s generalizing m with
  | nil =>
    have hsame : { m with data := m.data ++ [] } = m := by simp
    rw [hsame]
    exact .nil _
  | cons c s ih =>
    have hstep : m.step c = .quiet { m with data := m.data ++ [c] } := by
      simp [Machine.step, hstate, hplain c List.mem_cons_self, Machine.extendData]
    have hrest := @ih { m with data := m.data ++ [c] } hstate hopen (fun d hd => hs d (List.mem_cons_of_mem _ hd))
      fun d hd => hplain d (List.mem_cons_of_mem _ hd)
    refine .cons hopen (takes_quiet (hs c List.mem_cons_self).1 hstep hopen) ?_
    simpa using hrest

theorem path_tag (hσ : Between σ d) (h : Completes s e) (hs : OneLine s) (hhandle : Spells (handle e) σ.tags t v) :
    ∃ n : Machine, n.state = .data ∧ n.data = [] ∧
      Path row σ (('<' :: (s ++ ['>'])).map .char) ⟨n, σ.written ++ dataText d ++ t, v, false⟩ := by
  obtain ⟨m, w, u, fresh⟩ := σ
  have hopen : m.step '<' = .event m (.data d) { m with data := [], state := .tagOpen } := by
    have hstate : m.state = .data := hσ.state
    have hdata : m.data = d := hσ.data
    simp [Machine.step, hstate, Machine.closeData, hdata]
  obtain ⟨k, n, hquiet, hclose, hdata⟩ := h { m with data := [], state := .tagOpen } rfl
  have hk : k.state ≠ .data := by
    intro hstate
    simp [Machine.step, hstate] at hclose
  have hdone : (Stage.mk k (w ++ dataText d) u false).isDone = false := by simp [Stage.isDone, hk]
  refine ⟨n.goto .data, rfl, hdata, .cons hσ.isOpen (takes_event (by decide) hopen (spells_writeData hσ.oneLine u)
    hσ.isOpen) ?_⟩
  rw [List.map_append]
  exact (path_quiet hquiet hs).append (.cons hdone (takes_event (by decide) hclose hhandle hdone) (.nil _))

theorem path_code (hσ : Between σ d) (f : Fragment row) : Path row σ [.code f]
      ⟨{ σ.machine with data := [] }, σ.written ++ dataText d ++ f.text, σ.tags, false⟩ := by
  refine .cons hσ.isOpen (fun b hb => ?_) (.nil _)
  have hstate : b.machine.state = .data := by rw [hb.machine, hσ.state]
  have hdata : b.machine.data = d := by rw [hb.machine, hσ.data]
  obtain ⟨b₁, hclose, htags₁, hif₁, hmachine₁, hstop₁, hout₁⟩ := spells_closeIf σ.tags b hb.tags hb.afterIf
  have hadvance : advanceTo f.first.start.row b₁ = .ok () b₁ := by
    have hrow : f.first.start.row = b₁.stop.row := by rw [hstop₁, hb.stop, f.first_row]
    rw [hrow]
    exact advanceTo_self b₁
  obtain ⟨b₂, hwrite, htags₂, hif₂, hmachine₂, hstop₂, hout₂⟩ := spells_writeData hσ.oneLine σ.tags
    { b₁ with stop := f.last.stop, beforeCode := true } htags₁ hif₁
  let b₃ : Builder := { b₂ with
    machine := { b₂.machine with data := [] }, output := b₂.output.push f.text, beforeCode := false, afterCode := true }
  obtain ⟨c, hcount, htags, hif, hmachine, hstop, hout⟩ := spells_countChild σ.tags b₃ htags₂ hif₂
  have hrun : readCode f.tokens b = countChild b₃ := by
    have hstate₁ : b₁.machine.state = .data := by rw [hmachine₁, hstate]
    have hdata₁ : b₁.machine.data = d := by rw [hmachine₁, hdata]
    unfold readCode
    rw [bind_ok hclose, f.head, f.getLast]
    dsimp only
    rw [bind_ok hadvance]
    simp [bind, EStateM.bind, MonadState.get, getThe, MonadStateOf.get, EStateM.get, pure, EStateM.pure, modify,
      modifyGet, MonadStateOf.modifyGet, EStateM.modifyGet, hstate₁, hdata₁, hwrite, layOut, f.plain, push, b₃,
      Fragment.text]
  refine ⟨c, hrun.trans hcount, ⟨?_, ?_, htags, hif, ?_, by simp⟩⟩
  · rw [hmachine]
    simp [b₃, hmachine₂, hmachine₁, hb.machine]
  · rw [hout]
    simp [b₃, hout₂, hout₁, hb.written]
  · rw [hstop]
    simp [b₃, hstop₂, f.last_row]

/-! ### Trees -/

structure ElementName where
  name : Text
  isTagName : IsTagName name
  ne_if : name ≠ "if".toList
  ne_else : name ≠ "else".toList
  oneLine : OneLine name

structure ElementAttributes where
  written : List WrittenAttribute
  distinct : written.Pairwise fun a b => a.reported.name ≠ b.reported.name
  oneLine : ∀ a ∈ written, OneLine a.text

namespace ElementAttributes

def text (as : ElementAttributes) : Text := as.written.flatMap WrittenAttribute.text

def arguments (as : ElementAttributes) : List (Text × Text) :=
  as.written.map fun a => (lowercaseName a.name, a.value)

theorem text_oneLine (as : ElementAttributes) : OneLine as.text := by
  intro c hc
  obtain ⟨a, ha, hca⟩ := List.mem_flatMap.mp hc
  exact as.oneLine a ha c hca

theorem arguments_oneLine (as : ElementAttributes) : ∀ a ∈ as.arguments, OneLine a.2 := by
  intro a ha
  obtain ⟨w, hw, rfl⟩ := List.mem_map.mp ha
  intro c hc
  exact as.oneLine w hw c (by simp [WrittenAttribute.text, WrittenAttribute.body, hc])

theorem arguments_reported (as : ElementAttributes) :
    as.arguments.map textAttribute = as.written.map WrittenAttribute.reported := by
  simp only [arguments, List.map_map]
  rfl

end ElementAttributes

structure Gap where
  text : Text
  isGap : IsGap text
  oneLine : OneLine text

structure Line where
  text : Text
  plain : ∀ c ∈ text, c ≠ '<'
  oneLine : OneLine text

theorem Line.path (row : Int) (t : Line) {m : Machine} (s : Text) {u : List Text} (hstate : m.state = .data)
    (hdata : m.data = []) (hu : u ≠ []) : Between ⟨{ m with data := t.text }, s, u, false⟩ t.text ∧
      Path row ⟨m, s, u, false⟩ (t.text.map .char) ⟨{ m with data := t.text }, s, u, false⟩ := by
  have hopen : (Stage.mk m s u false).isDone = false := by simp [Stage.isDone, hu]
  have hpath : Path row _ _ _ := path_text hstate hopen t.oneLine t.plain
  rw [hdata] at hpath
  exact ⟨⟨hstate, rfl, t.oneLine, hopen⟩, hpath⟩

mutual

inductive Element (row : Int) where
  | paired (name : ElementName) (attributes : ElementAttributes) (gap : Gap) (content : Content row) (endGap : Gap)
  | single (name : ElementName) (attributes : ElementAttributes) (gap : Gap)

inductive Content (row : Int) where
  | text (s : Line)
  | element (s : Line) (e : Element row) (rest : Content row)
  | code (s : Line) (f : Fragment row) (rest : Content row)

end

def startText (name : ElementName) (attributes : ElementAttributes) (gap : Gap) : Text :=
  name.name ++ attributes.text ++ gap.text

mutual

def Element.source : Element row → List (Item row)
  | .paired name attributes gap content endGap =>
    ('<' :: (startText name attributes gap ++ ['>'])).map .char ++ content.source ++
      ('<' :: ('/' :: name.name ++ endGap.text ++ ['>'])).map .char
  | .single name attributes gap => ('<' :: (startText name attributes gap ++ ['/'] ++ ['>'])).map .char

def Content.source : Content row → List (Item row)
  | .text s => s.text.map .char
  | .element s e rest => s.text.map .char ++ e.source ++ rest.source
  | .code s f rest => s.text.map .char ++ .code f :: rest.source

end

mutual

def Element.translation : Element row → Text
  | .paired name attributes _ content _ =>
    callText name.name attributes.arguments ++ ['('] ++ content.translation ++ [')']
  | .single name attributes _ => callText name.name attributes.arguments

def Content.translation : Content row → Text
  | .text s => dataText s.text
  | .element s e rest => dataText s.text ++ e.translation ++ [','] ++ rest.translation
  | .code s f rest => dataText s.text ++ f.text ++ rest.translation

end

mutual

theorem Element.path : ∀ (e : Element row) {σ : Stage} {d : Text}, Between σ d →
    ∃ n : Machine, n.state = .data ∧ n.data = [] ∧ Path row σ e.source
      ⟨n, σ.written ++ dataText d ++ e.translation ++ if σ.tags = [] then [] else [','], σ.tags, false⟩
  | .paired name attributes gap content endGap, σ, d, hσ => by
    have hbegin := spells_beginElement name.ne_if name.ne_else attributes.arguments_oneLine true σ.tags
    rw [attributes.arguments_reported] at hbegin
    obtain ⟨m, hstate, hdata, hstart⟩ := path_tag hσ
      (completes_start name.isTagName attributes.distinct gap.isGap)
      ((name.oneLine.append attributes.text_oneLine).append gap.oneLine) hbegin
    obtain ⟨n, w, e, hbetween, hcontent, hwritten⟩ := content.path hstate hdata (List.cons_ne_nil name.name σ.tags)
    obtain ⟨l, hlstate, hldata, hfinish⟩ := path_tag hbetween (completes_finish name.isTagName endGap.isGap)
      (by
        intro c hc
        rcases List.mem_cons.mp hc with rfl | hc
        · decide
        · exact (name.oneLine.append endGap.oneLine) c hc)
      (spells_endElement name.ne_if name.ne_else true σ.tags)
    refine ⟨l, hlstate, hldata, ?_⟩
    have hall := (hstart.append hcontent).append hfinish
    dsimp only at hall
    rw [hwritten] at hall
    simpa [Element.source, Element.translation, startText, ElementAttributes.text] using hall
  | .single name attributes gap, σ, d, hσ => by
    have hbegin := spells_beginElement name.ne_if name.ne_else attributes.arguments_oneLine false σ.tags
    rw [attributes.arguments_reported] at hbegin
    have hwhole := hbegin.bind (f := fun _ => endElement name.name false)
      (spells_endElement name.ne_if name.ne_else false σ.tags)
    obtain ⟨n, hstate, hdata, htag⟩ := path_tag hσ
      (completes_single name.isTagName attributes.distinct gap.isGap)
      (((name.oneLine.append attributes.text_oneLine).append gap.oneLine).append (by simp [OneLine])) hwhole
    refine ⟨n, hstate, hdata, ?_⟩
    simpa [Element.source, Element.translation, startText, ElementAttributes.text] using htag

theorem Content.path : ∀ (c : Content row) {m : Machine} {s : Text} {u : List Text}, m.state = .data →
    m.data = [] → u ≠ [] → ∃ n w d, Between ⟨n, w, u, false⟩ d ∧ Path row ⟨m, s, u, false⟩ c.source ⟨n, w, u, false⟩ ∧
      w ++ dataText d = s ++ c.translation
  | .text t, m, s, u, hstate, hdata, hu => by
    obtain ⟨hbetween, htext⟩ := t.path row s hstate hdata hu
    exact ⟨_, s, t.text, hbetween, htext, rfl⟩
  | .element t e rest, m, s, u, hstate, hdata, hu => by
    obtain ⟨hbetween, htext⟩ := t.path row s hstate hdata hu
    obtain ⟨n, hnstate, hndata, helement⟩ := e.path hbetween
    obtain ⟨k, w, d, hlast, hrest, hwritten⟩ := rest.path hnstate hndata hu
    refine ⟨k, w, d, hlast, (htext.append helement).append hrest, ?_⟩
    rw [hwritten]
    simp [Content.translation, hu]
  | .code t f rest, m, s, u, hstate, hdata, hu => by
    obtain ⟨hbetween, htext⟩ := t.path row s hstate hdata hu
    have hcode := path_code hbetween f
    obtain ⟨k, w, d, hlast, hrest, hwritten⟩ := rest.path (m := { m with data := [] }) hstate rfl hu
    refine ⟨k, w, d, hlast, htext.append (hcode.append hrest), ?_⟩
    rw [hwritten]
    simp [Content.translation]

end

theorem Element.translation_ne_nil (e : Element row) : e.translation ≠ [] := by
  cases e <;> simp [Element.translation, callText]

def Stage.initial : Stage := ⟨{}, [], [], true⟩

theorem at_begin (p : Pos) (textFunction : Text) : At p.row (Builder.begin p textFunction) Stage.initial :=
  ⟨rfl, rfl, rfl, rfl, rfl, fun _ => rfl⟩

/-- The markup of an element, fed in any chunks, makes no failure and is translated to the expression of the
element. It is complete with its last character, and after no part of it before. -/
theorem element_translated (p : Pos) (textFunction : Text) (e : Element p.row) :
    (∀ fs : List (Feed p.row), fs.flatMap Feed.items = e.source →
      ∃ b, feedAll fs (Builder.begin p textFunction) = .ok () b ∧ b.isDone = true ∧
        b.output.toList.flatten = e.translation) ∧
    ∀ (fs : List (Feed p.row)) (rest : List (Item p.row)), rest ≠ [] → fs.flatMap Feed.items ++ rest = e.source →
      ∃ b, feedAll fs (Builder.begin p textFunction) = .ok () b ∧ b.isDone = false := by
  have hstart := at_begin p textFunction
  have hbetween : Between Stage.initial [] := ⟨rfl, rfl, nofun, rfl⟩
  obtain ⟨n, hstate, -, hpath⟩ := e.path hbetween
  refine ⟨fun fs hfs => ?_, fun fs rest hrest hfs => ?_⟩
  · rw [← hfs] at hpath
    obtain ⟨b, hrun, hb⟩ := hpath.feedAll hstart
    have hwritten : b.output.toList.flatten = e.translation := by
      rw [hb.written]
      simp [Stage.initial, dataText]
    refine ⟨b, hrun, hb.done rfl hstate ?_, hwritten⟩
    rw [← hb.written, hwritten]
    exact e.translation_ne_nil
  · rw [← hfs] at hpath
    obtain ⟨ρ, hfirst, hlast⟩ := hpath.split
    obtain ⟨b, hrun, hb⟩ := hfirst.feedAll hstart
    cases hlast with
    | nil => exact absurd rfl hrest
    | cons hdone _ _ => exact ⟨b, hrun, hb.not_done hdone⟩

end

/-! ### An element -/

def generatorFragment : Fragment 1 where
  tokens := [⟨.name, ['y'], ⟨1, 13⟩, ⟨1, 14⟩, []⟩, ⟨.name, "for".toList, ⟨1, 15⟩, ⟨1, 18⟩, []⟩,
    ⟨.op, [], ⟨1, 19⟩, ⟨1, 19⟩, []⟩]
  first := ⟨.name, ['y'], ⟨1, 13⟩, ⟨1, 14⟩, []⟩
  last := ⟨.op, [], ⟨1, 19⟩, ⟨1, 19⟩, []⟩
  code := "y for ".toList
  head := rfl
  getLast := rfl
  first_row := rfl
  last_row := rfl
  plain := rfl

def sampleElement : Element 1 :=
  .paired
    { name := ['a'], isTagName := isTagName_of_identifier (by decide) (by decide), ne_if := by decide,
      ne_else := by decide, oneLine := by simp [OneLine] }
    { written := [{
        gap := [' '], name := ['b'], before := [], after := [], value := ['c'], gap_ne_nil := space_ne_nil,
        gap_isGap := isGap_space, name_ne_nil := by simp,
        name_char := by simp [IsAttributeChar, Machine.isSpace], before_isGap := nofun, after_isGap := nofun,
        value_char := by simp }],
      distinct := List.pairwise_singleton _ _,
      oneLine := by simp [OneLine, WrittenAttribute.text, WrittenAttribute.body] }
    ⟨[], nofun, nofun⟩
    (.code ⟨['x'], by simp, by simp [OneLine]⟩ generatorFragment (.text ⟨[], nofun, nofun⟩))
    ⟨[' '], isGap_space, by simp [OneLine]⟩

def sampleFeeds : List (Feed 1) :=
  [.text .op "<a b".toList (by decide), .text .name "=\"c\">x".toList (by decide), .code generatorFragment]

theorem element_translated_sample :
    (∃ b, feedAll (sampleFeeds ++ [.text .op "</a >".toList (by decide)]) (Builder.begin ⟨1, 3⟩ []) = .ok () b ∧
      b.isDone = true ∧ b.output.toList.flatten = "html.x_a(b='c')(u\"x\", (y for ), )".toList) ∧
    ∃ b, feedAll (sampleFeeds ++ [.text .op "</a ".toList (by decide)]) (Builder.begin ⟨1, 3⟩ []) = .ok () b ∧
      b.isDone = false := by
  have h := element_translated ⟨1, 3⟩ [] sampleElement
  obtain ⟨b, hrun, hdone, hout⟩ := h.1 (sampleFeeds ++ [.text .op "</a >".toList (by decide)]) rfl
  exact ⟨⟨b, hrun, hdone, hout.trans (by decide +kernel)⟩, h.2 _ [.char '>'] nofun rfl⟩

end InlineMarkup.Markup.Builder

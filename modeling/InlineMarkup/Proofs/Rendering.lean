import InlineMarkup.Element.Drawing
import InlineMarkup.Markup.Listing
import InlineMarkup.Proofs.Escape
import InlineMarkup.Proofs.Tags

/-!
Rendering is faithful: the text of an element, read by the markup reader, tells the tree of the element
again, whatever stands in its texts and in the values of its attributes.
-/
namespace InlineMarkup.Markup

/-! ### What a listener hears -/

inductive Machine.Hears : Machine → Text → List Event → Machine → Prop where
  | nil (m : Machine) : Hears m [] [] m
  | quiet {m n k : Machine} {c : Char} {s : Text} {es : List Event} (hstep : m.step c = .quiet n)
      (hrest : Hears n s es k) : Hears m (c :: s) es k
  | again {m l n k : Machine} {c : Char} {s : Text} {es : List Event} (hagain : m.step c = .again l)
      (hstep : l.step c = .quiet n) (hrest : Hears n s es k) : Hears m (c :: s) es k
  | event {m during n k : Machine} {c : Char} {e : Event} {s : Text} {es : List Event}
      (hstep : m.step c = .event during e n) (hrest : Hears n s es k) : Hears m (c :: s) (e :: es) k

theorem Machine.Hears.append {m n k : Machine} {s t : Text} {es fs : List Event} (h : Hears m s es n)
    (ht : Hears n t fs k) : Hears m (s ++ t) (es ++ fs) k := by
  induction h with
  | nil => exact ht
  | quiet hstep _ ih => exact .quiet hstep (ih ht)
  | again hagain hstep _ ih => exact .again hagain hstep (ih ht)
  | event hstep _ ih => exact .event hstep (ih ht)

variable {m n : Machine} {s : Text}

theorem Builder.Quiet.hears (h : Builder.Quiet m s n) : m.Hears s [] n := by
  induction h with
  | nil m => exact .nil m
  | cons _ hstep _ ih => exact .quiet hstep ih

theorem Machine.Hears.hearAll_record {es : List Event} (h : Hears m s es n) (heard : Array Event) :
    Machine.hearAll record m heard s = ((n, heard ++ es.toArray), s.length, none) := by
  have hquiet {m n : Machine} {c : Char} (heard : Array Event)
      (h : m.step c = .quiet n ∨ ∃ l, m.step c = .again l ∧ l.step c = .quiet n) :
      (Machine.hear record c).run (m, heard) = .ok () (n, heard) := by
    unfold Machine.hear
    rcases h with h | ⟨l, h, hl⟩ <;>
      simp only [EStateM.run, bind, EStateM.bind, get, getThe, MonadStateOf.get, EStateM.get, *] <;> rfl
  induction h generalizing heard with
  | nil m => simp [Machine.hearAll]
  | quiet hstep _ ih => simp [Machine.hearAll, hquiet heard (.inl hstep), ih]
  | again hagain hstep _ ih => simp [Machine.hearAll, hquiet heard (.inr ⟨_, hagain, hstep⟩), ih]
  | @event m during n k c e s es hstep _ ih =>
    have hear : (Machine.hear record c).run (m, heard) = .ok () (n, heard.push e) := by
      unfold Machine.hear
      simp only [EStateM.run, bind, EStateM.bind, get, getThe, MonadStateOf.get, EStateM.get, hstep]
      rfl
    have hpush : heard.push e ++ es.toArray = heard ++ (e :: es).toArray := by
      apply Array.toList_inj.mp
      simp
    simp [Machine.hearAll, hear, ih, hpush]

/-! ### Events with their references resolved -/

def Part.resolved : Part → Part
  | .text s => .text (Text.unescape s)
  | .code tokens => .code tokens

def Attribute.resolved (a : Attribute) : Attribute := { a with value := a.value.map (·.map Part.resolved) }

def Event.resolved : Event → Event
  | .data s => .data (Text.unescape s)
  | .start tag attributes => .start tag (attributes.map Attribute.resolved)
  | .startEnd tag attributes => .startEnd tag (attributes.map Attribute.resolved)
  | e => e

def spelled (es : List Event) : List (Char ⊕ Event) :=
  es.flatMap fun
    | .data s => s.map .inl
    | e => [.inr e]

@[simp] theorem spelled_append (es fs : List Event) : spelled (es ++ fs) = spelled es ++ spelled fs := by
  simp [spelled]

@[simp] theorem spelled_data (s : Text) (es : List Event) :
    spelled (.data s :: es) = s.map .inl ++ spelled es := rfl

/-! ### Markup that tells events -/

/-- The machine is between tags, and the data it has kept back stands for a text. -/
structure Keeps (m : Machine) (pending : Text) : Prop where
  state : m.state = .data
  data : m.data = Text.escape pending

def Tells (s : Text) (told : List Event) : Prop :=
  ∀ (m : Machine) (pending : Text), Keeps m pending → ∃ es n last, m.Hears s es n ∧ Keeps n last ∧
    spelled (es.map Event.resolved ++ [.data last]) = spelled (.data pending :: told)

theorem Tells.nil : Tells [] [] := fun m pending h => ⟨[], m, pending, .nil m, h, rfl⟩

theorem Tells.append {s t : Text} {es fs : List Event} (hs : Tells s es) (ht : Tells t fs) :
    Tells (s ++ t) (es ++ fs) := by
  intro m pending h
  obtain ⟨first, n, middle, hhears, hkeeps, hfirst⟩ := hs m pending h
  obtain ⟨second, k, last, hhears', hkeeps', hsecond⟩ := ht n middle hkeeps
  refine ⟨first ++ second, k, last, hhears.append hhears', hkeeps', ?_⟩
  calc spelled ((first ++ second).map Event.resolved ++ [.data last])
      = spelled (first.map Event.resolved) ++ spelled (second.map Event.resolved ++ [.data last]) := by simp
    _ = spelled (first.map Event.resolved ++ [.data middle]) ++ spelled fs := by rw [hsecond]; simp [spelled]
    _ = spelled (.data pending :: (es ++ fs)) := by rw [hfirst]; simp

theorem hears_collected {st : State} {P : Char → Prop}
    (hcollect : ∀ (m : Machine) (c : Char), m.state = st → P c → m.step c = .quiet { m with data := m.data ++ [c] })
    {m : Machine} (hstate : m.state = st) {s : Text} (hs : ∀ c ∈ s, P c) :
    m.Hears s [] { m with data := m.data ++ s } := by
  induction s generalizing m with
  | nil =>
    have hsame : { m with data := m.data ++ [] } = m := by simp
    rw [hsame]
    exact .nil m
  | cons c s ih =>
    have hrest := @ih { m with data := m.data ++ [c] } hstate fun d hd => hs d (List.mem_cons_of_mem _ hd)
    refine .quiet (hcollect m c hstate (hs c List.mem_cons_self)) ?_
    simpa using hrest

theorem hears_data (hstate : m.state = .data) {s : Text} (hs : ∀ c ∈ s, c ≠ '<') :
    m.Hears s [] { m with data := m.data ++ s } :=
  hears_collected (fun m c hm hc => by simp [Machine.step, hm, hc, Machine.extendData]) hstate hs

theorem tells_text (s : Text) : Tells (Text.escape s) [.data s] := by
  intro m pending h
  have hplain : ∀ c ∈ Text.escape s, c ≠ '<' := by
    rintro c hc rfl
    exact Text.not_mem_escape (Or.inl rfl) s hc
  refine ⟨[], { m with data := m.data ++ Text.escape s }, pending ++ s, hears_data h.state hplain, ⟨h.state, ?_⟩, ?_⟩
  · simp [h.data]
  · simp [spelled]

theorem tells_tag {e : Event} (h : Completes s e) : Tells ('<' :: (s ++ ['>'])) [e.resolved] := by
  intro m pending hkeeps
  have hopen : m.step '<' = .event m (.data m.data) { m with data := [], state := .tagOpen } := by
    simp [Machine.step, hkeeps.state, Machine.closeData]
  obtain ⟨k, n, hquiet, hclose, hdata⟩ := h { m with data := [], state := .tagOpen } rfl
  refine ⟨[.data m.data, e], n.goto .data, [], .event hopen (hquiet.hears.append (.event hclose (.nil _))),
    ⟨rfl, hdata⟩, ?_⟩
  simp [Event.resolved, hkeeps.data, Text.unescape_escape, spelled]

end InlineMarkup.Markup

namespace InlineMarkup.Element

open Markup (Event Attribute Machine Tells WrittenAttribute IsAttributeChar lowercaseName textParts spelled)
open Markup.Builder (IsTagName)

/-! ### Trees of elements, fragments and text -/

structure TagName where
  name : Text
  isTagName : IsTagName name

/-- Attributes with their texts, under names that the reader can read, in lower case and each once. -/
structure AttributeTexts where
  entries : List (Text × Text)
  name_ne_nil : ∀ e ∈ entries, e.1 ≠ []
  name_char : ∀ e ∈ entries, ∀ c ∈ e.1, IsAttributeChar c
  name_lowercase : ∀ e ∈ entries, lowercaseName e.1 = e.1
  distinct : entries.Pairwise fun e f => e.1 ≠ f.1

inductive Outline where
  | text (s : Text)
  | paired (tag : TagName) (attributes : AttributeTexts) (children : List Outline)
  | single (tag : TagName) (attributes : AttributeTexts)
  | fragment (children : List Outline)

namespace Outline

def isElement : Outline → Bool
  | paired .. => true
  | single .. => true
  | _ => false

mutual

def tree : Outline → Tree
  | text s => .text s
  | paired tag attributes children => .paired tag.name attributes.entries (trees children)
  | single tag attributes => .single tag.name attributes.entries
  | fragment children => .fragment (trees children)

def trees : List Outline → List Tree
  | [] => []
  | o :: os => o.tree :: trees os

end

def told (e : Text × Text) : Attribute := ⟨some e.1, some (textParts e.2)⟩

mutual

def walk : Outline → List Event
  | text s => [.data s]
  | paired tag attributes children =>
    .start (some tag.name) (attributes.entries.map told) :: (walkAll children ++ [.finish (some tag.name)])
  | single tag attributes => [.startEnd (some tag.name) (attributes.entries.map told)]
  | fragment children => walkAll children

def walkAll : List Outline → List Event
  | [] => []
  | o :: os => o.walk ++ walkAll os

end

end Outline

/-! ### The text of a tree tells the tree -/

namespace AttributeTexts

def written (attributes : AttributeTexts) (e : { e // e ∈ attributes.entries }) : WrittenAttribute where
  gap := [' ']
  name := e.1.1
  before := []
  after := []
  value := Text.escape e.1.2
  gap_ne_nil := Markup.space_ne_nil
  gap_isGap := Markup.isGap_space
  name_ne_nil := attributes.name_ne_nil e.1 e.2
  name_char := attributes.name_char e.1 e.2
  before_isGap := by simp [Markup.IsGap]
  after_isGap := by simp [Markup.IsGap]
  value_char := by
    rintro c hc rfl
    exact Text.not_mem_escape (Or.inr (Or.inr rfl)) _ hc

variable (attributes : AttributeTexts)

def writtenAll : List WrittenAttribute := attributes.entries.attach.map attributes.written

theorem written_text (e : { e // e ∈ attributes.entries }) :
    (attributes.written e).text = Tree.writeAttribute e.1 := by
  simp [written, WrittenAttribute.text, WrittenAttribute.body, Tree.writeAttribute]

theorem writtenAll_text :
    attributes.writtenAll.flatMap WrittenAttribute.text = attributes.entries.flatMap Tree.writeAttribute := by
  have hattach : attributes.entries.attach.map Subtype.val = attributes.entries := List.attach_map_subtype_val _
  conv_rhs => rw [← hattach]
  simp only [writtenAll, List.flatMap_map, written_text]

theorem reported_name (e : { e // e ∈ attributes.entries }) : (attributes.written e).reported.name = some e.1.1 :=
  congrArg some (attributes.name_lowercase e.1 e.2)

theorem written_resolved (e : { e // e ∈ attributes.entries }) :
    (attributes.written e).reported.resolved = Outline.told e.1 := by
  have hvalue : (textParts (Text.escape e.1.2)).map Markup.Part.resolved = textParts e.1.2 := by
    unfold textParts
    by_cases hempty : e.1.2 = []
    · simp [hempty]
    · have hescape : Text.escape e.1.2 ≠ [] := fun h => hempty ((Text.escape_eq_nil_iff _).mp h)
      simp [hempty, hescape, Markup.Part.resolved, Text.unescape_escape]
  have hname := attributes.reported_name e
  unfold Markup.Attribute.resolved Outline.told
  rw [hname, ← hvalue]
  rfl

theorem writtenAll_resolved : (attributes.writtenAll.map WrittenAttribute.reported).map Attribute.resolved =
      attributes.entries.map Outline.told := by
  have hattach : attributes.entries.attach.map Subtype.val = attributes.entries := List.attach_map_subtype_val _
  conv_rhs => rw [← hattach]
  simp only [writtenAll, List.map_map]
  exact List.map_congr_left fun e _ => attributes.written_resolved e

theorem writtenAll_distinct : attributes.writtenAll.Pairwise fun a b => a.reported.name ≠ b.reported.name := by
  unfold writtenAll
  rw [List.pairwise_map]
  have hattach : (attributes.entries.attach.map Subtype.val).Pairwise fun e f => e.1 ≠ f.1 := by
    rw [List.attach_map_subtype_val]
    exact attributes.distinct
  refine (List.pairwise_map.mp hattach).imp fun {e f} hne => ?_
  rw [attributes.reported_name, attributes.reported_name]
  simpa using hne

end AttributeTexts

theorem tells_start (tag : TagName) (attributes : AttributeTexts) :
    Tells ('<' :: (tag.name ++ attributes.entries.flatMap Tree.writeAttribute ++ ['>']))
      [.start (some tag.name) (attributes.entries.map Outline.told)] := by
  rw [← attributes.writtenAll_resolved, ← attributes.writtenAll_text]
  have hgap : Markup.IsGap [] := by simp [Markup.IsGap]
  simpa [Event.resolved] using Markup.tells_tag (Markup.completes_start tag.isTagName attributes.writtenAll_distinct hgap)

theorem tells_finish (tag : TagName) : Tells ('<' :: ('/' :: tag.name ++ ['>'])) [.finish (some tag.name)] := by
  have hgap : Markup.IsGap [] := by simp [Markup.IsGap]
  simpa [Event.resolved] using Markup.tells_tag (Markup.completes_finish tag.isTagName hgap)

theorem tells_single (tag : TagName) (attributes : AttributeTexts) :
    Tells ('<' :: (tag.name ++ attributes.entries.flatMap Tree.writeAttribute ++ [' ', '/'] ++ ['>']))
      [.startEnd (some tag.name) (attributes.entries.map Outline.told)] := by
  rw [← attributes.writtenAll_resolved, ← attributes.writtenAll_text]
  have hgap : Markup.IsGap [' '] := by simp [Markup.IsGap, Machine.isSpace]
  simpa [Event.resolved] using Markup.tells_tag (Markup.completes_single tag.isTagName attributes.writtenAll_distinct hgap)

mutual

theorem Outline.tells : ∀ o : Outline, Tells o.tree.write o.walk
  | .text s => Markup.tells_text s
  | .paired tag attributes children => by
    have h := ((tells_start tag attributes).append (Outline.tells_all children)).append (tells_finish tag)
    simpa [Outline.tree, Tree.write, Outline.walk] using h
  | .single tag attributes => by
    simpa [Outline.tree, Tree.write, Outline.walk] using tells_single tag attributes
  | .fragment children => by
    simpa [Outline.tree, Tree.write, Outline.walk] using Outline.tells_all children

theorem Outline.tells_all : ∀ os : List Outline, Tells (Tree.writeAll (Outline.trees os)) (Outline.walkAll os)
  | [] => Tells.nil
  | o :: os => by
    simpa [Outline.trees, Tree.writeAll, Outline.walkAll] using o.tells.append (Outline.tells_all os)

end

/-! ### Elements of a document -/

/-- The attributes of an element have these texts. To find the text of a value may change the document. -/
inductive AttributesShown (draw : Drawing) :
    Document → List (Text × Value) → List (Text × Text) → Document → Prop where
  | nil (d : Document) : AttributesShown draw d [] [] d
  | cons {d e f : Document} {name s : Text} {v : Value} {rest : List (Text × Value)} {more : List (Text × Text)}
      (hshown : (draw.shown v).run d = .ok s e) (hrest : AttributesShown draw e rest more f) :
      AttributesShown draw d ((name, v) :: rest) ((name, s) :: more) f

mutual

/-- In a document, an element is a tree of elements, fragments and text, nested no deeper than the
given depth. -/
inductive Depicts : Nat → Document → Nat → Outline → Document → Prop where
  | paired {depth id : Nat} {d e f : Document} {n now : Node} {tag : TagName} {attributes : AttributeTexts}
      {children : List Outline} (hnode : d.nodes[id]? = some n) (hform : n.kind.form? = some .paired)
      (htag : n.kind.tag = tag.name)
      (hattributes : AttributesShown (.ofDepth depth) d n.attributes attributes.entries e)
      (hnow : e.nodes[id]? = some now) (hchildren : DepictsAll depth e now.children children f) :
      Depicts (depth + 1) d id (.paired tag attributes children) f
  | single {depth id : Nat} {d e : Document} {n : Node} {tag : TagName} {attributes : AttributeTexts}
      (hnode : d.nodes[id]? = some n) (hform : n.kind.form? = some .single) (htag : n.kind.tag = tag.name)
      (hattributes : AttributesShown (.ofDepth depth) d n.attributes attributes.entries e) :
      Depicts (depth + 1) d id (.single tag attributes) e
  | fragment {depth id : Nat} {d e : Document} {n : Node} {children : List Outline}
      (hnode : d.nodes[id]? = some n) (hform : n.kind.form? = some .fragment)
      (hchildren : DepictsAll depth d n.children children e) : Depicts (depth + 1) d id (.fragment children) e

/-- Children are such trees. Nothing is no child, and a value that is no element is its text. -/
inductive DepictsAll : Nat → Document → List Value → List Outline → Document → Prop where
  | nil (depth : Nat) (d : Document) : DepictsAll depth d [] [] d
  | nothing {depth : Nat} {d e : Document} {vs : List Value} {os : List Outline}
      (hrest : DepictsAll depth d vs os e) : DepictsAll depth d (.none :: vs) os e
  | element {depth id : Nat} {d e f : Document} {o : Outline} {vs : List Value} {os : List Outline}
      (hfirst : Depicts depth d id o e) (hrest : DepictsAll depth e vs os f) :
      DepictsAll depth d (.element id :: vs) (o :: os) f
  | value {depth : Nat} {d e : Document} {v : Value} {vs : List Value} {os : List Outline} (hsome : v ≠ .none)
      (hvalue : ∀ id, v ≠ .element id) (hrest : DepictsAll depth d vs os e) :
      DepictsAll depth d (v :: vs) (.text (d.settled v).shown :: os) e

end

variable {d e : Document}

theorem run_bind {α β : Type} {x : Act α} {f : α → Act β} {a : α} (h : x.run d = .ok a e) :
    (x >>= f).run d = (f a).run e := by
  simp only [EStateM.run, bind, EStateM.bind] at h ⊢
  rw [h]

theorem node_run {id : Nat} {n : Node} (h : d.nodes[id]? = some n) : (Act.node id).run d = .ok n d := by
  unfold Act.node
  simp only [EStateM.run, bind, EStateM.bind, get, getThe, MonadStateOf.get, EStateM.get, h]
  rfl

theorem AttributesShown.run {draw : Drawing} {vs : List (Text × Value)} {ss : List (Text × Text)}
    (h : AttributesShown draw d vs ss e) : (Drawing.attributeTexts draw vs).run d = .ok ss e := by
  induction h with
  | nil => rfl
  | cons hshown _ ih =>
    unfold Drawing.attributeTexts
    rw [run_bind hshown, run_bind ih]
    rfl

theorem shown_value (draw : Drawing) (d : Document) {v : Value} (h : ∀ id, v ≠ .element id) :
    (draw.shown v).run d = .ok (d.settled v).shown d := by
  cases v with
  | element id => exact absurd rfl (h id)
  | _ => rfl

mutual

theorem Depicts.run : ∀ {depth : Nat} {d e : Document} {id : Nat} {o : Outline}, Depicts depth d id o e →
    ((Drawing.ofDepth depth).tree id).run d = .ok o.tree e
  | _, _, _, _, _, .paired hnode hform htag hattributes hnow hchildren => by
    simp only [Drawing.ofDepth, Drawing.treeOf]
    rw [run_bind (node_run hnode), hform]
    dsimp only
    rw [run_bind hattributes.run]
    unfold Drawing.childrenNow
    rw [bind_assoc, run_bind (node_run hnow), run_bind hchildren.run, htag]
    rfl
  | _, _, _, _, _, .single hnode hform htag hattributes => by
    simp only [Drawing.ofDepth, Drawing.treeOf]
    rw [run_bind (node_run hnode), hform]
    dsimp only
    rw [run_bind hattributes.run, htag]
    rfl
  | _, _, _, _, _, .fragment hnode hform hchildren => by
    simp only [Drawing.ofDepth, Drawing.treeOf]
    rw [run_bind (node_run hnode), hform]
    dsimp only
    unfold Drawing.childrenNow
    rw [bind_assoc, run_bind (node_run hnode), run_bind hchildren.run]
    rfl

theorem DepictsAll.run : ∀ {depth : Nat} {d e : Document} {vs : List Value} {os : List Outline},
    DepictsAll depth d vs os e →
    (Drawing.childTrees (Drawing.ofDepth depth) vs).run d = .ok (Outline.trees os) e
  | _, _, _, _, _, .nil _ _ => rfl
  | _, _, _, _, _, .nothing hrest => hrest.run
  | _, _, _, _, _, .element hfirst hrest => by
    unfold Drawing.childTrees
    rw [run_bind hfirst.run, run_bind hrest.run]
    rfl
  | depth, d, _, _, _, .value (v := v) hsome hvalue hrest => by
    rw [Drawing.childTrees]
    · rw [run_bind (shown_value _ d hvalue), run_bind hrest.run]
      rfl
    · exact hsome
    · exact hvalue

end

mutual

theorem Outline.isWhole_tree : ∀ o : Outline, o.tree.isWhole = true
  | .text _ => rfl
  | .paired _ _ children => Outline.areWhole_trees children
  | .single _ _ => rfl
  | .fragment children => Outline.areWhole_trees children

theorem Outline.areWhole_trees : ∀ os : List Outline, Tree.areWhole (Outline.trees os) = true
  | [] => rfl
  | o :: os => by simp [Outline.trees, Tree.areWhole, o.isWhole_tree, Outline.areWhole_trees os]

end

theorem Depicts.shown {depth id : Nat} {d e : Document} {o : Outline} (h : Depicts depth d id o e) :
    ((Drawing.ofDepth depth).shown (.element id)).run d = .ok o.tree.write e := by
  unfold Drawing.shown
  rw [run_bind h.run, Tree.render, if_pos o.isWhole_tree]
  rfl

theorem Outline.walk_ends {o : Outline} (h : o.isElement = true) :
    ∃ front e, spelled o.walk = front ++ [.inr e] := by
  cases o with
  | paired tag attributes children =>
    refine ⟨spelled (.start (some tag.name) (attributes.entries.map told) :: walkAll children),
      .finish (some tag.name), ?_⟩
    rw [walk, ← List.cons_append, Markup.spelled_append]
    rfl
  | single tag attributes => exact ⟨[], _, rfl⟩
  | _ => simp [isElement] at h

/-- The text of an element, read as markup, makes no failure and tells the tree of the element again: the
events, with the text that the reader has kept at the end, are the walk of the tree. Nothing is kept
unless the root is a fragment. -/
theorem rendering_tells_tree {depth id : Nat} {d e : Document} {o : Outline} (h : Depicts depth d id o e) :
    ∃ (s : Text) (m : Machine) (events : Array Event),
      ((Drawing.ofDepth depth).shown (.element id)).run d = .ok s e ∧
      Machine.hearAll Markup.record {} #[] s = ((m, events), s.length, none) ∧ m.state = .data ∧
      spelled ((events.toList ++ [Event.data m.data]).map Event.resolved) = spelled o.walk ∧
      (o.isElement = true → m.data = []) := by
  obtain ⟨es, m, last, hhears, hkeeps, htold⟩ := o.tells {} [] ⟨rfl, rfl⟩
  have hspelled : spelled (es.map Event.resolved ++ [.data last]) = spelled o.walk := by simpa using htold
  refine ⟨o.tree.write, m, es.toArray, h.shown, ?_, hkeeps.state, ?_, fun helement => ?_⟩
  · simpa using hhears.hearAll_record #[]
  · simpa [Event.resolved, hkeeps.data, Text.unescape_escape] using hspelled
  · obtain ⟨front, tag, hends⟩ := Outline.walk_ends helement
    have hlast : last = [] := by
      cases last using List.reverseRecOn with
      | nil => rfl
      | append_singleton before c =>
        rw [hends, Markup.spelled_append] at hspelled
        have hboth := congrArg List.getLast? hspelled
        simp [spelled] at hboth
    rw [hkeeps.data, hlast]
    rfl

/-! ### Two documents -/

def letterClass (letter : Char) (form : Form) : Class :=
  { name := ['x', '_', letter], home := [], attributes := [], lineage := [{ serial := 0, form? := some form }] }

def letterTag (letter : Char) (h : isIdentifier [letter] = true) (hletter : isAlphabetic letter = true) : TagName :=
  ⟨[letter], Markup.Builder.isTagName_of_identifier h hletter⟩

def hostileDocument : Document :=
  { nodes := #[
      { kind := letterClass 'p' .paired, attributes := [(['t'], .text ['"', '>']), (['u'], .text [])],
        children := [.text ['<', 'b', '>'], .element 1, .none, .element 2] },
      { kind := letterClass 'f' .fragment, children := [.text "&lt;".toList, .integer 7] },
      { kind := letterClass 'i' .single }] }

def hostileOutline : Outline :=
  .paired (letterTag 'p' (by decide) (by decide))
    { entries := [(['t'], ['"', '>']), (['u'], [])],
      name_ne_nil := by decide, name_char := by simp [IsAttributeChar, Machine.isSpace], name_lowercase := by decide,
      distinct := by decide }
    [.text ['<', 'b', '>'], .fragment [.text "&lt;".toList, .text ['7']],
     .single (letterTag 'i' (by decide) (by decide))
       { entries := [], name_ne_nil := nofun, name_char := nofun, name_lowercase := nofun, distinct := .nil }]

theorem hostileDocument_depicts : Depicts 2 hostileDocument 0 hostileOutline hostileDocument :=
  .paired rfl rfl rfl (.cons rfl (.cons rfl (.nil _))) rfl
    (.value nofun nofun (.element (.fragment rfl rfl (.value nofun nofun (.value nofun nofun (.nil _ _))))
      (.nothing (.element (.single rfl rfl rfl (.nil _)) (.nil _ _)))))

theorem rendering_tells_tree_hostile : ∃ (s : Text) (m : Machine) (events : Array Event),
      ((Drawing.ofDepth 2).shown (.element 0)).run hostileDocument = .ok s hostileDocument ∧
      Machine.hearAll Markup.record {} #[] s = ((m, events), s.length, none) ∧ m.state = .data ∧
      spelled ((events.toList ++ [Event.data m.data]).map Event.resolved) = spelled hostileOutline.walk ∧
      (hostileOutline.isElement = true → m.data = []) :=
  rendering_tells_tree hostileDocument_depicts

/-- Text after the last tag, as a fragment at the root can have it, is no event. -/
theorem trailing_text_untold :
    ∃ (d : Document) (o : Outline) (s : Text) (m : Machine) (events : Array Event), Depicts 1 d 0 o d ∧
      ((Drawing.ofDepth 1).shown (.element 0)).run d = .ok s d ∧
      Machine.hearAll Markup.record {} #[] s = ((m, events), s.length, none) ∧
      spelled (events.toList.map Event.resolved) ≠ spelled o.walk :=
  ⟨{ nodes := #[{ kind := letterClass 'f' .fragment, children := [.text ['a']] }] }, .fragment [.text ['a']], ['a'],
    { data := ['a'] }, #[], .fragment rfl rfl (.value nofun nofun (.nil _ _)), rfl, rfl, by decide⟩

end InlineMarkup.Element

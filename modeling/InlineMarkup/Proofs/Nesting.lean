import InlineMarkup.Proofs.Builder

/-!
Which sequences of events a builder accepts. A fresh builder hears tags whose values are texts, data,
declarations and pieces of code, until every element is closed.
-/
namespace InlineMarkup

open List

namespace Markup

structure TextAttribute where
  name : Text
  texts : List Text
  deriving DecidableEq, Repr

def TextAttribute.attribute (a : TextAttribute) : Attribute :=
  ⟨some a.name, some (a.texts.map .text)⟩

/-- A piece of code that is not a comment, and the data that has been read before it. -/
structure CodeChild where
  data : Text
  first : Token
  more : List Token
  code : Text
  laid : Layout.plain (first :: more) = .ok code
  noComment : code.head? ≠ some '#'

inductive Happening where
  | start (tag : Text) (attributes : List TextAttribute)
  | startEnd (tag : Text) (attributes : List TextAttribute)
  | finish (tag : Text)
  | data (s : Text)
  | comment (s : Text)
  | doctype (s : Text)
  | cdata (s : Text)
  | code (fragment : CodeChild)

/-- What a builder is told, and how far the markup has been read then. -/
structure Heard where
  place : Pos
  event : Happening
  below : ∀ fragment, event = .code fragment → place.row ≤ fragment.first.start.row

open Builder in
def Happening.perform : Happening → Build Unit
  | .start tag attributes => handle (.start (some tag) (attributes.map TextAttribute.attribute))
  | .startEnd tag attributes =>
    handle (.startEnd (some tag) (attributes.map TextAttribute.attribute))
  | .finish tag => handle (.finish (some tag))
  | .data s => handle (.data s)
  | .comment s => handle (.comment s)
  | .doctype s => handle (.doctype s)
  | .cdata s => handle (.cdata s)
  | .code fragment => do
    modify fun b => { b with machine := { b.machine with data := fragment.data } }
    readCode (fragment.first :: fragment.more)

def Heard.perform (heard : Heard) : Build Unit := do
  modify fun b => { b with stop := heard.place }
  heard.event.perform

def Heard.performAll : List Heard → Build Unit
  | [] => pure ()
  | heard :: rest => do
    heard.perform
    performAll rest

/-! ### Well nested -/

namespace Happening

def openAfter (tags : List Text) : Happening → List Text
  | .start tag _ => tag :: tags
  | .finish _ => tags.tail
  | _ => tags

def stillOpen (events : List Happening) : List Text := events.foldl openAfter []

def EndsIf : Happening → Prop
  | .finish tag | .startEnd tag _ => tag = "if".toList
  | _ => False

def IsNothing : Happening → Prop
  | .data s => Builder.normalize s false false = []
  | _ => False

def JustAfterIf (events : List Happening) : Prop :=
  ∃ front last gap, events = front ++ last :: gap ∧ last.EndsIf ∧ ∀ e ∈ gap, e.IsNothing

def MayBegin (afterIf : Prop) (tag : Text) (attributes : List TextAttribute) : Prop :=
  (tag = "if".toList → attributes.map TextAttribute.name = ["cond".toList]) ∧
    (tag = "else".toList → attributes = [] ∧ afterIf)

def Fits (tags : List Text) (afterIf : Prop) : Happening → Prop
  | .start tag attributes | .startEnd tag attributes => MayBegin afterIf tag attributes
  | .finish tag => tags.head? = some tag
  | _ => True

def WellNested (events : List Happening) : Prop :=
  ∀ front e rest, events = front ++ e :: rest → e.Fits (stillOpen front) (JustAfterIf front)

def InOneElement (events : List Happening) : Prop :=
  ∀ front e rest, events = front ++ e :: rest → front ≠ [] → stillOpen front ≠ []

end Happening

namespace Builder

/-! ### The comma -/

theorem cut_push (out : List Text) {x blanks : Text} (hx : (x ++ [',']).head? ≠ some '#')
    (hblanks : ∀ c ∈ blanks, isBlank c = true) : ∃ new, Cut (out ++ [x ++ ',' :: blanks]) new :=
  ⟨_, out, x, blanks, [], rfl, rfl, hx, hblanks, nofun⟩

theorem Cut.push_empty {out new : List Text} (h : Cut out new) : ∃ new, Cut (out ++ [[]]) new := by
  obtain ⟨front, x, blanks, tail, rfl, rfl, hx, hblanks, htail⟩ := h
  refine ⟨_, front, x, blanks, tail ++ [[]], by simp, rfl, hx, hblanks, ?_⟩
  exact forall_mem_append.2 ⟨htail, forall_mem_singleton.2 not_counts_nil⟩

theorem Resolved.cut {out mid : List Text} {after : Bool} (h : Resolved out after mid) (hout : ∃ new, Cut out new) :
    ∃ new, Cut mid new := by
  cases h with
  | nothing => exact hout
  | added => exact cut_push _ (x := " else None".toList) (by simp) (forall_mem_singleton.2 rfl)

theorem cut_comma (out : List Text) {tags : List OpenTag} (h : tags ≠ []) : ∃ new, Cut (out ++ comma tags) new := by
  rw [comma, if_neg (by simpa using h)]
  exact cut_push out (x := []) (by simp) (forall_mem_nil _)

theorem cut_dataPiece (out : List Text) (data : Text) : ∃ new, Cut (out ++ [dataPiece data]) new := by
  unfold dataPiece
  dsimp only
  generalize Text.replaceChar '"' ['\\', '"'] data = s
  split
  · have hpiece : "html.rawhtml(u\"".toList ++ s ++ "\"), ".toList =
        ("html.rawhtml(u\"".toList ++ s ++ "\")".toList) ++ ',' :: [' '] := by simp
    rw [hpiece]
    exact cut_push out (by simp) (forall_mem_singleton.2 rfl)
  · have hpiece : "u\"".toList ++ s ++ "\", ".toList = ("u\"".toList ++ s ++ ['"']) ++ ',' :: [' '] := by simp
    rw [hpiece]
    exact cut_push out (by simp) (forall_mem_singleton.2 rfl)

theorem cut_codePiece (out : List Text) (tokens : List Token) {code : Text} (h : code.head? ≠ some '#') :
    ∃ new, Cut (out ++ [codePiece tokens code]) new := by
  unfold codePiece
  split
  · have hpiece : ['('] ++ code ++ "), ".toList = (['('] ++ code ++ [')']) ++ ',' :: [' '] := by simp
    rw [hpiece]
    exact cut_push out (by simp) (forall_mem_singleton.2 rfl)
  · refine cut_push out (x := code) ?_ (forall_mem_singleton.2 rfl)
    cases code with
    | nil => simp
    | cons c code => simpa using h

/-! ### What holds between events -/

/-- What holds between events. There is a comma to delete after an `if` and after a child. -/
structure Orderly (b : Builder) : Prop where
  state : b.machine.state = .data
  beforeCode : b.beforeCode = false
  afterCode : b.afterIf = true → b.afterCode = false
  sturdy : ∀ t ∈ b.openTags, Sturdy t
  comma : ∀ t ∈ b.openTags.head?, b.afterIf = true ∨ 0 < t.children → ∃ new, Cut b.output.toList new

def Enclosed (b : Builder) : Prop := b.openTags = [] → b.afterIf = false

theorem Orderly.not_lacks {b : Builder} (hb : Orderly b) (hin : Enclosed b) : ¬ Lacks b.view := by
  rintro ⟨hafter, hno⟩
  cases hopen : b.openTags with
  | nil => exact absurd (hafter.symm.trans (hin hopen)) Bool.noConfusion
  | cons t rest => exact hno (hb.comma t (by rw [hopen]; rfl) (.inl hafter))

theorem map_tag_bump (tags : List OpenTag) : (bump tags).map OpenTag.tag = tags.map OpenTag.tag := by
  cases tags <;> rfl

theorem sturdy_bump {tags : List OpenTag} (h : ∀ t ∈ tags, Sturdy t) : ∀ t ∈ bump tags, Sturdy t := by
  cases tags with
  | nil => exact h
  | cons t rest =>
    obtain ⟨ht, hrest⟩ := forall_mem_cons.1 h
    exact forall_mem_cons.2 ⟨⟨ht.condition, ht.opening⟩, hrest⟩

theorem normalizeParts_texts (afterCode : Bool) (texts : List Text) :
    ∃ kept : List Text, normalizeParts afterCode (texts.map .text) = kept.map .text := by
  induction texts generalizing afterCode with
  | nil => exact ⟨[], rfl⟩
  | cons s texts ih =>
    obtain ⟨kept, hkept⟩ := ih false
    rw [map_cons]
    unfold normalizeParts
    dsimp only
    rw [hkept]
    generalize normalize s afterCode _ = t
    cases t with
    | nil => exact ⟨kept, rfl⟩
    | cons c t => exact ⟨(c :: t) :: kept, rfl⟩

theorem attributesLay_texts (attributes : List TextAttribute) :
    AttributesLay (attributes.map TextAttribute.attribute) := by
  intro a ha
  obtain ⟨a, -, rfl⟩ := mem_map.1 ha
  refine ⟨rfl, rfl, fun p hp => ?_⟩
  obtain ⟨kept, hkept⟩ := normalizeParts_texts false a.texts
  have hp : p ∈ kept.map Part.text := hkept ▸ hp
  obtain ⟨s, -, rfl⟩ := mem_map.1 hp
  trivial

theorem mayOpen_iff (afterIf : Bool) (tag : Text) (attributes : List TextAttribute) :
    MayOpen afterIf tag (attributes.map TextAttribute.attribute) ↔
      Happening.MayBegin (afterIf = true) tag attributes := by
  have hnames : (attributes.map TextAttribute.attribute).map Attribute.name =
      (attributes.map TextAttribute.name).map some := by simp [TextAttribute.attribute]
  rw [MayOpen, Happening.MayBegin, hnames, ← map_singleton, map_inj_right fun _ _ => Option.some.inj,
    map_eq_nil_iff]

theorem Begins.mayOpen {f tag : Text} {call : Bool} {v : View} {attributes : List Attribute} {opening : Option Nat}
    {out : List Text} (h : Begins f call v tag attributes opening out) : MayOpen v.afterIf tag attributes := by
  cases h with
  | element hif helse => exact ⟨fun h => absurd h hif, fun h => absurd h helse⟩
  | condition hif hone hname =>
    subst hif hone
    exact ⟨fun _ => by simp [hname], fun h => absurd h (by simp)⟩
  | alternative helse hnone hafter =>
    subst helse
    exact ⟨fun h => absurd h (by simp), fun _ => ⟨hnone, hafter⟩⟩

/-! ### Events -/

def Settles (x : Build Unit) (b : Builder) (fits : Prop) (tags : List Text) (afterIf : Bool) : Prop :=
  Yields (fun f => f.OfNesting ∧ ¬ fits)
    (fun c => fits ∧ Orderly c ∧ c.openTags.map OpenTag.tag = tags ∧ c.afterIf = afterIf) (x b)

section

variable {b : Builder} (hb : Orderly b) (hin : Enclosed b)

include hb hin

theorem beginElement_settles (tag : Text) (attributes : List TextAttribute) :
    Settles (beginElement tag (attributes.map TextAttribute.attribute) true) b
      (Happening.MayBegin (b.afterIf = true) tag attributes) (tag :: b.openTags.map OpenTag.tag) false := by
  rw [Settles, ← mayOpen_iff]
  refine (beginElement_yields b tag _ true).imp ?_ ?_
  · rintro f (hlacks | hstray | ⟨-, hno⟩)
    · exact absurd hlacks (hb.not_lacks hin)
    · exact hstray
    · exact absurd (attributesLay_texts attributes) hno
  · rintro _ ⟨opening, out, hbegin, rfl⟩
    refine ⟨hbegin.mayOpen, ⟨hb.state, hb.beforeCode, nofun, ?_, ?_⟩, ?_, rfl⟩
    · exact forall_mem_cons.2 ⟨hbegin.sturdy (attributesLay_texts attributes) _, sturdy_bump hb.sturdy⟩
    · intro t ht h
      cases ht
      simp at h
    · rw [← map_tag_bump b.openTags]
      rfl

theorem endElement_settles (tag : Text) :
    Settles (endElement tag true) b ((b.openTags.map OpenTag.tag).head? = some tag)
      (b.openTags.map OpenTag.tag).tail (tag = "if".toList) := by
  refine (endElement_yields b tag true).imp ?_ ?_
  · rintro f ((hlacks | ⟨-, t, rest, mid, hopen, -, hone, hmid, hno⟩) | ⟨hf, hstray⟩ | ⟨-, t, ht, hno⟩)
    · exact absurd hlacks (hb.not_lacks hin)
    · have hcut := hb.comma t (congrArg List.head? hopen) (.inr (by omega))
      obtain ⟨new, hnew⟩ := hmid.cut hcut
      exact absurd hnew.push_empty hno
    · refine ⟨hf, fun hhead => ?_⟩
      rw [head?_map] at hhead
      obtain ⟨t, ht, rfl⟩ := Option.map_eq_some_iff.1 hhead
      exact hstray t ht rfl
    · exact absurd (hb.sturdy t (mem_of_mem_head? ht)) hno
  · rintro _ ⟨t, rest, out, hopen, rfl, -, rfl⟩
    rw [hopen]
    refine ⟨rfl, ⟨hb.state, hb.beforeCode, fun _ => rfl, fun u hu => hb.sturdy u ?_, fun u hu _ => ?_⟩, rfl, rfl⟩
    · rw [hopen]
      exact mem_cons_of_mem _ hu
    · refine cut_comma out ?_
      rintro rfl
      cases hu

theorem wholeElement_settles (tag : Text) (attributes : List TextAttribute) :
    Settles (wholeElement tag (attributes.map TextAttribute.attribute)) b
      (Happening.MayBegin (b.afterIf = true) tag attributes) (b.openTags.map OpenTag.tag) (tag = "if".toList) := by
  rw [Settles, ← mayOpen_iff]
  refine (wholeElement_yields b tag _).imp ?_ ?_
  · rintro f (hlacks | hstray | ⟨-, hno⟩)
    · exact absurd hlacks (hb.not_lacks hin)
    · exact hstray
    · exact absurd (attributesLay_texts attributes) hno
  · rintro _ ⟨opening, out, hbegin, -, rfl⟩
    refine ⟨hbegin.mayOpen, ⟨hb.state, hb.beforeCode, fun _ => rfl, sturdy_bump hb.sturdy, fun u hu _ => ?_⟩,
      map_tag_bump _, rfl⟩
    refine cut_comma _ fun hnone => ?_
    rw [show bump b.openTags = [] from hnone] at hu
    cases hu

theorem declare_settles {tag argument : String} (hif : tag.toList ≠ "if".toList) (helse : tag.toList ≠ "else".toList)
    (content : Text) : Settles (declare tag argument content) b True (b.openTags.map OpenTag.tag) false := by
  have hmay : Happening.MayBegin (b.afterIf = true) tag.toList [⟨argument.toList, [content]⟩] :=
    ⟨fun h => absurd h hif, fun h => absurd h helse⟩
  refine .bind ((wholeElement_settles hb hin tag.toList [⟨argument.toList, [content]⟩]).imp
    (fun _ h => absurd hmay h.2) fun _ h => h) ?_
  rintro c ⟨-, hsound, htags, -⟩
  refine ⟨trivial, ⟨hsound.state, hsound.beforeCode, fun _ => rfl, hsound.sturdy, fun t ht hor => ?_⟩, htags, rfl⟩
  exact hsound.comma t ht (.inr (by simpa using hor))

theorem writeData_settles (data : Text) : Settles (writeData data) b True (b.openTags.map OpenTag.tag)
      (b.afterIf && (normalize data false false).isEmpty) := by
  have hsame (hafter : b.afterIf = true) : normalize data b.afterCode b.beforeCode = normalize data false false := by
    rw [hb.afterCode hafter, hb.beforeCode]
  refine (writeData_yields b data).imp (fun _ h => absurd h (hb.not_lacks hin)) ?_
  rintro c (⟨hnothing, rfl⟩ | ⟨hsome, mid, -, rfl⟩)
  · refine ⟨trivial, hb, rfl, ?_⟩
    cases hafter : c.afterIf with
    | false => rfl
    | true => simp [← hsame hafter, hnothing]
  · refine ⟨trivial, ⟨hb.state, hb.beforeCode, nofun, sturdy_bump hb.sturdy, fun _ _ _ => cut_dataPiece mid _⟩,
      map_tag_bump _, ?_⟩
    cases hafter : b.afterIf with
    | false => rfl
    | true => simpa [← hsame hafter] using hsome

theorem readCode_settles (fragment : CodeChild) (hrow : b.stop.row ≤ fragment.first.start.row) :
    Settles (readCode (fragment.first :: fragment.more)) b True (b.openTags.map OpenTag.tag) false := by
  obtain ⟨hlaid, hlays⟩ := lays_of_plain fragment.laid
  refine (readCode_yields (fragment.first :: fragment.more) b).imp ?_ ?_
  · rintro f (hlacks | ⟨-, hno⟩ | ⟨-, hno⟩)
    · exact absurd hlacks (hb.not_lacks hin)
    · exact hno.elim
    · exact absurd ⟨⟨_, rfl, hrow⟩, hb.state, hlays⟩ hno
  · rintro c ⟨first, last, d, e, -, -, hclose, hdown, hplace⟩
    obtain ⟨mid, -, rfl⟩ := (closeIf_yields b).of_ok hclose
    obtain ⟨-, rfl⟩ := (advanceTo_yields _ _).of_ok hdown
    cases hplace with
    | @child g _ hwrite =>
      have hcut := cut_codePiece g.output.toList (fragment.first :: fragment.more) (hlaid ▸ fragment.noComment)
      have hg : g.machine.state = .data ∧ (∀ t ∈ g.openTags, Sturdy t) ∧
          g.openTags.map OpenTag.tag = b.openTags.map OpenTag.tag ∧ g.afterIf = false := by
        obtain ⟨-, rfl⟩ | ⟨-, more, -, rfl⟩ := (writeData_yields _ _).of_ok hwrite
        · exact ⟨hb.state, hb.sturdy, rfl, rfl⟩
        · exact ⟨hb.state, sturdy_bump hb.sturdy, map_tag_bump _, rfl⟩
      obtain ⟨hstate, hsturdy, htags, hafter⟩ := hg
      refine ⟨trivial, ⟨hstate, rfl, fun h => ?_, sturdy_bump hsturdy, fun t _ _ => ?_⟩,
        (map_tag_bump _).trans htags, hafter⟩
      · exact absurd (hafter.symm.trans h) Bool.false_ne_true
      · simpa using hcut
    | value hno | nowhere hno => exact absurd (.inl hb.state) hno

end

/-! ### Runs -/

theorem perform_settles {b : Builder} (hb : Orderly b) (hin : Enclosed b) (heard : Heard) :
    ∃ afterIf, Settles heard.perform b (heard.event.Fits (b.openTags.map OpenTag.tag) (b.afterIf = true))
        (heard.event.openAfter (b.openTags.map OpenTag.tag)) afterIf ∧
      (afterIf = true ↔ heard.event.EndsIf ∨ heard.event.IsNothing ∧ b.afterIf = true) := by
  have hplace : Orderly { b with stop := heard.place } :=
    ⟨hb.state, hb.beforeCode, hb.afterCode, hb.sturdy, hb.comma⟩
  obtain ⟨place, event, hbelow⟩ := heard
  cases event with
  | start tag attributes =>
    exact ⟨_, beginElement_settles hplace hin tag attributes, by simp [Happening.EndsIf, Happening.IsNothing]⟩
  | startEnd tag attributes =>
    exact ⟨_, wholeElement_settles hplace hin tag attributes, by simp [Happening.EndsIf, Happening.IsNothing]⟩
  | finish tag => exact ⟨_, endElement_settles hplace hin tag, by simp [Happening.EndsIf, Happening.IsNothing]⟩
  | data s =>
    exact ⟨_, writeData_settles hplace hin s, by simp [Happening.EndsIf, Happening.IsNothing, and_comm]⟩
  | comment s | doctype s | cdata s =>
    exact ⟨_, declare_settles hplace hin (by decide) (by decide) _, by simp [Happening.EndsIf, Happening.IsNothing]⟩
  | code fragment =>
    have hdata : Orderly { b with stop := place, machine := { b.machine with data := fragment.data } } :=
      ⟨hb.state, hb.beforeCode, hb.afterCode, hb.sturdy, hb.comma⟩
    exact ⟨_, readCode_settles hdata hin fragment (hbelow fragment rfl), by
      simp [Happening.EndsIf, Happening.IsNothing]⟩

open Heard in
theorem performAll_append (front : List Heard) (heard : Heard) (b : Builder) :
    performAll (front ++ [heard]) b = (performAll front >>= fun _ => heard.perform) b := by
  induction front generalizing b with
  | nil =>
    change (heard.perform >>= fun _ => pure ()) b = heard.perform b
    rw [bind_pure]
  | cons first front ih =>
    change (first.perform >>= fun _ => performAll (front ++ [heard])) b =
      ((first.perform >>= fun _ => performAll front) >>= fun _ => heard.perform) b
    rw [bind_assoc]
    have hrest : (fun _ : Unit => performAll (front ++ [heard])) =
        fun _ => performAll front >>= fun _ => heard.perform := funext fun _ => funext ih
    rw [hrest]

end Builder

namespace Happening

theorem forall_split_concat {α : Type} {P : List α → α → Prop} (front : List α) (x : α) :
    (∀ first e rest, front ++ [x] = first ++ e :: rest → P first e) ↔
      (∀ first e rest, front = first ++ e :: rest → P first e) ∧ P front x := by
  constructor
  · intro h
    refine ⟨fun first e rest hsplit => h first e (rest ++ [x]) ?_, h front x [] rfl⟩
    rw [hsplit, append_assoc, cons_append]
  · rintro ⟨hfront, hx⟩ first e rest hsplit
    rcases eq_nil_or_concat rest with rfl | ⟨less, y, rfl⟩
    · obtain ⟨rfl, he⟩ := append_inj' hsplit rfl
      rwa [← singleton_inj.1 he]
    · rw [concat_eq_append, ← cons_append, ← append_assoc] at hsplit
      exact hfront first e less (append_inj' hsplit rfl).1

variable (front : List Happening) (e : Happening)

theorem stillOpen_concat : stillOpen (front ++ [e]) = e.openAfter (stillOpen front) := by
  simp [stillOpen, foldl_append]

theorem wellNested_concat : WellNested (front ++ [e]) ↔
      WellNested front ∧ e.Fits (stillOpen front) (JustAfterIf front) :=
  forall_split_concat front e

theorem inOneElement_concat :
    InOneElement (front ++ [e]) ↔ InOneElement front ∧ (front ≠ [] → stillOpen front ≠ []) :=
  forall_split_concat front e

theorem inOneElement_of_take {events : List Happening}
    (h : ∀ i < events.length, 0 < i → stillOpen (events.take i) ≠ []) : InOneElement events := by
  rintro first x rest rfl hfirst
  have hlt : first.length < (first ++ x :: rest).length := by simp
  have hopen := h first.length hlt (length_pos_iff.2 hfirst)
  rwa [take_left] at hopen

theorem justAfterIf_concat : JustAfterIf (front ++ [e]) ↔ e.EndsIf ∨ e.IsNothing ∧ JustAfterIf front := by
  constructor
  · rintro ⟨first, last, gap, hsplit, hlast, hgap⟩
    rcases eq_nil_or_concat gap with rfl | ⟨less, y, rfl⟩
    · obtain ⟨-, he⟩ := append_inj' hsplit rfl
      rw [singleton_inj.1 he]
      exact .inl hlast
    · rw [concat_eq_append, ← cons_append, ← append_assoc] at hsplit
      rw [concat_eq_append] at hgap
      obtain ⟨hfront, he⟩ := append_inj' hsplit rfl
      rw [singleton_inj.1 he]
      refine .inr ⟨hgap y (by simp), first, last, less, hfront, hlast, fun x hx => hgap x ?_⟩
      exact mem_append_left _ hx
  · rintro (hends | ⟨hnothing, first, last, gap, rfl, hlast, hgap⟩)
    · exact ⟨front, e, [], rfl, hends, forall_mem_nil _⟩
    · refine ⟨first, last, gap ++ [e], ?_, hlast, ?_⟩
      · rw [append_assoc, cons_append]
      · intro x hx
        rcases mem_append.1 hx with hx | hx
        · exact hgap x hx
        · rw [mem_singleton.1 hx]
          exact hnothing

end Happening

namespace Builder

open Happening Heard

variable (start : Pos) (textFunction : Text)

structure Follows (b : Builder) (events : List Happening) : Prop where
  sound : Orderly b
  tags : b.openTags.map OpenTag.tag = stillOpen events
  afterIf : b.afterIf = true ↔ JustAfterIf events

theorem follows_begin : Follows (begin start textFunction) [] where
  sound := ⟨rfl, rfl, fun _ => rfl, forall_mem_nil _, fun _ h => by cases h⟩
  tags := rfl
  afterIf := by simp [begin, JustAfterIf]

theorem Follows.enclosed {b : Builder} {events : List Happening} (h : Follows b events)
    (hopen : events ≠ [] → stillOpen events ≠ []) : Enclosed b := by
  intro hnone
  have htags : stillOpen events = [] := by rw [← h.tags, hnone]; rfl
  have hevents : events = [] := by
    by_contra hne
    exact hopen hne htags
  rw [Bool.eq_false_iff]
  intro hafter
  have hjust := h.afterIf.1 hafter
  simp [hevents, JustAfterIf] at hjust

theorem performAll_yields {heards : List Heard} (hone : InOneElement (heards.map Heard.event)) :
    Yields (fun f => f.OfNesting ∧ ¬ WellNested (heards.map Heard.event))
      (fun c => WellNested (heards.map Heard.event) ∧ Follows c (heards.map Heard.event))
      (performAll heards (begin start textFunction)) := by
  induction heards using List.reverseRecOn with
  | nil => exact ⟨fun first e rest h => absurd h (by simp), follows_begin start textFunction⟩
  | append_singleton front heard ih =>
    rw [map_append, map_singleton] at hone ⊢
    obtain ⟨honeFront, hopen⟩ := (inOneElement_concat _ _).1 hone
    rw [performAll_append, wellNested_concat]
    refine .bind ((ih honeFront).imp (fun f h => ⟨h.1, fun hnest => h.2 hnest.1⟩) fun _ h => h) ?_
    rintro b ⟨hnest, hfollows⟩
    obtain ⟨afterIf, hsettles, hiff⟩ := perform_settles hfollows.sound (hfollows.enclosed hopen) heard
    rw [hfollows.tags, propext hfollows.afterIf] at hsettles
    refine hsettles.imp (fun f h => ⟨h.1, fun hboth => h.2 hboth.2⟩) ?_
    rintro c ⟨hfits, hsound, htags, hafter⟩
    refine ⟨⟨hnest, hfits⟩, hsound, ?_, ?_⟩
    · rw [htags, stillOpen_concat]
    · rw [hafter, hiff, hfollows.afterIf, justAfterIf_concat]

/-- Events on a fresh builder, up to the end of the outermost element, are accepted exactly if
they are well nested. Any others are refused as badly nested, and never because a comma that is to
be deleted is not there. -/
theorem accepts_iff_wellNested {heards : List Heard} (hone : InOneElement (heards.map Heard.event)) :
    ((∃ c, performAll heards (begin start textFunction) = .ok () c) ↔ WellNested (heards.map Heard.event)) ∧
      ∀ f c, performAll heards (begin start textFunction) = .error f c →
        f.OfNesting ∧ f ≠ .noComma ∧ ∀ pieces stripped i, f ≠ .noCommaAt pieces stripped i := by
  have hyields := performAll_yields start textFunction hone
  refine ⟨⟨fun ⟨c, hc⟩ => (hyields.of_ok hc).1, fun hnest => ?_⟩, fun f c h => ?_⟩
  · cases h : performAll heards (begin start textFunction) with
    | ok _ c => exact ⟨c, rfl⟩
    | error f c => exact absurd hnest (hyields.of_error h).2
  · have hf := (hyields.of_error h).1
    refine ⟨hf, ?_, fun pieces stripped i => ?_⟩
    · rintro rfl
      exact hf
    · rintro rfl
      exact hf

def twoBranches : List Heard :=
  [⟨⟨1, 3⟩, .start "p".toList [], fun _ h => by cases h⟩,
    ⟨⟨1, 16⟩, .start "if".toList [⟨"cond".toList, ["yes".toList]⟩], fun _ h => by cases h⟩,
    ⟨⟨1, 19⟩, .data "text".toList, fun _ h => by cases h⟩,
    ⟨⟨1, 24⟩, .finish "if".toList, fun _ h => by cases h⟩,
    ⟨⟨2, 0⟩, .data "\n".toList, fun _ h => by cases h⟩,
    ⟨⟨2, 6⟩, .start "else".toList [], fun _ h => by cases h⟩,
    ⟨⟨2, 6⟩, .code ⟨[], ⟨.name, "x".toList, ⟨2, 7⟩, ⟨2, 8⟩, []⟩, [], "x".toList, rfl, by simp⟩,
      fun _ h => by cases h; decide⟩,
    ⟨⟨2, 16⟩, .finish "else".toList, fun _ h => by cases h⟩,
    ⟨⟨2, 20⟩, .finish "p".toList, fun _ h => by cases h⟩]

theorem accepts_iff_wellNested_twoBranches : InOneElement (twoBranches.map Heard.event) ∧
      ((∃ c, performAll twoBranches (begin ⟨1, 0⟩ "unicode".toList) = .ok () c) ↔
          WellNested (twoBranches.map Heard.event)) ∧
        ∀ f c, performAll twoBranches (begin ⟨1, 0⟩ "unicode".toList) = .error f c →
          f.OfNesting ∧ f ≠ .noComma ∧ ∀ pieces stripped i, f ≠ .noCommaAt pieces stripped i := by
  have hone : InOneElement (twoBranches.map Heard.event) := by
    apply inOneElement_of_take
    decide
  exact ⟨hone, accepts_iff_wellNested ⟨1, 0⟩ "unicode".toList hone⟩

end Builder

end Markup

end InlineMarkup

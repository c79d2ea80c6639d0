import InlineMarkup.Element.Fault
import InlineMarkup.Element.Script
import InlineMarkup.Element.Vocabulary

/-!
Classes of elements: the attributes they allow, how their elements are written, and how a class is
made from those it extends.
-/
namespace InlineMarkup.Element

inductive Form where
  | paired
  | single
  | hidden
  | declaration
  | markedDeclaration
  | conditionDeclaration
  | raw
  | fragment
  | formError
  /-- A comment with a condition, around children that all other readers see or do not see. -/
  | conditional (shown : Bool)
  | feed
  | feedDeclaration
  | feedDate
  | feedCreator
  | content
  deriving DecidableEq, Repr

/-- Under which name and with which value an attribute of a feed is written. -/
inductive Renaming where
  | dublinCore
  | permanentLink
  deriving DecidableEq, Repr

def Renaming.apply (r : Renaming) (name : Text) (v : Value) : Text × Value :=
  match r with
  | dublinCore =>
    if name = "uses-dublin-core".toList ∧ v.isTrue then
      ("xmlns:dc".toList, .text "http://purl.org/dc/elements/1.1/".toList)
    else (name, v)
  | permanentLink =>
    if name = "is-perma-link".toList then
      ("isPermaLink".toList, .text (if v.isTrue then "true" else "false").toList)
    else (name, v)

/-- What one class says about its elements itself. The serial number tells classes apart. -/
structure Trait where
  serial : Nat
  form? : Option Form := none
  childless : Bool := false
  renaming? : Option Renaming := none
  /-- The elements stand for a content that is made when they are written. -/
  isComponent : Bool := false
  content? : Option Template := none
  before? : Option (List Step) := none
  after? : Option (List Step) := none
  note? : Option Text := none
  deriving Repr, Inhabited

structure Class where
  name : Text
  home : Text
  attributes : List (Text × Domain)
  /-- What the class says itself, then what the classes say that it extends, in the order in which
  they are asked. -/
  lineage : List Trait
  deriving Repr, Inhabited

namespace Class

def tag (c : Class) : Text := c.name.drop 2

def path (c : Class) : Text := c.home ++ ['.'] ++ c.name

def form? (c : Class) : Option Form := c.lineage.findSome? (·.form?)

def isChildless (c : Class) : Bool := c.lineage.any (·.childless)

def isComponent (c : Class) : Bool := c.lineage.any (·.isComponent)

def renaming? (c : Class) : Option Renaming := c.lineage.findSome? (·.renaming?)

def content? (c : Class) : Option Template := c.lineage.findSome? (·.content?)

def before? (c : Class) : Option (List Step) := c.lineage.findSome? (·.before?)

def after? (c : Class) : Option (List Step) := c.lineage.findSome? (·.after?)

/-- The attribute may be set: it is one of the class, or its name begins as those that anyone may
add. -/
def allows (c : Class) (name : Text) : Bool :=
  c.attributes.any (·.1 == name) || "data-".toList.isPrefixOf name || "aria-".toList.isPrefixOf name

def domain (c : Class) (name : Text) : Domain := (c.attributes.lookup name).getD .text

end Class

/-! ### Extending classes -/

def Trait.isLater (t : Trait) (lines : List (List Trait)) : Bool :=
  lines.any fun line => line.tail.any (·.serial == t.serial)

def Trait.dropFrom (t : Trait) : List Trait → List Trait
  | [] => []
  | u :: rest => if u.serial == t.serial then rest else u :: rest

/-- Merges lines of traits to one that keeps the order of each; of the traits that may come next, the
one of the first line does. -/
def mergeLines : Nat → List (List Trait) → Option (List Trait)
  | 0, lines => if lines.all List.isEmpty then some [] else none
  | fuel + 1, lines =>
    if lines.all List.isEmpty then some []
    else match lines.findSome? fun line =>
        match line with
        | t :: _ => if t.isLater lines then none else some t
        | [] => none with
      | some t => (mergeLines fuel (lines.map t.dropFrom)).map (t :: ·)
      | none => none

def putDomain (attributes : List (Text × Domain)) (name : Text) (d : Domain) :
    List (Text × Domain) :=
  match attributes with
  | [] => [(name, d)]
  | (n, e) :: rest => if n = name then (n, d) :: rest else (n, e) :: putDomain rest name d

/-- A class that extends others. It allows the attributes of the first of them, and its own. -/
def Class.extend (name home : Text) (bases : List Class) (attributes : List (Text × Domain))
    (own : Trait) : Except Fault Class :=
  let lines := bases.map (·.lineage) ++ [bases.filterMap (·.lineage.head?)]
  match mergeLines lines.flatten.length lines with
  | none => .error .unsuitable
  | some line =>
    match attributes.find? fun a => a.1.contains '_' with
    | some (bad, _) => .error (.underscore bad)
    | none =>
      let inherited := (bases.head?.map (·.attributes)).getD []
      .ok { name, home, lineage := own :: line,
            attributes := attributes.foldl (fun as (n, d) => putDomain as n d) inherited }

/-! ### Names of attributes -/

def attributeName (argument : Text) : Text :=
  if argument = "xclass".toList then "class".toList
  else if argument = "xfor".toList then "for".toList
  else Text.replace "COLON".toList [':'] (Text.replaceChar '_' ['-'] argument)

end InlineMarkup.Element

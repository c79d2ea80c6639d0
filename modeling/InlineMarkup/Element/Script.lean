import InlineMarkup.Element.Domain

/-!
Scripts on elements: expressions that make values, and steps that change an element or ask it
something.
-/
namespace InlineMarkup.Element

inductive Template where
  | value (v : Value)
  | moment (fields : List Int)
  | list (items : List Template)
  | tuple (items : List Template)
  | table (keys values : List Template)
  | variable (name : Text)
  | raw (content : Template)
  | make (className : Text) (names : List Text) (values children : List Template)
  | ownAttribute (name : Text)
  | ownChildren (selector : Option Text)
  deriving Repr, Inhabited

inductive Step where
  | append (child : Template)
  | prepend (child : Template)
  | appendAll (children : List Template)
  | call (arguments : List Template)
  | setAttribute (name : Text) (value : Template)
  | setAttributes (names : List Text) (values : List Template)
  | addClass (value : Template)
  | transfer (recipient : Text)
  | children (selector : Option Text) (exclude : Bool)
  | attribute (name : Text) (default : Template)
  | property (name : Text)
  | attributes
  | classes
  | identifier
  | allows (name : Text)
  | text
  | markup
  | base
  deriving Repr, Inhabited

end InlineMarkup.Element

import InlineMarkup.Element.Fault
import InlineMarkup.Text.Escape

/-!
Trees of markup, as they stand once every value in them is known, and the text they are written as.
-/
namespace InlineMarkup.Element

inductive Tree where
  | text (s : Text)
  | raw (s : Text)
  | paired (tag : Text) (attributes : List (Text × Text)) (children : List Tree)
  | single (tag : Text) (attributes : List (Text × Text))
  | fragment (children : List Tree)
  | declaration (opening : Text) (body : Option Text) (closing : Text)
  | conditional (shown : Bool) (condition : Text) (children : List Tree)
  deriving Repr, Inhabited

namespace Tree

def writeAttribute (a : Text × Text) : Text :=
  [' '] ++ a.1 ++ ['=', '"'] ++ Text.escape a.2 ++ ['"']

def writeCondition (s : Text) : Text :=
  Text.join ['&'] ((Text.splitAt '&' s).map Text.escape)

def conditionMarks (shown : Bool) (condition : Text) : Text × Text :=
  let opening := "<!--[if ".toList ++ writeCondition condition ++ "]>".toList
  if shown then (opening ++ "<!-->".toList, "<!--<![endif]-->".toList)
  else (opening, "<![endif]-->".toList)

mutual

def write : Tree → Text
  | text s => Text.escape s
  | raw s => s
  | paired tag attributes children =>
    ['<'] ++ tag ++ attributes.flatMap writeAttribute ++ ['>'] ++ writeAll children ++
      ['<', '/'] ++ tag ++ ['>']
  | single tag attributes =>
    ['<'] ++ tag ++ attributes.flatMap writeAttribute ++ [' ', '/', '>']
  | fragment children => writeAll children
  | declaration opening body closing => opening ++ body.getD [] ++ closing
  | conditional shown condition children =>
    let (opening, closing) := conditionMarks shown condition
    opening ++ writeAll children ++ closing

def writeAll : List Tree → Text
  | [] => []
  | t :: ts => write t ++ writeAll ts

end

mutual

def isWhole : Tree → Bool
  | paired _ _ children => areWhole children
  | fragment children => areWhole children
  | declaration _ body _ => body.isSome
  | conditional _ _ children => areWhole children
  | _ => true

def areWhole : List Tree → Bool
  | [] => true
  | t :: ts => isWhole t && areWhole ts

end

def render (t : Tree) : Except Fault Text := if t.isWhole then .ok t.write else .error .unsuitable

end Tree

end InlineMarkup.Element

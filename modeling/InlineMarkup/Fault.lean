import InlineMarkup.Position
import InlineMarkup.Text.Quoted
import InlineMarkup.Markup.State

/-!
What can go wrong between a source text and the text made of it, as causes, and the wording of
those that have one.
-/
namespace InlineMarkup

open Markup (State)

inductive Fault where
  | rowsReversed (row last : Int)
  | noTokens
  /-- The character cannot stand in the state the markup reader is in. -/
  | unexpectedChar (c : Char) (state : State)
  | repeatedAttribute (name : Option Text)
  | closedTwice
  | codeMisplaced (state : State)
  | unknownState (number : Int)
  | namelessState (number : Int)
  | missingPart
  | missingText
  | unhandled
  /-- An unquoted value begins with a character that must be read again. -/
  | ambiguousValue
  | rowWentBack
  | malformed (pos : Pos)
  | conditionCount (pos : Pos)
  | conditionMissing (pos : Pos)
  | elseAttributes (pos : Pos)
  | elseAlone (pos : Pos)
  | mismatched (opened : Text) (row : Int) (closed : Text) (here : Int)
  | nothingOpen (tag : Text)
  | noCommaAt (pieces : List Text) (stripped : Text) (index : Nat)
  | noComma
  | valueMissing
  | nameMissing
  | openingMissing
  | unclosed (tags : List (Text × Int))
  | unclosedCode
  | bracesAfterMarkup
  | unfinished
  | tooFewArguments
  | notInteger
  | notExpression
  | strayIndent
  | notKey
  | tooLarge
  | tooLong
  | notLiteral
  | notSearchable
  | notText
  /-- The format text has a brace out of place or a field that cannot be filled. -/
  | badFormat
  | missingArgument
  | namedArgument
  /-- The format text asks for a part of an argument that has no such part. -/
  | noSuchPart
  /-- The format text asks for an item by something other than a number, or of what has no items. -/
  | badItem
  | notPadded
  | notEncoded
  | exhausted
  deriving DecidableEq, Repr, Inhabited

namespace Fault

def located (message : Text) (pos : Pos) : Text :=
  message ++ " at line ".toList ++ Text.ofInt pos.row ++ " char ".toList ++ Text.ofInt pos.col

def quotedState (s : State) : Text := Text.quoted (s.name?.getD [])

def message : Fault → Text
  | rowsReversed row last =>
    "row (".toList ++ Text.ofInt row ++ ") should be >= prev_row (".toList ++ Text.ofInt last ++ [')']
  | unexpectedChar c s =>
    "unexpected character ".toList ++ Text.quoted [c] ++ " in state ".toList ++ quotedState s
  | repeatedAttribute name =>
    "repeat attribute name ".toList ++ (name.map Text.quoted).getD "None".toList
  | closedTwice => "both startendtag and endtag!?".toList
  | codeMisplaced s => "python not allow in state ".toList ++ quotedState s
  | unknownState n => "bad state! ".toList ++ Text.ofInt n
  | namelessState n => "impossible state value ".toList ++ Text.ofInt n ++ ['!']
  | unhandled => "subclass should override".toList
  | rowWentBack => "row went backwards".toList
  | malformed pos => located "HTML Parsing error".toList pos
  | conditionCount pos => located "if tag only takes one attr called 'cond'".toList pos
  | conditionMissing pos => located "if tag must contain the 'cond' attr".toList pos
  | elseAttributes pos => located "else tag takes no attrs".toList pos
  | elseAlone pos => located "<else> tag must come right after </if>".toList pos
  | mismatched opened row closed here =>
    ['<'] ++ opened ++ "> on line ".toList ++ Text.ofInt row ++ " closed by </".toList ++ closed ++
      "> on line ".toList ++ Text.ofInt here
  | nothingOpen tag =>
    "got </".toList ++ tag ++ "> but tag stack empty; parsing should be over!".toList
  | noCommaAt pieces stripped index =>
    ['('] ++ Text.quotedList pieces ++ [',', ' '] ++ Text.quoted stripped ++ [',', ' '] ++
      Text.ofNat index ++ [')']
  | noComma => "couldn't find a comma".toList
  | unclosed tags =>
    "Unclosed Tags: ".toList ++
      Text.join [',', ' '] (tags.map fun (tag, row) =>
        ['<'] ++ tag ++ "> at (line:".toList ++ Text.ofInt row ++ [')'])
  | _ => []

end Fault

end InlineMarkup

import InlineMarkup.Text.Basic

/-!
The states of the markup reader. Each state has a number, under which it can be set from outside;
any other number is a state the reader does not know.
-/
namespace InlineMarkup.Markup

inductive State where
  | data
  | tagOpen
  | endTagOpen
  | tagName
  | beforeAttributeName
  | attributeName
  | afterAttributeName
  | beforeAttributeValue
  | valueDoubleQuoted
  | valueSingleQuoted
  | valueUnquoted
  | afterAttributeValue
  | selfClosingStartTag
  | declarationOpen
  | commentStart
  | commentStartDash
  | comment
  | commentEndDash
  | commentEnd
  | doctype
  | doctypeContents
  | cdataSection
  | unknown (number : Int)
  deriving DecidableEq, Repr, Inhabited

namespace State

def named : List (State × Text × Int) :=
  [(data, "DATA".toList, 1),
   (tagOpen, "TAG_OPEN".toList, 7),
   (endTagOpen, "END_TAG_OPEN".toList, 8),
   (tagName, "TAG_NAME".toList, 9),
   (beforeAttributeName, "BEFORE_ATTRIBUTE_NAME".toList, 34),
   (attributeName, "ATTRIBUTE_NAME".toList, 35),
   (afterAttributeName, "AFTER_ATTRIBUTE_NAME".toList, 36),
   (beforeAttributeValue, "BEFORE_ATTRIBUTE_VALUE".toList, 37),
   (valueDoubleQuoted, "ATTRIBUTE_VALUE_DOUBLE_QUOTED".toList, 38),
   (valueSingleQuoted, "ATTRIBUTE_VALUE_SINGLE_QUOTED".toList, 39),
   (valueUnquoted, "ATTRIBUTE_VALUE_UNQUOTED".toList, 40),
   (afterAttributeValue, "AFTER_ATTRIBUTE_VALUE".toList, 42),
   (selfClosingStartTag, "SELF_CLOSING_START_TAG".toList, 43),
   (declarationOpen, "MARKUP_DECLARATION_OPEN".toList, 45),
   (commentStart, "COMMENT_START".toList, 46),
   (commentStartDash, "COMMENT_START_DASH".toList, 47),
   (comment, "COMMENT".toList, 48),
   (commentEndDash, "COMMENT_END_DASH".toList, 49),
   (commentEnd, "COMMENT_END".toList, 50),
   (doctype, "DOCTYPE".toList, 52),
   (doctypeContents, "DOCTYPE_CONTENTS".toList, 53),
   (cdataSection, "CDATA_SECTION".toList, 68)]

def ofNumber (n : Int) : State :=
  match named.find? (·.2.2 == n) with
  | some (s, _, _) => s
  | none => unknown n

def name? (s : State) : Option Text := (named.find? (·.1 == s)).map (·.2.1)

def number (s : State) : Int :=
  match s with
  | unknown n => n
  | s => ((named.find? (·.1 == s)).map (·.2.2)).getD 0

end State

end InlineMarkup.Markup

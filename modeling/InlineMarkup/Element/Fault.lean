import InlineMarkup.Text.Quoted

/-!
What can go wrong with elements, as causes, and the wording of those that have one.
-/
namespace InlineMarkup.Element

inductive Fault where
  | noAttribute (tag name : Text)
  | noDefault
  | noChoices
  | lateDefault
  | notChoice (tag className value name choices : Text)
  | wrongSort (tag className name expected found : Text)
  | childless (tag : Text)
  | underscore (name : Text)
  | unwritable
  | missingPart
  | unsuitable
  | notEncoded
  | notMoment
  | unknownName
  | exhausted
  deriving DecidableEq, Repr, Inhabited

namespace Fault

def message : Fault → Text
  | noAttribute tag name => ['<'] ++ tag ++ "> has no attr named \"".toList ++ name ++ ['"']
  | noDefault => "Invalid attribute definition".toList
  | noChoices => "Invalid attribute definition".toList
  | lateDefault => "None must be the first, default value".toList
  | notChoice tag className value name choices =>
    tag ++ [':', ' '] ++ className ++ ": incorrect value \"".toList ++ value ++ "\" for \"".toList ++
      name ++ "\". Expecting enum value ".toList ++ choices
  | wrongSort tag className name expected found =>
    tag ++ [':', ' '] ++ className ++ ": incorrect type for \"".toList ++ name ++
      "\". expected <class '".toList ++ expected ++ "'>, got <class '".toList ++ found ++ "'>".toList
  | childless tag =>
    "('<%s> does not allow children.', ".toList ++ Text.quoted tag ++ [')']
  | underscore name => name ++ ": '_' not allowed in attr names, use '-' instead".toList
  | _ => []

end Fault

end InlineMarkup.Element

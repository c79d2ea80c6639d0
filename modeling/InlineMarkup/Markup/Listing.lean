import InlineMarkup.Markup.Machine

/-!
Listeners to the markup reader: one that keeps the events, one that hears nothing, and one that
writes a listing of data and tags.
-/
namespace InlineMarkup.Markup

def record (e : Event) : EStateM Fault (Array Event) Unit := modify (·.push e)

def refuseAll (_ : Event) : EStateM Fault (Array Event) Unit := throw .unhandled

/-! ### The listing -/

def Part.listing : Part → Text
  | .text s => Text.quoted s
  | .code tokens => ['['] ++ Text.join [',', ' '] (tokens.map Token.dump) ++ [']']

def Attribute.listing (a : Attribute) : Text :=
  ['('] ++ (a.name.map Text.quoted).getD "None".toList ++ [',', ' '] ++
    (a.value.map fun parts => ['['] ++ Text.join [',', ' '] (parts.map Part.listing) ++ [']']).getD
      "None".toList ++ [')']

def attributesListing (attributes : List Attribute) : Text :=
  "OrderedDict(".toList ++
    (if attributes.isEmpty then []
     else ['['] ++ Text.join [',', ' '] (attributes.map Attribute.listing) ++ [']']) ++ [')']

def nameListing (name : Option Text) : Text := (name.map Text.quoted).getD "None".toList

def listEvent (e : Event) : EStateM Fault Text Unit :=
  match e with
  | .data s => modify (· ++ "DATA ".toList ++ Text.quoted s ++ ['\n'])
  | .start tag attributes =>
    modify (· ++ "STARTTAG ".toList ++ nameListing tag ++ [' '] ++ attributesListing attributes ++ ['\n'])
  | .startEnd tag attributes =>
    modify (· ++ "STARTENDTAG ".toList ++ nameListing tag ++ [' '] ++ attributesListing attributes ++ ['\n'])
  | .finish tag => modify (· ++ "ENDTAG ".toList ++ nameListing tag ++ ['\n'])
  | _ => throw .unhandled

def listing (s : Text) : Text × Option Fault :=
  let ((_, written), _, fault) := Machine.hearAll listEvent {} [] s
  (written, fault)

end InlineMarkup.Markup

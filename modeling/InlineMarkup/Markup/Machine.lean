import InlineMarkup.Fault
import InlineMarkup.Text.Lowercase
import InlineMarkup.Text.Numeric
import InlineMarkup.Token.Basic

/-!
The markup reader: a strict machine that reads markup character by character and reports data,
tags, comments and declarations as events. In an attribute's value, code can stand beside text.

One character makes at most one event. What the machine looks like while the event is being
handled is kept apart from what it looks like afterwards, since a listener may fail.
-/
namespace InlineMarkup.Markup

/-- A part of an attribute's value: text, or the tokens of a piece of code. -/
inductive Part where
  | text (s : Text)
  | code (tokens : List Token)
  deriving DecidableEq, Repr, Inhabited

structure Attribute where
  name : Option Text
  value : Option (List Part)
  deriving DecidableEq, Repr

structure Tag where
  name : Option Text := none
  attributes : List Attribute := []
  isEnd : Bool := false
  selfClosed : Bool := false
  deriving DecidableEq, Repr

/-- What the machine reports. -/
inductive Event where
  | data (s : Text)
  | start (tag : Option Text) (attributes : List Attribute)
  | startEnd (tag : Option Text) (attributes : List Attribute)
  | finish (tag : Option Text)
  | comment (s : Text)
  | doctype (s : Text)
  | cdata (s : Text)
  deriving DecidableEq, Repr

/-- The machine: its state, and what has been read of the thing it is in the middle of. -/
structure Machine where
  state : State := .data
  data : Text := []
  tag : Option Tag := none
  attributeName : Option Text := none
  attributeValue : Option (List Part) := none
  /-- What follows `<!` as long as it may still turn into a declaration. -/
  declaration : Option Text := none
  sectionEnd : Option Text := none
  deriving DecidableEq, Repr

inductive Step where
  | quiet (after : Machine)
  | event (during : Machine) (e : Event) (after : Machine)
  | again (after : Machine)
  | fault (after : Machine) (f : Fault)

namespace Machine

def isSpace (c : Char) : Bool := c == '\t' || c == '\n' || c == '\x0c' || c == ' '

def refuse (m : Machine) (c : Char) : Step := .fault m (.unexpectedChar c m.state)

def goto (m : Machine) (s : State) : Machine := { m with state := s }

def addChar : List Part → Char → List Part
  | [], c => [.text [c]]
  | [.text s], c => [.text (s ++ [c])]
  | p :: rest, c => p :: addChar rest c

def closeAttribute (m : Machine) : Except Fault Machine :=
  match m.tag with
  | none => .error .missingPart
  | some tag =>
    if tag.attributes.any (·.name == m.attributeName) then
      .error (.repeatedAttribute m.attributeName)
    else
      let made : Attribute := ⟨m.attributeName, m.attributeValue⟩
      .ok { m with
        tag := some { tag with attributes := tag.attributes ++ [made] },
        attributeName := none, attributeValue := none }

def withAttribute (m : Machine) (next : Machine → Step) : Step :=
  match m.closeAttribute with
  | .ok m => next m
  | .error f => .fault m f

def closeTag (m : Machine) : Step :=
  match m.tag with
  | none => .fault m .missingPart
  | some tag =>
    if tag.selfClosed && tag.isEnd then .fault m .closedTwice
    else
      let e : Event :=
        if tag.selfClosed then .startEnd tag.name tag.attributes
        else if tag.isEnd then .finish tag.name
        else .start tag.name tag.attributes
      .event m e (m.goto .data)

def closeData (m : Machine) (e : Text → Event) (next : State) : Step :=
  .event m (e m.data) { m with data := [], state := next }

def extendValue (m : Machine) (c : Char) : Step :=
  match m.attributeValue with
  | some parts => .quiet { m with attributeValue := some (addChar parts c) }
  | none => .fault m .missingText

def extendData (m : Machine) (s : Text) (next : State) : Machine :=
  { m with data := m.data ++ s, state := next }

def sectionMark : Text := [']', ']', '>']

/-- Splits what may be the end of a section into what is only data and what may still be the
end. -/
def settle : Text → Text × Text
  | [] => ([], [])
  | c :: rest =>
    if (c :: rest).isPrefixOf sectionMark then ([], c :: rest)
    else
      let (data, kept) := settle rest
      (c :: data, kept)

def declarationComment : Text := ['-', '-']
def declarationDoctype : Text := "doctype".toList
def declarationSection : Text := "[CDATA[".toList

def openDeclaration (m : Machine) (c : Char) : Step :=
  match m.declaration with
  | none => .fault m .missingText
  | some read =>
    let read := read ++ [c]
    let m := { m with declaration := some read }
    let lower := read.flatMap lowercase
    if read = declarationComment then .quiet { m with data := [], state := .commentStart }
    else if lower = declarationDoctype then .quiet (m.goto .doctype)
    else if read = declarationSection then
      .quiet { m with data := [], sectionEnd := some [], state := .cdataSection }
    else if read.isPrefixOf declarationComment || lower.isPrefixOf declarationDoctype ||
        read.isPrefixOf declarationSection then .quiet m
    else m.refuse c

def readSection (m : Machine) (c : Char) : Step :=
  match m.sectionEnd with
  | none => .fault m .missingPart
  | some seen =>
    let seen := seen ++ [c]
    if seen = sectionMark then closeData { m with sectionEnd := some seen } .cdata .data
    else
      let (data, kept) := settle seen
      .quiet { m with data := m.data ++ data, sectionEnd := some kept }

def openName (m : Machine) (tag : Tag) (c : Char) : Step :=
  if isAlphabetic c then .quiet { m with tag := some { tag with name := some [c] }, state := .tagName }
  else refuse { m with tag := some tag } c

def step (m : Machine) (c : Char) : Step :=
  match m.state with
  | .data =>
    if c = '<' then m.closeData .data .tagOpen else .quiet (m.extendData [c] .data)
  | .tagOpen =>
    let m := { m with tag := some {} }
    if c = '!' then .quiet { m with declaration := some [], state := .declarationOpen }
    else if c = '/' then .quiet (m.goto .endTagOpen)
    else m.openName {} c
  | .endTagOpen =>
    match m.tag with
    | none => .fault m .missingPart
    | some tag => m.openName { tag with isEnd := true } c
  | .tagName =>
    if isSpace c then .quiet (m.goto .beforeAttributeName)
    else if c = '/' then .quiet (m.goto .selfClosingStartTag)
    else if c = '>' then m.closeTag
    else match m.tag with
      | none => .fault m .missingPart
      | some tag =>
        match tag.name with
        | none => .fault m .missingText
        | some name => .quiet { m with tag := some { tag with name := some (name ++ [c]) } }
  | .beforeAttributeName =>
    if isSpace c then .quiet m
    else if c = '/' then .quiet (m.goto .selfClosingStartTag)
    else if c = '>' then m.closeTag
    else if c = '"' ∨ c = '\'' ∨ c = '<' ∨ c = '=' then m.refuse c
    else .quiet { m with attributeName := some (lowercase c), state := .attributeName }
  | .attributeName =>
    if isSpace c then .quiet (m.goto .afterAttributeName)
    else if c = '/' then m.withAttribute fun m => .quiet (m.goto .selfClosingStartTag)
    else if c = '=' then .quiet (m.goto .beforeAttributeValue)
    else if c = '>' then m.closeTag
    else if c = '"' ∨ c = '\'' ∨ c = '<' then m.refuse c
    else match m.attributeName with
      | none => .fault m .missingText
      | some name => .quiet { m with attributeName := some (name ++ lowercase c) }
  | .afterAttributeName =>
    if isSpace c then .quiet m
    else if c = '/' then m.withAttribute fun m => .quiet (m.goto .selfClosingStartTag)
    else if c = '=' then .quiet (m.goto .beforeAttributeValue)
    else if c = '>' then m.withAttribute closeTag
    else if c = '"' ∨ c = '\'' ∨ c = '<' then m.refuse c
    else .quiet m
  | .beforeAttributeValue =>
    if isSpace c then .quiet m
    else if c = '"' then .quiet { m with attributeValue := some [], state := .valueDoubleQuoted }
    else if c = '&' then .again { m with attributeValue := some [], state := .valueUnquoted }
    else if c = '\'' then .quiet { m with attributeValue := some [], state := .valueSingleQuoted }
    else if c = '>' ∨ c = '<' ∨ c = '=' ∨ c = Char.ofNat 0x60 then m.refuse c
    else .quiet { m with attributeValue := some [.text [c]], state := .valueUnquoted }
  | .valueDoubleQuoted =>
    if c = '"' then .quiet (m.goto .afterAttributeValue) else m.extendValue c
  | .valueSingleQuoted =>
    if c = '\'' then .quiet (m.goto .afterAttributeValue) else m.extendValue c
  | .valueUnquoted =>
    if isSpace c then m.withAttribute fun m => .quiet (m.goto .beforeAttributeName)
    else if c = '>' then m.withAttribute closeTag
    else if c = '"' ∨ c = '\'' ∨ c = '<' ∨ c = '=' ∨ c = Char.ofNat 0x60 then m.refuse c
    else m.extendValue c
  | .afterAttributeValue =>
    m.withAttribute fun m =>
      if isSpace c then .quiet (m.goto .beforeAttributeName)
      else if c = '/' then .quiet (m.goto .selfClosingStartTag)
      else if c = '>' then m.closeTag
      else m.refuse c
  | .selfClosingStartTag =>
    match m.tag with
    | none => .fault m .missingPart
    | some tag =>
      let m := { m with tag := some { tag with selfClosed := true } }
      if c = '>' then m.closeTag else m.refuse c
  | .declarationOpen => m.openDeclaration c
  | .commentStart =>
    if c = '-' then .quiet (m.goto .commentStartDash)
    else if c = '>' then m.refuse c
    else .quiet (m.extendData [c] .comment)
  | .commentStartDash =>
    if c = '-' then .quiet (m.goto .commentEnd)
    else if c = '>' then m.refuse c
    else .quiet (m.extendData ['-', c] .comment)
  | .comment =>
    if c = '-' then .quiet (m.goto .commentEndDash) else .quiet (m.extendData [c] .comment)
  | .commentEndDash =>
    if c = '-' then .quiet (m.goto .commentEnd) else .quiet (m.extendData ['-', c] .comment)
  | .commentEnd => if c = '>' then m.closeData .comment .data else m.refuse c
  | .doctype =>
    if isSpace c then .quiet { m with data := [], state := .doctypeContents } else m.refuse c
  | .doctypeContents =>
    if c = '>' then m.closeData .doctype .data else .quiet (m.extendData [c] .doctypeContents)
  | .cdataSection => m.readSection c
  | .unknown n => .fault m (.unknownState n)

def inValue (m : Machine) : Bool :=
  m.state == .valueDoubleQuoted || m.state == .valueSingleQuoted || m.state == .valueUnquoted

def readCode (m : Machine) (tokens : List Token) : Except Fault Machine :=
  if m.state = .beforeAttributeValue then
    .ok { m with attributeValue := some [.code tokens], state := .valueUnquoted }
  else if m.inValue then
    match m.attributeValue with
    | some parts => .ok { m with attributeValue := some (parts ++ [.code tokens]) }
    | none => .error .missingPart
  else match m.state with
    | .unknown n => .error (.namelessState n)
    | s => .error (.codeMisplaced s)

/-! ### Listening to a machine -/

variable {σ : Type}

/-- Reads one character and lets a listener hear of the event. -/
def hear (listen : Event → EStateM Fault σ Unit) (c : Char) : EStateM Fault (Machine × σ) Unit := do
  let (m, heard) ← get
  let act (step : Step) : EStateM Fault (Machine × σ) Unit :=
    match step with
    | .quiet after => set (after, heard)
    | .again after => set (after, heard)
    | .fault after f => do
      set (after, heard)
      throw f
    | .event during e after =>
      match (listen e).run heard with
      | .ok _ heard => set (after, heard)
      | .error f heard => do
        set (during, heard)
        throw f
  match m.step c with
  | .again after => act (after.step c)
  | step => act step

/-- Reads a text up to the first failure: the machine, the listener, how many characters were read
without failure, and the failure. -/
def hearAll (listen : Event → EStateM Fault σ Unit) (m : Machine) (heard : σ) :
    Text → (Machine × σ) × Nat × Option Fault
  | [] => ((m, heard), 0, none)
  | c :: rest =>
    match (hear listen c).run (m, heard) with
    | .ok _ (m, heard) =>
      let (last, n, f) := hearAll listen m heard rest
      (last, n + 1, f)
    | .error f last => (last, 0, some f)

end Machine

end InlineMarkup.Markup

import InlineMarkup.Element.Vocabulary
import InlineMarkup.Markup.Machine
import InlineMarkup.Text.Escape
import InlineMarkup.Token.Layout

/-!
The builder: it reads the tokens of a piece of markup and builds the Python expression that makes
the elements. Newlines of the markup are kept in the expression, so that what follows stays on its
row. An `if` element becomes a conditional expression, together with the `else` element right
after it.
-/
namespace InlineMarkup.Markup

structure OpenTag where
  tag : Text
  row : Int
  attributes : List Attribute
  children : Nat := 0
  /-- Where the output opens the fragment that holds the children of an `if` or `else`. -/
  opening : Option Nat := none
  deriving DecidableEq, Repr

/-- The state of the builder. -/
structure Builder where
  machine : Machine := {}
  start : Pos
  stop : Pos
  /-- The function that turns code among the text of a value into text. -/
  textFunction : Text
  output : Array Text := #[]
  openTags : List OpenTag := []
  remainder : Option Token := none
  beforeCode : Bool := false
  afterCode : Bool := false
  afterIf : Bool := false
  deriving Repr

abbrev Build := EStateM Fault Builder

namespace Builder

def begin (start : Pos) (textFunction : Text) : Builder := { start, stop := start, textFunction }

/-! ### Names and white space -/

def argumentName (name : Text) : Text :=
  if name = "class".toList then "xclass".toList
  else if name = "for".toList then "xfor".toList
  else Text.replaceChar ':' "COLON".toList (Text.replaceChar '-' ['_'] name)

/-- Line ends in data become spaces, and those at its ends go, except for one space between code and text. -/
def normalize (data : Text) (afterCode beforeCode : Bool) : Text :=
  if data.isEmpty then []
  else if data.contains '\n' && (Text.strip data).isEmpty then
    if afterCode && beforeCode then [' '] else []
  else
    let data :=
      if afterCode && data.head? == some '\n' then ' ' :: Text.trimLeft (· == '\n') data else data
    let data :=
      if beforeCode && data.getLast? == some '\n' then Text.trimRight (· == '\n') data ++ [' ']
      else data
    (Text.trim (· == '\n') data).map fun c => if c = '\r' ∨ c = '\n' then ' ' else c

/-- The name of the class that makes an element, and whether it is one of hypertext. -/
def className (tag : Text) : Text × Bool :=
  let tail := (tag.reverse.takeWhile (· != '.')).reverse
  let front := tag.take (tag.length - tail.length)
  (front ++ ['x', '_'] ++ tail, front.isEmpty && Element.Vocabulary.htmlTags.contains tail)

/-- Code is a generator without parentheses of its own. -/
def isBareGenerator (tokens : List Token) : Bool :=
  let rec go : Int → List Token → Bool
    | _, [] => false
    | nesting, t :: rest =>
      let nesting := if Text.occurs t.text ['(', '\x7b', '['] then nesting + 1 else nesting
      let nesting := if Text.occurs t.text [')', '\x7d', ']'] then nesting - 1 else nesting
      (t.text == "for".toList && nesting == 0) || go nesting rest
  go 0 tokens

/-! ### Output -/

def push (piece : Text) : Build Unit := modify fun b => { b with output := b.output.push piece }

def replacePiece (i : Nat) (piece : Text) : Build Unit :=
  modify fun b => { b with output := b.output.setIfInBounds i piece }

def layOut (tokens : List Token) : Build Text :=
  match Layout.plain tokens with
  | .ok s => pure s
  | .error f => throw f

/-- The last of the first `n` pieces that is neither blank nor a comment, and its length without blanks
at its end. -/
def lastComma (output : Array Text) : Nat → Except Fault (Nat × Nat)
  | 0 => .error .noComma
  | i + 1 =>
    let stripped := Text.trimRight isBlank (output.getD i [])
    match stripped with
    | [] => lastComma output i
    | c :: _ =>
      if c = '#' then lastComma output i
      else if stripped.getLast? = some ',' then .ok (i, stripped.length)
      else .error (.noCommaAt output.toList stripped i)

def deleteLastComma : Build Unit := do
  let output := (← get).output
  match lastComma output output.size with
  | .error f => throw f
  | .ok (i, n) =>
    let piece := output.getD i []
    replacePiece i (piece.take (n - 1) ++ piece.drop n)

/-- An `if` without an `else` gets one. To be called before anything but an `else` begins. -/
def closeIf : Build Unit := do
  if (← get).afterIf then
    deleteLastComma
    push " else None, ".toList
    modify fun b => { b with afterIf := false }

def countChild : Build Unit :=
  modify fun b =>
    match b.openTags with
    | t :: rest => { b with openTags := { t with children := t.children + 1 } :: rest }
    | [] => b

def forgetLast : Build Unit := modify fun b => { b with afterCode := false, afterIf := false }

/-! ### Values -/

/-- The parts of a value with the white space of its texts normalised; empty texts go. -/
def normalizeParts (afterCode : Bool) : List Part → List Part
  | [] => []
  | .code tokens :: rest => .code tokens :: normalizeParts true rest
  | .text s :: rest =>
    let beforeCode := match rest with
      | .code _ :: _ => true
      | _ => false
    let s := normalize s afterCode beforeCode
    if s.isEmpty then normalizeParts false rest else .text s :: normalizeParts false rest

def writePart (part : Part) : Build Unit := do
  match part with
  | .code tokens =>
    push ((← get).textFunction ++ ['('])
    push (← layOut tokens)
    push [')']
  | .text s => push (Text.quoted s)
  push ", ".toList

def writeParts : List Part → Build Unit
  | [] => pure ()
  | p :: rest => do
    writePart p
    writeParts rest

def writeValue (value : Option (List Part)) : Build Unit :=
  match value with
  | none => throw .valueMissing
  | some parts =>
    match normalizeParts false parts with
    | [.code tokens] => do push (← layOut tokens)
    | [.text s] => push (Text.quoted s)
    | parts => do
      push "u\"\".join((".toList
      writeParts parts
      push "))".toList

def writeAttributes (more : Bool) : List Attribute → Build Unit
  | [] => pure ()
  | a :: rest => do
    if more then push ", ".toList
    match a.name with
    | none => throw .nameMissing
    | some name =>
      push (argumentName name)
      push ['=']
      writeValue a.value
      writeAttributes true rest

/-! ### Events -/

def openFragment : Build Unit := do
  modify fun b =>
    match b.openTags with
    | t :: rest => { b with openTags := { t with opening := some b.output.size } :: rest }
    | [] => b
  push "html.x_frag()(".toList
  forgetLast

def beginElement (tag : Text) (attributes : List Attribute) (call : Bool) : Build Unit := do
  countChild
  modify fun b => { b with openTags := { tag, row := b.stop.row, attributes } :: b.openTags }
  if tag = "if".toList then
    closeIf
    if attributes.length ≠ 1 then throw (.conditionCount (← get).stop)
    if attributes.all (·.name != some "cond".toList) then throw (.conditionMissing (← get).stop)
    openFragment
  else if tag = "else".toList then
    if attributes.length ≠ 0 then throw (.elseAttributes (← get).stop)
    if !(← get).afterIf then throw (.elseAlone (← get).stop)
    deleteLastComma
    push "else ".toList
    openFragment
  else
    closeIf
    let (name, hypertext) := className tag
    if hypertext then push "html.".toList
    push (name ++ ['('])
    writeAttributes false attributes
    push [')']
    if call then push ['(']
    forgetLast

/-- Writes the condition of an `if` after its children, in parentheses if another conditional may
stand in it. -/
def writeCondition (opened : OpenTag) : Build Unit := do
  push " if ".toList
  let start := (← get).output.size
  push ['(']
  match opened.attributes.find? (·.name == some "cond".toList) with
  | none => throw .openingMissing
  | some a => writeValue a.value
  let written := ((← get).output.toList.drop start).flatten
  if Text.occurs "else".toList written then push [')'] else replacePiece start []

def dropFragment (opened : OpenTag) : Build Unit := do
  replacePiece ((← get).output.size - 1) []
  deleteLastComma
  match opened.opening with
  | none => throw .openingMissing
  | some i => replacePiece i []

def endElement (tag : Text) (call : Bool) : Build Unit := do
  closeIf
  if call then push [')']
  match (← get).openTags with
  | [] => throw (.nothingOpen tag)
  | opened :: rest =>
    modify fun b => { b with openTags := rest }
    if opened.tag ≠ tag then throw (.mismatched opened.tag opened.row tag (← get).stop.row)
    let conditional := tag = "if".toList ∨ tag = "else".toList
    if conditional ∧ call ∧ opened.children = 1 then dropFragment opened
    if tag = "if".toList then writeCondition opened
    modify fun b => { b with afterIf := tag = "if".toList }
    if !rest.isEmpty then push [',']
    modify fun b => { b with afterCode := false }

def wholeElement (tag : Text) (attributes : List Attribute) : Build Unit := do
  beginElement tag attributes false
  endElement tag false

def declare (tag argument : String) (content : Text) : Build Unit := do
  wholeElement tag.toList [⟨some argument.toList, some [.text content]⟩]
  forgetLast

def writeData (data : Text) : Build Unit := do
  let b ← get
  let data := normalize data b.afterCode b.beforeCode
  if !data.isEmpty then
    countChild
    closeIf
    let data := Text.replaceChar '"' ['\\', '"'] data
    if data ≠ Text.escape data then push ("html.rawhtml(u\"".toList ++ data ++ "\"), ".toList)
    else push ("u\"".toList ++ data ++ "\", ".toList)
    forgetLast

def handle : Event → Build Unit
  | .data s => writeData s
  | .start (some tag) attributes => beginElement tag attributes true
  | .startEnd (some tag) attributes => wholeElement tag attributes
  | .finish (some tag) => endElement tag true
  | .comment s => declare "html_comment" "comment" (Text.strip s)
  | .doctype s => declare "html_decl" "decl" ("DOCTYPE ".toList ++ s)
  | .cdata s => declare "html_marked_decl" "decl" ("CDATA[".toList ++ s)
  | _ => throw .missingPart

/-! ### Reading -/

def isDone (b : Builder) : Bool :=
  b.openTags.isEmpty && b.machine.state == .data && !b.output.isEmpty

/-- A fault of the reader itself, as opposed to a character out of place, is reported with its
position. -/
def relocate (pos : Pos) : Fault → Fault
  | .repeatedAttribute _ | .closedTwice | .codeMisplaced _ => .malformed pos
  | f => f

def readChar (c : Char) (blame : Pos → Fault → Fault) : Build Unit := do
  match (← get).machine.step c with
  | .quiet machine => modify fun b => { b with machine }
  | .again machine =>
    modify fun b => { b with machine }
    throw .ambiguousValue
  | .fault machine f =>
    modify fun b => { b with machine }
    throw (blame (← get).stop f)
  | .event during e after =>
    modify fun b => { b with machine := during }
    handle e
    modify fun b => { b with machine := after }

def readText : Text → Build Text
  | [] => pure []
  | c :: rest => do
    if (← get).isDone then pure (c :: rest)
    else
      modify fun b => { b with stop := b.stop.step c }
      readChar c relocate
      readText rest

def advanceTo (row : Int) : Build Unit := do
  let b ← get
  if row < b.stop.row then throw .rowWentBack
  if b.stop.row < row then push (Text.copies (row - b.stop.row) '\n')

def read (t : Token) : Build Unit := do
  if t.isOp ['\\'] then return
  if t.kind = .error ∧ t.text = [' '] then return
  let before := (← get).stop
  advanceTo t.start.row
  if t.start.row = before.row ∧ before.col < t.start.col then readChar ' ' fun _ f => f
  modify fun b => { b with stop := t.start }
  let rest ← if t.kind = .indent then pure t.text else readText t.text
  let b ← get
  if b.isDone then
    modify fun b => { b with remainder := some { t with text := rest, start := b.stop } }
  else
    modify fun b => { b with stop := t.stop }

def passOver (t : Token) : Build Unit := do
  read { t with text := [], stop := t.start }
  modify fun b => { b with stop := t.stop }

def readComment (t : Token) : Build Unit := do
  read { t with text := [], stop := t.start }
  push t.text
  modify fun b => { b with stop := t.stop }

def readCode (tokens : List Token) : Build Unit := do
  closeIf
  match tokens.head?, tokens.getLast? with
  | some first, some last =>
    advanceTo first.start.row
    modify fun b => { b with stop := last.stop }
    let m := (← get).machine
    if m.state = .data ∨ m.state = .cdataSection then
      modify fun b => { b with beforeCode := true }
      writeData m.data
      modify fun b => { b with machine := { b.machine with data := [] } }
      let code ← layOut tokens
      push (if isBareGenerator tokens then ['('] ++ code ++ "), ".toList else code ++ ", ".toList)
      modify fun b => { b with beforeCode := false, afterCode := true }
      countChild
    else if m.state = .beforeAttributeValue ∨ m.inValue then
      match m.readCode tokens with
      | .ok machine => modify fun b => { b with machine }
      | .error f => throw f
    else countChild
  | _, _ => throw .noTokens

def commentAllowed (b : Builder) : Bool :=
  match b.machine.state with
  | .data | .tagName | .beforeAttributeName | .afterAttributeName | .beforeAttributeValue
  | .afterAttributeValue | .comment | .doctypeContents | .cdataSection => true
  | _ => false

def codeAllowed (b : Builder) : Bool := b.machine.state != .comment

def token (b : Builder) : Token :=
  { kind := .string, text := b.output.toList.flatten, start := b.start, stop := b.stop, line := [] }

end Builder

end InlineMarkup.Markup

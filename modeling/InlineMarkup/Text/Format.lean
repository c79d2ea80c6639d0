import InlineMarkup.Extent
import InlineMarkup.Text.Format.Part
import InlineMarkup.Text.Integer

/-!
Format texts: a text in which braces stand for arguments, numbered from left to right or by
themselves. A doubled brace stands for one brace. A field may ask for a part of its argument, for it
in quotes, and for padding.
-/
namespace InlineMarkup.Format

/-! ### Fields -/

/-- A field: the argument it asks for, the conversion and the specification. -/
structure Field where
  name : Text
  conversion : Option Char := none
  spec : Text := []
  deriving DecidableEq, Repr

/-- The name of a field, what ended it, and what follows. Brackets hide what is in them. -/
def fieldName : Bool → Text → Except Fault (Text × Char × Text)
  | _, [] => .error .badFormat
  | true, c :: rest => (fieldName (c != ']') rest).map fun (n, e, r) => (c :: n, e, r)
  | false, c :: rest =>
    if c = '\x7b' then .error .badFormat
    else if c = '\x7d' ∨ c = ':' ∨ c = '!' then .ok ([], c, rest)
    else (fieldName (c == '[') rest).map fun (n, e, r) => (c :: n, e, r)

/-- The specification of a field, up to the brace that closes the field, and what follows. -/
def fieldSpec : Nat → Text → Except Fault (Text × Text)
  | _, [] => .error .badFormat
  | depth, c :: rest =>
    if c = '\x7d' then
      match depth with
      | 0 => .ok ([], rest)
      | depth + 1 => (fieldSpec depth rest).map fun (s, r) => (c :: s, r)
    else
      (fieldSpec (if c = '\x7b' then depth + 1 else depth) rest).map fun (s, r) => (c :: s, r)

def readField (s : Text) : Except Fault (Field × Text) := do
  match ← fieldName false s with
  | (name, '\x7d', rest) => pure ({ name }, rest)
  | (name, ':', rest) =>
    let (spec, rest) ← fieldSpec 0 rest
    pure ({ name, spec }, rest)
  | (name, _, c :: '\x7d' :: rest) => pure ({ name, conversion := some c }, rest)
  | (name, _, c :: ':' :: rest) =>
    let (spec, rest) ← fieldSpec 0 rest
    pure ({ name, conversion := some c, spec }, rest)
  | _ => throw .badFormat

/-! ### Arguments -/

/-- Whether fields are numbered from left to right, or by themselves. -/
inductive Numbering where
  | undecided
  | counted (next : Nat)
  | given
  deriving DecidableEq, Repr

/-- What a name in a field stands for: a number, or a name proper. -/
inductive Index where
  | number (n : Nat)
  | tooLarge
  | name
  deriving DecidableEq, Repr

def Index.readFrom (n : Nat) : Text → Index
  | [] => .number n
  | c :: rest =>
    match decimalValue? c with
    | none => .name
    | some d =>
      if Extent.countLimit ≤ 10 * n + d then .tooLarge else Index.readFrom (10 * n + d) rest

def Index.read (s : Text) : Index := if s.isEmpty then .name else Index.readFrom 0 s

def argument (args : List Text) (i : Nat) : Except Fault Text :=
  match args[i]? with
  | some a => .ok a
  | none => .error .missingArgument

def select (args : List Text) (numbering : Numbering) (front : Text) :
    Except Fault (Text × Numbering) :=
  if front.isEmpty then
    match numbering with
    | .given => .error .badFormat
    | .counted n => (argument args n).map (·, .counted (n + 1))
    | .undecided => (argument args 0).map (·, .counted 1)
  else match Index.read front with
    | .name => .error .namedArgument
    | .tooLarge => .error .badFormat
    | .number i =>
      match numbering with
      | .counted _ => .error .badFormat
      | _ => (argument args i).map (·, .given)

def items? : Part → Option (List Part)
  | .text s => some (s.map fun c => .text [c])
  | .sorts names => some (names.map .sort)
  | _ => none

def item (p : Part) (name : Text) : Except Fault Part :=
  if name.isEmpty then .error .badFormat
  else match Index.read name, items? p with
    | .tooLarge, _ => .error .badFormat
    | .number i, some found =>
      match found[i]? with
      | some q => .ok q
      | none => .error .missingArgument
    | _, _ => .error .badItem

def part : Nat → Part → Text → Except Fault Part
  | _, p, [] => .ok p
  | 0, _, _ => .error .badFormat
  | fuel + 1, p, c :: rest =>
    if c = '.' then
      let name := rest.takeWhile fun d => d != '.' && d != '['
      if name.isEmpty then .error .badFormat
      else match p.attribute? name with
        | some q => part fuel q (rest.drop name.length)
        | none => .error .noSuchPart
    else if c = '[' then
      let name := rest.takeWhile (· != ']')
      match rest.drop name.length with
      | [] => .error .badFormat
      | _ :: rest =>
        match item p name with
        | .ok q => part fuel q rest
        | .error f => .error f
    else .error .badFormat

/-! ### Padding -/

def isAlignment (c : Char) : Bool := c == '<' || c == '>' || c == '=' || c == '^'

def leadingNumber (s : Text) : Except Fault (Option Nat × Text) :=
  let digits := s.takeWhile isDecimalDigit
  match Index.read digits with
  | .number n => .ok (some n, s.drop digits.length)
  | .name => .ok (none, s)
  | .tooLarge => .error .badFormat

def alignment : Text → Char × Char × Bool × Text
  | fill :: a :: rest =>
    if isAlignment a then (fill, a, true, rest)
    else if isAlignment fill then (' ', fill, false, a :: rest)
    else (' ', '<', false, fill :: a :: rest)
  | [a] => if isAlignment a then (' ', a, false, []) else (' ', '<', false, [a])
  | [] => (' ', '<', false, [])

def leadingPrecision (s : Text) : Except Fault (Option Nat × Text) :=
  match leadingNumber s with
  | .ok (none, _) => .error .badFormat
  | r => r

def pad (fill align : Char) (width : Nat) (s : Text) : Except Fault Text :=
  let missing := width - s.length
  let before := if align = '>' then missing else if align = '^' then missing / 2 else 0
  (Extent.check Extent.runLimit missing).map fun _ =>
    List.replicate before fill ++ s ++ List.replicate (missing - before) fill

def applySpec (spec s : Text) : Except Fault Text :=
  if spec.isEmpty then .ok s
  else do
    let (fill, align, given, rest) := alignment spec
    let (fill, rest) := match rest with
      | '0' :: more => if given then (fill, rest) else ('0', more)
      | _ => (fill, rest)
    let (width, rest) ← leadingNumber rest
    let (cut, rest) ← match rest with
      | '.' :: more => leadingPrecision more
      | _ => pure (none, rest)
    if align = '=' ∨ ¬ (rest = [] ∨ rest = ['s']) then throw .badFormat
    pad fill align (width.getD 0) (match cut with
      | some n => s.take n
      | none => s)

def applyTo (spec : Text) : Part → Except Fault Text
  | .text s => applySpec spec s
  | p => if spec.isEmpty then .ok p.shown else .error .notPadded

def convert (conversion : Option Char) (p : Part) : Except Fault Part :=
  match conversion with
  | none => .ok p
  | some c =>
    let quoted (quote : Text → Text) : Part := match p with
      | .text s => .text (quote s)
      | p => .text p.shown
    if c = 's' then .ok (.text p.shown)
    else if c = 'r' then .ok (quoted Text.quoted)
    else if c = 'a' then .ok (quoted Text.quotedAscii)
    else .error .badFormat

/-! ### Filling in -/

def splitName (name : Text) : Text × Text :=
  let front := name.takeWhile fun c => c != '.' && c != '['
  (front, name.drop front.length)

mutual

/-- Fills in a format text. `depth` is how deep specifications may still hold fields. -/
def fill (args : List Text) (depth : Nat) (fuel : Nat) (numbering : Numbering) (s : Text) :
    Except Fault (Text × Numbering) :=
  match fuel with
  | 0 => .error .exhausted
  | fuel + 1 =>
    match s with
    | [] => .ok ([], numbering)
    | '\x7b' :: '\x7b' :: rest => (fill args depth fuel numbering rest).map fun (t, n) => ('\x7b' :: t, n)
    | '\x7d' :: '\x7d' :: rest => (fill args depth fuel numbering rest).map fun (t, n) => ('\x7d' :: t, n)
    | '\x7d' :: _ => .error .badFormat
    | '\x7b' :: rest =>
      match readField rest with
      | .error f => .error f
      | .ok (field, rest) =>
        match fillField args depth fuel numbering field with
        | .error f => .error f
        | .ok (shown, numbering) =>
          (fill args depth fuel numbering rest).map fun (t, n) => (shown ++ t, n)
    | c :: rest => (fill args depth fuel numbering rest).map fun (t, n) => (c :: t, n)

def fillField (args : List Text) (depth : Nat) (fuel : Nat) (numbering : Numbering) (field : Field) :
    Except Fault (Text × Numbering) :=
  match fuel with
  | 0 => .error .exhausted
  | fuel + 1 => do
    let (front, rest) := splitName field.name
    let (chosen, numbering) ← select args numbering front
    let chosen ← part rest.length (.text chosen) rest
    let chosen ← convert field.conversion chosen
    if field.spec.contains '\x7b' then
      match depth with
      | 0 => .error .badFormat
      | depth + 1 =>
        let (spec, numbering) ← fill args depth fuel numbering field.spec
        pure (← applyTo spec chosen, numbering)
    else pure (← applyTo field.spec chosen, numbering)

end

end InlineMarkup.Format

namespace InlineMarkup

def Text.format (s : Text) (args : List Text) : Except Fault Text :=
  (Format.fill args 1 (3 * s.length + 3) .undecided s).map (·.1)

end InlineMarkup

import InlineMarkup.Expression.Number
import InlineMarkup.Expression.Template
import InlineMarkup.Text.Identifier

/-!
The pieces of a Python expression: names, numbers, strings and symbols. Inside brackets line ends
are white space; outside them a line end ends the expression.
-/
namespace InlineMarkup.Expression

/-- A piece of an expression. -/
inductive Piece where
  | name (s : Text)
  | number (n : Numeral)
  | text (s : Text)
  | bytes
  | template (codes : List Text)
  | symbol (s : Text)
  deriving DecidableEq, Repr

/-! ### Strings -/

/-- What the letters before a string's quotes make of it. -/
structure Marks where
  raw : Bool := false
  bytes : Bool := false
  template : Bool := false
  deriving DecidableEq, Repr

def marks? (s : Text) : Option Marks :=
  let s := s.map Char.toLower
  if s = [] ∨ s = ['u'] then some {}
  else if s = ['r'] then some { raw := true }
  else if s = ['b'] then some { bytes := true }
  else if s = ['f'] then some { template := true }
  else if s = ['b', 'r'] ∨ s = ['r', 'b'] then some { raw := true, bytes := true }
  else if s = ['f', 'r'] ∨ s = ['r', 'f'] then some { raw := true, template := true }
  else none

/-- The inside of a string up to its closing quote, and how many characters it and the quote take. -/
def shortBody? (mark : Char) : Text → Option (Text × Nat)
  | [] => none
  | '\\' :: c :: rest => (shortBody? mark rest).map fun (s, n) => ('\\' :: c :: s, n + 2)
  | c :: rest =>
    if c = mark then some ([], 1)
    else if c = '\n' then none
    else (shortBody? mark rest).map fun (s, n) => (c :: s, n + 1)

def longBody? (mark : Char) : Text → Option (Text × Nat)
  | [] => none
  | '\\' :: c :: rest => (longBody? mark rest).map fun (s, n) => ('\\' :: c :: s, n + 2)
  | a :: rest =>
    if a = mark ∧ rest.take 2 = [mark, mark] then some ([], 3)
    else (longBody? mark rest).map fun (s, n) => (a :: s, n + 1)

def stringPiece? (marks : Marks) (body : Text) : Option Piece :=
  if marks.template then (codes? marks.raw body).map .template
  else if marks.bytes then
    if body.all (·.toNat < 0x80) && (marks.raw || (decode? true body).isSome) then some .bytes
    else none
  else if marks.raw then some (.text body)
  else (decode? false body).map .text

def string? (s : Text) : Option (Option (Piece × Nat)) :=
  let letters := s.takeWhile isAsciiLetter
  match marks? letters, s.drop letters.length with
  | some marks, q :: rest =>
    if q = '\'' ∨ q = '"' then
      let body := if rest.take 2 = [q, q] then (longBody? q (rest.drop 2)).map fun (b, n) => (b, n + 3)
        else (shortBody? q rest).map fun (b, n) => (b, n + 1)
      some (body.bind fun (b, n) => (stringPiece? marks b).map (·, letters.length + n))
    else none
  | _, _ => none

/-! ### Names and symbols -/

def isNameLike (c : Char) : Bool :=
  isAsciiLetter c || isAsciiDigit c || c == '_' || decide (0x80 ≤ c.toNat)

def symbols : List Text :=
  ["...", "**", "//", "<<", ">>", "<=", ">=", "==", "!=", "->", ":="].map String.toList

def symbolChars : Text := "+-*/%@&|^~<>()[]\x7b\x7d,:.=;".toList

def symbol? (s : Text) : Option Text :=
  match symbols.find? (·.isPrefixOf s) with
  | some t => some t
  | none => s.head?.bind fun c => if symbolChars.contains c then some [c] else none

/-- The piece at the front of a text that does not begin with white space, and how many characters
it takes. -/
def piece? (s : Text) : Option (Piece × Nat) :=
  match string? s with
  | some found => found
  | none =>
    if beginsNumber s then (number? s).map fun (n, size) => (.number n, size)
    else
      match s.takeWhile isNameLike with
      | [] => (symbol? s).map fun t => (.symbol t, t.length)
      | name => if isIdentifier name then some (.name name, name.length) else none

/-! ### Lines -/

/-- What the pieces of a text come to: the pieces before the first line end outside brackets, and
what follows it. -/
structure Pieces where
  pieces : List Piece := []
  rest : Text := []
  deriving Repr

def depthAfter (depth : Nat) : Piece → Nat
  | .symbol [c] =>
    if c = '(' ∨ c = '[' ∨ c = '\x7b' then depth + 1
    else if c = ')' ∨ c = ']' ∨ c = '\x7d' then depth - 1 else depth
  | _ => depth

def piecesFrom : (depth skip : Nat) → Text → Option Pieces
  | _, _, [] => some {}
  | depth, skip + 1, _ :: rest => piecesFrom depth skip rest
  | depth, 0, c :: rest =>
    if c = ' ' ∨ c = '\t' ∨ c = '\x0c' then piecesFrom depth 0 rest
    else if c = '\n' then
      if depth > 0 then piecesFrom depth 0 rest else some { rest }
    else if c = '#' then piecesFrom depth (rest.takeWhile (· != '\n')).length rest
    else if c = '\\' then
      match rest with
      | '\n' :: _ :: _ => piecesFrom depth 1 rest
      | _ => none
    else match piece? (c :: rest) with
      | none => none
      | some (p, size) =>
        let inside := depthAfter depth p
        if bracketLimit < inside then none
        else (piecesFrom inside (size - 1) rest).map fun found =>
          { found with pieces := p :: found.pieces }

def pieces? (s : Text) : Option Pieces := piecesFrom 0 0 s

inductive Line where
  | ended
  | broken
  | indented
  | begun (s : Text)
  deriving DecidableEq, Repr

/-- The column that counts: the one at which a joined line was broken first, unless it is zero. -/
def columnOf (col broken : Nat) : Nat := if broken = 0 then col else broken

def lineFrom (inComment : Bool) (col broken : Nat) : (skip : Nat) → Text → Line
  | _, [] => if inComment || columnOf col broken == 0 then .ended else .indented
  | skip + 1, _ :: rest => lineFrom inComment col broken skip rest
  | 0, c :: rest =>
    if c = '\n' then lineFrom false 0 0 0 rest
    else if inComment ∨ c = '#' then lineFrom true 0 0 0 rest
    else if c = ' ' then lineFrom false (col + 1) broken 0 rest
    else if c = '\t' then lineFrom false ((col / 8 + 1) * 8) broken 0 rest
    else if c = '\x0c' then lineFrom false 0 broken 0 rest
    else if c = '\\' then
      match rest with
      | '\n' :: _ :: _ => lineFrom false col (columnOf col broken) 1 rest
      | _ => .broken
    else if columnOf col broken = 0 then .begun (c :: rest) else .indented

def line (s : Text) : Line := lineFrom false 0 0 0 s

end InlineMarkup.Expression

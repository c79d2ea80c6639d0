import InlineMarkup.Token.Basic
import InlineMarkup.Token.Lexeme

/-!
Scanning: lines of Python source into tokens, one line at a time. Nothing is refused. What is no
token is handed on as error tokens, a string that never ends as one of them, and a source that
stops inside brackets just stops.
-/
namespace InlineMarkup

open Lexeme

/-- A string that has begun and not yet ended: what was read of it, where it began, the lines it
stands on, and how it ends. -/
structure OpenString where
  text : Text
  start : Pos
  line : Text
  closer : Closer
  deriving DecidableEq, Repr

structure Scan where
  row : Nat := 0
  depth : Int := 0
  joined : Bool := false
  indents : List Nat := []
  pending : Option OpenString := none
  /-- A line of an open string that neither ends it nor is joined to the next spoils it. -/
  strict : Bool := false
  deriving Repr

namespace Scan

/-! ### Within a line -/

/-- What reading one lexeme comes to: a token and the state after it, or a string left open to the
end of the line. -/
inductive Reading where
  | token (t : Token) (size : Nat) (after : Scan)
  | suspended (after : Scan)

def depthAfter (depth : Int) : Text → Int
  | c :: _ =>
    if c == '(' || c == '[' || c == '\x7b' then depth + 1
    else if c == ')' || c == ']' || c == '\x7d' then depth - 1
    else depth
  | [] => depth

/-- A number beginning with an ASCII digit or a point is a number; one that begins with another
script's digit counts as an operator. -/
def numberKind : Text → Kind
  | c :: _ => if isAsciiDigit c || c == '.' then .number else .op
  | [] => .op

/-- Reads the lexeme of `size` characters at the front of `body`, which starts in column `col`. -/
def read (scan : Scan) (line : Text) (col : Nat) (body : Text) (front : Front) (size : Nat) :
    Reading :=
  let token (kind : Kind) (size : Nat) : Token :=
    { kind, text := body.take size, start := ⟨scan.row, col⟩, stop := ⟨scan.row, (col + size : Nat)⟩,
      line }
  let left (closer : Closer) : OpenString :=
    { text := body, start := ⟨scan.row, col⟩, line, closer }
  match front with
  | .joined => .token { token .op size with text := ['\\'] } size { scan with joined := true }
  | .comment => .token (token .comment size) size scan
  | .opening closer =>
    match tail? closer (body.drop size) with
    | some n => .token (token .string (size + n)) (size + n) scan
    | none => .suspended { scan with pending := some (left closer) }
  | .number => .token (token (numberKind body) size) size scan
  | .lineEnd => .token (token (if 0 < scan.depth then .nl else .newline) size) size scan
  | .symbol => .token (token .op size) size { scan with depth := depthAfter scan.depth body }
  | .string => .token (token .string size) size scan
  | .openString closer => .suspended { scan with pending := some (left closer), strict := true }
  | .name => .token (token .name size) size scan

/-- The tokens of a line from column `col` on, where the next `skip` characters belong to a token
already read. -/
def readFrom (line : Text) : Scan → Nat → Nat → Text → List Token × Scan
  | scan, _, _, [] => ([], scan)
  | scan, col, skip + 1, _ :: rest => readFrom line scan (col + 1) skip rest
  | scan, col, 0, c :: rest =>
    let spacing := run isSpacing (c :: rest)
    let body := (c :: rest).drop spacing
    if body.isEmpty then ([], scan)
    else match front? body with
      | none =>
        let t : Token :=
          { kind := .error, text := [c], start := ⟨scan.row, col⟩,
            stop := ⟨scan.row, (col + 1 : Nat)⟩, line }
        let (more, after) := readFrom line scan (col + 1) 0 rest
        (t :: more, after)
      | some (front, size) =>
        match scan.read line (col + spacing) body front size with
        | .suspended after => ([], after)
        | .token t size after =>
          let (more, after) := readFrom line after (col + 1) (spacing + size - 1) rest
          (t :: more, after)

/-! ### Line by line -/

/-- The column reached by leading spacing: tabs go to the next multiple of eight, and a form feed
goes back to the margin. -/
def columnOf (spacing : Text) : Nat :=
  spacing.foldl (fun col c => if c == ' ' then col + 1 else if c == '\t' then (col / 8 + 1) * 8 else 0) 0

def finish (scan : Scan) : List Token :=
  let here : Pos := ⟨scan.row, 0⟩
  scan.indents.map (fun _ => { kind := .dedent, text := [], start := here, stop := here, line := [] })
    ++ [{ kind := .endMarker, text := [], start := here, stop := here, line := [] }]

def statementLine (scan : Scan) (line : Text) : List Token × Option Scan :=
  let width := run isSpacing line
  let span (kind : Kind) (a b : Nat) : Token :=
    { kind, text := (line.take b).drop a, start := ⟨scan.row, a⟩, stop := ⟨scan.row, b⟩, line }
  match line.drop width with
  | [] => (scan.finish, none)
  | c :: rest =>
    if c = '#' then
      let size := (Text.trimRight (fun d => d == '\r' || d == '\n') (c :: rest)).length
      ([span .comment width (width + size), span .nl (width + size) line.length], some scan)
    else if c = '\r' ∨ c = '\n' then ([span .nl width line.length], some scan)
    else
      let column := columnOf (line.take width)
      let deeper := scan.indents.headD 0 < column
      let closed := scan.indents.takeWhile (column < ·)
      let indents := if deeper then column :: scan.indents else scan.indents.drop closed.length
      let layout :=
        (if deeper then [span .indent 0 width] else []) ++ closed.map fun _ => span .dedent width width
      let (tokens, after) := readFrom line { scan with indents } width 0 (c :: rest)
      (layout ++ tokens, some after)

def stringLine (scan : Scan) (pending : OpenString) (line : Text) : List Token × Option Scan :=
  let token (kind : Kind) (text : Text) (col : Nat) (line : Text) : Token :=
    { kind, text := pending.text ++ text, start := pending.start, stop := ⟨scan.row, col⟩, line }
  if line.isEmpty then ([token .error [] 0 pending.line], none)
  else match tail? pending.closer line with
    | some n =>
      let (tokens, after) :=
        readFrom line { scan with pending := none, strict := false } 0 n line
      (token .string (line.take n) n (pending.line ++ line) :: tokens, some after)
    | none =>
      let isContinued := ['\\', '\n'].isSuffixOf line || ['\\', '\r', '\n'].isSuffixOf line
      if scan.strict && !isContinued then
        ([token .error line line.length pending.line], some { scan with pending := none })
      else
        let pending := { pending with text := pending.text ++ line, line := pending.line ++ line }
        ([], some { scan with pending := some pending })

/-- The tokens of one line, and the state after it unless scanning is over. -/
def line (scan : Scan) (line : Text) : List Token × Option Scan :=
  let scan := { scan with row := scan.row + 1 }
  match scan.pending with
  | some pending => scan.stringLine pending line
  | none =>
    if scan.depth = 0 ∧ scan.joined = false then
      if line.isEmpty then (scan.finish, none) else scan.statementLine line
    else if line.isEmpty then ([], none)
    else
      let (tokens, after) := readFrom line { scan with joined := false } 0 0 line
      (tokens, some after)

def all (scan : Scan) : List Text → List Token
  | [] => (scan.line []).1
  | l :: rest =>
    match scan.line l with
    | (tokens, none) => tokens
    | (tokens, some after) => tokens ++ all after rest

end Scan

def tokenize (lines : List Text) : List Token := ({} : Scan).all lines

end InlineMarkup

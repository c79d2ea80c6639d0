import InlineMarkup.Text.Basic
import InlineMarkup.Text.Numeric

/-!
What can stand at the front of a line's remaining text: names, numbers, operators, strings,
comments and line ends. Every reader gives the length of what it recognises, so that the text it
covers is a `take` and what follows a `drop`.
-/
namespace InlineMarkup.Lexeme

def run (p : Char → Bool) (s : Text) : Nat := (s.takeWhile p).length

def oneOf (p : Char → Bool) : Text → Nat
  | c :: _ => if p c then 1 else 0
  | [] => 0

def isSpacing (c : Char) : Bool := c == ' ' || c == '\t' || c == '\x0c'

/-! ### Names -/

def isNameStart (c : Char) : Bool := isAsciiLetter c || c == '_'

def name? : Text → Option Nat
  | c :: rest => if isNameStart c then some (1 + run isWordChar rest) else none
  | [] => none

/-! ### Numbers -/

def isHexDigit (c : Char) : Bool :=
  isDecimalDigit c || (decide ('a' ≤ c) && decide (c ≤ 'f')) || (decide ('A' ≤ c) && decide (c ≤ 'F'))

def isOctalDigit (c : Char) : Bool := decide ('0' ≤ c) && decide (c ≤ '7')

def isBinaryDigit (c : Char) : Bool := c == '0' || c == '1'

def isLongMark (c : Char) : Bool := c == 'l' || c == 'L'

def isImaginaryMark (c : Char) : Bool := c == 'j' || c == 'J'

def exponent? : Text → Option Nat
  | c :: rest =>
    if c == 'e' || c == 'E' then
      let sign := oneOf (fun d => d == '+' || d == '-') rest
      let digits := run isDecimalDigit (rest.drop sign)
      if digits = 0 then none else some (1 + sign + digits)
    else none
  | [] => none

def pointFloat? (s : Text) : Option Nat :=
  let whole := run isDecimalDigit s
  match s.drop whole with
  | '.' :: rest =>
    let fraction := run isDecimalDigit rest
    if whole = 0 ∧ fraction = 0 then none
    else
      let size := whole + 1 + fraction
      some (size + (exponent? (s.drop size)).getD 0)
  | _ => none

def exponentFloat? (s : Text) : Option Nat :=
  let whole := run isDecimalDigit s
  if whole = 0 then none else (exponent? (s.drop whole)).map (whole + ·)

def float? (s : Text) : Option Nat := (pointFloat? s).or (exponentFloat? s)

def imaginary? (s : Text) : Option Nat :=
  let whole := run isDecimalDigit s
  if whole ≠ 0 ∧ oneOf isImaginaryMark (s.drop whole) = 1 then some (whole + 1)
  else match float? s with
    | some size => if oneOf isImaginaryMark (s.drop size) = 1 then some (size + 1) else none
    | none => none

def integer? : Text → Option Nat
  | '0' :: rest =>
    let based := match rest with
      | c :: digits =>
        if c == 'x' || c == 'X' then
          let n := run isHexDigit digits
          if n = 0 then none else some (2 + n + oneOf isLongMark (digits.drop n))
        else if c == 'b' || c == 'B' then
          let n := run isBinaryDigit digits
          if n = 0 then none else some (2 + n + oneOf isLongMark (digits.drop n))
        else if c == 'o' || c == 'O' then
          let n := run isOctalDigit digits
          if n = 0 then none else some (2 + n)
        else none
      | [] => none
    match based with
    | some n => some n
    | none =>
      let n := run isOctalDigit rest
      some (1 + n + oneOf isLongMark (rest.drop n))
  | c :: rest =>
    if isAsciiDigit c then
      let n := run isDecimalDigit rest
      some (1 + n + oneOf isLongMark (rest.drop n))
    else none
  | [] => none

def number? (s : Text) : Option Nat := ((imaginary? s).or (float? s)).or (integer? s)

/-! ### Operators, brackets and line ends -/

def lineEnd? : Text → Option Nat
  | '\n' :: _ => some 1
  | '\r' :: '\n' :: _ => some 2
  | _ => none

def joinedLine? : Text → Option Nat
  | '\\' :: rest => (lineEnd? rest).map (1 + ·)
  | _ => none

def operator? : Text → Option Nat
  | '*' :: '*' :: rest => some (2 + oneOf (· == '=') rest)
  | '>' :: '>' :: rest => some (2 + oneOf (· == '=') rest)
  | '<' :: '<' :: rest => some (2 + oneOf (· == '=') rest)
  | '<' :: '>' :: _ => some 2
  | '!' :: '=' :: _ => some 2
  | '/' :: '/' :: rest => some (2 + oneOf (· == '=') rest)
  | '~' :: _ => some 1
  | c :: rest =>
    if "+-*/%&|^=<>".toList.contains c then some (1 + oneOf (· == '=') rest) else none
  | [] => none

def punctuation? : Text → Option Nat
  | c :: _ => if "[]()\x7b\x7d:;.,`@".toList.contains c then some 1 else none
  | [] => none

/-! ### Comments -/

def comment? : Text → Option Nat
  | '#' :: rest => some (1 + run (fun c => c != '\r' && c != '\n') rest)
  | _ => none

/-! ### Strings -/

/-- How a string ends: with one quote, or with three. -/
structure Closer where
  mark : Char
  triple : Bool
  deriving DecidableEq, Repr

def isQuote (c : Char) : Bool := c == '\'' || c == '"'

def stringMarks (s : Text) : Nat :=
  let kind := oneOf (fun c => "uUbB".toList.contains c) s
  kind + oneOf (fun c => c == 'r' || c == 'R') (s.drop kind)

def tripleOpening? (s : Text) : Option (Nat × Closer) :=
  let marks := stringMarks s
  match s.drop marks with
  | a :: b :: c :: _ =>
    if isQuote a && a == b && b == c then some (marks + 3, ⟨a, true⟩) else none
  | _ => none

/-- The rest of a one-line string, up to its quote or to a backslash that joins the next line. -/
def shortTail? (mark : Char) : Text → Option (Nat × Bool)
  | '\\' :: '\n' :: _ => some (2, true)
  | '\\' :: '\r' :: '\n' :: _ => some (3, true)
  | '\\' :: _ :: rest => (shortTail? mark rest).map fun (n, more) => (n + 2, more)
  | c :: rest =>
    if c = mark then some (1, false)
    else if c = '\n' ∨ c = '\\' then none
    else (shortTail? mark rest).map fun (n, more) => (n + 1, more)
  | [] => none

def shortString? (s : Text) : Option (Nat × Closer × Bool) :=
  let marks := stringMarks s
  match s.drop marks with
  | q :: rest =>
    if isQuote q then
      (shortTail? q rest).map fun (n, more) => (marks + 1 + n, ⟨q, false⟩, more)
    else none
  | [] => none

/-- The rest of a string that began on an earlier line, or in three quotes: up to and with the closing
quotes. -/
def tail? (closer : Closer) : Text → Option Nat
  | '\\' :: c :: rest => if c = '\n' then none else (tail? closer rest).map (2 + ·)
  | c :: rest =>
    if c = '\\' then none
    else if c = closer.mark then
      if closer.triple then
        match rest with
        | a :: b :: _ =>
          if a = closer.mark ∧ b = closer.mark then some 3 else (tail? closer rest).map (1 + ·)
        | _ => (tail? closer rest).map (1 + ·)
      else some 1
    else (tail? closer rest).map (1 + ·)
  | [] => none

/-! ### The front of a line -/

/-- What stands at the front of a text. -/
inductive Front where
  | joined
  | comment
  | opening (closer : Closer)
  | number
  | lineEnd
  | symbol
  | string
  | openString (closer : Closer)
  | name
  deriving DecidableEq, Repr

def front? (s : Text) : Option (Front × Nat) :=
  match joinedLine? s with
  | some n => some (.joined, n)
  | none =>
  match comment? s with
  | some n => some (.comment, n)
  | none =>
  match tripleOpening? s with
  | some (n, closer) => some (.opening closer, n)
  | none =>
  match number? s with
  | some n => some (.number, n)
  | none =>
  match operator? s with
  | some n => some (.symbol, n)
  | none =>
  match lineEnd? s with
  | some n => some (.lineEnd, n)
  | none =>
  match punctuation? s with
  | some n => some (.symbol, n)
  | none =>
  match shortString? s with
  | some (n, closer, more) => some (if more then .openString closer else .string, n)
  | none => (name? s).map fun n => (.name, n)

end InlineMarkup.Lexeme

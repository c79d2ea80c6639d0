import InlineMarkup.Expression.Escape
import InlineMarkup.Text.Integer

/-!
Numbers in expressions: integers with or without a base, decimal fractions and imaginary numbers,
with single underscores between digits.
-/
namespace InlineMarkup.Expression

/-- A number. Of fractions and imaginary numbers only the sort is kept. -/
inductive Numeral where
  | integer (n : Nat)
  | fraction
  | imaginary
  deriving DecidableEq, Repr, Inhabited

def digitRun (p : Char → Bool) : Text → Nat
  | [] => 0
  | [c] => if p c then 1 else 0
  | c :: d :: rest =>
    if p c then
      if d = '_' then
        match rest with
        | e :: _ => if p e then 2 + digitRun p rest else 1
        | [] => 1
      else 1 + digitRun p (d :: rest)
    else 0

def valueIn (base : Nat) (digits : Text) : Nat :=
  (digits.filterMap hexValue?).foldl (fun n d => base * n + d) 0

/-! ### Integers with a base -/

def base? (c : Char) : Option Nat :=
  if c = 'x' ∨ c = 'X' then some 16
  else if c = 'o' ∨ c = 'O' then some 8
  else if c = 'b' ∨ c = 'B' then some 2
  else none

def isDigitIn (base : Nat) (c : Char) : Bool := (hexValue? c).any fun d => decide (d < base)

def leadingBase? : Text → Option Nat
  | '0' :: b :: _ => base? b
  | _ => none

def based? (base : Nat) (s : Text) : Option (Numeral × Nat) :=
  let lead := if (s.drop 2).head? = some '_' then 3 else 2
  let n := digitRun (isDigitIn base) (s.drop lead)
  if n = 0 then none else some (.integer (valueIn base ((s.drop lead).take n)), lead + n)

/-! ### Decimal numbers -/

def exponentRun (s : Text) : Nat :=
  match s with
  | e :: rest =>
    if e = 'e' ∨ e = 'E' then
      let sign := match rest with
        | c :: _ => if c = '+' ∨ c = '-' then 1 else 0
        | [] => 0
      let digits := digitRun isAsciiDigit (rest.drop sign)
      if digits = 0 then 0 else 1 + sign + digits
    else 0
  | [] => 0

def fractionRun : Text → Nat
  | '.' :: rest => 1 + digitRun isAsciiDigit rest
  | _ => 0

def decimalInteger? (digits rest : Text) : Option Numeral :=
  let plain := digits.filter (· != '_')
  if digits.head? = some '0' ∧ plain.any (· != '0') then
    if rest.head? = some 'e' then some .fraction else none
  else if plain.any (· != '0') ∧ Text.digitLimit < plain.length then none
  else some (.integer (valueIn 10 digits))

def decimal? (s : Text) : Option (Numeral × Nat) :=
  let whole := digitRun isAsciiDigit s
  let point := fractionRun (s.drop whole)
  let exponent := exponentRun (s.drop (whole + point))
  let size := whole + point + exponent
  let rest := s.drop size
  if rest.head? = some 'j' ∨ rest.head? = some 'J' then some (.imaginary, size + 1)
  else if point = 0 ∧ exponent = 0 then (decimalInteger? (s.take whole) rest).map (·, size)
  else some (.fraction, size)

/-! ### What may follow -/

def followers : List Text :=
  ["and", "else", "for", "if", "in", "is", "not", "or"].map String.toList

/-- A number may end before this text: no character of a name follows, or one of the words that
may. -/
def mayFollow (s : Text) : Bool :=
  match s with
  | [] => true
  | c :: _ =>
    !(isAsciiLetter c || isAsciiDigit c || c == '_' || decide (0x80 ≤ c.toNat)) ||
      followers.any (·.isPrefixOf s)

def beginsNumber : Text → Bool
  | '.' :: c :: _ => isAsciiDigit c
  | c :: _ => isAsciiDigit c
  | [] => false

def number? (s : Text) : Option (Numeral × Nat) :=
  let found := match leadingBase? s with
    | some base => based? base s
    | none => decimal? s
  found.filter fun (_, size) => mayFollow (s.drop size)

end InlineMarkup.Expression

import InlineMarkup.Number.Double
import InlineMarkup.Text.Integer

/-!
Floating-point numbers in decimal: the fewest digits that read back as the number, and reading
decimal text.
-/
namespace InlineMarkup

/-- Decimal digits as one number, with the place of the point: how many digits stand before it. -/
structure Decimal where
  digits : Nat
  point : Int
  deriving DecidableEq, Repr

namespace Double

/-! ### The fewest digits -/

def timesTen (num den : Nat) (power : Int) : Nat × Nat :=
  if 0 ≤ power then (num * Nat.pow 10 power.toNat, den) else (num, den * Nat.pow 10 (-power).toNat)

/-- How many digits a positive ratio has before the point; not positive for a ratio below 1. -/
def pointOf (num den : Nat) : Int :=
  let k : Int := ((Text.ofNat num).length : Int) - (Text.ofNat den).length
  let (n, d) := timesTen num den (-k)
  if n < d then k else k + 1

def readsBack (x : Double) (negative : Bool) (digits : Nat) (power : Int) : Bool :=
  let (n, d) := timesTen digits 1 power
  decide (ofRatio negative n d = x)

/-- The decimal with a given number of digits that reads back as the number, if there is one; the
nearer if there are two. -/
def withDigits? (x : Double) (negative : Bool) (num den : Nat) (point : Int) (count : Nat) :
    Option Decimal :=
  let power : Int := point - count
  let (n, d) := timesTen num den (-power)
  let q := n / d
  let nearest := roundDiv n d
  let other := if nearest = q then q + 1 else q
  if readsBack x negative nearest power then some ⟨nearest, point⟩
  else if readsBack x negative other power then some ⟨other, point⟩
  else none

def shortestFrom (x : Double) (negative : Bool) (num den : Nat) (point : Int) :
    Nat → Nat → Decimal
  | 0, _ => ⟨0, point⟩
  | fuel + 1, count =>
    match withDigits? x negative num den point count with
    | some d => if d.digits = Nat.pow 10 count then ⟨1, point + 1⟩ else d
    | none => shortestFrom x negative num den point fuel (count + 1)

def shortest (negative : Bool) (mantissa : Nat) (exponent : Int) : Decimal :=
  let (num, den) := ratio mantissa exponent
  shortestFrom (finite negative mantissa exponent) negative num den (pointOf num den) 17 1

/-! ### Writing -/

/-- Digits with the point in its place: positional where the point is among the first sixteen
digits or at most three zeros before them, and with an exponent of at least two digits
elsewhere. -/
def layOut (d : Decimal) : Text :=
  let digits := Text.ofNat d.digits
  let count : Int := digits.length
  if d.point ≤ -4 ∨ 16 < d.point then
    let e := d.point - 1
    let tail := digits.drop 1
    let exponent := Text.ofNat e.natAbs
    digits.take 1 ++ (if tail.isEmpty then [] else '.' :: tail) ++
      ['e', if e < 0 then '-' else '+'] ++ Text.copies (2 - exponent.length) '0' ++ exponent
  else if d.point ≤ 0 then ['0', '.'] ++ Text.copies (-d.point) '0' ++ digits
  else if count ≤ d.point then digits ++ Text.copies (d.point - count) '0' ++ ['.', '0']
  else digits.take d.point.toNat ++ ['.'] ++ digits.drop d.point.toNat

def text : Double → Text
  | nan => "nan".toList
  | infinite negative => (if negative then ['-'] else []) ++ "inf".toList
  | finite negative m e =>
    (if negative then ['-'] else []) ++
      if m = 0 then "0.0".toList else layOut (shortest negative m e)

/-! ### Reading -/

/-- A text with its digits in ASCII and without the underscores between digits; none if an
underscore stands elsewhere. -/
def plainDigits? : Bool → Text → Option Text
  | _, [] => some []
  | afterDigit, c :: rest =>
    if c = '_' then
      match afterDigit, rest with
      | true, d :: _ => if isDecimalDigit d then plainDigits? false rest else none
      | _, _ => none
    else match decimalValue? c with
      | some n => (plainDigits? true rest).map (Nat.digitChar n :: ·)
      | none => (plainDigits? false rest).map (c :: ·)

def ofDigits (negative : Bool) (digits : Nat) (power : Int) : Double :=
  let size : Int := (Text.ofNat digits).length + power
  if digits = 0 ∨ size < -400 then zero negative
  else if 400 < size then infinite negative
  else
    let (n, d) := timesTen digits 1 power
    ofRatio negative n d

def digitsValue (s : Text) : Nat := Text.valueOfDigits (s.map fun c => c.toNat - '0'.toNat)

def exponent? : Text → Option Int
  | '-' :: rest => if !rest.isEmpty && rest.all isAsciiDigit then some (-digitsValue rest) else none
  | '+' :: rest => if !rest.isEmpty && rest.all isAsciiDigit then some (digitsValue rest) else none
  | rest => if !rest.isEmpty && rest.all isAsciiDigit then some (digitsValue rest) else none

def unsigned? (negative : Bool) (s : Text) : Option Double :=
  let whole := s.takeWhile isAsciiDigit
  let (fraction, rest) := match s.dropWhile isAsciiDigit with
    | '.' :: rest => (rest.takeWhile isAsciiDigit, rest.dropWhile isAsciiDigit)
    | rest => ([], rest)
  if whole.isEmpty && fraction.isEmpty then none
  else
    let exponent := match rest with
      | [] => some 0
      | c :: rest => if c = 'e' ∨ c = 'E' then exponent? rest else none
    exponent.map fun e => ofDigits negative (digitsValue (whole ++ fraction)) (e - fraction.length)

def named? (negative : Bool) (s : Text) : Option Double :=
  let word := s.map Char.toLower
  if word = "nan".toList then some nan
  else if word = "inf".toList ∨ word = "infinity".toList then some (infinite negative)
  else unsigned? negative s

def ofText? (s : Text) : Option Double :=
  match plainDigits? false (Text.trim Text.isNumberSpace s) with
  | some ('-' :: rest) => named? true rest
  | some ('+' :: rest) => named? false rest
  | some s => named? false s
  | none => none

end Double

end InlineMarkup

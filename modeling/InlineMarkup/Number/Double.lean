/-!
Binary floating-point numbers of 64 bits, in exact integer arithmetic: rounding a ratio to the
nearest number, and going to and from integers.
-/
namespace InlineMarkup

/-- A binary floating-point number. -/
inductive Double where
  | nan
  | infinite (negative : Bool)
  | finite (negative : Bool) (mantissa : Nat) (exponent : Int)
  deriving DecidableEq, Repr, Inhabited

namespace Double

def leastExponent : Int := -1074

def greatestExponent : Int := 971

def mantissaLimit : Nat := Nat.pow 2 53

def zero (negative : Bool) : Double := finite negative 0 leastExponent

/-! ### Rounding -/

def roundDiv (num den : Nat) : Nat :=
  let q := num / den
  let twice := 2 * (num % den)
  if twice < den then q
  else if den < twice then q + 1
  else if q % 2 = 0 then q else q + 1

def scaled (num den : Nat) (exponent : Int) : Nat × Nat :=
  if 0 ≤ exponent then (num, den * Nat.pow 2 exponent.toNat)
  else (num * Nat.pow 2 (-exponent).toNat, den)

def exponentOf (num den : Nat) : Int :=
  let e : Int := (Nat.log2 num : Int) - Nat.log2 den - 53
  let (n, d) := scaled num den e
  max leastExponent (if mantissaLimit ≤ n / d then e + 1 else e)

/-- The number nearest to a ratio; of two that are equally near, the one with the even mantissa. -/
def ofRatio (negative : Bool) (num den : Nat) : Double :=
  if num = 0 then zero negative
  else
    let e := exponentOf num den
    let (n, d) := scaled num den e
    let m := roundDiv n d
    let (m, e) := if m = mantissaLimit then (m / 2, e + 1) else (m, e)
    if greatestExponent < e then infinite negative else finite negative m e

/-! ### Ratios and integers -/

def ratio (mantissa : Nat) (exponent : Int) : Nat × Nat :=
  if 0 ≤ exponent then (mantissa * Nat.pow 2 exponent.toNat, 1)
  else (mantissa, Nat.pow 2 (-exponent).toNat)

def ofInt? (n : Int) : Option Double :=
  match ofRatio (decide (n < 0)) n.natAbs 1 with
  | infinite _ => none
  | x => some x

def truncate? : Double → Option Int
  | finite negative m e =>
    let (num, den) := ratio m e
    some (if negative then -((num / den : Nat) : Int) else ((num / den : Nat) : Int))
  | _ => none

def isZero : Double → Bool
  | finite _ m _ => m == 0
  | _ => false

def isInt (x : Double) (n : Int) : Bool :=
  match x with
  | finite negative m e =>
    let (num, den) := ratio m e
    decide ((if negative then -(num : Int) else (num : Int)) = n * den)
  | _ => false

/-- Two numbers have the same value. The two zeros do, and nothing has that of `nan`. -/
def same : Double → Double → Bool
  | nan, _ => false
  | _, nan => false
  | x, y => (x.isZero && y.isZero) || x == y

end Double

end InlineMarkup

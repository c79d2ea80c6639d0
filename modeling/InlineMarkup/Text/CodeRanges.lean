/-!
Sets of code points given as closed ranges. The character classes of this library that reach
beyond ASCII are tables of such ranges.
-/
namespace InlineMarkup

abbrev CodeRanges := List (Nat × Nat)

def CodeRanges.covers (ranges : CodeRanges) (c : Char) : Bool :=
  ranges.any fun r => decide (r.1 ≤ c.toNat) && decide (c.toNat ≤ r.2)

/-- The ranges of a set whose stretches are given by their lengths: in turn, one outside it and one in it,
from a code point on. -/
def CodeRanges.stretches (start : Nat) : List Nat → CodeRanges
  | outside :: inside :: rest =>
    (start + outside, start + outside + inside - 1) :: stretches (start + outside + inside) rest
  | _ => []

/-! ### Packed numbers -/

def packDigits : List Char :=
  ("!$%&'()*+,./0123456789:;<=>?@ABCDEFGHIJKLMNO" ++
    "PQRSTUVWXYZ[]^_`abcdefghijklmnopqrstuvwxyz|~").toList

/-- Numbers in base 44, the first of which has begun with `n`. The upper half of the digits stands before the last digit
of a number, the lower half for it. -/
def numbersFrom (n : Nat) : List Char → List Nat
  | [] => []
  | c :: rest =>
    let digit := packDigits.idxOf c
    if digit < 44 then (44 * n + digit) :: numbersFrom 0 rest else numbersFrom (44 * n + (digit - 44)) rest

def packedNumbers (s : String) : List Nat := numbersFrom 0 (s.toList.filter (· != '\n'))

end InlineMarkup

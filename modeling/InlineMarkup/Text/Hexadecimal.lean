import InlineMarkup.Text.Basic

/-!
Numbers in hexadecimal.
-/
namespace InlineMarkup

def hexValue? (c : Char) : Option Nat :=
  if '0' ≤ c ∧ c ≤ '9' then some (c.toNat - '0'.toNat)
  else if 'a' ≤ c ∧ c ≤ 'f' then some (c.toNat - 'a'.toNat + 10)
  else if 'A' ≤ c ∧ c ≤ 'F' then some (c.toNat - 'A'.toNat + 10)
  else none

def hexNumber? (digits : Text) : Option Nat :=
  (digits.mapM hexValue?).map (·.foldl (fun n d => 16 * n + d) 0)

end InlineMarkup

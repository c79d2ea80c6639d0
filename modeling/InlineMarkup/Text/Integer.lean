import InlineMarkup.Text.Basic
import InlineMarkup.Text.Numeric

/-!
Reading integers from text: an optional sign and decimal digits of any script, with single
underscores between digits and white space around them.
-/
namespace InlineMarkup.Text

def isNumberSpace (c : Char) : Bool :=
  if c.toNat < 0x80 then (decide (0x9 ≤ c.toNat) && decide (c.toNat ≤ 0xd)) || c == ' '
  else isBlank c

def digitLimit : Nat := 4300

def digitValues? : Bool → Text → Option (List Nat)
  | ready, [] => if ready then some [] else none
  | ready, c :: rest =>
    if c = '_' then if ready then digitValues? false rest else none
    else match decimalValue? c with
      | some d => (digitValues? true rest).map (d :: ·)
      | none => none

def valueOfDigits (digits : List Nat) : Nat := digits.foldl (fun n d => 10 * n + d) 0

def readNat? (s : Text) : Option Nat :=
  match digitValues? false s with
  | some digits => if digits.length ≤ digitLimit then some (valueOfDigits digits) else none
  | none => none

def readInt? (s : Text) : Option Int :=
  match trim isNumberSpace s with
  | '-' :: rest => (readNat? rest).map fun n => -(n : Int)
  | '+' :: rest => (readNat? rest).map fun n => (n : Int)
  | s => (readNat? s).map fun n => (n : Int)

end InlineMarkup.Text

import InlineMarkup.Fault

/-!
How far counting goes. A text can be asked for that has no end in practice: a character repeated as
often as a number in the source says. Such a text is refused before it is made.
-/
namespace InlineMarkup.Extent

def countLimit : Nat := Nat.pow 2 63

def textLimit : Nat := Nat.pow 2 36

def runLimit : Nat := Nat.pow 2 24

/-- Checks that a character can be repeated `n` times, where `limit` times are the most. -/
def check (limit : Nat) (n : Int) : Except Fault Unit :=
  if n < -(countLimit : Int) ∨ (countLimit : Int) ≤ n then .error .tooLarge
  else if (limit : Int) < n then .error .tooLong
  else .ok ()

end InlineMarkup.Extent

import InlineMarkup.Text.Basic

/-!
Positions in a source text. Rows are counted from one and columns from zero, both in characters.
-/
namespace InlineMarkup

/-- A place in a source text. -/
structure Pos where
  row : Int
  col : Int
  deriving DecidableEq, Repr, Inhabited

namespace Pos

def step (p : Pos) (c : Char) : Pos :=
  if c = '\n' then ⟨p.row + 1, 0⟩ else ⟨p.row, p.col + 1⟩

def advance (p : Pos) (s : Text) : Pos := s.foldl step p

@[simp] theorem advance_nil (p : Pos) : p.advance [] = p := rfl

@[simp] theorem advance_cons (p : Pos) (c : Char) (s : Text) :
    p.advance (c :: s) = (p.step c).advance s := rfl

theorem advance_append (p : Pos) (s t : Text) :
    p.advance (s ++ t) = (p.advance s).advance t := List.foldl_append

end Pos

end InlineMarkup

import InlineMarkup.Fault
import InlineMarkup.Token.Basic

/-!
Layout: tokens back into text. Every token is put where it says it starts, with newlines and
spaces to get there. Blanks before a line end are not restored.
-/
namespace InlineMarkup.Layout

def gap (last start : Pos) : Text :=
  Text.copies (start.row - last.row) '\n' ++
    Text.copies (start.col - if start.row = last.row then last.col else 0) ' '

/-- The position from which a token's gap is measured. A line end has none on its own row. -/
def origin (last : Option Pos) (t : Token) : Pos :=
  let last := last.getD t.start
  if t.kind.isLineEnd then { last with col := t.stop.col } else last

theorem origin_row (p : Pos) (t : Token) : (origin (some p) t).row = p.row := by
  unfold origin
  split <;> rfl

def after (t : Token) : Pos :=
  if t.kind.isLineEnd then ⟨t.stop.row + 1, 0⟩ else t.stop

def text (last : Option Pos) : List Token → Except Fault Text
  | [] => .ok []
  | t :: rest =>
    let last := origin last t
    if t.start.row < last.row then .error (.rowsReversed t.start.row last.row)
    else (text (some (after t)) rest).map fun more => gap last t.start ++ t.text ++ more

def plain (tokens : List Token) : Except Fault Text := text none tokens

def stripped (tokens : List Token) : Except Fault Text :=
  (plain tokens).map fun s => Text.trimRight (· == ' ') (Text.trimLeft isBlank s)

def inColumn (tokens : List Token) : Except Fault Text :=
  match tokens with
  | [] => .error .noTokens
  | t :: _ => text (some ⟨t.start.row - 1, 0⟩) tokens

def file (tokens : List Token) : Except Fault Text := text (some ⟨1, 0⟩) tokens

end InlineMarkup.Layout

import InlineMarkup.Extent
import InlineMarkup.Token.Stream

/-!
Tokens that may lie anywhere. The tokens of a source lie close together, and the gaps between them
are as long as what stands there. Tokens from elsewhere may be any distance apart, so that a gap is
checked before it is written.
-/
namespace InlineMarkup

namespace Layout

def checkGap (last start : Pos) : Except Fault Unit := do
  Extent.check Extent.runLimit (start.row - last.row)
  Extent.check Extent.runLimit (start.col - if start.row = last.row then last.col else 0)

/-- Checks the gaps before the tokens, up to the first token that lies above the text before it. -/
def checkGaps (last : Option Pos) : List Token → Except Fault Unit
  | [] => .ok ()
  | t :: rest =>
    let last := origin last t
    if t.start.row < last.row then .ok ()
    else match checkGap last t.start with
      | .error f => .error f
      | .ok _ => checkGaps (some (after t)) rest

inductive Form where
  | plain
  | stripped
  | inColumn
  | file
  | after (last : Pos)
  deriving DecidableEq, Repr

def Form.last? (form : Form) (tokens : List Token) : Option Pos :=
  match form with
  | .plain | .stripped => none
  | .inColumn => tokens.head?.map fun t => ⟨t.start.row - 1, 0⟩
  | .file => some ⟨1, 0⟩
  | .after last => some last

def Form.layOut (form : Form) (tokens : List Token) : Except Fault Text := do
  checkGaps (form.last? tokens) tokens
  match form with
  | .plain => Layout.plain tokens
  | .stripped => Layout.stripped tokens
  | .inColumn => Layout.inColumn tokens
  | .file => Layout.file tokens
  | .after last => Layout.text (some last) tokens

end Layout

def Stream.rewindAnywhere (t : Token) : EStateM Fault Stream Unit := do
  let s ← get
  match Layout.checkGaps none (t :: s.flushed) with
  | .ok _ => rewind t
  | .error fault =>
    set { s.drained with zero := ⟨t.start.row - 1, t.start.col⟩ }
    throw fault

end InlineMarkup

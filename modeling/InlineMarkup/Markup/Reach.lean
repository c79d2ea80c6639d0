import InlineMarkup.Markup.Builder
import InlineMarkup.Token.Reach

/-!
Building an expression from tokens that may lie anywhere: the newlines up to a token are checked
before they are written.
-/
namespace InlineMarkup.Markup

inductive Given where
  | token (t : Token)
  | comment (t : Token)
  | place (t : Token)
  | code (tokens : List Token)
  deriving DecidableEq, Repr

namespace Builder

def checkRow (row : Int) : Build Unit := do
  let last := (← get).stop.row
  if last < row then
    match Extent.check Extent.runLimit (row - last) with
    | .ok _ => pure ()
    | .error f => throw f

def checkCode (tokens : List Token) : Build Unit :=
  match Layout.checkGaps none tokens with
  | .ok _ => pure ()
  | .error f => throw f

def readAnywhere : Given → Build Unit
  | .token t => do
    unless t.isOp ['\\'] || (t.kind == .error && t.text == [' ']) do checkRow t.start.row
    read t
  | .comment t => do
    checkRow t.start.row
    readComment t
  | .place t => do
    checkRow t.start.row
    passOver t
  | .code tokens => do
    closeIf
    match tokens.head? with
    | some first =>
      if (← get).stop.row ≤ first.start.row then
        checkRow first.start.row
        checkCode tokens
    | none => pure ()
    readCode tokens

end Builder

end InlineMarkup.Markup

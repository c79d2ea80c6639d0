import InlineMarkup.Extent

/-!
Moving a block of text sideways: every line after the first is indented further, or less, by the
same number of spaces.
-/
namespace InlineMarkup.Indentation

def moveLine (shift : Int) (line : Text) : Text :=
  if 0 < shift ∧ line ≠ [] then List.replicate shift.natAbs ' ' ++ line
  else if shift < 0 ∧ shift.natAbs ≤ (line.takeWhile (· == ' ')).length then
    line.drop shift.natAbs
  else line

def alignment (column : Option Int) (last : Text) : Int :=
  match column with
  | none => 0
  | some column =>
    let body := Text.trimLeft (· == ' ') last
    if body.head? = some '<' then column - (last.length - body.length : Nat) else 0

/-- Moves lines, numbered from `i` on: by `early` before line `first`, and by `late` from there. -/
def moveLines (early late : Int) (first : Nat) : Nat → List Text → List Text
  | _, [] => []
  | i, line :: rest =>
    moveLine (if first ≤ i then late else early) line :: moveLines early late first (i + 1) rest

/-- The moves of the lines after the first: what those before the line numbered `first` move by, and
what those from there on do. -/
def shifts (shift : Int) (column : Option Int) (lines : List Text) : Int × Int :=
  (shift, shift + alignment column (lines.getLast?.getD []))

def move (s : Text) (shift : Int) (column : Option Int := none) (first : Nat := 0) : Text :=
  if shift = 0 then s
  else match Text.splitAt '\n' s with
    | head :: line :: rest =>
      let (early, late) := shifts shift column (line :: rest)
      Text.join ['\n'] (head :: moveLines early late first 1 (line :: rest))
    | _ => s

def checkShift (lines : List Text) (shift : Int) : Except Fault Unit :=
  let written := 0 < shift ∧ lines.any fun line => !line.isEmpty
  Extent.check (if written then Extent.runLimit else Extent.textLimit) shift.natAbs

def checkMove (s : Text) (shift : Int) (column : Option Int) : Except Fault Unit :=
  if shift = 0 then .ok ()
  else match Text.splitAt '\n' s with
    | _ :: line :: rest => do
      let (early, late) := shifts shift column (line :: rest)
      checkShift (line :: rest) early
      checkShift (line :: rest) late
    | _ => .ok ()

def tryMove (s : Text) (shift : Int) (column : Option Int := none) (first : Nat := 0) :
    Except Fault Text :=
  (checkMove s shift column).map fun _ => move s shift column first

end InlineMarkup.Indentation

import InlineMarkup.Text.CharacterName
import InlineMarkup.Text.Numeric

/-!
Escapes in strings: the text that the inside of a string stands for. A backslash that begins no
escape stands for itself.
-/
namespace InlineMarkup.Expression

def hexChar? (digits : Text) : Option Char :=
  ((hexNumber? digits).filter (· < 0x110000)).map Char.ofNat

def isOctal (c : Char) : Bool := decide ('0' ≤ c) && decide (c ≤ '7')

def octalChar (digits : Text) : Char :=
  Char.ofNat (digits.foldl (fun n d => 8 * n + (d.toNat - '0'.toNat)) 0)

def letterEscape? (c : Char) : Option Text :=
  if c = '\n' then some []
  else if c = '\\' ∨ c = '\'' ∨ c = '"' then some [c]
  else if c = 'a' then some ['\x07']
  else if c = 'b' then some ['\x08']
  else if c = 'f' then some ['\x0c']
  else if c = 'n' then some ['\n']
  else if c = 'r' then some ['\r']
  else if c = 't' then some ['\t']
  else if c = 'v' then some ['\x0b']
  else none

def codeWidth (bytes : Bool) (c : Char) : Nat :=
  if c = 'x' then 2 else if bytes then 0 else if c = 'u' then 4 else if c = 'U' then 8 else 0

/-- The character that a name in braces stands for, and how many characters the name and the braces
take. -/
def namedEscape? : Text → Option (Char × Nat)
  | '\x7b' :: rest =>
    let name := rest.takeWhile (· != '\x7d')
    if name.length < rest.length then (namedChar? name).map (·, name.length + 2) else none
  | _ => none

def decodeFrom (bytes : Bool) : Nat → Text → Option Text
  | _, [] => some []
  | skip + 1, _ :: rest => decodeFrom bytes skip rest
  | 0, c :: rest =>
    if c ≠ '\\' then (decodeFrom bytes 0 rest).map (c :: ·)
    else match rest with
      | [] => some ['\\']
      | e :: more =>
        match letterEscape? e with
        | some s => (decodeFrom bytes 1 rest).map (s ++ ·)
        | none =>
          if isOctal e then
            let digits := (rest.take 3).takeWhile isOctal
            (decodeFrom bytes digits.length rest).map (octalChar digits :: ·)
          else if e = 'N' ∧ !bytes then
            match namedEscape? more with
            | some (d, size) => (decodeFrom bytes (size + 1) rest).map (d :: ·)
            | none => none
          else
            let width := codeWidth bytes e
            if width = 0 then (decodeFrom bytes 0 rest).map ('\\' :: ·)
            else if more.length < width then none
            else match hexChar? (more.take width) with
              | some d => (decodeFrom bytes (width + 1) rest).map (d :: ·)
              | none => none

def decode? (bytes : Bool) (s : Text) : Option Text := decodeFrom bytes 0 s

end InlineMarkup.Expression

import InlineMarkup.Text.Basic
import InlineMarkup.Text.Printable

/-!
Text in quotes, as it stands in messages, in listings and in the generated code: apostrophes
around it unless it holds an apostrophe and no double quote, and an escape for every character
that is not printable.
-/
namespace InlineMarkup.Text

def hexDigits : Nat → Nat → Text
  | 0, _ => []
  | width + 1, n => hexDigits width (n / 16) ++ [Nat.digitChar (n % 16)]

def codeEscape (c : Char) : Text :=
  if c.toNat < 0x100 then ['\\', 'x'] ++ hexDigits 2 c.toNat
  else if c.toNat < 0x10000 then ['\\', 'u'] ++ hexDigits 4 c.toNat
  else ['\\', 'U'] ++ hexDigits 8 c.toNat

def quotedChar (mark c : Char) : Text :=
  if c = mark ∨ c = '\\' then ['\\', c]
  else if c = '\n' then ['\\', 'n']
  else if c = '\r' then ['\\', 'r']
  else if c = '\t' then ['\\', 't']
  else if isPrintable c then [c]
  else codeEscape c

def quoteMark (s : Text) : Char :=
  if s.contains '\'' && !s.contains '"' then '"' else '\''

def quoted (s : Text) : Text :=
  let mark := quoteMark s
  [mark] ++ s.flatMap (quotedChar mark) ++ [mark]

def quotedAscii (s : Text) : Text :=
  (quoted s).flatMap fun c => if c.toNat < 0x80 then [c] else codeEscape c

def quotedList (items : List Text) : Text :=
  ['['] ++ join [',', ' '] (items.map quoted) ++ [']']

end InlineMarkup.Text

import InlineMarkup.Text.Blank

/-!
Text as a list of characters, with the operations on it that the rest of the library is written
in: lines, splitting, trimming, substitution.
-/
namespace InlineMarkup

abbrev Text := List Char

namespace Text

/-! ### Numbers -/

def ofNat (n : Nat) : Text := Nat.toDigits 10 n

def ofInt : Int → Text
  | .ofNat n => ofNat n
  | .negSucc n => '-' :: ofNat (n + 1)

/-! ### Lines and parts -/

/-- The lines of a text, each with the newline that ends it. Only the last may lack one. -/
def lines : Text → List Text
  | [] => []
  | c :: rest =>
    if c = '\n' then ['\n'] :: lines rest
    else match lines rest with
      | [] => [[c]]
      | line :: more => (c :: line) :: more

/-- The parts of a text between the places where `sep` stands: one more part than there are such
places. -/
def splitAt (sep : Char) : Text → List Text
  | [] => [[]]
  | c :: rest =>
    if c = sep then [] :: splitAt sep rest
    else match splitAt sep rest with
      | [] => [[c]]
      | part :: more => (c :: part) :: more

def join (sep : Text) (parts : List Text) : Text := (parts.intersperse sep).flatten

/-! ### Trimming -/

def trimLeft (p : Char → Bool) (s : Text) : Text := s.dropWhile p

def trimRight (p : Char → Bool) (s : Text) : Text := (s.reverse.dropWhile p).reverse

def trim (p : Char → Bool) (s : Text) : Text := trimRight p (trimLeft p s)

def strip (s : Text) : Text := trim isBlank s

/-! ### Searching and substitution -/

def occurs (pattern : Text) : Text → Bool
  | [] => pattern.isEmpty
  | c :: rest => pattern.isPrefixOf (c :: rest) || occurs pattern rest

def replaceChar (old : Char) (new : Text) (s : Text) : Text :=
  s.flatMap fun c => if c = old then new else [c]

/-- Replaces the pattern from left to right; the next `skip` characters belong to an occurrence
that has already been replaced. -/
def replaceFrom (old new : Text) : Nat → Text → Text
  | _, [] => []
  | skip + 1, _ :: rest => replaceFrom old new skip rest
  | 0, c :: rest =>
    if old.isPrefixOf (c :: rest) then new ++ replaceFrom old new (old.length - 1) rest
    else c :: replaceFrom old new 0 rest

def replace (old new : Text) (s : Text) : Text := replaceFrom old new 0 s

def copies (n : Int) (c : Char) : Text := List.replicate n.toNat c

/-- The text with every line end as one newline: a carriage return, alone or before a newline, is
one too. -/
def universalNewlines : Text → Text
  | [] => []
  | '\r' :: '\n' :: rest => '\n' :: universalNewlines rest
  | c :: rest => (if c = '\r' then '\n' else c) :: universalNewlines rest

def tally (c : Char) (s : Text) : Nat := s.countP (· == c)

end Text

end InlineMarkup

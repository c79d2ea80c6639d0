import InlineMarkup.Text.CharacterName.Aliases
import InlineMarkup.Text.CharacterName.Alphabets
import InlineMarkup.Text.CharacterName.Ancient
import InlineMarkup.Text.CharacterName.Pictures
import InlineMarkup.Text.CharacterName.Signs
import InlineMarkup.Text.CharacterName.Syllabaries
import InlineMarkup.Text.Hexadecimal
import InlineMarkup.Text.Packed

/-!
The characters that names stand for. Most names are in tables; those of Korean syllables and of
ideographs follow from the code. Capital and small letters count as the same, except in names that
begin as those of syllables and of unified ideographs do.
-/
namespace InlineMarkup

/-! ### Tables of names

Packed, a table has entries, each of which begins with a mark. After `@` stands the code of the next
character in hexadecimal. Any other entry is the name of a character, and the one after it is that of
the next character. `~` is the name before it with the last letter, or the number at the end, one higher.
The other marks tell how many words the name has in common with the one before; the other words follow. -/

def beginsEntry (c : Char) : Bool := c == '@' || c == '~' || wordMarks.contains c

def addToEntries (c : Char) : List Text → List Text
  | [] => [[c]]
  | entry :: more => if entry.head?.any beginsEntry then [c] :: entry :: more else (c :: entry) :: more

def nameEntries (s : Text) : List Text := s.foldr addToEntries []

def nameWords : Text → List Text
  | [] => []
  | c :: rest =>
    if c = ' ' ∨ c = '-' then [c] :: nameWords rest
    else match nameWords rest with
      | [] => [[c]]
      | word :: more => (c :: word) :: more

/-- The reversed word with its first letter, or the number at its front, one higher. -/
def raised : Text → Text
  | [] => []
  | c :: rest => if c = '9' then '0' :: raised rest else Char.ofNat (c.toNat + 1) :: rest

/-- How far a search for a name has come: the code of the next character, the words of the last
name, and the character found. -/
structure NameSearch where
  code : Nat := 0
  words : List Text := []
  found : Option Char := none

def NameSearch.entry (name : Text) (search : NameSearch) : Text → NameSearch
  | [] => search
  | mark :: rest =>
    if mark = '@' then { search with code := (hexNumber? rest).getD 0 }
    else
      let words :=
        if mark = '~' then
          search.words.dropLast ++ (search.words.getLast?.map fun w => (raised w.reverse).reverse).toList
        else search.words.take (wordMarks.idxOf mark) ++ nameWords rest
      { code := search.code + 1, words
        found := if words.flatten = name then some (Char.ofNat search.code) else search.found }

/-! ### Names with a code in them -/

def ideographRanges : CodeRanges :=
  [(0x3400, 0x4dbf), (0x4e00, 0x9fff), (0x20000, 0x2a6df), (0x2a700, 0x2b738), (0x2b740, 0x2b81d),
    (0x2b820, 0x2cea1), (0x2ceb0, 0x2ebe0), (0x30000, 0x3134a)]

def numberedRanges : List (Text × CodeRanges) :=
  [("CJK COMPATIBILITY IDEOGRAPH-".toList,
      [(0xf900, 0xfa6d), (0xfa70, 0xfad9), (0x2f800, 0x2fa1d)]),
    ("KHITAN SMALL SCRIPT CHARACTER-".toList, [(0x18b00, 0x18cd5)]),
    ("NUSHU CHARACTER-".toList, [(0x1b170, 0x1b2fb)])]

def afterStart? (start s : Text) : Option Text :=
  if start.isPrefixOf s then some (s.drop start.length) else none

def numberedChar? (ranges : CodeRanges) (digits : Text) : Option Char :=
  ((hexNumber? digits).map Char.ofNat).filter ranges.covers

def ideograph? (digits : Text) : Option Char :=
  if (digits.length = 4 ∨ digits.length = 5) ∧ digits.all (!·.isLower) then
    numberedChar? ideographRanges digits
  else none

def numbered? (name : Text) : Option Char :=
  numberedRanges.findSome? fun (start, ranges) =>
    (afterStart? start name).bind fun digits =>
      if digits.head? = some '0' then none else numberedChar? ranges digits

/-! ### Syllables -/

def firstSounds : List Text :=
  ["G", "GG", "N", "D", "DD", "R", "M", "B", "BB", "S", "SS", "", "J", "JJ", "C", "K", "T", "P",
   "H"].map String.toList

def vowels : List Text :=
  ["A", "AE", "YA", "YAE", "EO", "E", "YEO", "YE", "O", "WA", "WAE", "OE", "YO", "U", "WEO", "WE",
   "WI", "YU", "EU", "YI", "I"].map String.toList

def lastSounds : List Text :=
  ["", "G", "GG", "GS", "N", "NJ", "NH", "D", "L", "LG", "LM", "LB", "LS", "LT", "LP", "LH", "M",
   "B", "BS", "S", "SS", "NG", "J", "C", "K", "T", "P", "H"].map String.toList

def longestSound? (sounds : List Text) (s : Text) : Option (Nat × Text) :=
  let fits := sounds.zipIdx.filter fun (sound, _) => sound.isPrefixOf s
  let longest := fits.foldl (fun best (sound, i) =>
    match best with
    | some (other, _) => if sound.length ≤ other.length then best else some (sound, i)
    | none => some (sound, i)) (none : Option (Text × Nat))
  longest.map fun (sound, i) => (i, s.drop sound.length)

def syllable? (name : Text) : Option Char :=
  match longestSound? firstSounds name with
  | none => none
  | some (first, rest) =>
    match longestSound? vowels rest with
    | none => none
    | some (vowel, rest) =>
      match longestSound? lastSounds rest with
      | some (last, []) => some (Char.ofNat (0xac00 + (first * vowels.length + vowel) *
          lastSounds.length + last))
      | _ => none

/-! ### All names -/

/-- The entries of all tables, unpacked when they are first asked for. -/
def listedEntries : Thunk (List Text) :=
  .mk fun _ => nameEntries (unpacked 327663
    [alphabetNames, signNames, syllabaryNames, ancientNames, pictureNames, secondNames])

def listedChar? (name : Text) : Option Char := (listedEntries.get.foldl (NameSearch.entry name) {}).found

def namedChar? (name : Text) : Option Char :=
  match afterStart? "HANGUL SYLLABLE ".toList name with
  | some sounds => syllable? sounds
  | none =>
    match afterStart? "CJK UNIFIED IDEOGRAPH-".toList name with
    | some digits => ideograph? digits
    | none =>
      let name := name.map Char.toUpper
      (numbered? name).or (listedChar? name)

end InlineMarkup

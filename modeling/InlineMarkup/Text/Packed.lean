import InlineMarkup.Text.Basic

/-!
Packed texts. A packed text is a fraction in base 88. A character takes six bits, and each bit parts the interval
in which the fraction lies by the chance that the bit is set. The chances are learnt on the way: several contexts
know how the bit fell after them before, and their votes are weighed.
-/
namespace InlineMarkup

/-! ### Chances

A chance is out of 65536, and the vote for it is 256 times the logarithm of its odds. -/

/-- The votes for chances from one half on, in steps of 16. -/
def upperVotes : Array Int :=
  (Nat.repeat (fun (votes, sum, n) =>
    (votes.push (sum / 65536 : Nat), sum + 68719476736 / (n * (4096 - n)), n + 1)) 2048 (#[], 0, 2048)).1

def votes : Array Int := #[0] ++ upperVotes.reverse.pop.map (- ·) ++ upperVotes

/-- The chances for votes from zero on. -/
def upperChances : Array Nat :=
  (Nat.repeat (fun (chances, c) =>
    (chances.push (c / 65536), c + c / 65536 * (65536 - c / 65536) / 256)) 2048 (#[], 2147483648)).1

def chanceOf (vote : Int) : Nat :=
  let chance := min 65520 (upperChances.getD vote.natAbs 65520)
  if vote < 0 then 65536 - chance else chance

/-- A chance and, up to five, how often it was tried, after one more trial. -/
def tried (set : Bool) (known : Nat) : Nat :=
  let (chance, tries) := (known / 16, known % 16)
  let chance := if set then chance + (65536 - chance) * 10 / (10 * tries + 15)
    else chance - chance * 10 / (10 * tries + 15)
  16 * max 128 (min 65408 chance) + min 5 (tries + 1)

/-! ### Unpacking -/

def packedChars : Array Char := " !#$%&*+,-.0123456789;@ABCDEFGHIJKLMNOPQRSTUVWXYZ~".toList.toArray

/-- The marks of entries that give words, by the number of words in common with the name before. -/
def wordMarks : Text := "!#$%&*+,.;".toList

/-- How far a text is unpacked: the digits to come, the interval and the place of the fraction in it, what the
contexts know and what they weigh, the text, its last characters and words, and the words of the name before. -/
structure Unpacking where
  digits : List Char
  width : Nat := 1
  place : Nat := 0
  known : Array Nat := .replicate 8388593 (16 * 32768)
  weights : Array Int := .replicate 4096 13107
  text : Array Char := #[]
  recent : UInt64 := 0
  word : UInt64 := 0
  wordBefore : UInt64 := 0
  words : List UInt64 := []
  lastWords : List UInt64 := []

namespace Unpacking

def widen (u : Unpacking) : Unpacking :=
  if u.width < 59969536 then
    { u with
      digits := u.digits.tail, width := 88 * u.width, place := 88 * u.place + packDigits.idxOf (u.digits.headD '!') }
  else u

/-- Where a context keeps what it knows of a bit after others, how it votes, and where its weight is kept. -/
@[inline] def hear (u : Unpacking) (bits : Nat) (context : Nat × Nat) : Nat × Int × Nat :=
  let slot := (context.1 + 40503 * bits) % 8388593
  let known := u.known.getD slot 0
  (slot, votes.getD (known / 256) 0, ((if u.word = 0 then 0 else 64) + bits) * 32 + 4 * context.2 + min 3 (known % 16))

def learn (bits : Nat) (set : Bool) (missed : Int) (u : Unpacking) (context : Nat × Nat) : Unpacking :=
  let (slot, vote, i) := u.hear bits context
  { u with known := u.known.modify slot (tried set), weights := u.weights.modify i (· + missed * vote / 16384) }

/-- One more bit of a character, whose bits so far stand after a one. -/
def bit (contexts : List (Nat × Nat)) : Nat × Unpacking → Nat × Unpacking
  | (bits, u) =>
    let u := u.widen.widen
    let chance := chanceOf (contexts.foldl (fun sum context =>
      let (_, vote, i) := u.hear bits context
      sum + u.weights.getD i 0 * vote / 65536) 0)
    let part := u.width * chance / 65536
    if u.place < part then
      (2 * bits + 1, contexts.foldl (learn bits true (65536 - chance)) { u with width := part })
    else
      (2 * bits, contexts.foldl (learn bits false (-chance))
        { u with width := u.width - part, place := u.place - part })

def step (u : Unpacking) : Unpacking :=
  let contexts : List UInt64 := [0, u.recent <<< 58, u.recent <<< 52, u.recent <<< 46, u.recent <<< 34, u.word,
    31 * u.word + 7919 * u.wordBefore, 31 * u.word + 104729 * u.lastWords.getD u.words.length 0]
  let contexts := contexts.mapIdx fun k context =>
    (((8 * context + k.toUInt64) * 0x9e3779b97f4a7c15).toNat / 1048576, k)
  let (bits, u) := Nat.repeat (bit contexts) 6 (1, u)
  let c := packedChars.getD (bits - 64) ' '
  let n := bits.toUInt64 - 64
  let u : Unpacking := { u with text := u.text.push c, recent := 64 * u.recent + n }
  if c.isAlphanum then { u with word := 64 * u.word + n + 1 }
  else
    let words := u.words ++ if u.word = 0 then [] else [u.word]
    if c = ' ' ∨ c = '-' then { u with words, word := 0, wordBefore := u.word + n }
    else
      let common := words.take (wordMarks.idxOf c)
      { u with words := common, word := 0, wordBefore := 64 * common.getLastD 0 + n, lastWords := words }

end Unpacking

/-- Unpacks a text of so many characters. Line ends are of no account. -/
def unpacked (length : Nat) (packed : List String) : Text :=
  (Nat.repeat Unpacking.step length { digits := packed.flatMap fun s => s.toList.filter (· != '\n') }).text.toList

end InlineMarkup

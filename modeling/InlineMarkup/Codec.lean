import InlineMarkup.Restore

/-!
The source encoding: bytes that are decoded to plain Python, and, if it is reversible, plain Python
that is encoded to bytes of source with markup. Both also work piece by piece.
-/
namespace InlineMarkup

/-- A source encoding. A reversible one keeps what it needs to restore the source. -/
structure Codec where
  reversible : Bool
  deriving DecidableEq, Repr

namespace Codec

def name : Text := "pyxl".toList

def toBytes (s : Text) : ByteArray := (String.ofList s).toUTF8

def ofBytes (bytes : ByteArray) : Except Fault Text :=
  match String.fromUTF8? bytes with
  | some s => .ok s.toList
  | none => .error .notEncoded

def find? (reversible : Bool) (wanted : Text) : Option Codec :=
  if wanted = name then some { reversible } else none

/-! ### All at once -/

def decode (c : Codec) (bytes : ByteArray) : Except Fault Text := do
  translate { reversible := c.reversible } (← ofBytes bytes)

/-- Encodes plain Python: the bytes, and how many characters were encoded. -/
def encode (c : Codec) (s : Text) : Except Fault (ByteArray × Nat) :=
  if c.reversible then
    match restore s with
    | .ok source => .ok (toBytes source, s.length)
    | .error .unfinished => .ok (ByteArray.empty, 0)
    | .error f => .error f
  else .ok (toBytes s, s.length)

/-! ### Piece by piece -/

/-- A decoder holds bytes until it is told that they are the last. -/
structure Decoder where
  held : ByteArray := ByteArray.empty

/-- Takes bytes; the last ones are decoded with all that were held. -/
def Decoder.decode (d : Decoder) (c : Codec) (bytes : ByteArray) (last : Bool) :
    Except Fault Text × Decoder :=
  let held := d.held ++ bytes
  if last then (Codec.decode c held, {}) else (.ok [], { held })

/-- An encoder holds text until a call in it has ended. -/
structure Encoder where
  held : Text := []

/-- Takes text, and encodes what it can of it and of the text held. -/
def Encoder.encode (e : Encoder) (c : Codec) (s : Text) : Except Fault ByteArray × Encoder :=
  let held := e.held ++ s
  match Codec.encode c held with
  | .ok (bytes, n) => (.ok bytes, { held := held.drop n })
  | .error f => (.error f, e)

end Codec

end InlineMarkup

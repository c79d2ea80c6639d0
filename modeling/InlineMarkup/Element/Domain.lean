import InlineMarkup.Element.Value

/-!
What an attribute holds: values of one sort, or one of a list of choices, and how a value of another
sort is converted to it.
-/
namespace InlineMarkup.Element

inductive Domain where
  | text
  | integer
  | truth
  | decimal
  | list
  | table
  | bytes
  | anything
  | moment
  | choice (values : List Value)
  deriving Repr, Inhabited

namespace Value

/-- The values that a value consists of: the characters of a text, the numbers of bytes, the items
of a list or tuple, the keys of a table. -/
def items? : Value → Option (List Value)
  | text s => some (s.map fun c => text [c])
  | bytes bs => some (bs.map fun b => integer b.toNat)
  | list items => some items
  | tuple items => some items
  | table keys _ => some keys
  | _ => Option.none

def asciiText? (bs : List UInt8) : Option Text :=
  if bs.all fun b => decide (b.toNat < 0x80) then some (bs.map fun b => Char.ofNat b.toNat)
  else Option.none

/-! ### Conversions -/

def toInteger? : Value → Option Value
  | truth b => some (integer (if b then 1 else 0))
  | integer n => some (integer n)
  | decimal x => x.truncate?.map integer
  | text s => (Text.readInt? s).map integer
  | bytes bs => ((asciiText? bs).bind Text.readInt?).map integer
  | _ => Option.none

def toDecimal? : Value → Option Value
  | truth b => (Double.ofInt? (if b then 1 else 0)).map decimal
  | integer n => (Double.ofInt? n).map decimal
  | decimal x => some (decimal x)
  | text s => (Double.ofText? s).map decimal
  | bytes bs => ((asciiText? bs).bind Double.ofText?).map decimal
  | _ => Option.none

def asByte? (v : Value) : Option UInt8 :=
  v.asInt?.bind fun n => if 0 ≤ n ∧ n < 256 then some (UInt8.ofNat n.toNat) else Option.none

def byteLimit : Int := 0x1000000

def toBytes? : Value → Option Value
  | text _ => Option.none
  | bytes bs => some (bytes bs)
  | v =>
    match v.asInt? with
    | some n =>
      if 0 ≤ n ∧ n < byteLimit then some (bytes (List.replicate n.toNat 0)) else Option.none
    | Option.none => (v.items?.bind fun items => items.mapM asByte?).map bytes

def asEntry? (v : Value) : Option (Value × Value) :=
  match v.items? with
  | some [k, w] => if k.isKey then some (k, w) else Option.none
  | _ => Option.none

def toTable? (opened : Value → Value) : Value → Option Value
  | table keys values => some (table keys values)
  | v => ((opened v).items?.bind fun items => items.mapM fun e => asEntry? (opened e)).map ofEntries

end Value

namespace Domain

def holds : Domain → Value → Bool
  | text, .text _ => true
  | integer, .integer _ => true
  | integer, .truth _ => true
  | truth, .truth _ => true
  | decimal, .decimal _ => true
  | list, .list _ => true
  | list, .shared _ => true
  | table, .table _ _ => true
  | bytes, .bytes _ => true
  | anything, _ => true
  | moment, .moment _ => true
  | choice values, v => values.any v.same
  | _, _ => false

/-- A value converted to what is held, for values whose text is known without a document. -/
def convert? (opened : Value → Value) : Domain → Value → Option Value
  | text, v => some (.text v.shown)
  | integer, v => v.toInteger?
  | truth, v => some (.truth (opened v).isTrue)
  | decimal, v => v.toDecimal?
  | list, v => (opened v).items?.map .list
  | table, v => v.toTable? opened
  | bytes, v => (opened v).toBytes?
  | anything, v => some v
  | moment, _ => none
  | choice _, _ => none

def sortName : Domain → Text
  | text => "str".toList
  | integer => "int".toList
  | truth => "bool".toList
  | decimal => "float".toList
  | list => "list".toList
  | table => "dict".toList
  | bytes => "bytes".toList
  | anything => "object".toList
  | moment => "datetime.datetime".toList
  | choice _ => "list".toList

end Domain

end InlineMarkup.Element

import InlineMarkup.Element.Moment
import InlineMarkup.Number.Decimal
import InlineMarkup.Text.Quoted

/-!
The values that attributes and children of elements can be, with what all of them have: whether
they count as true, when two are the same, and the texts they are written as.
-/
namespace InlineMarkup.Element

/-- Where a list that can grow is kept: with the element whose children it holds, or under a number
of its own. -/
inductive Place where
  | children (element : Nat)
  | made (number : Nat)
  deriving DecidableEq, Repr, Inhabited

/-- A value. -/
inductive Value where
  | none
  | truth (b : Bool)
  | integer (n : Int)
  | decimal (x : Double)
  | text (s : Text)
  | bytes (bs : List UInt8)
  | list (items : List Value)
  | tuple (items : List Value)
  | table (keys values : List Value)
  | moment (m : Moment)
  | element (id : Nat)
  | shared (place : Place)
  deriving Repr, Inhabited

namespace Value

def isNone : Value → Bool
  | none => true
  | _ => false

def isTrue : Value → Bool
  | none => false
  | truth b => b
  | integer n => n != 0
  | decimal x => !x.isZero
  | text s => !s.isEmpty
  | bytes bs => !bs.isEmpty
  | list items => !items.isEmpty
  | tuple items => !items.isEmpty
  | table keys _ => !keys.isEmpty
  | _ => true

def asInt? : Value → Option Int
  | truth b => some (if b then 1 else 0)
  | integer n => some n
  | _ => Option.none

/-! ### Sameness -/

def sameNumber (a b : Value) : Bool :=
  match a, b with
  | decimal x, decimal y => x.same y
  | decimal x, b => (b.asInt?.map x.isInt).getD false
  | a, decimal y => (a.asInt?.map y.isInt).getD false
  | a, b =>
    match a.asInt?, b.asInt? with
    | some m, some n => m == n
    | _, _ => false

def passAll : List (Value → Bool) → List Value → Bool
  | [], [] => true
  | test :: tests, v :: vs => test v && passAll tests vs
  | _, _ => false

/-- For each pair of tests there is an entry whose key passes the first, and what it stands for
passes the second. -/
def passEntries : List (Value → Bool) → List (Value → Bool) → List Value → List Value → Bool
  | key :: keys, value :: more, others, found =>
    (match others.findIdx? key with
      | some i => value (found.getD i none)
      | Option.none => false) && passEntries keys more others found
  | _, _, _, _ => true

mutual

def same : Value → Value → Bool
  | none, b => b.isNone
  | text s, text t => s == t
  | bytes s, bytes t => s == t
  | list xs, list ys => passAll (sameEach xs) ys
  | tuple xs, tuple ys => passAll (sameEach xs) ys
  | table keys values, table others found =>
    keys.length == others.length && passEntries (sameEach keys) (sameEach values) others found
  | moment m, moment n => m == n
  | element m, element n => m == n
  | shared p, shared q => p == q
  | a, b => sameNumber a b
termination_by structural v => v

def sameEach : List Value → List (Value → Bool)
  | [] => []
  | v :: vs => same v :: sameEach vs
termination_by structural vs => vs

end

def isKey : Value → Bool
  | list _ => false
  | table _ _ => false
  | shared _ => false
  | tuple items => allKeys items
  | _ => true
where
  allKeys : List Value → Bool
    | [] => true
    | v :: vs => isKey v && allKeys vs

def putEntry (entries : List (Value × Value)) (key value : Value) : List (Value × Value) :=
  match entries with
  | [] => [(key, value)]
  | (k, v) :: rest =>
    if same k key then (k, value) :: rest else (k, v) :: putEntry rest key value

def ofEntries (entries : List (Value × Value)) : Value :=
  let made := entries.foldl (fun t (k, v) => putEntry t k v) []
  table (made.map Prod.fst) (made.map Prod.snd)

/-! ### Texts -/

def quotedByte (mark : Char) (b : UInt8) : Text :=
  let c := Char.ofNat b.toNat
  if c = mark ∨ c = '\\' then ['\\', c]
  else if c = '\n' then ['\\', 'n']
  else if c = '\r' then ['\\', 'r']
  else if c = '\t' then ['\\', 't']
  else if 0x20 ≤ b.toNat ∧ b.toNat < 0x7f then [c]
  else ['\\', 'x'] ++ Text.hexDigits 2 b.toNat

def quotedBytes (bs : List UInt8) : Text :=
  let mark := Text.quoteMark (bs.map fun b => Char.ofNat b.toNat)
  ['b', mark] ++ bs.flatMap (quotedByte mark) ++ [mark]

mutual

/-- A value as it stands inside a list. A list that is left to be read is one that holds itself. -/
def quoted : Value → Text
  | none => "None".toList
  | truth b => (if b then "True" else "False").toList
  | integer n => Text.ofInt n
  | decimal x => x.text
  | text s => Text.quoted s
  | bytes bs => quotedBytes bs
  | list items => ['['] ++ Text.join [',', ' '] (quotedAll items) ++ [']']
  | tuple items =>
    ['('] ++ Text.join [',', ' '] (quotedAll items) ++
      (if items.length = 1 then [','] else []) ++ [')']
  | table keys values =>
    ['\x7b'] ++ Text.join [',', ' ']
      (List.zipWith (fun k v => k ++ [':', ' '] ++ v) (quotedAll keys) (quotedAll values)) ++ ['\x7d']
  | moment m => m.quoted
  | element id => "<element ".toList ++ Text.ofNat id ++ ['>']
  | shared _ => "[...]".toList

def quotedAll : List Value → List Text
  | [] => []
  | v :: vs => quoted v :: quotedAll vs

end

def shown : Value → Text
  | text s => s
  | moment m => m.text
  | v => v.quoted

end Value

end InlineMarkup.Element

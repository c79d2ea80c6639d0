import InlineMarkup.Expression.Grammar
import InlineMarkup.Fault
import InlineMarkup.Number.Double

/-!
Literals: the value of an expression that is one, as far as it matters here, and what is wrong with
a text that is not.
-/
namespace InlineMarkup

open Expression

/-- The value of a literal. Of values other than text only the sort is kept. -/
inductive Literal where
  | text (s : Text)
  | bytes
  | single
  | group (key : Bool)
  deriving DecidableEq, Repr

namespace Literal

def isKey : Literal → Bool
  | group key => key
  | _ => true

def asKey (l : Literal) : Except Fault Literal := if l.isKey then .ok l else .error .notKey

def ofNumber : Expr → Except Fault Numeral
  | .number n => .ok n
  | _ => .error .notLiteral

def ofSigned : Expr → Except Fault Numeral
  | .signed e => ofNumber e
  | e => ofNumber e

def ofSum : Numeral → Numeral → Except Fault Literal
  | .integer n, .imaginary => if (Double.ofInt? n).isSome then .ok .single else .error .tooLarge
  | .fraction, .imaginary => .ok .single
  | _, _ => .error .notLiteral

mutual

def ofExpr : Expr → Except Fault Literal
  | .text s => .ok (.text s)
  | .bytes => .ok .bytes
  | .number _ => .ok .single
  | .constant => .ok .single
  | .tuple es => (ofAll es).map .group
  | .list es => (ofAll es).map fun _ => .group false
  | .set es => (ofKeys es).map fun _ => .group false
  | .dict es => (ofEntries es).map fun _ => .group false
  | .bareCall s => if s.map plainLetter = "set".toList then .ok (.group false) else .error .notLiteral
  | .sum a b => do ofSum (← ofSigned a) (← ofNumber b)
  | .signed e => (ofNumber e).map fun _ => .single
  | _ => .error .notLiteral

def ofAll : List Expr → Except Fault Bool
  | [] => .ok true
  | e :: es => do
    let v ← ofExpr e
    let more ← ofAll es
    pure (v.isKey && more)

def ofKeys : List Expr → Except Fault Unit
  | [] => .ok ()
  | e :: es => do
    let _ ← asKey (← ofExpr e)
    ofKeys es

def ofEntries : List Expr → Except Fault Unit
  | k :: v :: rest => do
    let key ← ofExpr k
    let _ ← ofExpr v
    let _ ← asKey key
    ofEntries rest
  | _ => .ok ()

end

def expression? (size : Nat) (ps : List Piece) : Option Expr :=
  if templatesSound (size + 1) ps then parse? ps else none

def read (s : Text) : Except Fault Literal :=
  let s := (Text.universalNewlines s).dropWhile fun c => c == ' ' || c == '\t'
  if s.contains '\x00' then .error .notExpression
  else match line s with
    | .begun first =>
      match pieces? first with
      | none => .error .notExpression
      | some found =>
        match expression? first.length found.pieces, line found.rest with
        | some e, .ended => ofExpr e
        | some _, .indented => .error .strayIndent
        | _, _ => .error .notExpression
    | .indented => .error .strayIndent
    | _ => .error .notExpression

def hasNewline : Literal → Except Fault Bool
  | text s => .ok (s.contains '\n')
  | group _ => .ok false
  | _ => .error .notSearchable

end Literal

end InlineMarkup

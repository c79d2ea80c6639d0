import InlineMarkup.Expression.Literal
import InlineMarkup.Indentation
import InlineMarkup.Text.Format
import InlineMarkup.Translate

/-!
Restoring: the reversible form of markup back into markup. Each call that holds markup is replaced
by it, with its pieces of code filled in. If the call was moved, the markup moves along.
-/
namespace InlineMarkup

namespace Restore

/-- A call being read: where it starts, how deep it stands in brackets, the arguments read and the
one being read. -/
structure Call where
  start : Pos
  depth : Int
  arguments : Array (List Token) := #[]
  current : Array Token := #[]

structure State where
  saved : List Token := []
  depth : Int := 0
  calls : List Call := []
  made : Array Token := #[]

def State.add (s : State) (tokens : List Token) : State :=
  match s.calls with
  | call :: rest => { s with calls := { call with current := call.current ++ tokens.toArray } :: rest }
  | [] => { s with made := s.made ++ tokens.toArray }

/-! ### A complete call -/

/-- The arguments of a call: the format, the column of the markup, the columns of the pieces of code
and the pieces. -/
structure Arguments where
  format : List Token
  column : List Token
  columns : List (List Token)
  fragments : List (List Token)

def Arguments.ofList : List (List Token) → Except Fault Arguments
  | format :: _ :: column :: more =>
    match more with
    | [] => .error .tooFewArguments
    | more =>
      let more := more.dropLast
      let n := more.length / 2
      .ok ⟨format, column, more.take n, more.drop n⟩
  | _ => .error .tooFewArguments

def argumentText (tokens : List Token) : Except Fault Text :=
  Layout.stripped (Token.dropComments tokens)

def integer (tokens : List Token) : Except Fault Int := do
  match Text.readInt? (← argumentText tokens) with
  | some n => pure n
  | none => throw .notInteger

def leading (tokens : List Token) : Except Fault Token :=
  match Token.leading? tokens with
  | some t => .ok t
  | none => .error .noTokens

def fragment (tokens : List Token) (was is : Int) : Except Fault Text := do
  Indentation.tryMove (← Layout.stripped tokens) (was - is)

def fragments : List (List Token) → List Int → List Int → Except Fault (List Text)
  | f :: fs, was :: ws, is :: more => do
    let text ← fragment f was is
    let texts ← fragments fs ws more
    pure (text :: texts)
  | _, _, _ => .ok []

def formatText : Literal → Except Fault Text
  | .text s => .ok s
  | _ => .error .notText

def callTokens (start : Pos) (depth : Int) (close : Token) (arguments : List (List Token)) :
    Except Fault (List Token) := do
  let args ← Arguments.ofList arguments
  let was ← args.columns.mapM integer
  let is ← args.fragments.mapM fun f => do pure (← leading (Token.dropComments f)).start.col
  let literal ← Literal.read (← argumentText args.format)
  let column ← integer args.column
  let literalStart := (← leading args.format).start
  let apart ←
    if depth = 0 ∧ start.row ≠ literalStart.row then literal.hasNewline else pure false
  let newStart := if apart then literalStart else start
  let texts ← fragments args.fragments was is
  let format ← formatText literal
  let markup ← Text.format format texts
  let firstLine ← Text.format ((Text.splitAt '\n' format).headD []) texts
  let moved ← Indentation.tryMove markup (newStart.col - column) (some column)
    (Text.tally '\n' firstLine + 1)
  if apart then
    let stop := ((args.format.getLast?).map (·.stop)).getD literalStart
    let stop := if stop.row < close.start.row - 1 then ⟨close.start.row - 1, stop.col⟩ else stop
    pure [{ kind := .op, text := ['('], start, stop := start, line := [] },
      { kind := .string, text := moved, start := literalStart, stop, line := [] }, close]
  else pure [{ kind := .string, text := moved, start := newStart, stop := close.stop, line := [] }]

/-! ### Reading -/

def goesOn (saved : List Token) (t : Token) : Bool :=
  match saved with
  | [] => t.isName "html".toList
  | [_] => t.isOp ['.']
  | [_, _] => t.isName "PYXL".toList
  | _ => false

def isBracket (t : Token) (brackets : Text) : Bool := t.kind == .op && Text.occurs t.text brackets

abbrev Next := Except (Array Token × Option Fault) State

def plainToken (s : State) (t : Token) : Next :=
  let s := if isBracket t "\x7b([".toList then { s with depth := s.depth + 1 } else s
  let closing := isBracket t "\x7d)]".toList
  let s := if closing then { s with depth := s.depth - 1 } else s
  match s.calls with
  | call :: rest =>
    if closing ∧ s.depth = call.depth then
      let arguments := if call.current.isEmpty then call.arguments
        else call.arguments.push call.current.toList
      match callTokens call.start s.depth t arguments.toList with
      | .error f => .error (s.made, some f)
      | .ok tokens => .ok ({ s with calls := rest }.add tokens)
    else if closing ∧ s.depth < 0 then .error (s.made, none)
    else if t.isOp [','] ∧ s.depth = call.depth + 1 then
      let call := { call with arguments := call.arguments.push call.current.toList, current := #[] }
      .ok { s with calls := call :: rest }
    else .ok (s.add [t])
  | [] => if closing ∧ s.depth < 0 then .error (s.made, none) else .ok (s.add [t])

def step (s : State) (t : Token) : Next :=
  if goesOn s.saved t then .ok { s with saved := s.saved ++ [t] }
  else
    match s.saved with
    | [first, _, _] =>
      if t.isOp ['('] then
        let call : Call := { start := first.start, depth := s.depth }
        .ok { s with saved := [], depth := s.depth + 1, calls := call :: s.calls }
      else plainToken ({ s with saved := [] }.add s.saved) t
    | saved => plainToken ({ s with saved := [] }.add saved) t

def run : State → List Token → Array Token × Option Fault
  | s, [] => (s.made, if s.calls.isEmpty then none else some .unfinished)
  | s, t :: rest =>
    match step s t with
    | .error result => result
    | .ok s => run s rest

end Restore

def restoreTokens (lines : List Text) : List Token × Option Fault :=
  let (tokens, fault) := Restore.run {} (tokenize lines)
  (tokens.toList.map Token.trimNewline, fault)

def restore (source : Text) : Except Fault Text :=
  renderResult (restoreTokens (Text.lines source))

end InlineMarkup

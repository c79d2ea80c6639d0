import InlineMarkup.Markup.Builder
import InlineMarkup.Token.Stream

/-!
Translating Python source with markup in it into plain Python. Where an expression is expected
and a `<` stands, markup begins; in the markup, braces hold Python again. The two nest to any
depth, so the translator keeps a stack of what it is in the middle of and takes one token at a
time.

In the reversible mode the expression made for a piece of markup also holds the markup itself and
the pieces of code in it, so that the source can be restored.
-/
namespace InlineMarkup

open Markup

/-- How to translate. -/
structure Mode where
  reversible : Bool := false
  /-- The function that turns code among the text of a value into text. -/
  textFunction : Text := "str".toList

namespace Translate

/-! ### What the translator is in the middle of -/

/-- Python code: the last token that counts for what may follow, the braces open, and the tokens
made so far. -/
structure Code where
  last : Option Token := none
  depth : Int := 0
  made : Array Token := #[]

/-- Markup: its builder and, for the reversible mode, the tokens of the markup with a placeholder
for each piece of code, and the pieces of code. -/
structure Literal where
  builder : Builder
  pieces : Array Token := #[]
  fragments : Array (List Token) := #[]
  /-- Where the brace of the piece of code being read starts and stops. -/
  brace : Pos × Pos := (⟨0, 0⟩, ⟨0, 0⟩)

inductive Frame where
  | code (c : Code)
  | literal (l : Literal)

/-- The translator: the tokens to come, and the frames it is in, innermost first. -/
structure Config where
  stream : Stream
  frames : List Frame

def produced : List Frame → Array Token
  | [] => #[]
  | [.code c] => c.made
  | _ :: rest => produced rest

abbrev Result := Array Token × Option Fault

abbrev Next := Except Result Config

def stop (frames : List Frame) (f : Fault) : Next := .error (produced frames, some f)

/-! ### Where markup begins -/

def openers : List Text := [['='], ['('], ['['], ['\x7b'], [','], [':']]

def openerWords : List Text :=
  ["print".toList, "else".toList, "yield".toList, "return".toList]

def opensAfter : Option Token → Bool
  | none => true
  | some t =>
    (t.kind == .op && openers.contains t.text) || (t.kind == .name && openerWords.contains t.text)

def isSignificant (t : Token) : Bool := !t.kind.isLayout && t.kind != .comment

def Code.add (c : Code) (t : Token) (significant : Bool) : Code :=
  { c with last := if significant then some t else c.last, made := c.made.push t }

/-! ### The reversible form -/

def sanitize (t : Token) : Token :=
  { t with text := t.text.flatMap fun c => if c = '\x7b' ∨ c = '\x7d' then [c, c] else [c] }

def quoteLiteral (s : Text) : Text :=
  Text.replaceChar '\'' ['\\', '\''] (Text.replaceChar '\\' ['\\', '\\'] s)

def callOpening : Text := "html.PYXL('''".toList
def literalClosing : Text := "''', ".toList

/-- The reversible form of a piece of markup: a call that holds the markup with placeholders, the
expression it stands for, the columns of the markup and of the pieces of code, and the pieces. -/
def reversibleForm (l : Literal) : Except Fault Text := do
  let markup ← Layout.stripped l.pieces.toList
  let expression ← Layout.stripped [l.builder.token]
  let columns := l.fragments.toList.map fun f =>
    Text.ofInt (((Token.leading? f).map (·.start.col)).getD 0) ++ ", ".toList
  let fragments ← l.fragments.toList.mapM Layout.inColumn
  pure (callOpening ++ quoteLiteral markup ++ literalClosing ++ expression ++ ", ".toList ++
    Text.ofInt l.builder.start.col ++ ", ".toList ++ columns.flatten ++
    (fragments.map (· ++ ", ".toList)).flatten ++ ['0', ')'])

/-! ### Steps -/

def trimLast (l : Literal) (rest : Token) : Literal :=
  match l.pieces.back? with
  | none => l
  | some last =>
    let trimmed := { last with
      text := last.text.take (last.text.length - rest.text.length), stop := rest.start }
    { l with pieces := l.pieces.pop.push trimmed }

def takeComment (s : Stream) (l : Literal) : Stream × Literal :=
  match s.next with
  | (none, s) => (s, l)
  | (some t, s) =>
    if t.kind = .comment then (s, { l with pieces := l.pieces.push t }) else (s.unshift t, l)

def putBack (mode : Mode) (s : Stream) (l : Literal) : Except Fault (Stream × Literal) :=
  match l.builder.remainder with
  | none => .ok (s, l)
  | some rest =>
    match (Stream.rewind rest).run s with
    | .error f _ => .error f
    | .ok _ s =>
      if mode.reversible && !rest.text.isEmpty then
        if rest.text.contains '\x7b' || rest.text.contains '\x7d' then .error .bracesAfterMarkup
        else .ok (s, trimLast l rest)
      else .ok (s, l)

def closeLiteral (mode : Mode) (s : Stream) (l : Literal) : Except Fault (Stream × Token) := do
  let (s, l) ← putBack mode s l
  if mode.reversible then
    let (s, l) := takeComment s l
    let form ← reversibleForm l
    pure (s, { l.builder.token with text := form })
  else pure (s, l.builder.token)

def leaveLiteral (mode : Mode) (s : Stream) (l : Literal) (outer : List Frame) : Next :=
  match closeLiteral mode s l with
  | .error f => stop outer f
  | .ok (s, t) =>
    match outer with
    | .code c :: rest => .ok ⟨s, .code (c.add t true) :: rest⟩
    | _ => .error (produced outer, none)

def endInLiteral (mode : Mode) (s : Stream) (l : Literal) (outer : List Frame) : Next :=
  if l.builder.isDone then leaveLiteral mode s l outer
  else stop outer (.unclosed (l.builder.openTags.reverse.map fun t => (t.tag, t.row)))

def feedLiteral (mode : Mode) (s : Stream) (l : Literal) (t : Token) (outer : List Frame) : Next :=
  match (Builder.read t).run l.builder with
  | .error f _ => stop outer f
  | .ok _ builder =>
    let l := { l with builder, pieces := if mode.reversible then l.pieces.push (sanitize t) else l.pieces }
    if builder.isDone then leaveLiteral mode s l outer else .ok ⟨s, .literal l :: outer⟩

def enterCode (s : Stream) (l : Literal) (t : Token) (outer : List Frame) : Next :=
  let division := t.start.advance (t.text.take 1)
  match (Builder.passOver { t with text := t.text.take 1, stop := division }).run l.builder with
  | .error f _ => stop outer f
  | .ok _ builder =>
    match (Stream.rewind { t with text := t.text.drop 1, start := division }).run s with
    | .error f _ => stop outer f
    | .ok _ s =>
      .ok ⟨s, .code {} :: .literal { l with builder, brace := (t.start, division) } :: outer⟩

def splitToken (t : Token) (n : Nat) : Token × Token :=
  let division := t.start.advance (t.text.take n)
  ({ t with text := t.text.take n, stop := division }, { t with text := t.text.drop n, start := division })

def literalToken (mode : Mode) (s : Stream) (l : Literal) (t : Token) (outer : List Frame) : Next :=
  match t.text with
  | [] => feedLiteral mode s l t outer
  | c :: _ =>
    if c = '\x7b' then
      if l.builder.codeAllowed then enterCode s l t outer else feedLiteral mode s l t outer
    else if t.kind = .comment then
      if l.builder.commentAllowed then
        if mode.reversible then
          .ok ⟨s, .literal { l with pieces := l.pieces.push (sanitize t) } :: outer⟩
        else match (Builder.readComment t).run l.builder with
          | .error f _ => stop outer f
          | .ok _ builder => .ok ⟨s, .literal { l with builder } :: outer⟩
      else
        let (mark, rest) := splitToken t 1
        feedLiteral mode (s.unshift { rest with kind := .error }) l mark outer
    else if c = '#' then
      match (Stream.rewind t).run s with
      | .error f _ => stop outer f
      | .ok _ s => .ok ⟨s, .literal l :: outer⟩
    else
      let n := (t.text.takeWhile fun c => c != '#' && c != '\x7b').length
      if n < t.text.length then
        let (first, rest) := splitToken t n
        feedLiteral mode (s.unshift rest) l first outer
      else feedLiteral mode s l t outer

def leaveCode (mode : Mode) (s : Stream) (c : Code) (l : Literal) (t : Token) (outer : List Frame) :
    Next :=
  let code := c.made.toList
  let closing := { t with text := [], start := t.stop }
  let shown := if mode.reversible then Token.dropComments code else code
  match (Builder.readCode (shown ++ [closing])).run l.builder with
  | .error f _ => stop outer f
  | .ok _ builder =>
    let l := { l with builder }
    let l := if mode.reversible then
      let placeholder := { t with text := ['\x7b', '\x7d'], start := l.brace.1, line := [] }
      let opening := { t with text := ['\x7b'], start := l.brace.1, stop := l.brace.2 }
      { l with
        pieces := l.pieces.push placeholder,
        fragments := l.fragments.push ([opening] ++ code ++ [t]) }
      else l
    .ok ⟨s, .literal l :: outer⟩

def enterLiteral (mode : Mode) (s : Stream) (c : Code) (t : Token) (outer : List Frame) : Next :=
  match (Builder.read t).run (Builder.begin t.start mode.textFunction) with
  | .error f _ => stop (.code c :: outer) f
  | .ok _ builder =>
    let pieces := if mode.reversible then #[t] else #[]
    .ok ⟨s, .literal { builder, pieces } :: .code c :: outer⟩

def codeToken (mode : Mode) (s : Stream) (c : Code) (t : Token) (outer : List Frame) : Next :=
  let depth :=
    if t.isOp ['\x7b'] then c.depth + 1 else if t.isOp ['\x7d'] then c.depth - 1 else c.depth
  if t.isOp ['\x7d'] && depth < 0 then
    match outer with
    | .literal l :: outer => leaveCode mode s c l t outer
    | _ => .error (produced (.code c :: outer), none)
  else
    let c := { c with depth }
    if t.isOp ['<'] && opensAfter c.last then enterLiteral mode s c t outer
    else .ok ⟨s, .code (c.add t (isSignificant t)) :: outer⟩

def step (mode : Mode) (config : Config) : Next :=
  match config.frames with
  | [] => .error (#[], none)
  | .code c :: outer =>
    match config.stream.next with
    | (some t, s) => codeToken mode s c t outer
    | (none, _) =>
      if outer.isEmpty then .error (c.made, none) else stop (.code c :: outer) .unclosedCode
  | .literal l :: outer =>
    match config.stream.next with
    | (some t, s) => literalToken mode s l t outer
    | (none, s) => endInLiteral mode s l outer

def round (mode : Mode) : Nat → Config → Next
  | 0, config => .ok config
  | n + 1, config =>
    match step mode config with
    | .error result => .error result
    | .ok config => round mode n config

/-- Takes steps in at most so many rounds. -/
def run (mode : Mode) : Nat → Config → Result
  | 0, config => (produced config.frames, some .exhausted)
  | n + 1, config =>
    match round mode (config.stream.extent + 1) config with
    | .error result => result
    | .ok config => run mode n config

def budget (lines : List Text) : Nat := 2 * lines.flatten.length + 2

end Translate

def translateTokens (mode : Mode) (lines : List Text) : List Token × Option Fault :=
  let (tokens, fault) := Translate.run mode (Translate.budget lines) ⟨{ source := lines }, [.code {}]⟩
  (tokens.toList.map Token.trimNewline, fault)

def renderResult (result : List Token × Option Fault) : Except Fault Text := do
  let text ← Layout.file result.1
  match result.2 with
  | some f => throw f
  | none => pure text

def translate (mode : Mode) (source : Text) : Except Fault Text :=
  renderResult (translateTokens mode (Text.lines source))

end InlineMarkup

import InlineMarkup.Position
import InlineMarkup.Text.Quoted

/-!
Tokens of a Python source text.
-/
namespace InlineMarkup

/-- What a token is. A `nl` is a line end that ends no statement. -/
inductive Kind where
  | endMarker
  | name
  | number
  | string
  | newline
  | indent
  | dedent
  | op
  | error
  | comment
  | nl
  deriving DecidableEq, Repr, Inhabited

namespace Kind

def label : Kind → Text
  | endMarker => "ENDMARKER".toList
  | name => "NAME".toList
  | number => "NUMBER".toList
  | string => "STRING".toList
  | newline => "NEWLINE".toList
  | indent => "INDENT".toList
  | dedent => "DEDENT".toList
  | op => "OP".toList
  | error => "ERRORTOKEN".toList
  | comment => "COMMENT".toList
  | nl => "NL".toList

def code : Kind → Nat
  | endMarker => 0
  | name => 1
  | number => 2
  | string => 3
  | newline => 4
  | indent => 5
  | dedent => 6
  | op => 54
  | error => 60
  | comment => 64
  | nl => 65

def isLineEnd : Kind → Bool
  | newline | nl => true
  | _ => false

def isLayout : Kind → Bool
  | indent | dedent | newline | nl => true
  | _ => false

end Kind

/-- A token: its text, where it starts and stops, and the line it was found on. -/
structure Token where
  kind : Kind
  text : Text
  start : Pos
  stop : Pos
  line : Text
  deriving DecidableEq, Repr, Inhabited

namespace Token

def isOp (t : Token) (symbol : Text) : Bool := t.kind == .op && t.text == symbol

theorem isOp_iff {t : Token} {symbol : Text} : t.isOp symbol = true ↔ t.kind = .op ∧ t.text = symbol := by
  simp [isOp]

def isName (t : Token) (word : Text) : Bool := t.kind == .name && t.text == word

def dropComments (tokens : List Token) : List Token := tokens.filter (·.kind != .comment)

def leading? (tokens : List Token) : Option Token :=
  (tokens.find? fun t => !t.kind.isLayout).or tokens.head?

def trimNewline (t : Token) : Token :=
  if t.text.getLast? == some '\n' && !t.kind.isLineEnd then { t with text := t.text.dropLast }
  else t

/-! ### Listings -/

def listing (t : Token) : Text :=
  Text.ofInt t.start.row ++ [','] ++ Text.ofInt t.start.col ++ ['-'] ++
    Text.ofInt t.stop.row ++ [','] ++ Text.ofInt t.stop.col ++ ":\t".toList ++
    t.kind.label ++ ['\t'] ++ Text.quoted t.text ++ ['\n']

def dumpPos (p : Pos) : Text :=
  "Pos(row=".toList ++ Text.ofInt p.row ++ ", col=".toList ++ Text.ofInt p.col ++ [')']

def dump (t : Token) : Text :=
  "Token(ttype=".toList ++ Text.ofNat t.kind.code ++ ", value=".toList ++ Text.quoted t.text ++
    ", start=".toList ++ dumpPos t.start ++ ", end=".toList ++ dumpPos t.stop ++
    ", line=".toList ++ Text.quoted t.line ++ [')']

end Token

end InlineMarkup

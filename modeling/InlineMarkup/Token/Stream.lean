import InlineMarkup.Token.Layout
import InlineMarkup.Token.Scan

/-!
A stream of tokens that can be rewound. A token, or the end of one, can be put back and scanned
anew together with what follows it; positions go on to be those of the whole source.
-/
namespace InlineMarkup

/-- A token stream. -/
structure Stream where
  source : List Text
  /-- The lines of the text put back by the last rewind that are not read yet. -/
  rewound : Option (List Text) := none
  scan : Option Scan := some {}
  /-- Tokens scanned and not handed out, with positions as the scanner counts them. -/
  ready : List Token := []
  unshifted : List Token := []
  zero : Pos := ⟨0, 0⟩
  deriving Repr

namespace Stream

def place (zero p : Pos) : Pos :=
  ⟨p.row + zero.row, if p.row = 1 then p.col + zero.col else p.col⟩

def adjust (zero : Pos) (t : Token) : Token :=
  { t with start := place zero t.start, stop := place zero t.stop }

def pullSource (s : Stream) (scan : Scan) : List Text → Option Token × Stream
  | [] =>
    match scan.line [] with
    | (t :: ready, scan) => (some (adjust s.zero t), { s with source := [], scan, ready })
    | ([], scan) => (none, { s with source := [], scan })
  | l :: rest =>
    match scan.line l with
    | (t :: ready, scan) => (some (adjust s.zero t), { s with source := rest, scan, ready })
    | ([], some scan) => pullSource s scan rest
    | ([], none) => (none, { s with source := rest, scan := none })

/-- Scans lines that were put back, and then the source, until there is a token to hand out or
scanning is over. -/
def pullRewound (s : Stream) (scan : Scan) : List Text → Option Token × Stream
  | [] => pullSource { s with rewound := none } scan s.source
  | l :: rest =>
    match scan.line l with
    | (t :: ready, scan) => (some (adjust s.zero t), { s with rewound := some rest, scan, ready })
    | ([], some scan) => pullRewound s scan rest
    | ([], none) => (none, { s with rewound := some rest, scan := none })

def next (s : Stream) : Option Token × Stream :=
  match s.unshifted with
  | t :: rest => (some t, { s with unshifted := rest })
  | [] =>
    match s.ready with
    | t :: rest => (some (adjust s.zero t), { s with ready := rest })
    | [] =>
      match s.scan with
      | none => (none, s)
      | some scan =>
        match s.rewound with
        | some lines => pullRewound s scan lines
        | none => pullSource s scan s.source

def flushed (s : Stream) : List Token :=
  s.unshifted ++ (s.ready ++ (s.scan.map fun scan => (scan.line []).1).getD []).map (adjust s.zero)

def drained (s : Stream) : Stream := { s with unshifted := [], ready := [], scan := none }

/-- As many steps as can be taken until text is put back, if each takes a token or some of its text. -/
def extent (s : Stream) : Nat :=
  let lines := s.rewound.getD [] ++ s.source
  let tokens := s.unshifted ++ s.ready
  (tokens.flatMap Token.text).length + tokens.length +
    (s.scan.map fun scan => scan.indents.length + (scan.pending.map (·.text.length)).getD 0 + 2).getD 0 +
    2 * (lines.flatten.length + lines.length)

def unshift (s : Stream) (t : Token) : Stream := { s with unshifted := t :: s.unshifted }

/-- Puts back a token, or the end of one, to be scanned anew together with what follows it. -/
def rewind (t : Token) : EStateM Fault Stream Unit := do
  let s ← get
  let zero : Pos := ⟨t.start.row - 1, t.start.col⟩
  match Layout.plain (t :: s.flushed) with
  | .error fault =>
    set { s.drained with zero }
    throw fault
  | .ok text =>
    set { s.drained with zero, rewound := some (Text.lines text), scan := some {} }

def dump (s : Stream) : Text :=
  "tokenizer state:\n  zero: (".toList ++ Text.ofInt s.zero.row ++ [',', ' '] ++
    Text.ofInt s.zero.col ++ ")\n  rewound_buffer: ".toList ++
    (if s.rewound.isSome then "<StringIO>".toList else "None".toList) ++
    "\n  unshift_buffer: [".toList ++ Text.join [',', ' '] (s.unshifted.map Token.dump) ++
    "]\n".toList

end Stream

end InlineMarkup

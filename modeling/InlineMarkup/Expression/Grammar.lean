import InlineMarkup.Expression.Piece

/-!
The grammar of Python expressions, as far as it decides what is a literal and what is an expression
at all. Parts that can be no literal are recognised and not kept.
-/
namespace InlineMarkup.Expression

/-- An expression, with what is no part of a literal left out. -/
inductive Expr where
  | name (s : Text)
  | text (s : Text)
  | bytes
  | number (n : Numeral)
  | constant
  | tuple (items : List Expr)
  | list (items : List Expr)
  | set (items : List Expr)
  | dict (entries : List Expr)
  | signed (e : Expr)
  | sum (left right : Expr)
  | bareCall (s : Text)
  | other
  deriving Inhabited, Repr

def keywords : List Text :=
  ["False", "None", "True", "and", "as", "assert", "async", "await", "break", "class", "continue",
   "def", "del", "elif", "else", "except", "finally", "for", "from", "global", "if", "import", "in",
   "is", "lambda", "nonlocal", "not", "or", "pass", "raise", "return", "try", "while", "with",
   "yield"].map String.toList

def constants : List Text := ["False", "None", "True"].map String.toList

/-! ### Single pieces -/

def isSymbol (s : String) : List Piece → Bool
  | .symbol t :: _ => t == s.toList
  | _ => false

def isWord (s : String) : List Piece → Bool
  | .name t :: _ => t == s.toList
  | _ => false

def isName : List Piece → Bool
  | .name s :: _ => !keywords.contains s
  | _ => false

def isNameBefore (s : String) (ps : List Piece) : Bool := isName ps && isSymbol s ps.tail

def symbol (s : String) (ps : List Piece) : Option (List Piece) :=
  if isSymbol s ps then some ps.tail else none

def word (s : String) (ps : List Piece) : Option (List Piece) :=
  if isWord s ps then some ps.tail else none

abbrev Reader (α : Type) := List Piece → Option (α × List Piece)

def joinStrings : Expr → Reader Expr
  | e, .text s :: rest =>
    match e with
    | .text t => joinStrings (.text (t ++ s)) rest
    | .other => joinStrings .other rest
    | _ => none
  | e, .template _ :: rest =>
    match e with
    | .bytes => none
    | _ => joinStrings .other rest
  | e, .bytes :: rest =>
    match e with
    | .bytes => joinStrings .bytes rest
    | _ => none
  | e, rest => some (e, rest)

/-! ### Operators -/

def operators : Nat → List String
  | 0 => ["or"]
  | 1 => ["and"]
  | 3 => ["<", ">", "==", ">=", "<=", "!=", "in", "is"]
  | 4 => ["|"]
  | 5 => ["^"]
  | 6 => ["&"]
  | 7 => ["<<", ">>"]
  | 8 => ["+", "-"]
  | 9 => ["*", "/", "//", "%", "@"]
  | _ => []

def starLevel : Nat := 4

def operator (level : Nat) (ps : List Piece) : Option (Bool × List Piece) :=
  match (operators level).find? (fun s => isSymbol s ps || isWord s ps) with
  | some s =>
    let rest := ps.tail
    some (level == 8, if s == "is" && isWord "not" rest then rest.tail else rest)
  | none =>
    if level = 3 ∧ isWord "not" ps ∧ isWord "in" ps.tail then some (false, ps.tail.tail) else none

/-! ### Where a list of parameters or arguments stands -/

/-- What may follow in the parameters of a function. -/
structure Parameters where
  some : Bool := false
  defaults : Bool := false
  slash : Bool := false
  star : Bool := false
  bare : Bool := false

/-- What may follow in the arguments of a call: anything and perhaps a generator alone, anything,
nothing without a name, or nothing but arguments by name and double stars. -/
inductive Arguments where
  | first
  | any
  | named
  | doubled

def isTrailer (ps : List Piece) : Bool := isSymbol "." ps || isSymbol "(" ps || isSymbol "[" ps

def afterBracket : Nat → List Piece → List Piece
  | _, [] => []
  | depth, p :: rest =>
    match depthAfter depth p with
    | 0 => rest
    | inside => afterBracket inside rest

inductive Trailer where
  | none
  | part
  | call

/-! ### Expressions -/

mutual

def expression (fuel : Nat) (ps : List Piece) : Option (Expr × List Piece) :=
  match fuel with
  | 0 => none
  | n + 1 =>
    if isWord "lambda" ps then do
      let rest ← parameters n {} ps.tail
      let (_, rest) ← expression n rest
      pure (.other, rest)
    else do
      let (e, rest) ← binary n 0 ps
      if isWord "if" rest then
        let (_, rest) ← binary n 0 rest.tail
        let rest ← word "else" rest
        let (_, rest) ← expression n rest
        pure (.other, rest)
      else pure (e, rest)

def parameters (fuel : Nat) (state : Parameters) (ps : List Piece) : Option (List Piece) :=
  match fuel with
  | 0 => none
  | n + 1 =>
    let next (state : Parameters) (rest : List Piece) : Option (List Piece) :=
      if isSymbol ":" rest then if state.bare then none else some rest.tail
      else do parameters n state (← symbol "," rest)
    if isSymbol ":" ps then if state.bare then none else some ps.tail
    else if isSymbol "/" ps then
      if state.some && !state.slash && !state.star then next { state with slash := true } ps.tail
      else none
    else if isSymbol "**" ps then
      if state.bare || !isName ps.tail then none
      else
        let rest := ps.tail.tail
        symbol ":" (if isSymbol "," rest then rest.tail else rest)
    else if isSymbol "*" ps then
      if state.star then none
      else if isName ps.tail then next { state with star := true } ps.tail.tail
      else if isSymbol "," ps.tail then next { state with star := true, bare := true } ps.tail
      else none
    else if isName ps then
      let after := { state with some := true, bare := false }
      if isSymbol "=" ps.tail then do
        let (_, rest) ← expression n ps.tail.tail
        next { after with defaults := true } rest
      else if state.defaults && !state.star then none
      else next after ps.tail
    else none

def binary (fuel : Nat) (level : Nat) (ps : List Piece) : Option (Expr × List Piece) :=
  match fuel with
  | 0 => none
  | n + 1 =>
    if level = 2 then
      if isWord "not" ps then do
        let (_, rest) ← binary n 2 ps.tail
        pure (.other, rest)
      else binary n 3 ps
    else if level = 10 then
      if isSymbol "+" ps || isSymbol "-" ps then do
        let (e, rest) ← binary n 10 ps.tail
        pure (.signed e, rest)
      else if isSymbol "~" ps then do
        let (_, rest) ← binary n 10 ps.tail
        pure (.other, rest)
      else binary n 11 ps
    else if level ≥ 11 then do
      let awaited := isWord "await" ps
      let (e, rest) ← atom n (if awaited then ps.tail else ps)
      let (e, _, rest) ← trailers n e .none rest
      let e := if awaited then .other else e
      if isSymbol "**" rest then
        let (_, rest) ← binary n 10 rest.tail
        pure (.other, rest)
      else pure (e, rest)
    else do
      let (e, rest) ← binary n (level + 1) ps
      chain n level e rest

def chain (fuel : Nat) (level : Nat) (left : Expr) (ps : List Piece) : Option (Expr × List Piece) :=
  match fuel with
  | 0 => none
  | n + 1 =>
    match operator level ps with
    | none => some (left, ps)
    | some (additive, rest) => do
      let (right, rest) ← binary n (level + 1) rest
      chain n level (if additive then .sum left right else .other) rest

def namedExpression (fuel : Nat) (ps : List Piece) : Option (Expr × List Piece) :=
  match fuel with
  | 0 => none
  | n + 1 =>
    if isNameBefore ":=" ps then do
      let (_, rest) ← expression n ps.tail.tail
      pure (.other, rest)
    else do
      let (e, rest) ← expression n ps
      if isSymbol ":=" rest then none else pure (e, rest)

def item (fuel : Nat) (ps : List Piece) : Option (Expr × List Piece) :=
  match fuel with
  | 0 => none
  | n + 1 =>
    if isSymbol "*" ps then do
      let (_, rest) ← binary n starLevel ps.tail
      pure (.other, rest)
    else namedExpression n ps

def items (fuel : Nat) (close : String) (ps : List Piece) : Option (List Expr × List Piece) :=
  match fuel with
  | 0 => none
  | n + 1 =>
    if isSymbol close ps then some ([], ps.tail)
    else do
      let (e, rest) ← item n ps
      if isSymbol "," rest then
        let (es, rest) ← items n close rest.tail
        pure (e :: es, rest)
      else
        let rest ← symbol close rest
        pure ([e], rest)

def atom (fuel : Nat) (ps : List Piece) : Option (Expr × List Piece) :=
  match fuel with
  | 0 => none
  | n + 1 =>
    match ps with
    | .name s :: rest =>
      if constants.contains s then some (.constant, rest)
      else if keywords.contains s then none
      else some (.name s, rest)
    | .number k :: rest => some (.number k, rest)
    | .text s :: rest => joinStrings (.text s) rest
    | .bytes :: rest => joinStrings .bytes rest
    | .template _ :: rest => joinStrings .other rest
    | .symbol s :: rest =>
      if s = "...".toList then some (.constant, rest)
      else if s = "(".toList then parenthesis n rest
      else if s = "[".toList then bracket n rest
      else if s = "\x7b".toList then brace n rest
      else none
    | [] => none

def parenthesis (fuel : Nat) (ps : List Piece) : Option (Expr × List Piece) :=
  match fuel with
  | 0 => none
  | n + 1 =>
    if isSymbol ")" ps then some (.tuple [], ps.tail)
    else if isWord "yield" ps then do
      let rest ← yielded n ps.tail
      pure (.other, ← symbol ")" rest)
    else do
      let (e, rest) ← item n ps
      if isSymbol "," rest then
        let (es, rest) ← items n ")" rest.tail
        pure (.tuple (e :: es), rest)
      else if isSymbol "*" ps then none
      else if isSymbol ")" rest then pure (e, rest.tail)
      else
        let rest ← clauses n rest
        pure (.other, ← symbol ")" rest)

def bracket (fuel : Nat) (ps : List Piece) : Option (Expr × List Piece) :=
  match fuel with
  | 0 => none
  | n + 1 =>
    if isSymbol "]" ps then some (.list [], ps.tail)
    else do
      let (e, rest) ← item n ps
      if isSymbol "," rest then
        let (es, rest) ← items n "]" rest.tail
        pure (.list (e :: es), rest)
      else if isSymbol "]" rest then pure (.list [e], rest.tail)
      else if isSymbol "*" ps then none
      else
        let rest ← clauses n rest
        pure (.other, ← symbol "]" rest)

def brace (fuel : Nat) (ps : List Piece) : Option (Expr × List Piece) :=
  match fuel with
  | 0 => none
  | n + 1 =>
    if isSymbol "\x7d" ps then some (.dict [], ps.tail)
    else if isSymbol "**" ps then do
      let (es, rest) ← entries n ps
      pure (.dict es, rest)
    else do
      let (e, rest) ← item n ps
      if isSymbol ":" rest then
        if isSymbol "*" ps || isNameBefore ":=" ps then none
        else
          let (v, rest) ← expression n rest.tail
          if isSymbol "," rest then
            let (es, rest) ← entries n rest.tail
            pure (.dict (e :: v :: es), rest)
          else if isSymbol "\x7d" rest then pure (.dict [e, v], rest.tail)
          else
            let rest ← clauses n rest
            pure (.other, ← symbol "\x7d" rest)
      else if isSymbol "," rest then
        let (es, rest) ← items n "\x7d" rest.tail
        pure (.set (e :: es), rest)
      else if isSymbol "\x7d" rest then pure (.set [e], rest.tail)
      else if isSymbol "*" ps then none
      else
        let rest ← clauses n rest
        pure (.other, ← symbol "\x7d" rest)

def entries (fuel : Nat) (ps : List Piece) : Option (List Expr × List Piece) :=
  match fuel with
  | 0 => none
  | n + 1 =>
    if isSymbol "\x7d" ps then some ([], ps.tail)
    else do
      let (k, v, rest) ←
        if isSymbol "**" ps then do
          let (_, rest) ← binary n starLevel ps.tail
          pure (Expr.other, Expr.other, rest)
        else do
          let (k, rest) ← expression n ps
          let rest ← symbol ":" rest
          let (v, rest) ← expression n rest
          pure (k, v, rest)
      if isSymbol "," rest then
        let (es, rest) ← entries n rest.tail
        pure (k :: v :: es, rest)
      else
        let rest ← symbol "\x7d" rest
        pure ([k, v], rest)

def yielded (fuel : Nat) (ps : List Piece) : Option (List Piece) :=
  match fuel with
  | 0 => none
  | n + 1 =>
    if isWord "from" ps then (expression n ps.tail).map (·.2)
    else if isSymbol ")" ps then some ps
    else do
      let (_, rest) ← if isSymbol "*" ps then binary n starLevel ps.tail else expression n ps
      if isSymbol "," rest then
        if isSymbol ")" rest.tail then pure rest.tail
        else if isWord "from" rest.tail then none
        else yielded n rest.tail
      else pure rest

def clauses (fuel : Nat) (ps : List Piece) : Option (List Piece) :=
  match fuel with
  | 0 => none
  | n + 1 => do
    let rest ← word "for" (if isWord "async" ps then ps.tail else ps)
    let (_, rest) ← targets n rest
    let rest ← word "in" rest
    let (_, rest) ← binary n 0 rest
    let rest ← conditions n rest
    if isWord "for" rest || isWord "async" rest then clauses n rest else pure rest

def conditions (fuel : Nat) (ps : List Piece) : Option (List Piece) :=
  match fuel with
  | 0 => none
  | n + 1 =>
    if isWord "if" ps then do
      let (_, rest) ← binary n 0 ps.tail
      conditions n rest
    else some ps

/-- What a comprehension binds: targets with commas between them, and perhaps after them; and whether
there is a comma. -/
def targets (fuel : Nat) (ps : List Piece) : Option (Bool × List Piece) :=
  match fuel with
  | 0 => none
  | n + 1 => do
    let rest ← starTarget n ps
    if isSymbol "," rest then
      if isWord "in" rest.tail || isSymbol ")" rest.tail || isSymbol "]" rest.tail then
        pure (true, rest.tail)
      else
        let (_, rest) ← targets n rest.tail
        pure (true, rest)
    else pure (false, rest)

def starTarget (fuel : Nat) (ps : List Piece) : Option (List Piece) :=
  match fuel with
  | 0 => none
  | n + 1 => if isSymbol "*" ps then target n ps.tail else target n ps

def target (fuel : Nat) (ps : List Piece) : Option (List Piece) :=
  match fuel with
  | 0 => none
  | n + 1 =>
    if isSymbol "(" ps && !isTrailer (afterBracket 0 ps) then
      if isSymbol ")" ps.tail then some ps.tail.tail
      else do
        let (several, rest) ← targets n ps.tail
        if isSymbol "*" ps.tail && !several then none else symbol ")" rest
    else if isSymbol "[" ps && !isTrailer (afterBracket 0 ps) then
      if isSymbol "]" ps.tail then some ps.tail.tail
      else do
        let (_, rest) ← targets n ps.tail
        symbol "]" rest
    else if isName ps && !isTrailer ps.tail then some ps.tail
    else do
      let (e, rest) ← atom n ps
      match ← trailers n e .none rest with
      | (_, .part, rest) => some rest
      | _ => none

def trailers (fuel : Nat) (e : Expr) (last : Trailer) (ps : List Piece) :
    Option (Expr × Trailer × List Piece) :=
  match fuel with
  | 0 => none
  | n + 1 =>
    if isSymbol "." ps then
      if isName ps.tail then trailers n .other .part ps.tail.tail else none
    else if isSymbol "(" ps then
      if isSymbol ")" ps.tail then
        trailers n (match e with | .name s => .bareCall s | _ => .other) .call ps.tail.tail
      else do
        let rest ← arguments n .first ps.tail
        trailers n .other .call rest
    else if isSymbol "[" ps then do
      let rest ← subscripts n ps.tail
      trailers n .other .part rest
    else some (e, last, ps)

def arguments (fuel : Nat) (state : Arguments) (ps : List Piece) : Option (List Piece) :=
  match fuel with
  | 0 => none
  | n + 1 =>
    let next (state : Arguments) (rest : List Piece) : Option (List Piece) :=
      if isSymbol ")" rest then some rest.tail
      else do
        let rest ← symbol "," rest
        if isSymbol ")" rest then pure rest.tail else arguments n state rest
    if isSymbol "**" ps then do
      let (_, rest) ← expression n ps.tail
      next .doubled rest
    else if isSymbol "*" ps then
      match state with
      | .doubled => none
      | .named => do
        let (_, rest) ← expression n ps.tail
        next .named rest
      | _ => do
        let (_, rest) ← expression n ps.tail
        next .any rest
    else if isNameBefore "=" ps then do
      let (_, rest) ← expression n ps.tail.tail
      next (match state with | .doubled => .doubled | _ => .named) rest
    else
      match state with
      | .first => do
        let (_, rest) ← namedExpression n ps
        if isWord "for" rest || isWord "async" rest then
          let rest ← clauses n rest
          symbol ")" rest
        else next .any rest
      | .any => do
        let (_, rest) ← namedExpression n ps
        next .any rest
      | _ => none

def subscripts (fuel : Nat) (ps : List Piece) : Option (List Piece) :=
  match fuel with
  | 0 => none
  | n + 1 => do
    let rest ← subscript n ps
    if isSymbol "]" rest then pure rest.tail
    else
      let rest ← symbol "," rest
      if isSymbol "]" rest then pure rest.tail else subscripts n rest

/-- One subscript: an expression, perhaps with a star or a name given to it, or a slice. -/
def subscript (fuel : Nat) (ps : List Piece) : Option (List Piece) :=
  match fuel with
  | 0 => none
  | n + 1 =>
    let bound (ps : List Piece) : Option (List Piece) :=
      if isSymbol ":" ps || isSymbol "," ps || isSymbol "]" ps then some ps
      else (expression n ps).map (·.2)
    let slice (rest : List Piece) : Option (List Piece) := do
      let rest ← bound rest
      if isSymbol ":" rest then bound rest.tail else pure rest
    if isSymbol "*" ps then (expression n ps.tail).map (·.2)
    else if isSymbol ":" ps then slice ps.tail
    else do
      let (_, rest) ← namedExpression n ps
      if isSymbol ":" rest && !isNameBefore ":=" ps then slice rest.tail else pure rest

end

/-! ### The whole -/

def topLevel (fuel : Nat) : Nat → List Piece → Option (List Expr × Bool)
  | 0, _ => none
  | n + 1, ps => do
    let (e, rest) ← expression fuel ps
    if rest.isEmpty then pure ([e], false)
    else
      let rest ← symbol "," rest
      if rest.isEmpty then pure ([e], true)
      else
        let (es, _) ← topLevel fuel n rest
        pure (e :: es, true)

def parse? (ps : List Piece) : Option Expr :=
  (topLevel (24 * (ps.length + 1)) (ps.length + 1) ps).map fun
    | ([e], false) => e
    | (es, _) => .tuple es

def templateCodes (ps : List Piece) : List Text :=
  ps.flatMap fun
    | .template codes => codes
    | _ => []

def templatesSound : Nat → List Piece → Bool
  | 0, _ => false
  | n + 1, ps => (templateCodes ps).all fun code =>
    match pieces? (['('] ++ code ++ [')']) with
    | some found => found.rest.isEmpty && (parse? found.pieces).isSome && templatesSound n found.pieces
    | none => false

end InlineMarkup.Expression

import InlineMarkup.Expression.Escape

/-!
Templates: strings with expressions in braces. A template is split into text, which is checked, and
the codes of its expressions, which are left to be read. An expression may be followed by an equals
sign, by how it is to be converted, and by how it is to be laid out; the last is a template again.
-/
namespace InlineMarkup.Expression

/-! ### Text -/

def textRun (raw top : Bool) : (inName : Bool) → (skip : Nat) → Text → Nat
  | _, _, [] => 0
  | inName, skip + 1, _ :: rest => 1 + textRun raw top inName skip rest
  | true, 0, c :: rest => 1 + textRun raw top (c != '\x7d') 0 rest
  | false, 0, c :: rest =>
    if c = '\\' ∧ !raw then
      match rest with
      | [] => 1
      | d :: more =>
        if d = 'N' ∧ more.head? = some '\x7b' then 1 + textRun raw top true 2 rest
        else if d = '\x7b' ∨ d = '\x7d' then 1 + textRun raw top false 0 rest
        else 1 + textRun raw top false 1 rest
    else if c = '\x7b' ∨ c = '\x7d' then
      if top ∧ rest.head? = some c then 1 + textRun raw top false 1 rest else 0
    else 1 + textRun raw top false 0 rest

/-! ### Expressions -/

def closer (c : Char) : Char :=
  if c = '(' then ')' else if c = '[' then ']' else '\x7d'

def bracketLimit : Nat := 200

/-- How many characters the code of an expression takes, up to what ends it: a brace, or a mark that
something else follows. -/
def codeRun (string : Option (Char × Bool)) (brackets : List Char) : Nat → Text → Option Nat
  | _, [] => none
  | skip + 1, _ :: rest => (codeRun string brackets skip rest).map (· + 1)
  | 0, c :: rest =>
    if c = '\\' then none
    else
      (match string with
        | some (quote, long) =>
          if c ≠ quote then (codeRun string brackets 0 rest).map (· + 1)
          else if !long then (codeRun none brackets 0 rest).map (· + 1)
          else if rest.take 2 = [quote, quote] then (codeRun none brackets 2 rest).map (· + 1)
          else (codeRun string brackets 0 rest).map (· + 1)
        | none =>
          if c = '\'' ∨ c = '"' then
            let long := rest.take 2 == [c, c]
            (codeRun (some (c, long)) brackets (if long then 2 else 0) rest).map (· + 1)
          else if c = '#' then none
          else if c = '(' ∨ c = '[' ∨ c = '\x7b' then
            if bracketLimit ≤ brackets.length then none
            else (codeRun none (closer c :: brackets) 0 rest).map (· + 1)
          else match brackets with
            | b :: more =>
              if c = ')' ∨ c = ']' ∨ c = '\x7d' then
                if c = b then (codeRun none more 0 rest).map (· + 1) else none
              else (codeRun none brackets 0 rest).map (· + 1)
            | [] =>
              let compares := c = '!' ∨ c = '=' ∨ c = '<' ∨ c = '>'
              if compares ∧ rest.head? = some '=' then (codeRun none [] 1 rest).map (· + 1)
              else if c = '!' ∨ c = ':' ∨ c = '\x7d' ∨ c = '=' then some 0
              else if c = ')' ∨ c = ']' then none
              else (codeRun none [] 0 rest).map (· + 1))

def isCodeSpace (c : Char) : Bool := c == ' ' || c == '\t' || c == '\n' || c == '\x0c'

def afterEquals : Text → Text
  | '=' :: rest => rest.dropWhile fun c => isCodeSpace c || c == '\r' || c == '\x0b'
  | s => s

def afterConversion? : Text → Option Text
  | '!' :: c :: rest => if c = 's' ∨ c = 'r' ∨ c = 'a' then some rest else none
  | '!' :: [] => none
  | s => some s

/-! ### The whole -/

def codesFrom (raw : Bool) : Nat → (level : Nat) → Text → Option (List Text × Text)
  | 0, _, _ => none
  | fuel + 1, level, s => do
    let n := textRun raw (level == 0) false 0 s
    if !raw ∧ (decode? false (s.take n)).isNone then none
    match s.drop n with
    | '\x7b' :: inside =>
      if 2 ≤ level then none
      let size ← codeRun none [] 0 inside
      let code := inside.take size
      if code.all isCodeSpace then none
      let rest ← afterConversion? (afterEquals (inside.drop size))
      let (nested, rest) ← match rest with
        | ':' :: layout => codesFrom raw fuel (level + 1) layout
        | rest => some ([], rest)
      match rest with
      | '\x7d' :: rest =>
        let (more, rest) ← codesFrom raw fuel level rest
        pure (code :: nested ++ more, rest)
      | _ => none
    | rest => some ([], rest)

def codes? (raw : Bool) (body : Text) : Option (List Text) :=
  match codesFrom raw (body.length + 1) 0 body with
  | some (codes, []) => some codes
  | _ => none

end InlineMarkup.Expression

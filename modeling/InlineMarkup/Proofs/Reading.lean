import Mathlib
import InlineMarkup.Expression.Grammar

/-!
Reading the expressions that markup becomes. The part of the grammar of Python that they need is names,
members, texts, calls and conditional expressions: `a if c else b`, where `b` may be conditional again and
`a` and `c` may not.
-/
namespace InlineMarkup.Reading

open List

open Expression (Piece piece? isSymbol isWord keywords isNameLike)

inductive Expr where
  | none
  | name (s : Text)
  | text (s : Text)
  | member (e : Expr) (s : Text)
  | call (f : Expr) (args : List Expr)
  | cond (value test other : Expr)
  deriving Inhabited, Repr

/-! ### Pieces -/

def lexFrom : Nat → Text → Option (List Piece)
  | _, [] => some []
  | skip + 1, _ :: rest => lexFrom skip rest
  | 0, c :: rest =>
    if c = ' ' ∨ c = '\n' then lexFrom 0 rest
    else match piece? (c :: rest) with
      | none => none
      | some (p, size) => (lexFrom (size - 1) rest).map (p :: ·)

/-! ### Grammar -/

def ifWord : Piece := .name "if".toList
def elseWord : Piece := .name "else".toList
def noneWord : Text := "None".toList

mutual

def expression : Nat → List Piece → Option (Expr × List Piece)
  | 0, _ => none
  | n + 1, ps =>
    match primary n ps with
    | none => none
    | some (value, rest) =>
      match rest with
      | p :: rest' =>
        if p = ifWord then
          match primary n rest' with
          | some (test, q :: rest) =>
            if q = elseWord then
              (expression n rest).map fun (other, rest) => (.cond value test other, rest)
            else none
          | _ => none
        else some (value, rest)
      | [] => some (value, [])

def primary : Nat → List Piece → Option (Expr × List Piece)
  | 0, _ => none
  | n + 1, ps =>
    match ps with
    | .text s :: rest => some (.text s, rest)
    | .symbol ['('] :: rest =>
      match expression n rest with
      | some (e, .symbol [')'] :: rest) => some (e, rest)
      | _ => none
    | .name s :: rest =>
      if s = noneWord then some (.none, rest)
      else if keywords.contains s then none
      else trailers n (.name s) rest
    | _ => none

def trailers : Nat → Expr → List Piece → Option (Expr × List Piece)
  | 0, _, _ => none
  | n + 1, e, ps =>
    match ps with
    | .symbol ['.'] :: .name s :: rest => trailers n (.member e s) rest
    | .symbol ['('] :: rest =>
      match arguments n rest with
      | some (args, rest) => trailers n (.call e args) rest
      | none => none
    | ps => some (e, ps)

def arguments : Nat → List Piece → Option (List Expr × List Piece)
  | 0, _ => none
  | n + 1, ps =>
    match ps with
    | .symbol [')'] :: rest => some ([], rest)
    | ps =>
      match expression n ps with
      | some (e, .symbol [')'] :: rest) => some ([e], rest)
      | some (e, .symbol [','] :: rest) => (arguments n rest).map fun (es, rest) => (e :: es, rest)
      | _ => none

end

def read (s : Text) : Option Expr := do
  let ps ← lexFrom 0 s
  match expression (4 * ps.length + 4) ps with
  | some (e, []) => some e
  | _ => none

/-! ### Values -/

/-- A child of an element: a text, or an element of a class with its children. -/
inductive Value where
  | text (s : Text)
  | element (cls : Expr) (children : List Value)
  | unknown
  deriving Inhabited, Repr

def Expr.isLibrary (s : Text) : Expr → Bool
  | .member (.name m) t => m == "html".toList && t == s
  | _ => false

def Expr.holds (holds : Text → Bool) : Expr → Bool
  | .name s => holds s
  | _ => false

mutual

def Expr.values (holds : Text → Bool) : Expr → List Value
  | .none => []
  | .text s => [.text s]
  | .cond value test other =>
    if test.holds holds then value.values holds else other.values holds
  | .call f args =>
    match f with
    | .call f [] =>
      if f.isLibrary "x_frag".toList then valuesOf holds args
      else [.element f (valuesOf holds args)]
    | f => if f.isLibrary "rawhtml".toList then valuesOf holds args else [.unknown]
  | _ => [.unknown]

def valuesOf (holds : Text → Bool) : List Expr → List Value
  | [] => []
  | e :: es => e.values holds ++ valuesOf holds es

end

/-! ### Pieces that are an expression -/

def NoTrailer : List Piece → Prop
  | .symbol s :: _ => s ≠ ['.'] ∧ s ≠ ['(']
  | _ => True

def IsPrimary (ps : List Piece) (e : Expr) : Prop :=
  ∀ n rest, 4 * ps.length ≤ n → NoTrailer rest → primary n (ps ++ rest) = some (e, rest)

def IsArguments (ps : List Piece) (es : List Expr) : Prop :=
  ∀ n rest, 4 * ps.length + 2 ≤ n → arguments n (ps ++ .symbol [')'] :: rest) = some (es, rest)

def Expr.isCond : Expr → Bool
  | .cond _ _ _ => true
  | _ => false

/-- The pieces are an expression: conditional expressions one in the other's last part, and a
primary at the end. -/
inductive Chain : List Piece → Expr → Prop where
  | primary {ps : List Piece} {e : Expr} (h : IsPrimary ps e) (he : e.isCond = false) : Chain ps e
  | cond {vs ts os : List Piece} {value test other : Expr} (hv : IsPrimary vs value)
      (ht : IsPrimary ts test) (ho : Chain os other) :
      Chain (vs ++ ifWord :: (ts ++ elseWord :: os)) (.cond value test other)

def graft (test other : Expr) : Expr → Expr
  | .cond value first last => .cond value first (graft test other last)
  | e => .cond e test other

variable {ps : List Piece} {e : Expr} {n : Nat} {s t w : Text} {m : Option Text} {c : Char}

theorem Chain.graft {ts os : List Piece} {test other : Expr} (h : Chain ps e)
    (ht : IsPrimary ts test) (ho : Chain os other) :
    Chain (ps ++ ifWord :: (ts ++ elseWord :: os)) (graft test other e) := by
  induction h with
  | @primary ps e h he =>
    have hgraft : Reading.graft test other e = .cond e test other := by
      cases e with
      | cond => cases he
      | _ => rfl
    rw [hgraft]
    exact .cond h ht ho
  | cond hv ht' _ ih =>
    simp only [append_assoc, cons_append]
    exact .cond hv ht' ih

theorem noTrailer_if (rest : List Piece) : NoTrailer (ifWord :: rest) := trivial

theorem noTrailer_else (rest : List Piece) : NoTrailer (elseWord :: rest) := trivial

theorem primary_ne_nil : primary n [] = none := by
  cases n <;> rfl

theorem primary_closing {rest : List Piece} : primary n (.symbol [')'] :: rest) = none := by
  cases n with
  | zero => rfl
  | succ n => simp [primary]

theorem Chain.expression (h : Chain ps e) {n : Nat} (rest : List Piece)
    (hn : 4 * ps.length + 1 ≤ n) (hrest : NoTrailer rest) (hif : rest.head? ≠ some ifWord) :
    Reading.expression n (ps ++ rest) = some (e, rest) := by
  induction h generalizing n with
  | @primary ps e h he =>
    obtain ⟨n, rfl⟩ : ∃ m, n = m + 1 := ⟨n - 1, by omega⟩
    rw [Reading.expression, h n rest (by omega) hrest]
    cases rest with
    | nil => rfl
    | cons p more =>
      have hp : p ≠ ifWord := by simpa using hif
      simp [hp]
  | @cond vs ts os value test other hv ht _ ih =>
    simp only [length_append, length_cons] at hn
    obtain ⟨n, rfl⟩ : ∃ m, n = m + 1 := ⟨n - 1, by omega⟩
    simp only [append_assoc, cons_append]
    rw [Reading.expression, hv n _ (by omega) (noTrailer_if _)]
    dsimp only
    rw [if_pos rfl, ht n _ (by omega) (noTrailer_else _)]
    dsimp only
    rw [if_pos rfl, ih (by omega)]
    rfl

theorem Chain.head (h : Chain ps e) : ∃ p rest, ps = p :: rest ∧ p ≠ .symbol [')'] := by
  have hprimary : ∀ {ps e}, IsPrimary ps e → ∃ p rest, ps = p :: rest ∧ p ≠ .symbol [')'] := by
    intro ps e h
    have hread := h (4 * ps.length) [] le_rfl trivial
    rw [append_nil] at hread
    cases ps with
    | nil =>
      rw [primary_ne_nil] at hread
      cases hread
    | cons p rest =>
      refine ⟨p, rest, rfl, ?_⟩
      rintro rfl
      rw [primary_closing] at hread
      cases hread
  cases h with
  | primary h he => exact hprimary h
  | cond hv ht ho =>
    obtain ⟨p, rest, rfl, hp⟩ := hprimary hv
    exact ⟨p, _, rfl, hp⟩

theorem isArguments_nil : IsArguments [] [] := by
  intro n rest hn
  obtain ⟨n, rfl⟩ : ∃ m, n = m + 1 := ⟨n - 1, by omega⟩
  rfl

theorem Chain.arguments {more : List Piece} {es : List Expr} (h : Chain ps e)
    (hmore : IsArguments more es) : IsArguments (ps ++ .symbol [','] :: more) (e :: es) := by
  intro n rest hn
  simp only [length_append, length_cons] at hn
  obtain ⟨n, rfl⟩ : ∃ m, n = m + 1 := ⟨n - 1, by omega⟩
  have hexpr := h.expression (n := n) (.symbol [','] :: (more ++ .symbol [')'] :: rest)) (by omega)
    ⟨by decide, by decide⟩ (by simp [ifWord])
  obtain ⟨p, tail, rfl, hp⟩ := h.head
  rw [append_assoc, cons_append, cons_append, Reading.arguments]
  · rw [← cons_append, hexpr]
    simp [hmore n rest (by omega)]
  · intro x hx
    exact hp (List.cons.inj hx).1

theorem Chain.argument (h : Chain ps e) : IsArguments ps [e] := by
  intro n rest hn
  obtain ⟨n, rfl⟩ : ∃ m, n = m + 1 := ⟨n - 1, by omega⟩
  have hexpr := h.expression (n := n) (.symbol [')'] :: rest) (by omega) ⟨by decide, by decide⟩
    (by simp [ifWord])
  obtain ⟨p, tail, rfl, hp⟩ := h.head
  rw [cons_append, Reading.arguments]
  · rw [← cons_append, hexpr]
    rfl
  · intro x hx
    exact hp (List.cons.inj hx).1

/-! ### The expressions of markup -/

theorem isPrimary_text (s : Text) : IsPrimary [.text s] (.text s) := by
  intro n rest hn _
  obtain ⟨n, rfl⟩ : ∃ m, n = m + 1 := ⟨n - 1, by simp at hn; omega⟩
  rfl

theorem isPrimary_none : IsPrimary [.name noneWord] .none := by
  intro n rest hn _
  obtain ⟨n, rfl⟩ : ∃ m, n = m + 1 := ⟨n - 1, by simp at hn; omega⟩
  rfl

theorem trailers_none (e : Expr) {rest : List Piece} (hn : 0 < n) (hrest : NoTrailer rest) :
    trailers n e rest = some (e, rest) := by
  obtain ⟨n, rfl⟩ : ∃ m, n = m + 1 := ⟨n - 1, by omega⟩
  rw [trailers]
  · rintro s more rfl
    exact hrest.1 rfl
  · rintro more rfl
    exact hrest.2 rfl

theorem trailers_call {f : Expr} {es : List Expr}
    (h : IsArguments ps es) (hn : 4 * ps.length + 2 ≤ n) (rest : List Piece) :
    trailers (n + 1) f (.symbol ['('] :: (ps ++ .symbol [')'] :: rest)) = trailers n (.call f es) rest := by
  rw [trailers, h n rest hn]

def IsName (s : Text) : Prop := s ≠ noneWord ∧ keywords.contains s = false

theorem primary_name (hs : IsName s) (n : Nat) (rest : List Piece) :
    primary (n + 1) (.name s :: rest) = trailers n (.name s) rest := by
  rw [primary, if_neg hs.1, if_neg (by rw [hs.2]; exact Bool.false_ne_true)]

theorem isPrimary_name (hs : IsName s) : IsPrimary [.name s] (.name s) := by
  intro n rest hn hrest
  obtain ⟨n, rfl⟩ : ∃ m, n = m + 1 := ⟨n - 1, by simp at hn; omega⟩
  rw [singleton_append, primary_name hs]
  exact trailers_none _ (by simp at hn; omega) hrest

theorem IsPrimary.parenthesized (h : Chain ps e) : IsPrimary (.symbol ['('] :: (ps ++ [.symbol [')']])) e := by
  intro n rest hn hrest
  simp only [length_cons, length_append, length_nil] at hn
  obtain ⟨n, rfl⟩ : ∃ m, n = m + 1 := ⟨n - 1, by omega⟩
  have hexpr := h.expression (n := n) (.symbol [')'] :: rest) (by omega)
    ⟨by decide, by decide⟩ (by simp [ifWord])
  rw [cons_append, append_assoc, singleton_append, primary, hexpr]
  rfl

def pathPieces : Option Text → Text → List Piece
  | none, s => [.name s]
  | some m, s => [.name m, .symbol ['.'], .name s]

def path : Option Text → Text → Expr
  | none, s => .name s
  | some m, s => .member (.name m) s

def pathHead (m : Option Text) (s : Text) : Text := m.getD s

theorem primary_path (hs : IsName (pathHead m s)) {n : Nat} (hn : 2 ≤ n) (rest : List Piece) :
    ∃ k, n ≤ k + 2 ∧ primary n (pathPieces m s ++ rest) = trailers k (path m s) rest := by
  obtain ⟨n, rfl⟩ : ∃ m, n = m + 2 := ⟨n - 2, by omega⟩
  cases m with
  | none => exact ⟨n + 1, by omega, primary_name hs (n + 1) rest⟩
  | some m =>
    have hname := primary_name hs (n + 1) (.symbol ['.'] :: .name s :: rest)
    exact ⟨n, by omega, hname⟩

theorem isPrimary_call (hs : IsName (pathHead m s)) {ps : List Piece} {es : List Expr} (h : IsArguments ps es) :
    IsPrimary (pathPieces m s ++ .symbol ['('] :: (ps ++ [.symbol [')']])) (.call (path m s) es) := by
  intro n rest hn hrest
  simp only [length_append, length_cons, length_nil] at hn
  obtain ⟨k, hk, hpath⟩ := primary_path hs (n := n) (by omega)
    (.symbol ['('] :: (ps ++ .symbol [')'] :: rest))
  obtain ⟨k, rfl⟩ : ∃ j, k = j + 1 := ⟨k - 1, by omega⟩
  simp only [append_assoc, cons_append, nil_append]
  rw [hpath, trailers_call h (by omega)]
  exact trailers_none _ (by omega) hrest

theorem isPrimary_element (hs : IsName (pathHead m s)) {ps : List Piece} {es : List Expr} (h : IsArguments ps es) :
    IsPrimary (pathPieces m s ++ .symbol ['('] :: .symbol [')'] :: .symbol ['('] ::
      (ps ++ [.symbol [')']])) (.call (.call (path m s) []) es) := by
  intro n rest hn hrest
  simp only [length_append, length_cons, length_nil] at hn
  obtain ⟨k, hk, hpath⟩ := primary_path hs (n := n) (by omega)
    (.symbol ['('] :: .symbol [')'] :: .symbol ['('] :: (ps ++ .symbol [')'] :: rest))
  obtain ⟨k, rfl⟩ : ∃ j, k = j + 2 := ⟨k - 2, by omega⟩
  have hempty := trailers_call (n := k + 1) (f := path m s) isArguments_nil (by simp; omega)
    (.symbol ['('] :: (ps ++ .symbol [')'] :: rest))
  simp only [append_assoc, cons_append, nil_append] at hempty ⊢
  rw [hpath, hempty, trailers_call h (by omega)]
  exact trailers_none _ (by omega) hrest

/-! ### The text of pieces -/

def Lexes (s : Text) (ps : List Piece) : Prop :=
  ∀ rest, lexFrom 0 (s ++ rest) = (lexFrom 0 rest).map (ps ++ ·)

theorem lexes_nil : Lexes [] [] := by
  intro rest
  simp

theorem Lexes.append {qs : List Piece} (hs : Lexes s ps) (ht : Lexes t qs) : Lexes (s ++ t) (ps ++ qs) := by
  intro rest
  rw [append_assoc, hs, ht, Option.map_map]
  congr 1
  funext more
  simp

theorem lexes_space : Lexes [' '] [] := by
  intro rest
  simp [lexFrom]

theorem lexFrom_skip (s rest : Text) : lexFrom s.length (s ++ rest) = lexFrom 0 rest := by
  induction s with
  | nil => rfl
  | cons c s ih => simpa [lexFrom] using ih

theorem lexes_piece {p : Piece} (hc : c ≠ ' ' ∧ c ≠ '\n')
    (h : ∀ rest, piece? (c :: (s ++ rest)) = some (p, s.length + 1)) : Lexes (c :: s) [p] := by
  intro rest
  rw [cons_append, lexFrom, if_neg (by tauto), h rest]
  simp [lexFrom_skip]

theorem lexes_symbol (hc : c = '(' ∨ c = ')' ∨ c = ',') : Lexes [c] [.symbol [c]] := by
  refine lexes_piece ?_ fun rest => ?_
  · rcases hc with rfl | rfl | rfl <;> decide
  · rcases hc with rfl | rfl | rfl <;> rfl

/-! ### Names -/

theorem isNameLike_of_continues (h : continuesIdentifier c = true) : isNameLike c = true := by
  unfold continuesIdentifier at h
  unfold isNameLike isAsciiDigit
  split at h
  · simp only [Bool.or_eq_true] at h ⊢
    tauto
  · rename_i hc
    simp only [Bool.or_eq_true, decide_eq_true_eq]
    exact Or.inr (by omega)

theorem continues_of_starts (h : startsIdentifier c = true) : continuesIdentifier c = true := by
  unfold continuesIdentifier
  split
  · rename_i hc
    rw [startsIdentifier, if_pos hc] at h
    rw [h, Bool.true_or]
  · rw [h, Bool.true_or]

theorem not_digit_of_starts (h : startsIdentifier c = true) : isAsciiDigit c = false ∧ c ≠ '.' := by
  constructor
  · by_contra hdigit
    simp only [isAsciiDigit, Bool.not_eq_false, Bool.and_eq_true, decide_eq_true_eq] at hdigit
    have hle : c.toNat ≤ '9'.toNat := hdigit.2
    have hlt : c.toNat < 0x80 := lt_of_le_of_lt hle (by decide)
    rw [startsIdentifier, if_pos hlt] at h
    simp only [isAsciiLetter, Bool.or_eq_true, Bool.and_eq_true, decide_eq_true_eq, beq_iff_eq] at h
    rcases h with (h | h) | rfl
    · exact absurd (h.1.trans hdigit.2) (by decide)
    · exact absurd (h.1.trans hdigit.2) (by decide)
    · exact absurd hdigit.2 (by decide)
  · rintro rfl
    exact absurd h (by decide)

theorem all_nameLike (h : isIdentifier w = true) : ∀ c ∈ w, isNameLike c = true := by
  cases w with
  | nil => simp
  | cons c rest =>
    simp only [isIdentifier, Bool.and_eq_true, all_eq_true] at h
    intro d hd
    rcases mem_cons.mp hd with rfl | hd
    · exact isNameLike_of_continues (continues_of_starts h.1)
    · exact isNameLike_of_continues (h.2 d hd)

def EndsName (d : Char) : Prop := isNameLike d = false ∧ d ≠ '\'' ∧ d ≠ '"'

theorem head_dropWhile (hw : ∀ c ∈ w, isNameLike c = true) {d : Char} (hd : EndsName d)
    (rest : Text) : ∃ q more, (w ++ d :: rest).dropWhile isAsciiLetter = q :: more ∧ q ≠ '\'' ∧ q ≠ '"' := by
  induction w with
  | nil =>
    have hletter : isAsciiLetter d = false := by
      have hno := hd.1
      simp only [isNameLike, Bool.or_eq_false_iff] at hno
      exact hno.1.1.1
    exact ⟨d, rest, by simp [hletter], hd.2⟩
  | cons c w ih =>
    rw [cons_append, dropWhile_cons]
    split
    · exact ih fun e he => hw e (mem_cons_of_mem _ he)
    · refine ⟨c, _, rfl, ?_, ?_⟩
      · rintro rfl
        exact absurd (hw _ mem_cons_self) (by decide)
      · rintro rfl
        exact absurd (hw _ mem_cons_self) (by decide)

theorem piece?_name (hw : isIdentifier w = true) {d : Char} (hd : EndsName d) (rest : Text) :
    piece? (w ++ d :: rest) = some (.name w, w.length) := by
  have hlike := all_nameLike hw
  obtain ⟨q, more, hdrop, hq⟩ := head_dropWhile hlike hd rest
  have hstring : Expression.string? (w ++ d :: rest) = none := by
    unfold Expression.string?
    dsimp only
    have hsplit := takeWhile_append_dropWhile (p := isAsciiLetter) (l := w ++ d :: rest)
    rw [hdrop] at hsplit
    generalize (w ++ d :: rest).takeWhile isAsciiLetter = letters at hsplit ⊢
    rw [← hsplit, drop_left]
    split
    · rename_i marks q' more' _ heq
      cases heq
      rw [if_neg (by tauto)]
    · rfl
  cases w with
  | nil => cases hw
  | cons c w =>
    have hstart : startsIdentifier c = true := by
      simp only [isIdentifier, Bool.and_eq_true] at hw
      exact hw.1
    obtain ⟨hdigit, hpoint⟩ := not_digit_of_starts hstart
    have hnumber : Expression.beginsNumber (c :: (w ++ d :: rest)) = false := by
      unfold Expression.beginsNumber
      split
      · rename_i heq
        exact absurd (List.cons.inj heq).1 hpoint
      · rename_i heq
        rw [← (List.cons.inj heq).1]
        exact hdigit
      · rfl
    have htake : (c :: w ++ d :: rest).takeWhile isNameLike = c :: w := by
      rw [takeWhile_append_of_pos hlike, takeWhile_cons, hd.1]
      simp
    unfold piece?
    rw [hstring]
    dsimp only
    rw [cons_append, hnumber, if_neg Bool.false_ne_true, ← cons_append, htake]
    simp [hw]

theorem lexes_name (hw : isIdentifier w = true) {d : Char} (hd : EndsName d) {t : Text}
    {ps : List Piece} (ht : Lexes (d :: t) ps) : Lexes (w ++ d :: t) (.name w :: ps) := by
  intro rest
  have hpiece := piece?_name hw hd (t ++ rest)
  cases w with
  | nil => cases hw
  | cons c w =>
    have hc : ¬ (c = ' ' ∨ c = '\n') := by
      have hlike := all_nameLike hw c mem_cons_self
      rintro (rfl | rfl) <;> exact absurd hlike (by decide)
    have hhead : piece? (c :: (w ++ (d :: t ++ rest))) = some (.name (c :: w), w.length + 1) := hpiece
    rw [append_assoc, cons_append, lexFrom, if_neg hc, hhead]
    dsimp only
    rw [Nat.add_sub_cancel, lexFrom_skip, ht rest, Option.map_map]
    rfl

def pathText : Option Text → Text → Text
  | none, s => s
  | some m, s => m ++ '.' :: s

theorem lexes_point (hc : startsIdentifier c = true)
    (h : Lexes (c :: t) ps) : Lexes ('.' :: c :: t) (.symbol ['.'] :: ps) := by
  intro rest
  obtain ⟨hdigit, hpoint⟩ := not_digit_of_starts hc
  have hpiece : piece? ('.' :: c :: (t ++ rest)) = some (.symbol ['.'], 1) := by
    have hnumber : Expression.beginsNumber ('.' :: c :: (t ++ rest)) = false := hdigit
    have hsymbol : Expression.symbol? ('.' :: c :: (t ++ rest)) = some ['.'] := by
      have hsymbols : Expression.symbols = [['.', '.', '.'], ['*', '*'], ['/', '/'], ['<', '<'],
        ['>', '>'], ['<', '='], ['>', '='], ['=', '='], ['!', '='], ['-', '>'], [':', '=']] := rfl
      have hne : ('.' == c) = false := by simpa using hpoint.symm
      have hnone : Expression.symbols.find? (·.isPrefixOf ('.' :: c :: (t ++ rest))) = none := by
        rw [hsymbols]
        simp [List.isPrefixOf, hne]
      unfold Expression.symbol?
      rw [hnone]
      rfl
    have hstring : Expression.string? ('.' :: c :: (t ++ rest)) = none := rfl
    have hname : ('.' :: c :: (t ++ rest)).takeWhile isNameLike = [] := rfl
    unfold piece?
    rw [hstring]
    dsimp only
    rw [hnumber, if_neg Bool.false_ne_true, hname]
    dsimp only
    rw [hsymbol]
    rfl
  have htail := h rest
  rw [cons_append, cons_append, lexFrom, if_neg (by decide), hpiece]
  dsimp only
  rw [Nat.sub_self, ← cons_append, htail, Option.map_map]
  rfl

theorem lexes_path (hm : ∀ t, m = some t → isIdentifier t = true) (hs : isIdentifier s = true) :
    Lexes (pathText m s ++ ['(']) (pathPieces m s ++ [.symbol ['(']]) := by
  have hopen : EndsName '(' := ⟨by decide, by decide, by decide⟩
  have hname : Lexes (s ++ ['(']) [.name s, .symbol ['(']] :=
    lexes_name hs hopen (lexes_symbol (Or.inl rfl))
  cases m with
  | none => exact hname
  | some m =>
    have hpoint : EndsName '.' := ⟨by decide, by decide, by decide⟩
    cases s with
    | nil => cases hs
    | cons c s =>
      have hstart : startsIdentifier c = true := by
        simp only [isIdentifier, Bool.and_eq_true] at hs
        exact hs.1
      have hmember := lexes_name (hm m rfl) hpoint (lexes_point hstart hname)
      simpa [pathText, pathPieces] using hmember

/-! ### Strings -/

def quoted (s : Text) : Text := Text.replaceChar '"' ['\\', '"'] s

def Plain (s : Text) : Prop := ∀ c ∈ s, c ≠ '\\' ∧ c ≠ '\n'

theorem quoted_cons (c : Char) (s : Text) :
    quoted (c :: s) = (if c = '"' then ['\\', '"'] else [c]) ++ quoted s := rfl

theorem shortBody?_quoted (h : Plain s) (rest : Text) :
    Expression.shortBody? '"' (quoted s ++ '"' :: rest) = some (quoted s, (quoted s).length + 1) := by
  induction s with
  | nil => rfl
  | cons c s ih =>
    have hs := ih fun d hd => h d (mem_cons_of_mem _ hd)
    obtain ⟨hslash, hnewline⟩ := h c mem_cons_self
    rw [quoted_cons]
    split
    · simp [Expression.shortBody?, hs]
    · rename_i hquote
      rw [singleton_append, cons_append, Expression.shortBody?]
      · simp [hquote, hnewline, hs]
      · exact fun d more heq => absurd heq hslash

theorem decode?_quoted (h : Plain s) : Expression.decode? false (quoted s) = some s := by
  unfold Expression.decode?
  induction s with
  | nil => rfl
  | cons c s ih =>
    have hs := ih fun d hd => h d (mem_cons_of_mem _ hd)
    obtain ⟨hslash, hnewline⟩ := h c mem_cons_self
    rw [quoted_cons]
    split
    · rename_i hquote
      subst hquote
      have hescape : Expression.letterEscape? '"' = some ['"'] := rfl
      simp [Expression.decodeFrom, hescape, hs]
    · simp [Expression.decodeFrom, hslash, hs]

theorem quoted_head (hs : s ≠ []) : ∃ c rest, quoted s = c :: rest ∧ c ≠ '"' := by
  cases s with
  | nil => exact absurd rfl hs
  | cons c s =>
    rw [quoted_cons]
    split
    · exact ⟨'\\', _, rfl, by decide⟩
    · rename_i hc
      exact ⟨c, _, rfl, hc⟩

theorem piece?_quoted (hs : s ≠ []) (rest : Text) : piece? ('u' :: '"' :: (quoted s ++ '"' :: rest)) =
      (Expression.shortBody? '"' (quoted s ++ '"' :: rest)).bind fun (body, n) =>
        (Expression.decode? false body).map fun t => (.text t, n + 2) := by
  obtain ⟨c, more, hhead, hc⟩ := quoted_head hs
  have hshort : (quoted s ++ '"' :: rest).take 2 ≠ ['"', '"'] := by
    rw [hhead]
    intro heq
    exact hc (List.cons.inj heq).1
  have hletters : ('u' :: '"' :: (quoted s ++ '"' :: rest)).takeWhile isAsciiLetter = ['u'] := rfl
  have hmarks : Expression.marks? ['u'] = some {} := by decide
  have hstring : Expression.string? ('u' :: '"' :: (quoted s ++ '"' :: rest)) =
      some ((Expression.shortBody? '"' (quoted s ++ '"' :: rest)).bind fun (body, n) =>
        (Expression.decode? false body).map fun t => (.text t, n + 2)) := by
    unfold Expression.string?
    rw [hletters]
    dsimp only [length_singleton, drop_succ_cons, drop_zero]
    rw [hmarks]
    cases hbody : Expression.shortBody? '"' (quoted s ++ '"' :: rest) with
    | none => simp [hshort, hbody]
    | some found =>
      have hsize : 1 + (found.2 + 1) = found.2 + 2 := by omega
      simp [hshort, hbody, Expression.stringPiece?, Function.comp_def, hsize]
  unfold piece?
  rw [hstring]

theorem lexes_quoted (hs : s ≠ [])
    (hbody : ∀ rest, Expression.shortBody? '"' (quoted s ++ '"' :: rest) = some (quoted s, (quoted s).length + 1))
    (hdecode : Expression.decode? false (quoted s) = some t) :
    Lexes ('u' :: '"' :: (quoted s ++ ['"'])) [.text t] := by
  refine lexes_piece (by decide) fun rest => ?_
  simp only [cons_append, append_assoc, nil_append]
  rw [piece?_quoted hs, hbody]
  simp [hdecode]

theorem lexes_string (h : Plain s) (hs : s ≠ []) : Lexes ('u' :: '"' :: (quoted s ++ ['"'])) [.text s] :=
  lexes_quoted hs (shortBody?_quoted h) (decode?_quoted h)

theorem read_of_chain (hs : Lexes s ps) (h : Chain ps e) : read s = some e := by
  have hlex : lexFrom 0 s = some ps := by
    have hnil := hs []
    simpa [lexFrom] using hnil
  have hexpr := h.expression (n := 4 * ps.length + 4) [] (by omega) trivial (by simp)
  rw [append_nil] at hexpr
  simp [read, hlex, hexpr]

end InlineMarkup.Reading

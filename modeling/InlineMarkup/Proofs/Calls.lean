import Mathlib
import InlineMarkup.Restore

/-!
What a call says. A call that holds markup spells it as a string with a placeholder for each piece of code,
and then the pieces.
-/
namespace InlineMarkup

open Translate Expression List

/-! ### The markup between quotes -/

theorem quoteLiteral_cons (c : Char) (s : Text) : quoteLiteral (c :: s) =
      (if c = '\\' then ['\\', '\\'] else if c = '\'' then ['\\', '\''] else [c]) ++ quoteLiteral s := by
  unfold quoteLiteral Text.replaceChar
  by_cases hslash : c = '\\'
  · simp [hslash]
  · by_cases hquote : c = '\'' <;> simp [hslash, hquote]

theorem longBody?_quoteLiteral (s rest : Text) : longBody? '\'' (quoteLiteral s ++ '\'' :: '\'' :: '\'' :: rest) =
      some (quoteLiteral s, (quoteLiteral s).length + 3) := by
  induction s with
  | nil => rfl
  | cons c s ih =>
    rw [quoteLiteral_cons]
    split_ifs with hslash hquote
    · simp [longBody?, ih]
    · simp [longBody?, ih]
    · rw [singleton_append, cons_append, longBody?]
      · simp [hquote, ih]
      · exact fun d more heq => absurd heq hslash

theorem decode?_quoteLiteral (s : Text) : decode? false (quoteLiteral s) = some s := by
  unfold decode?
  induction s with
  | nil => rfl
  | cons c s ih =>
    rw [quoteLiteral_cons]
    split_ifs with hslash hquote
    · subst hslash
      have hescape : letterEscape? '\\' = some ['\\'] := rfl
      simp [decodeFrom, hescape, ih]
    · subst hquote
      have hescape : letterEscape? '\'' = some ['\''] := rfl
      simp [decodeFrom, hescape, ih]
    · simp [decodeFrom, hslash, ih]

def tripleQuoted (s : Text) : Text := "'''".toList ++ (quoteLiteral s ++ "'''".toList)

theorem tripleQuoted_eq (s : Text) :
    tripleQuoted s = '\'' :: '\'' :: '\'' :: (quoteLiteral s ++ ['\'', '\'', '\'']) := rfl

theorem piece?_tripleQuoted (s : Text) : piece? (tripleQuoted s) = some (.text s, (tripleQuoted s).length) := by
  have hletters : (tripleQuoted s).takeWhile isAsciiLetter = [] := rfl
  have hmarks : marks? [] = some {} := by decide
  have hbody := longBody?_quoteLiteral s []
  have hstring : string? (tripleQuoted s) = some (some (.text s, (tripleQuoted s).length)) := by
    unfold string?
    rw [hletters]
    dsimp only [length_nil, drop_zero]
    rw [hmarks, tripleQuoted_eq]
    simp [hbody, stringPiece?, decode?_quoteLiteral]
  unfold piece?
  rw [hstring]

theorem piecesFrom_skip (s : Text) (depth : Nat) : piecesFrom depth s.length s = some {} := by
  induction s with
  | nil => rfl
  | cons c rest ih => simpa [piecesFrom] using ih

theorem pieces?_tripleQuoted (s : Text) : pieces? (tripleQuoted s) = some { pieces := [.text s] } := by
  have hpiece := piece?_tripleQuoted s
  have hrest := piecesFrom_skip ('\'' :: '\'' :: (quoteLiteral s ++ ['\'', '\'', '\''])) 0
  rw [tripleQuoted_eq] at hpiece ⊢
  unfold pieces?
  rw [piecesFrom]
  · simp only [hpiece, length_cons, Nat.add_sub_cancel] at hrest ⊢
    rw [show depthAfter 0 (.text s) = 0 from rfl, hrest]
    simp
  · exact fun _ _ h => absurd (List.cons.inj h).1 (by decide)

theorem universalNewlines_eq {s : Text} (h : '\r' ∉ s) : Text.universalNewlines s = s := by
  induction s with
  | nil => rfl
  | cons c rest ih =>
    simp only [mem_cons, not_or] at h
    rw [Text.universalNewlines]
    · rw [ih h.2, if_neg (Ne.symm h.1)]
    · exact fun _ hc => absurd hc.symm h.1

theorem mem_tripleQuoted {s : Text} {c : Char} (h : c ∈ tripleQuoted s) : c = '\'' ∨ c = '\\' ∨ c ∈ s := by
  have hquote : ∀ s : Text, c ∈ quoteLiteral s → c = '\'' ∨ c = '\\' ∨ c ∈ s := by
    intro s h
    induction s with
    | nil => cases h
    | cons d s ih =>
      rw [quoteLiteral_cons, mem_append] at h
      rcases h with h | h
      · split_ifs at h with hslash hd
        · simp_all
        · simp only [mem_cons, not_mem_nil, or_false] at h
          exact h.elim (fun h => Or.inr (Or.inl h)) Or.inl
        · simp_all
      · rcases ih h with h | h | h <;> simp [h]
  rw [tripleQuoted_eq] at h
  simp only [mem_cons, mem_append, not_mem_nil, or_false] at h
  have hmark : c = '\'' ∨ c ∈ quoteLiteral s := by tauto
  exact hmark.elim Or.inl (hquote s)

theorem Literal.read_tripleQuoted {s : Text} (hreturn : '\r' ∉ s) (hzero : '\x00' ∉ s) :
    InlineMarkup.Literal.read (tripleQuoted s) = .ok (.text s) := by
  have hnewlines : Text.universalNewlines (tripleQuoted s) = tripleQuoted s := by
    refine universalNewlines_eq fun h => ?_
    rcases mem_tripleQuoted h with h | h | h
    · exact absurd h (by decide)
    · exact absurd h (by decide)
    · exact hreturn h
  have hdrop : (tripleQuoted s).dropWhile (fun c => c == ' ' || c == '\t') = tripleQuoted s := rfl
  have hnone : (tripleQuoted s).contains '\x00' = false := by
    rw [← Bool.not_eq_true, contains_iff_mem]
    intro h
    rcases mem_tripleQuoted h with h | h | h
    · exact absurd h (by decide)
    · exact absurd h (by decide)
    · exact hzero h
  have hline : line (tripleQuoted s) = .begun (tripleQuoted s) := rfl
  have hexpr (n : Nat) : Literal.expression? n [.text s] = some (.text s) := by
    rfl
  unfold InlineMarkup.Literal.read
  simp only [hnewlines, hdrop, hnone, hline, pieces?_tripleQuoted, hexpr]
  rfl

/-! ### The markup with placeholders -/

/-- A piece of markup as it stands in the source: text, or code in its braces. -/
inductive Segment where
  | text (s : Text)
  | code (s : Text)

namespace Segment

def source : List Segment → Text
  | [] => []
  | text s :: rest => s ++ source rest
  | code s :: rest => s ++ source rest

def doubled (s : Text) : Text := s.flatMap fun c => if c = '\x7b' ∨ c = '\x7d' then [c, c] else [c]

def format : List Segment → Text
  | [] => []
  | text s :: rest => doubled s ++ format rest
  | code _ :: rest => '\x7b' :: '\x7d' :: format rest

def codes : List Segment → List Text
  | [] => []
  | text _ :: rest => codes rest
  | code s :: rest => s :: codes rest

theorem source_append (xs ys : List Segment) : source (xs ++ ys) = source xs ++ source ys := by
  induction xs with
  | nil => rfl
  | cons x xs ih => cases x <;> simp [source, ih]

theorem format_append (xs ys : List Segment) : format (xs ++ ys) = format xs ++ format ys := by
  induction xs with
  | nil => rfl
  | cons x xs ih => cases x <;> simp [format, ih]

theorem codes_append (xs ys : List Segment) : codes (xs ++ ys) = codes xs ++ codes ys := by
  induction xs with
  | nil => rfl
  | cons x xs ih => cases x <;> simp [codes, ih]

theorem doubled_append (x y : Text) : doubled (x ++ y) = doubled x ++ doubled y := by
  simp [doubled]

variable {s : Text} {args : List Text} {fuel : Nat}

theorem doubled_of_plain (h : ∀ c ∈ s, c ≠ '\x7b' ∧ c ≠ '\x7d') : doubled s = s := by
  induction s with
  | nil => rfl
  | cons c rest ih =>
    obtain ⟨hopen, hclose⟩ := h c mem_cons_self
    have hrest := ih fun d hd => h d (mem_cons_of_mem _ hd)
    simp only [doubled] at hrest
    simp [doubled, hopen, hclose, hrest]

def numbering : Nat → Format.Numbering
  | 0 => .undecided
  | n + 1 => .counted (n + 1)

theorem select_next (args : List Text) (n : Nat) :
    Format.select args (numbering n) [] = (Format.argument args n).map (·, numbering (n + 1)) := by
  cases n <;> rfl

theorem fill_char (args : List Text) (fuel n : Nat) (c : Char) (rest : Text) :
    Format.fill args 1 (fuel + 1) (numbering n) (doubled [c] ++ rest) =
      (Format.fill args 1 fuel (numbering n) rest).map fun (t, m) => (c :: t, m) := by
  by_cases hopen : c = '\x7b'
  · subst hopen
    simp [doubled, Format.fill]
  by_cases hclose : c = '\x7d'
  · subst hclose
    simp [doubled, Format.fill]
  have hplain : doubled [c] ++ rest = c :: rest := by simp [doubled, hopen, hclose]
  rw [hplain]
  conv => lhs; unfold Format.fill
  split <;> simp_all

theorem fillField_empty {n : Nat} {a : Text} (h : args[n]? = some a) :
    Format.fillField args 1 (fuel + 1) (numbering n) { name := [] } = .ok (a, numbering (n + 1)) := by
  have hsplit : Format.splitName [] = ([], []) := rfl
  have hselect : Format.select args (numbering n) [] = .ok (a, numbering (n + 1)) := by
    rw [select_next, Format.argument, h]
    rfl
  simp [Format.fillField, hsplit, hselect, Format.part, Format.convert, Format.applyTo, Format.applySpec, bind, Except.bind, pure, Except.pure]

theorem fill_placeholder {n : Nat} {a : Text} (ha : args[n]? = some a) (rest : Text) :
    Format.fill args 1 (fuel + 2) (numbering n) ('\x7b' :: '\x7d' :: rest) =
      (Format.fill args 1 (fuel + 1) (numbering (n + 1)) rest).map fun (t, m) => (a ++ t, m) := by
  have hread : Format.readField ('\x7d' :: rest) = .ok ({ name := [] }, rest) := rfl
  rw [Format.fill]
  · simp only [hread, fillField_empty ha]
  · exact fun _ h => absurd (List.cons.inj h).1 (by decide)

theorem doubled_cons (c : Char) (s : Text) : doubled (c :: s) = doubled [c] ++ doubled s :=
  doubled_append [c] s

theorem fill_doubled (args : List Text) (fuel n : Nat) (s rest : Text) :
    Format.fill args 1 (s.length + fuel) (numbering n) (doubled s ++ rest) =
      (Format.fill args 1 fuel (numbering n) rest).map fun (t, m) => (s ++ t, m) := by
  induction s with
  | nil =>
    rw [length_nil, Nat.zero_add, doubled, flatMap_nil, nil_append]
    cases Format.fill args 1 fuel (numbering n) rest <;> rfl
  | cons c s ih =>
    have hlength : (c :: s).length + fuel = s.length + fuel + 1 := by
      rw [length_cons]
      omega
    rw [hlength, doubled_cons, append_assoc, fill_char, ih]
    cases Format.fill args 1 fuel (numbering n) rest <;> rfl

def looks : List Segment → Nat
  | [] => 0
  | text s :: rest => s.length + looks rest
  | code _ :: rest => looks rest + 1

theorem looks_le (segments : List Segment) : looks segments ≤ (format segments).length := by
  have hdoubled (s : Text) : s.length ≤ (doubled s).length := by
    induction s with
    | nil => exact le_rfl
    | cons c s ih =>
      rw [doubled_cons, length_append, length_cons]
      have hone : 1 ≤ (doubled [c]).length := by
        simp only [doubled, flatMap_cons, flatMap_nil, append_nil]
        split <;> simp
      omega
  induction segments with
  | nil => exact le_rfl
  | cons segment rest ih =>
    cases segment with
    | text s =>
      rw [looks, format, length_append]
      exact Nat.add_le_add (hdoubled s) ih
    | code s =>
      simp only [looks, format, length_cons]
      omega

theorem fill_format (segments : List Segment) (before later : List Text) (fuel : Nat) (tail : Text) :
    Format.fill (before ++ (codes segments ++ later)) 1 (looks segments + (fuel + 1))
        (numbering before.length) (format segments ++ tail) =
      (Format.fill (before ++ (codes segments ++ later)) 1 (fuel + 1)
        (numbering (before.length + (codes segments).length)) tail).map
          fun (t, m) => (source segments ++ t, m) := by
  induction segments generalizing before with
  | nil =>
    rw [looks, Nat.zero_add, codes, format, nil_append, nil_append, length_nil, Nat.add_zero]
    cases Format.fill (before ++ later) 1 (fuel + 1) (numbering before.length) tail <;> rfl
  | cons segment rest ih =>
    cases segment with
    | text s =>
      rw [looks, Nat.add_assoc, format, append_assoc, fill_doubled, codes, ih before]
      cases Format.fill (before ++ (codes rest ++ later)) 1 (fuel + 1)
        (numbering (before.length + (codes rest).length)) tail <;> simp [Except.map, source]
    | code s =>
      have hargs : before ++ (codes (code s :: rest) ++ later) =
          (before ++ [s]) ++ (codes rest ++ later) := by simp [codes]
      have hnext := ih (before ++ [s])
      have hhere : (before ++ [s] ++ (codes rest ++ later))[before.length]? = some s := by simp
      have hfuel : looks (code s :: rest) + (fuel + 1) = looks rest + fuel + 2 := by
        rw [looks]
        omega
      have hcount : before.length + (codes (code s :: rest)).length =
          (before ++ [s]).length + (codes rest).length := by
        simp [codes]
        omega
      rw [length_append, length_singleton, ← Nat.add_assoc (looks rest)] at hnext
      rw [hargs, hfuel, hcount, format, cons_append, cons_append, fill_placeholder hhere,
        hnext, length_append, length_singleton]
      cases Format.fill (before ++ [s] ++ (codes rest ++ later)) 1 (fuel + 1)
        (numbering (before.length + 1 + (codes rest).length)) tail <;> simp [Except.map, source]

theorem format_then (segments : List Segment) (later : List Text) (tail : Text) : ∃ fuel, tail.length < fuel ∧
      Text.format (format segments ++ tail) (codes segments ++ later) =
        (Format.fill (codes segments ++ later) 1 fuel (numbering (codes segments).length) tail).map
          fun r => source segments ++ r.1 := by
  have hlooks := looks_le segments
  obtain ⟨fuel, hfuel⟩ : ∃ fuel, 3 * (format segments ++ tail).length + 3 = looks segments + (fuel + 1) := by
    refine ⟨3 * (format segments ++ tail).length + 3 - looks segments - 1, ?_⟩
    rw [length_append]
    omega
  refine ⟨fuel + 1, ?_, ?_⟩
  · rw [length_append] at hfuel
    omega
  · have hfill := fill_format segments [] later fuel tail
    rw [nil_append, length_nil, Nat.zero_add] at hfill
    rw [Text.format, hfuel, ← numbering, hfill]
    cases Format.fill (codes segments ++ later) 1 (fuel + 1) (numbering (codes segments).length) tail <;> rfl

theorem format_codes (segments : List Segment) (later : List Text) :
    Text.format (format segments) (codes segments ++ later) = .ok (source segments) := by
  obtain ⟨fuel, hfuel, hformat⟩ := format_then segments later []
  obtain ⟨fuel, rfl⟩ : ∃ k, fuel = k + 1 := ⟨fuel - 1, by omega⟩
  rw [append_nil] at hformat
  rw [hformat]
  simp [Format.fill, Except.map]

/-! ### Text after the markup -/

theorem fill_plain {numbers : Format.Numbering} (hfuel : s.length < fuel) (hs : ∀ c ∈ s, c ≠ '\x7b' ∧ c ≠ '\x7d') :
    Format.fill args 1 fuel numbers s = .ok (s, numbers) := by
  induction s generalizing fuel with
  | nil =>
    obtain ⟨fuel, rfl⟩ : ∃ k, fuel = k + 1 := ⟨fuel - 1, by omega⟩
    rw [Format.fill]
  | cons c s ih =>
    rw [length_cons] at hfuel
    obtain ⟨fuel, rfl⟩ : ∃ k, fuel = k + 1 := ⟨fuel - 1, by omega⟩
    have hrest := @ih fuel (by omega) fun d hd => hs d (mem_cons_of_mem _ hd)
    obtain ⟨hopen, hclose⟩ := hs c mem_cons_self
    rw [Format.fill.eq_def]
    split <;> simp_all [Except.map]

theorem select_used (args : List Text) (front : Text) :
    ∃ f, Format.select args (numbering args.length) front = .error f := by
  cases front with
  | nil =>
    have hnone : args[args.length]? = none := by simp
    rw [select_next, Format.argument, hnone]
    exact ⟨_, rfl⟩
  | cons c front =>
    unfold Format.select
    rw [if_neg (by simp)]
    cases Format.Index.read (c :: front) with
    | name => exact ⟨_, rfl⟩
    | tooLarge => exact ⟨_, rfl⟩
    | number i => cases args <;> exact ⟨_, rfl⟩

theorem fill_used {t : Text} {m : Format.Numbering}
    (h : Format.fill args 1 fuel (numbering args.length) s = .ok (t, m)) :
    t.length ≤ s.length ∧ (t.length = s.length → ∀ c ∈ s, c ≠ '\x7b' ∧ c ≠ '\x7d') := by
  induction fuel generalizing s t m with
  | zero =>
    rw [Format.fill] at h
    cases h
  | succ fuel ih =>
    have hone {c : Char} {rest : Text} {k : Nat} (hlength : rest.length + k = s.length)
        (h : ((Format.fill args 1 fuel (numbering args.length) rest).map fun (t, m) => (c :: t, m)) = .ok (t, m)) :
        t.length + k ≤ s.length + 1 ∧ (t.length + k = s.length + 1 → ∀ d ∈ rest, d ≠ '\x7b' ∧ d ≠ '\x7d') := by
      cases hrest : Format.fill args 1 fuel (numbering args.length) rest with
      | error f =>
        rw [hrest] at h
        cases h
      | ok result =>
        rw [hrest] at h
        cases h
        obtain ⟨hle, heq⟩ := ih hrest
        rw [length_cons]
        exact ⟨by omega, fun hsame => heq (by omega)⟩
    rw [Format.fill.eq_def] at h
    dsimp only at h
    split at h
    · cases h
      exact ⟨le_rfl, by simp⟩
    · obtain ⟨hle, -⟩ := hone (k := 2) (by simp) h
      exact ⟨by omega, fun hsame => by omega⟩
    · obtain ⟨hle, -⟩ := hone (k := 2) (by simp) h
      exact ⟨by omega, fun hsame => by omega⟩
    · cases h
    · rename_i rest _
      exfalso
      cases hread : Format.readField rest with
      | error f =>
        rw [hread] at h
        cases h
      | ok result =>
        obtain ⟨field, more⟩ := result
        rw [hread] at h
        dsimp only at h
        have hfield : ∃ f, Format.fillField args 1 fuel (numbering args.length) field = .error f := by
          cases fuel with
          | zero => exact ⟨_, by rw [Format.fillField]⟩
          | succ fuel =>
            obtain ⟨f, hf⟩ := select_used args (Format.splitName field.name).1
            exact ⟨f, by rw [Format.fillField]; simp only [hf]; rfl⟩
        obtain ⟨f, hf⟩ := hfield
        rw [hf] at h
        cases h
    · rename_i c rest _ _ hclose hopen
      obtain ⟨hle, heq⟩ := hone (k := 1) (by simp) h
      refine ⟨by omega, fun hsame d hd => ?_⟩
      rcases mem_cons.mp hd with rfl | hd
      · exact ⟨hopen, hclose⟩
      · exact heq (by omega) d hd

theorem format_tail_iff (segments : List Segment) (tail : Text) :
    Text.format (format segments ++ tail) (codes segments) = .ok (source segments ++ tail) ↔
      ∀ c ∈ tail, c ≠ '\x7b' ∧ c ≠ '\x7d' := by
  obtain ⟨fuel, hfuel, hformat⟩ := format_then segments [] tail
  rw [append_nil] at hformat
  rw [hformat]
  constructor
  · intro h
    cases hfill : Format.fill (codes segments) 1 fuel (numbering (codes segments).length) tail with
    | error f =>
      rw [hfill] at h
      cases h
    | ok result =>
      rw [hfill] at h
      have hsame : result.1 = tail := append_cancel_left (Except.ok.inj h)
      exact (fill_used hfill).2 (by rw [hsame])
  · intro h
    rw [fill_plain hfuel h]
    rfl

theorem mem_doubled {c : Char} : c ∈ doubled s ↔ c ∈ s := by
  simp only [doubled, mem_flatMap]
  constructor
  · rintro ⟨d, hd, hc⟩
    split at hc <;> simp_all
  · intro hc
    exact ⟨c, hc, by split <;> simp⟩

end Segment

namespace Restore

theorem ok_bind {α β : Type} (a : α) (f : α → Except Fault β) : (Except.ok a >>= f) = f a := rfl

theorem mapM_length {α β : Type} {f : α → Except Fault β} {xs : List α} {ys : List β}
    (h : xs.mapM f = .ok ys) : ys.length = xs.length := by
  induction xs generalizing ys with
  | nil =>
    cases h
    rfl
  | cons x xs ih =>
    rw [mapM_cons] at h
    cases hx : f x with
    | error e =>
      rw [hx] at h
      cases h
    | ok y =>
      cases hxs : xs.mapM f with
      | error e =>
        rw [hx, hxs] at h
        cases h
      | ok zs =>
        rw [hx, hxs] at h
        cases h
        simp [ih hxs]

end Restore

end InlineMarkup

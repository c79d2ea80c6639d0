import Mathlib
import InlineMarkup.Token.Lexeme

/-!
How far a lexeme reaches. Whatever stands at the front of a text is at least one character long,
lies within the text, and holds a newline only where it is a line end, a joined line or a string
that goes on.
-/
namespace InlineMarkup.Lexeme

open List

/-! ### Characters that stay on their line -/

structure OnLine (s : Text) (n : Nat) : Prop where
  le : n ≤ s.length
  noNewline : ∀ c ∈ s.take n, c ≠ '\n'

theorem onLine_zero (s : Text) : OnLine s 0 := ⟨Nat.zero_le _, by simp⟩

variable {s : Text} {n : Nat} {p : Char → Bool} {closer : Closer} {front : Front}

theorem OnLine.add {m : Nat} (h : OnLine s n) (k : OnLine (s.drop n) m) : OnLine s (n + m) := by
  have hlen := h.le
  have klen := k.le
  rw [length_drop] at klen
  refine ⟨by omega, ?_⟩
  intro c hc
  rw [take_add, mem_append] at hc
  rcases hc with hc | hc
  · exact h.noNewline c hc
  · exact k.noNewline c hc

theorem OnLine.cons {c : Char} (hc : c ≠ '\n') (h : OnLine s n) : OnLine (c :: s) (1 + n) := by
  refine ⟨by have := h.le; simp only [length_cons]; omega, ?_⟩
  intro d hd
  rw [Nat.add_comm, take_succ_cons, mem_cons] at hd
  rcases hd with rfl | hd
  · exact hc
  · exact h.noNewline d hd

theorem onLine_run (hp : p '\n' = false) (s : Text) : OnLine s (run p s) := by
  refine ⟨( takeWhile_prefix p).length_le, ?_⟩
  intro c hc hcn
  have htake : s.take (run p s) = s.takeWhile p :=
    prefix_iff_eq_take.mp ( takeWhile_prefix p) |>.symm
  rw [htake] at hc
  have hpc := mem_takeWhile_imp hc
  rw [hcn, hp] at hpc
  exact Bool.false_ne_true hpc

theorem onLine_oneOf (hp : p '\n' = false) (s : Text) : OnLine s (oneOf p s) := by
  cases s with
  | nil => exact onLine_zero []
  | cons c rest =>
    simp only [oneOf]
    split
    · rename_i hc
      refine OnLine.cons ?_ (onLine_zero rest)
      rintro rfl
      rw [hp] at hc
      exact Bool.false_ne_true hc
    · exact onLine_zero _

def StaysOnLine (reader : Text → Option Nat) : Prop :=
  ∀ s n, reader s = some n → 0 < n ∧ OnLine s n

theorem StaysOnLine.or {f g : Text → Option Nat} (hf : StaysOnLine f) (hg : StaysOnLine g) :
    StaysOnLine fun s => (f s).or (g s) := by
  intro s n h
  rcases Option.or_eq_some_iff.mp h with h | ⟨-, h⟩
  · exact hf s n h
  · exact hg s n h

/-! ### Names and numbers -/

theorem isWordChar_newline : isWordChar '\n' = false := by decide

theorem isDecimalDigit_newline : isDecimalDigit '\n' = false := by decide

theorem name?_staysOnLine : StaysOnLine name? := by
  intro s n h
  cases s with
  | nil => simp [name?] at h
  | cons c rest =>
    simp only [name?, Option.ite_none_right_eq_some, Option.some.injEq] at h
    obtain ⟨hc, rfl⟩ := h
    refine ⟨by omega, OnLine.cons ?_ (onLine_run isWordChar_newline rest)⟩
    rintro rfl
    exact absurd hc (by decide)

theorem exponent?_staysOnLine : StaysOnLine exponent? := by
  intro s n h
  cases s with
  | nil => simp [exponent?] at h
  | cons c rest =>
    simp only [exponent?, Option.ite_none_right_eq_some, Option.ite_none_left_eq_some, Option.some.injEq] at h
    obtain ⟨hc, -, rfl⟩ := h
    rw [Nat.add_assoc]
    refine ⟨by omega, OnLine.cons ?_ ?_⟩
    · rintro rfl
      exact absurd hc (by decide)
    · exact (onLine_oneOf (by decide) rest).add (onLine_run isDecimalDigit_newline _)

theorem onLine_exponent (s : Text) : OnLine s ((exponent? s).getD 0) := by
  cases h : exponent? s with
  | none => exact onLine_zero s
  | some n => exact (exponent?_staysOnLine s n h).2

theorem pointFloat?_staysOnLine : StaysOnLine pointFloat? := by
  intro s n h
  simp only [pointFloat?] at h
  split at h
  · rename_i rest hrest
    simp only [Option.ite_none_left_eq_some, Option.some.injEq] at h
    obtain ⟨-, rfl⟩ := h
    have hwhole : OnLine s (run isDecimalDigit s) := onLine_run isDecimalDigit_newline s
    have hpoint : OnLine (s.drop (run isDecimalDigit s)) (1 + run isDecimalDigit rest) := by
      rw [hrest]
      exact OnLine.cons (by decide) (onLine_run isDecimalDigit_newline rest)
    refine ⟨by omega, ?_⟩
    have hsize := hwhole.add hpoint
    rw [← Nat.add_assoc] at hsize
    exact hsize.add (onLine_exponent _)
  · exact absurd h (by simp)

theorem exponentFloat?_staysOnLine : StaysOnLine exponentFloat? := by
  intro s n h
  simp only [exponentFloat?, Option.ite_none_left_eq_some, Option.map_eq_some_iff] at h
  obtain ⟨hwhole, m, hm, rfl⟩ := h
  have hexp := exponent?_staysOnLine _ m hm
  exact ⟨by omega, (onLine_run isDecimalDigit_newline s).add hexp.2⟩

theorem float?_staysOnLine : StaysOnLine float? :=
  pointFloat?_staysOnLine.or exponentFloat?_staysOnLine

theorem onLine_mark (hp : p '\n' = false) {s : Text} (h : oneOf p s = 1) : OnLine s 1 := h ▸ onLine_oneOf hp s

theorem imaginary?_staysOnLine : StaysOnLine imaginary? := by
  intro s n h
  simp only [imaginary?] at h
  split at h
  · rename_i hmark
    cases h
    exact ⟨by omega, (onLine_run isDecimalDigit_newline s).add (onLine_mark (by decide) hmark.2)⟩
  · split at h
    · rename_i size hsize
      simp only [Option.ite_none_right_eq_some, Option.some.injEq] at h
      obtain ⟨hmark, rfl⟩ := h
      exact ⟨by omega, (float?_staysOnLine s size hsize).2.add (onLine_mark (by decide) hmark)⟩
    · exact absurd h (by simp)

theorem onLine_based {q : Char → Bool} (hp : p '\n' = false) (hq : q '\n' = false)
    {a b : Char} (ha : a ≠ '\n') (hb : b ≠ '\n') (digits : Text) :
    OnLine (a :: b :: digits) (2 + run p digits + oneOf q (digits.drop (run p digits))) := by
  have h : OnLine digits (run p digits + oneOf q (digits.drop (run p digits))) :=
    (onLine_run hp digits).add (onLine_oneOf hq _)
  have h2 := OnLine.cons ha (OnLine.cons hb h)
  rwa [← Nat.add_assoc, ← Nat.add_assoc] at h2

theorem onLine_marked {q : Char → Bool} (hp : p '\n' = false) (hq : q '\n' = false)
    {a : Char} (ha : a ≠ '\n') (digits : Text) :
    OnLine (a :: digits) (1 + run p digits + oneOf q (digits.drop (run p digits))) := by
  rw [Nat.add_assoc]
  exact OnLine.cons ha ((onLine_run hp digits).add (onLine_oneOf hq _))

theorem onLine_zeroFirst (rest : Text) : OnLine ('0' :: rest)
      (1 + run isOctalDigit rest + oneOf isLongMark (rest.drop (run isOctalDigit rest))) :=
  onLine_marked (by decide) (by decide) (by decide) rest

theorem integer?_staysOnLine : StaysOnLine integer? := by
  intro s n h
  unfold integer? at h
  split at h
  · rename_i rest
    dsimp only at h
    split at h
    · rename_i m hm
      cases h
      split at hm
      · rename_i c digits
        split at hm
        · rename_i hc
          simp only [Option.ite_none_left_eq_some, Option.some.injEq] at hm
          obtain ⟨-, rfl⟩ := hm
          refine ⟨by omega, onLine_based (by decide) (by decide) (by decide) ?_ digits⟩
          rintro rfl
          exact absurd hc (by decide)
        · split at hm
          · rename_i hc
            simp only [Option.ite_none_left_eq_some, Option.some.injEq] at hm
            obtain ⟨-, rfl⟩ := hm
            refine ⟨by omega, onLine_based (by decide) (by decide) (by decide) ?_ digits⟩
            rintro rfl
            exact absurd hc (by decide)
          · simp only [Option.ite_none_right_eq_some, Option.ite_none_left_eq_some, Option.some.injEq] at hm
            obtain ⟨hc, -, rfl⟩ := hm
            rw [show 2 + run isOctalDigit digits = 1 + (1 + run isOctalDigit digits) by omega]
            refine ⟨by omega, OnLine.cons (by decide) (OnLine.cons ?_ (onLine_run (by decide) digits))⟩
            rintro rfl
            exact absurd hc (by decide)
      · exact absurd hm (by simp)
    · cases h
      exact ⟨by omega, onLine_zeroFirst rest⟩
  · rename_i c rest _
    simp only [Option.ite_none_right_eq_some, Option.some.injEq] at h
    obtain ⟨hc, rfl⟩ := h
    refine ⟨by omega, onLine_marked isDecimalDigit_newline (by decide) ?_ rest⟩
    rintro rfl
    exact absurd hc (by decide)
  · exact absurd h (by simp)

theorem number?_staysOnLine : StaysOnLine number? :=
  (imaginary?_staysOnLine.or float?_staysOnLine).or integer?_staysOnLine

/-! ### Symbols, line ends and comments -/

theorem onLine_pair {a b : Char} (ha : a ≠ '\n') (hb : b ≠ '\n') (rest : Text) :
    OnLine (a :: b :: rest) (2 + oneOf (· == '=') rest) := by
  have h := OnLine.cons ha (OnLine.cons hb (onLine_oneOf (p := (· == '=')) (by decide) rest))
  rwa [← Nat.add_assoc] at h

theorem operator?_staysOnLine : StaysOnLine operator? := by
  intro s n h
  unfold operator? at h
  split at h
  case h_8 c rest _ _ _ _ _ _ _ =>
    simp only [Option.ite_none_right_eq_some, Option.some.injEq] at h
    obtain ⟨hc, rfl⟩ := h
    refine ⟨by omega, OnLine.cons ?_ (onLine_oneOf (by decide) rest)⟩
    rintro rfl
    exact absurd hc (by decide)
  case h_9 => exact absurd h (by simp)
  case h_7 rest =>
    cases h
    exact ⟨by omega, OnLine.cons (by decide) (onLine_zero rest)⟩
  case h_4 rest | h_5 rest =>
    cases h
    exact ⟨by omega, OnLine.cons (by decide) (OnLine.cons (by decide) (onLine_zero rest))⟩
  all_goals
    cases h
    exact ⟨by omega, onLine_pair (by decide) (by decide) _⟩

theorem punctuation?_staysOnLine : StaysOnLine punctuation? := by
  intro s n h
  cases s with
  | nil => simp [punctuation?] at h
  | cons c rest =>
    simp only [punctuation?, Option.ite_none_right_eq_some, Option.some.injEq] at h
    obtain ⟨hc, rfl⟩ := h
    refine ⟨by omega, OnLine.cons ?_ (onLine_zero rest)⟩
    rintro rfl
    exact absurd hc (by decide)

theorem comment?_staysOnLine : StaysOnLine comment? := by
  intro s n h
  unfold comment? at h
  split at h
  · rename_i rest
    cases h
    exact ⟨by omega, OnLine.cons (by decide) (onLine_run (by decide) rest)⟩
  · exact absurd h (by simp)

def IsLineEnd (e : Text) : Prop := e = ['\n'] ∨ e = ['\r', '\n']

theorem lineEnd?_eq_some (h : lineEnd? s = some n) : ∃ e rest, s = e ++ rest ∧ IsLineEnd e ∧ n = e.length := by
  unfold lineEnd? at h
  split at h
  · rename_i rest
    cases h
    exact ⟨['\n'], rest, rfl, Or.inl rfl, rfl⟩
  · rename_i rest
    cases h
    exact ⟨['\r', '\n'], rest, rfl, Or.inr rfl, rfl⟩
  · exact absurd h (by simp)

theorem joinedLine?_eq_some (h : joinedLine? s = some n) :
    ∃ e rest, s = '\\' :: (e ++ rest) ∧ IsLineEnd e ∧ n = 1 + e.length := by
  unfold joinedLine? at h
  split at h
  · rename_i rest
    obtain ⟨m, hm, rfl⟩ := Option.map_eq_some_iff.mp h
    obtain ⟨e, rest', rfl, he, rfl⟩ := lineEnd?_eq_some hm
    exact ⟨e, rest', rfl, he, rfl⟩
  · exact absurd h (by simp)

def Joins (s : Text) : Prop := ∃ e, IsLineEnd e ∧ ('\\' :: e) <:+: s

theorem Joins.mono {t : Text} (h : Joins s) (hst : s <:+: t) : Joins t := by
  obtain ⟨e, he, hs⟩ := h
  exact ⟨e, he, hs.trans hst⟩

/-! ### Strings -/

theorem onLine_stringMarks (s : Text) : OnLine s (stringMarks s) :=
  (onLine_oneOf (by decide) s).add (onLine_oneOf (by decide) _)

theorem tripleOpening?_onLine (h : tripleOpening? s = some (n, closer)) :
    0 < n ∧ OnLine s n ∧ isQuote closer.mark := by
  simp only [tripleOpening?] at h
  split at h
  · rename_i a b c rest hrest
    simp only [Option.ite_none_right_eq_some, Bool.and_eq_true, beq_iff_eq, Option.some.injEq, Prod.mk.injEq] at h
    obtain ⟨⟨⟨ha, rfl⟩, rfl⟩, rfl, rfl⟩ := h
    have hnl : a ≠ '\n' := by
      rintro rfl
      exact absurd ha (by decide)
    have hthree : OnLine (s.drop (stringMarks s)) 3 := by
      rw [hrest]
      exact OnLine.cons hnl (OnLine.cons hnl (OnLine.cons hnl (onLine_zero rest)))
    exact ⟨by omega, (onLine_stringMarks s).add hthree, ha⟩
  · exact absurd h (by simp)

theorem shortTail?_reach {mark : Char} (hmark : mark ≠ '\n') (s : Text) :
    ∀ n more, shortTail? mark s = some (n, more) → 0 < n ∧ n ≤ s.length ∧ if more then Joins s else OnLine s n := by
  fun_induction shortTail? mark s with
  | case1 rest =>
    rintro n more h
    cases h
    exact ⟨by omega, by simp, ['\n'], Or.inl rfl, [], rest, rfl⟩
  | case2 rest =>
    rintro n more h
    cases h
    exact ⟨by omega, by simp, ['\r', '\n'], Or.inr rfl, [], rest, rfl⟩
  | case3 c rest hnl _ ih =>
    rintro n more h
    obtain ⟨⟨m, b⟩, hm, heq⟩ := Option.map_eq_some_iff.mp h
    cases heq
    obtain ⟨hpos, hle, hon⟩ := ih m more hm
    refine ⟨by omega, by simp only [length_cons]; omega, ?_⟩
    split_ifs at hon ⊢
    · exact hon.mono (suffix_append ['\\', c] rest).isInfix
    · have h2 := OnLine.cons (c := '\\') (by decide) (OnLine.cons (c := c) ?_ hon)
      · rwa [show m + 2 = 1 + (1 + m) by omega]
      · exact fun hc => hnl hc
  | case4 rest _ _ _ =>
    rintro n more h
    cases h
    exact ⟨by omega, by simp, OnLine.cons hmark (onLine_zero rest)⟩
  | case5 => rintro n more h; cases h
  | case6 c rest _ _ _ hc hnl ih =>
    rintro n more h
    obtain ⟨⟨m, b⟩, hm, heq⟩ := Option.map_eq_some_iff.mp h
    cases heq
    obtain ⟨hpos, hle, hon⟩ := ih m more hm
    refine ⟨by omega, by simp only [length_cons]; omega, ?_⟩
    split_ifs at hon ⊢
    · exact hon.mono (suffix_cons c rest).isInfix
    · have h1 := OnLine.cons (c := c) (fun hc => hnl (Or.inl hc)) hon
      rwa [show m + 1 = 1 + m by omega]
  | case7 => rintro n more h; cases h

theorem shortString?_reach {more : Bool} (h : shortString? s = some (n, closer, more)) :
    0 < n ∧ n ≤ s.length ∧ isQuote closer.mark ∧ if more then Joins s else OnLine s n := by
  simp only [shortString?] at h
  split at h
  · rename_i q rest hrest
    simp only [Option.ite_none_right_eq_some, Option.map_eq_some_iff, Prod.mk.injEq] at h
    obtain ⟨hq, ⟨m, b⟩, hm, rfl, rfl, rfl⟩ := h
    have hnl : q ≠ '\n' := by
      rintro rfl
      exact absurd hq (by decide)
    obtain ⟨hpos, hle, hon⟩ := shortTail?_reach hnl rest m b hm
    have hmarks := onLine_stringMarks s
    have hlen := congrArg List.length hrest
    rw [length_drop, length_cons] at hlen
    refine ⟨by omega, by dsimp only; omega, hq, ?_⟩
    dsimp only
    split_ifs at hon ⊢
    · have hsuffix : rest <:+ s := by
        have hdrop := drop_suffix (stringMarks s) s
        rw [hrest] at hdrop
        exact (suffix_cons q rest).trans hdrop
      exact hon.mono hsuffix.isInfix
    · have hq1 : OnLine (s.drop (stringMarks s)) (1 + m) := hrest ▸ OnLine.cons hnl hon
      have htotal := hmarks.add hq1
      rwa [← Nat.add_assoc] at htotal
  · exact absurd h (by simp)

theorem reaches_cons {s : Text} {m : Nat} {c d : Char} (h : 0 < m ∧ m ≤ s.length ∧ (s.take m).getLast? = some d) :
    0 < 1 + m ∧ 1 + m ≤ (c :: s).length ∧ ((c :: s).take (1 + m)).getLast? = some d := by
  obtain ⟨hpos, hle, hlast⟩ := h
  refine ⟨by omega, by simp only [length_cons]; omega, ?_⟩
  rw [show 1 + m = m + 1 by omega, take_succ_cons]
  simp [getLast?_cons, hlast]

theorem tail?_reach (s : Text) : ∀ n, tail? closer s = some n →
      0 < n ∧ n ≤ s.length ∧ (s.take n).getLast? = some closer.mark := by
  fun_induction tail? closer s with
  | case1 => rintro n h; cases h
  | case2 c rest _ ih =>
    rintro n h
    obtain ⟨m, hm, rfl⟩ := Option.map_eq_some_iff.mp h
    rw [show 2 + m = 1 + (1 + m) by omega]
    exact reaches_cons (reaches_cons (ih m hm))
  | case3 => rintro n h; cases h
  | case4 _ a b rest hab _ _ =>
    rintro n h
    cases h
    exact ⟨by omega, by simp, by simp [hab.2]⟩
  | case5 _ a b rest _ _ _ ih =>
    rintro n h
    obtain ⟨m, hm, rfl⟩ := Option.map_eq_some_iff.mp h
    exact reaches_cons (ih m hm)
  | case6 rest _ _ ht hrest ih =>
    rintro n h
    obtain ⟨m, hm, rfl⟩ := Option.map_eq_some_iff.mp h
    exact reaches_cons (ih m hm)
  | case7 rest =>
    rintro n h
    cases h
    exact ⟨by omega, by simp, by simp⟩
  | case8 c rest _ _ _ ih =>
    rintro n h
    obtain ⟨m, hm, rfl⟩ := Option.map_eq_some_iff.mp h
    exact reaches_cons (ih m hm)
  | case9 => rintro n h; cases h

/-! ### The front of a line -/

def Front.Reaches (s : Text) (n : Nat) : Front → Prop
  | .joined => ∃ e rest, s = '\\' :: (e ++ rest) ∧ IsLineEnd e ∧ n = 1 + e.length
  | .lineEnd => ∃ e rest, s = e ++ rest ∧ IsLineEnd e ∧ n = e.length
  | .openString closer => isQuote closer.mark ∧ 0 < n ∧ n ≤ s.length ∧ Joins s
  | .opening closer => isQuote closer.mark ∧ 0 < n ∧ OnLine s n
  | .comment | .number | .symbol | .string | .name => 0 < n ∧ OnLine s n

theorem front?_reaches (h : front? s = some (front, n)) : front.Reaches s n := by
  unfold front? at h
  split at h
  · rename_i m hm
    cases h
    exact joinedLine?_eq_some hm
  · split at h
    · rename_i m hm
      cases h
      exact comment?_staysOnLine s n hm
    · split at h
      · rename_i m closer hm
        cases h
        obtain ⟨hpos, hon, hq⟩ := tripleOpening?_onLine hm
        exact ⟨hq, hpos, hon⟩
      · split at h
        · rename_i m hm
          cases h
          exact number?_staysOnLine s n hm
        · split at h
          · rename_i m hm
            cases h
            exact operator?_staysOnLine s n hm
          · split at h
            · rename_i m hm
              cases h
              exact lineEnd?_eq_some hm
            · split at h
              · rename_i m hm
                cases h
                exact punctuation?_staysOnLine s n hm
              · split at h
                · rename_i m closer more hm
                  cases h
                  obtain ⟨hpos, hle, hq, hon⟩ := shortString?_reach hm
                  cases more with
                  | false => exact ⟨hpos, hon⟩
                  | true => exact ⟨hq, hpos, hle, hon⟩
                · obtain ⟨m, hm, heq⟩ := Option.map_eq_some_iff.mp h
                  cases heq
                  exact name?_staysOnLine s n hm

theorem front?_comment (h : front? s = some (.comment, n)) : comment? s = some n := by
  unfold front? at h
  split at h
  · cases h
  · split at h
    · rename_i m hm
      cases h
      exact hm
    · repeat' split at h
      all_goals simp_all

theorem comment?_rest (h : comment? s = some n) :
    (s.take n).head? = some '#' ∧ ∀ c, (s.drop n).head? = some c → c = '\r' ∨ c = '\n' := by
  unfold comment? at h
  split at h
  · rename_i rest
    cases h
    refine ⟨by rw [Nat.add_comm, take_succ_cons]; rfl, fun c hc => ?_⟩
    have hdrop : ('#' :: rest).drop (1 + run (fun c => c != '\r' && c != '\n') rest) =
        rest.dropWhile (fun c => c != '\r' && c != '\n') := by
      have hleft := @drop_left _ (rest.takeWhile fun c => c != '\r' && c != '\n')
        (rest.dropWhile fun c => c != '\r' && c != '\n')
      rw [takeWhile_append_dropWhile] at hleft
      rwa [Nat.add_comm, drop_succ_cons, run]
    have hhead := head?_dropWhile_not (fun c => c != '\r' && c != '\n') rest
    rw [← hdrop, hc] at hhead
    simp only [Bool.and_eq_false_iff, bne_eq_false_iff_eq] at hhead
    exact hhead
  · cases h

theorem IsLineEnd.length_pos {e : Text} (h : IsLineEnd e) : 0 < e.length := by
  rcases h with rfl | rfl <;> simp

theorem Front.Reaches.pos (h : front.Reaches s n) : 0 < n := by
  cases front with
  | joined =>
    obtain ⟨e, rest, -, -, rfl⟩ := h
    omega
  | lineEnd =>
    obtain ⟨e, rest, -, he, rfl⟩ := h
    exact he.length_pos
  | openString closer => exact h.2.1
  | opening closer => exact h.2.1
  | comment | number | symbol | string | name => exact h.1

theorem Front.Reaches.le (h : front.Reaches s n) : n ≤ s.length := by
  cases front with
  | joined =>
    obtain ⟨e, rest, rfl, -, rfl⟩ := h
    simp only [length_cons, length_append]
    omega
  | lineEnd =>
    obtain ⟨e, rest, rfl, -, rfl⟩ := h
    simp
  | openString closer => exact h.2.2.1
  | opening closer => exact h.2.2.le
  | comment | number | symbol | string | name => exact h.2.le

theorem number?_newline (rest : Text) : number? ('\n' :: rest) = none := by
  have hdigit : isAsciiDigit '\n' = false := by decide
  simp [number?, imaginary?, float?, pointFloat?, exponentFloat?, integer?, run, isDecimalDigit_newline, hdigit]

theorem tripleOpening?_newline (rest : Text) : tripleOpening? ('\n' :: rest) = none := by
  cases rest with
  | nil => rfl
  | cons c more => cases more <;> rfl

theorem front?_newline (rest : Text) : front? ('\n' :: rest) = some (.lineEnd, 1) := by
  have hsymbol : operator? ('\n' :: rest) = none := rfl
  simp [front?, joinedLine?, comment?, tripleOpening?_newline, number?_newline, hsymbol, lineEnd?]

end InlineMarkup.Lexeme

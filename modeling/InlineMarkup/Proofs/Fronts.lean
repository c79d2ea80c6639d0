import InlineMarkup.Proofs.Lexeme

/-!
What stands at the front of a text that a divider follows. No number, operator or name goes on over a
divider, nor does the opening of a string, so what is read before it does not hang on the text behind it.
-/
namespace InlineMarkup.Lexeme

open List

/-! ### Lexemes before a divider -/

def dividers : Text := ['\\', ' ', ',', '\x7d', 'h']

section

variable {p : Char → Bool} {d : Char}

theorem eq_false_of_mem_dividers (hp : (dividers.all fun c => !p c) = true) (hd : d ∈ dividers) : p d = false := by
  have hall := all_eq_true.1 hp d hd
  simpa using hall

theorem run_divider (h : p d = false) (u y : Text) : run p (u ++ d :: y) = run p u := by
  unfold run
  induction u with
  | nil => simp [h]
  | cons c rest ih =>
    by_cases hc : p c = true
    · simp [hc, ih]
    · simp [hc]

theorem run_le (p : Char → Bool) (u : Text) : run p u ≤ u.length :=
  ( takeWhile_prefix p).length_le

theorem drop_run (p : Char → Bool) (u y : Text) : (u ++ y).drop (run p u) = u.drop (run p u) ++ y :=
  drop_append_of_le_length (run_le p u)

theorem oneOf_divider (h : p d = false) (u y : Text) : oneOf p (u ++ d :: y) = oneOf p u := by
  cases u with
  | nil => simp [oneOf, h]
  | cons c rest => rfl

theorem oneOf_le (p : Char → Bool) (u : Text) : oneOf p u ≤ u.length := by
  cases u with
  | nil => exact le_rfl
  | cons c rest =>
    rw [oneOf, length_cons]
    split <;> omega

end

theorem isWordChar_of_isNameStart {c : Char} (h : isNameStart c = true) : isWordChar c = true := by
  have hlow : c.toNat < 0x80 := by
    simp only [isNameStart, isAsciiLetter, Bool.or_eq_true, Bool.and_eq_true, decide_eq_true_eq,
      beq_iff_eq, Char.le_def, UInt32.le_iff_toNat_le] at h
    rcases h with (⟨-, h⟩ | ⟨-, h⟩) | rfl
    · exact lt_of_le_of_lt h (by decide)
    · exact lt_of_le_of_lt h (by decide)
    · decide
  unfold isNameStart at h
  rw [isWordChar, if_pos hlow]
  simp only [Bool.or_eq_true] at h ⊢
  exact h.imp_left Or.inl

theorem name?_append {u y : Text} (hu : u ≠ []) (hword : run isWordChar (u ++ y) = run isWordChar u) :
    name? (u ++ y) = name? u := by
  cases u with
  | nil => exact absurd rfl hu
  | cons c rest =>
    rw [cons_append, name?, name?]
    by_cases hc : isNameStart c = true
    · have hstart : isWordChar c = true := isWordChar_of_isNameStart hc
      have hrest : run isWordChar (rest ++ y) = run isWordChar rest := by
        simpa [run, hstart] using hword
      rw [hrest]
    · rw [if_neg hc, if_neg hc]

section

variable {d : Char} (hd : d ∈ dividers) (u y : Text)

include hd

theorem exponent?_append : exponent? (u ++ d :: y) = exponent? u := by
  cases u with
  | nil =>
    have hmark : (d == 'e' || d == 'E') = false :=
      eq_false_of_mem_dividers (p := fun c => c == 'e' || c == 'E') (by decide) hd
    rw [nil_append, exponent?, hmark]
    rfl
  | cons c rest =>
    rw [cons_append, exponent?, exponent?]
    dsimp only
    rw [oneOf_divider (eq_false_of_mem_dividers (by decide) hd), drop_append_of_le_length (oneOf_le _ rest),
      run_divider (eq_false_of_mem_dividers (by decide) hd)]

theorem pointFloat?_append : pointFloat? (u ++ d :: y) = pointFloat? u := by
  have hdigit : isDecimalDigit d = false := eq_false_of_mem_dividers (by decide) hd
  have hpoint : d ≠ '.' := by
    rintro rfl
    exact absurd hd (by decide)
  unfold pointFloat?
  dsimp only
  rw [run_divider hdigit, drop_run]
  cases hrest : u.drop (run isDecimalDigit u) with
  | nil =>
    rw [nil_append]
    split
    · rename_i heq
      exact absurd (List.cons.inj heq).1 hpoint
    · rfl
  | cons c rest =>
    by_cases hc : c = '.'
    · subst hc
      have hlength : u.length = run isDecimalDigit u + (1 + rest.length) := by
        have hdrop := congrArg List.length hrest
        have hwhole := run_le isDecimalDigit u
        rw [length_drop, length_cons] at hdrop
        omega
      have hfraction := run_le isDecimalDigit rest
      simp only [cons_append, run_divider hdigit]
      rw [drop_append_of_le_length (by omega), exponent?_append hd]
    · simp only [cons_append]
      split
      · rename_i heq
        exact absurd (List.cons.inj heq).1 hc
      · split
        · rename_i heq
          exact absurd (List.cons.inj heq).1 hc
        · rfl

theorem exponentFloat?_append : exponentFloat? (u ++ d :: y) = exponentFloat? u := by
  unfold exponentFloat?
  dsimp only
  rw [run_divider (eq_false_of_mem_dividers (by decide) hd), drop_run, exponent?_append hd]

theorem float?_append : float? (u ++ d :: y) = float? u := by
  rw [float?, float?, pointFloat?_append hd, exponentFloat?_append hd]

theorem imaginary?_append : imaginary? (u ++ d :: y) = imaginary? u := by
  have hmark : isImaginaryMark d = false := eq_false_of_mem_dividers (by decide) hd
  unfold imaginary?
  dsimp only
  rw [run_divider (eq_false_of_mem_dividers (by decide) hd), drop_run, oneOf_divider hmark, float?_append hd]
  cases hfloat : float? u with
  | none => rfl
  | some n =>
    dsimp only
    rw [drop_append_of_le_length (float?_staysOnLine u n hfloat).2.le, oneOf_divider hmark]

theorem longMark_append (p : Char → Bool) :
    oneOf isLongMark ((u ++ d :: y).drop (run p u)) = oneOf isLongMark (u.drop (run p u)) := by
  rw [drop_run, oneOf_divider (eq_false_of_mem_dividers (by decide) hd)]

theorem integer?_append : integer? (u ++ d :: y) = integer? u := by
  have hoctal : isOctalDigit d = false := eq_false_of_mem_dividers (by decide) hd
  have hlong : isLongMark d = false := eq_false_of_mem_dividers (by decide) hd
  cases u with
  | nil =>
    have hdigit : isAsciiDigit d = false := eq_false_of_mem_dividers (by decide) hd
    have hzero : d ≠ '0' := by
      rintro rfl
      exact absurd hd (by decide)
    rw [nil_append, integer?]
    · rw [hdigit]
      rfl
    · exact hzero
  | cons c rest =>
    by_cases hc : c = '0'
    · subst hc
      cases rest with
      | nil =>
        have hbase : (d == 'x' || d == 'X') = false ∧ (d == 'b' || d == 'B') = false ∧
            (d == 'o' || d == 'O') = false :=
          ⟨eq_false_of_mem_dividers (p := fun c => c == 'x' || c == 'X') (by decide) hd,
            eq_false_of_mem_dividers (p := fun c => c == 'b' || c == 'B') (by decide) hd,
            eq_false_of_mem_dividers (p := fun c => c == 'o' || c == 'O') (by decide) hd⟩
        simp only [cons_append, nil_append, integer?, hbase.1, hbase.2.1, hbase.2.2]
        simp [run, hoctal, oneOf, hlong]
      | cons e digits =>
        have hoctals := run_divider hoctal (e :: digits) y
        have hlongs := longMark_append hd (e :: digits) y isOctalDigit
        rw [cons_append] at hoctals hlongs
        unfold integer?
        simp only [cons_append, hoctals, hlongs, longMark_append hd,
          run_divider (eq_false_of_mem_dividers (p := isHexDigit) (by decide) hd),
          run_divider (eq_false_of_mem_dividers (p := isBinaryDigit) (by decide) hd),
          run_divider hoctal]
    · rw [cons_append, integer?, integer?]
      · dsimp only
        rw [run_divider (eq_false_of_mem_dividers (by decide) hd), longMark_append hd]
      · exact hc
      · exact hc

theorem number?_append : number? (u ++ d :: y) = number? u := by
  rw [number?, number?, imaginary?_append hd, float?_append hd, integer?_append hd]

theorem operator?_append : operator? (u ++ d :: y) = operator? u := by
  have hequals (v : Text) : oneOf (· == '=') (v ++ d :: y) = oneOf (· == '=') v :=
    oneOf_divider (eq_false_of_mem_dividers (by decide) hd) v y
  -- a second character of an operator after the divider was put on stood there before
  have hsecond {v r : Text} {c : Char} (hc : c ∉ dividers) (hv : ∀ r, v ≠ c :: r) : v ++ d :: y ≠ c :: r := by
    cases v with
    | nil => exact fun h => hc ((List.cons.inj h).1 ▸ hd)
    | cons e rest => exact fun h => hv rest (by rw [(List.cons.inj h).1])
  fun_cases operator? u with
  | case8 c rest h1 h2 h3 h4 h5 h6 h7 hc =>
    rw [cons_append, operator?, if_pos hc, hequals]
    all_goals first | exact h7 | (intro r h; exact hsecond (by decide) (fun _ => by simp_all))
  | case9 c rest h1 h2 h3 h4 h5 h6 h7 hc =>
    rw [cons_append, operator?, if_neg hc]
    all_goals first | exact h7 | (intro r h; exact hsecond (by decide) (fun _ => by simp_all))
  | case10 =>
    have hne {c : Char} (hc : c ∉ dividers) : d ≠ c := fun h => hc (h ▸ hd)
    have hnone : ("+-*/%&|^=<>".toList.contains d) = false := eq_false_of_mem_dividers (by decide) hd
    rw [nil_append, operator?, hnone, if_neg Bool.false_ne_true]
    all_goals first | exact hne (by decide) | exact fun _ h => absurd h (hne (by decide))
  | _ => simp [operator?, hequals]

omit hd in
theorem punctuation?_append {u : Text} (hu : u ≠ []) (y : Text) : punctuation? (u ++ y) = punctuation? u := by
  cases u with
  | nil => exact absurd rfl hu
  | cons c rest => rfl

theorem stringMarks_append : stringMarks (u ++ d :: y) = stringMarks u := by
  unfold stringMarks
  dsimp only
  rw [oneOf_divider (eq_false_of_mem_dividers (by decide) hd), drop_append_of_le_length (oneOf_le _ u),
    oneOf_divider (eq_false_of_mem_dividers (by decide) hd)]

theorem tripleOpening?_append : tripleOpening? (u ++ d :: y) = tripleOpening? u := by
  have hquote : isQuote d = false := eq_false_of_mem_dividers (by decide) hd
  unfold tripleOpening?
  dsimp only
  rw [stringMarks_append hd, drop_append_of_le_length (onLine_stringMarks u).le]
  -- fewer than three characters stand before the divider, which is no quote
  rcases u.drop (stringMarks u) with - | ⟨a, - | ⟨b, - | ⟨c, rest⟩⟩⟩
  · rcases y with - | ⟨b, - | ⟨c, rest⟩⟩ <;> simp [hquote]
  · cases y with
    | nil => rfl
    | cons c rest =>
      have hnone : (isQuote a && a == d && d == c) = false := by
        by_cases ha : a = d
        · subst ha
          simp [hquote]
        · simp [ha]
      simp [hnone]
  · have hnone : (isQuote a && a == b && b == d) = false := by
      by_cases hb : b = d
      · by_cases ha : a = b
        · subst ha hb
          simp [hquote]
        · simp [ha]
      · simp [hb]
    simp [hnone]
  · rfl

end

/-! ### Separators -/

def separators : Text := ['(', ')', '[', ']', '\x7b', '\x7d', ',']

theorem front?_separator {c : Char} (hc : c ∈ separators) (rest : Text) :
    front? (c :: rest) = some (.symbol, 1) := by
  simp only [separators, mem_cons, not_mem_nil, or_false] at hc
  have htriple : tripleOpening? (c :: rest) = none := by
    rcases hc with rfl | rfl | rfl | rfl | rfl | rfl | rfl <;>
      rcases rest with - | ⟨d, - | ⟨e, more⟩⟩ <;> rfl
  have hnumber : number? (c :: rest) = none := by
    rcases hc with rfl | rfl | rfl | rfl | rfl | rfl | rfl <;> rfl
  rcases hc with rfl | rfl | rfl | rfl | rfl | rfl | rfl <;>
    (unfold front?; rw [htriple, hnumber]; rfl)

/-! ### Lines cut after the backslash that joins them -/

section

variable {u : Text}

variable {mark c : Char} {closer : Closer}

variable {r s : Text} {d : Char} {n : Nat}

theorem shortTail?_pair (hc : c ≠ '\n') (hr : ∀ s, r ≠ '\n' :: s) : shortTail? mark ('\\' :: c :: r) =
      (shortTail? mark r).map fun (n, more) => (n + 2, more) := by
  rw [shortTail?]
  · exact fun h => hc h
  · exact fun s _ h => hr s h

theorem shortTail?_plain (hc : c ≠ '\\') : shortTail? mark (c :: r) = if c = mark then some (1, false)
      else if c = '\n' ∨ c = '\\' then none else (shortTail? mark r).map fun (n, more) => (n + 1, more) := by
  rw [shortTail?]
  · exact fun s h => absurd h hc
  · exact fun s h => absurd h hc
  · exact fun d s h => absurd h hc

theorem append_backslash_ne {y : Text} (hu : ∀ c ∈ u, c ≠ '\n') (s : Text) : u ++ '\\' :: y ≠ '\n' :: s := by
  cases u with
  | nil => exact fun h => absurd (List.cons.inj h).1 (by decide)
  | cons c rest => exact fun h => hu c mem_cons_self (List.cons.inj h).1

theorem shortTail?_cut (hmark : mark ≠ '\n') (hu : ∀ c ∈ u, c ≠ '\n') :
    (∃ n, shortTail? mark (u ++ ['\\', '\n']) = some (n, true)) ∨
      shortTail? mark (u ++ ['\\']) = shortTail? mark (u ++ ['\\', '\n']) := by
  -- a backslash hides the character after it, so the induction goes by length
  induction hlength : u.length using Nat.strong_induction_on generalizing u with
  | _ k ih =>
  rcases u with - | ⟨c, rest⟩
  · exact Or.inl ⟨2, rfl⟩
  by_cases hc : c = '\\'
  · subst hc
    rcases rest with - | ⟨d, rest⟩
    · right
      simp [shortTail?, hmark.symm]
    have hd : d ≠ '\n' := hu d (by simp)
    have hrest : ∀ e ∈ rest, e ≠ '\n' := fun e he => hu e (by simp [he])
    simp only [cons_append]
    rw [shortTail?_pair hd (append_backslash_ne hrest), shortTail?_pair hd (append_backslash_ne hrest)]
    obtain ⟨n, h⟩ | h := ih rest.length (by subst hlength; simp) hrest rfl
    · exact Or.inl ⟨n + 2, by rw [h]; rfl⟩
    · exact Or.inr (by rw [h])
  · have hrest : ∀ e ∈ rest, e ≠ '\n' := fun e he => hu e (by simp [he])
    simp only [cons_append]
    rw [shortTail?_plain hc, shortTail?_plain hc]
    by_cases hquote : c = mark
    · exact Or.inr (by rw [if_pos hquote, if_pos hquote])
    · have hplain : ¬ (c = '\n' ∨ c = '\\') := by
        rintro (h | h)
        · exact hu c mem_cons_self h
        · exact hc h
      rw [if_neg hquote, if_neg hplain, if_neg hquote, if_neg hplain]
      obtain ⟨n, h⟩ | h := ih rest.length (by subst hlength; simp) hrest rfl
      · exact Or.inl ⟨n + 1, by rw [h]; rfl⟩
      · exact Or.inr (by rw [h])

theorem tail?_plain {rest : Text} (hc : c ≠ '\\') : tail? closer (c :: rest) = if c = closer.mark then
        if closer.triple then if rest.take 2 = [closer.mark, closer.mark] then some 3
          else (tail? closer rest).map (1 + ·) else some 1 else (tail? closer rest).map (1 + ·) := by
  rcases rest with - | ⟨a, - | ⟨b, rest⟩⟩ <;> simp [tail?, hc]

theorem tail?_cut (hmark : isQuote closer.mark = true) (hu : ∀ c ∈ u, c ≠ '\n') :
    tail? closer (u ++ ['\\']) = tail? closer (u ++ ['\\', '\n']) := by
  have hnewline : '\n' ≠ closer.mark := by
    intro h
    rw [← h] at hmark
    exact absurd hmark (by decide)
  have hbackslash : '\\' ≠ closer.mark := by
    intro h
    rw [← h] at hmark
    exact absurd hmark (by decide)
  induction hlength : u.length using Nat.strong_induction_on generalizing u with
  | _ k ih =>
  rcases u with - | ⟨c, rest⟩
  · rfl
  by_cases hc : c = '\\'
  · subst hc
    rcases rest with - | ⟨d, rest⟩
    · simp [tail?, hnewline]
    · simp only [cons_append, tail?]
      rw [ih rest.length (by subst hlength; simp) (fun e he => hu e (by simp [he])) rfl]
  · have hrest := ih rest.length (by subst hlength; simp) (fun e he => hu e (by simp [he])) rfl
    -- the quotes after the first one are told from the backslash
    have htake : ((rest ++ ['\\']).take 2 = [closer.mark, closer.mark]) =
        ((rest ++ ['\\', '\n']).take 2 = [closer.mark, closer.mark]) := by
      rcases rest with - | ⟨a, - | ⟨b, rest⟩⟩ <;> simp [hbackslash]
    simp only [cons_append, tail?_plain hc, hrest, htake]

theorem comment?_cut (hu : ∀ c ∈ u, c ≠ '\n' ∧ c ≠ '\r') (hne : u ≠ []) :
    comment? (u ++ ['\\']) = comment? (u ++ ['\\', '\n']) := by
  cases u with
  | nil => exact absurd rfl hne
  | cons c rest =>
    by_cases hc : c = '#'
    · subst hc
      have hrest : ∀ d ∈ rest ++ ['\\'], (d != '\r' && d != '\n') = true := by
        intro d hd
        rw [mem_append, mem_singleton] at hd
        obtain hd | rfl := hd
        · have h := hu d (mem_cons_of_mem _ hd)
          simp [h.1, h.2]
        · rfl
      have hsplit : rest ++ ['\\', '\n'] = (rest ++ ['\\']) ++ ['\n'] := by simp
      simp only [cons_append, comment?, run]
      rw [hsplit, takeWhile_append_of_pos hrest, takeWhile_eq_self_iff.2 hrest]
      simp
    · rw [cons_append, cons_append, comment?, comment?]
      · exact fun s h => hc (List.cons.inj h).1
      · exact fun s h => hc (List.cons.inj h).1

theorem lineEnd?_append (hd : d ∈ dividers) (hu : ∀ c ∈ u, c ≠ '\n') (y : Text) :
    lineEnd? (u ++ d :: y) = none := by
  have hline : ∀ c ∈ dividers, c ≠ '\n' ∧ c ≠ '\r' := by simp [dividers]
  rcases u with - | ⟨a, - | ⟨b, rest⟩⟩
  · rw [nil_append, lineEnd?]
    · exact fun s h => (hline d hd).1 (List.cons.inj h).1
    · exact fun s h => (hline d hd).2 (List.cons.inj h).1
  · rw [cons_append, lineEnd?]
    · exact fun s h => hu a (by simp) (List.cons.inj h).1
    · exact fun s h => (hline d hd).1 (List.cons.inj (List.cons.inj h).2).1
  · rw [cons_append, lineEnd?]
    · exact fun s h => hu a (by simp) (List.cons.inj h).1
    · exact fun s h => hu b (by simp) (List.cons.inj (List.cons.inj h).2).1

theorem joinedLine?_append (hd : d ∈ dividers) (hu : ∀ c ∈ u, c ≠ '\n') (hne : u ≠ [])
    (y : Text) : joinedLine? (u ++ d :: y) = none := by
  cases u with
  | nil => exact absurd rfl hne
  | cons c rest =>
    by_cases hc : c = '\\'
    · subst hc
      rw [cons_append, joinedLine?, lineEnd?_append hd fun d hd => hu d (mem_cons_of_mem _ hd)]
      rfl
    · rw [cons_append, joinedLine?]
      exact fun s h => hc (List.cons.inj h).1

theorem shortString?_cut (hu : ∀ c ∈ u, c ≠ '\n') :
    (∃ n closer, shortString? (u ++ ['\\', '\n']) = some (n, closer, true)) ∨
      shortString? (u ++ ['\\']) = shortString? (u ++ ['\\', '\n']) := by
  unfold shortString?
  dsimp only
  rw [stringMarks_append (by decide), stringMarks_append (by decide),
    drop_append_of_le_length (onLine_stringMarks u).le,
    drop_append_of_le_length (onLine_stringMarks u).le]
  have hrest : ∀ c ∈ u.drop (stringMarks u), c ≠ '\n' := fun c hc => hu c (mem_of_mem_drop hc)
  generalize u.drop (stringMarks u) = v at hrest
  rcases v with - | ⟨q, rest⟩
  · exact Or.inr rfl
  simp only [cons_append]
  by_cases hq : isQuote q = true
  · have hmark : q ≠ '\n' := hrest q mem_cons_self
    rw [if_pos hq, if_pos hq]
    obtain ⟨n, h⟩ | h := shortTail?_cut hmark fun c hc => hrest c (mem_cons_of_mem _ hc)
    · exact Or.inl ⟨_, _, by rw [h]; rfl⟩
    · exact Or.inr (by rw [h])
  · rw [if_neg hq, if_neg hq]
    exact Or.inr rfl

theorem front?_joined (h : front? s = some (.joined, n)) : joinedLine? s = some n := by
  unfold front? at h
  split at h
  · rename_i m hm
    cases h
    exact hm
  · repeat' split at h
    all_goals simp_all

theorem front?_opening (h : front? s = some (.opening closer, n)) : tripleOpening? s = some (n, closer) := by
  unfold front? at h
  split at h
  · cases h
  · split at h
    · cases h
    · split at h
      · rename_i m closer hm
        cases h
        exact hm
      · repeat' split at h
        all_goals simp_all

theorem front?_cut (hu : ∀ c ∈ u, c ≠ '\n' ∧ c ≠ '\r') (hne : u ≠ []) :
    (∃ closer n, front? (u ++ ['\\', '\n']) = some (.openString closer, n)) ∨
      front? (u ++ ['\\']) = front? (u ++ ['\\', '\n']) := by
  have hline : ∀ c ∈ u, c ≠ '\n' := fun c hc => (hu c hc).1
  unfold front?
  rw [joinedLine?_append (by decide) hline hne, joinedLine?_append (by decide) hline hne, comment?_cut hu hne,
    tripleOpening?_append (by decide), tripleOpening?_append (by decide), number?_append (by decide),
    number?_append (by decide), operator?_append (by decide), operator?_append (by decide),
    lineEnd?_append (by decide) hline, lineEnd?_append (by decide) hline, punctuation?_append hne, punctuation?_append hne,
    name?_append hne (run_divider (by decide) _ _), name?_append hne (run_divider (by decide) _ _)]
  obtain ⟨n, closer, h⟩ | h := shortString?_cut hline
  · rw [h]
    rcases comment? (u ++ ['\\', '\n']) with - | n
    · rcases tripleOpening? u with - | ⟨n, closer⟩
      · rcases number? u with - | n
        · rcases operator? u with - | n
          · rcases punctuation? u with - | n
            · exact Or.inl ⟨closer, n, rfl⟩
            · exact Or.inr rfl
          · exact Or.inr rfl
        · exact Or.inr rfl
      · exact Or.inr rfl
    · exact Or.inr rfl
  · exact Or.inr (by rw [h])

/-! ### Fronts before a divider -/

end

end InlineMarkup.Lexeme

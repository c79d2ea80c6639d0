import InlineMarkup.Element.Tree
import InlineMarkup.Proofs.Conditional
import InlineMarkup.Proofs.Escape
import InlineMarkup.Proofs.Nesting
import InlineMarkup.Proofs.Newlines

/-!
Static text as the element that holds it writes it. Text becomes a string in which only the quotes are
escaped, so a backslash of the text can begin an escape of the string. Main statement: the expression that
text becomes is written as the text exactly if no backslash in it makes an escape.
-/
namespace InlineMarkup.Conditional

open Expression (Piece piece? shortBody? decode? decodeFrom letterEscape? isOctal codeWidth namedEscape? hexChar?)
open Reading List
open Markup (Build Builder)
open Markup.Builder

/-! ### Escapes -/

def endsEscape (c : Char) : Bool :=
  (letterEscape? c).isSome || isOctal c || c == 'N' || codeWidth false c != 0

def isUnescaped : Text → Bool
  | [] => true
  | c :: rest => (c != '\\' || rest.head?.any fun d => !endsEscape d) && isUnescaped rest

inductive Inside : Text → Prop where
  | nil : Inside []
  | pair {c : Char} {s : Text} (h : Inside s) : Inside ('\\' :: c :: s)
  | char {c : Char} {s : Text} (hslash : c ≠ '\\') (hquote : c ≠ '"') (hline : c ≠ '\n') (h : Inside s) :
      Inside (c :: s)

variable {s front more d t : Text} {n : Nat} {c : Char} {e : Expr} {ps : List Piece}

theorem shortBody?_of_inside (h : Inside s) (rest : Text) :
    shortBody? '"' (s ++ '"' :: rest) = some (s, s.length + 1) := by
  induction h with
  | nil => rfl
  | pair _ ih => simp [shortBody?, ih]
  | @char c s hslash hquote hline _ ih =>
    rw [cons_append, shortBody?]
    · simp [hquote, hline, ih]
    · exact fun d more heq => absurd heq hslash

variable {body out child : Text} {tree : Element.Tree}

theorem inside_of_shortBody? (h : shortBody? '"' s = some (body, n)) :
    Inside body ∧ ∃ rest, s = body ++ '"' :: rest ∧ n = body.length + 1 := by
  fun_induction shortBody? '"' s generalizing body n with
  | case1 => cases h
  | case2 c rest ih =>
    obtain ⟨⟨inner, m⟩, hinner, heq⟩ := Option.map_eq_some_iff.1 h
    cases heq
    obtain ⟨hinside, more, rfl, rfl⟩ := ih hinner
    exact ⟨.pair hinside, more, rfl, rfl⟩
  | case3 rest =>
    cases h
    exact ⟨.nil, rest, rfl, rfl⟩
  | case4 => cases h
  | case5 c rest hpair hquote hline ih =>
    obtain ⟨⟨inner, m⟩, hinner, heq⟩ := Option.map_eq_some_iff.1 h
    cases heq
    obtain ⟨hinside, more, rfl, rfl⟩ := ih hinner
    have hslash : c ≠ '\\' := by
      rintro rfl
      cases inner with
      | nil => exact hpair _ _ rfl rfl
      | cons d inner => exact hpair _ _ rfl rfl
    exact ⟨.char hslash hquote hline hinside, more, rfl, rfl⟩

theorem Inside.after (h : Inside (front ++ c :: more)) (hc : c ≠ '\\') : Inside more := by
  generalize hs : front ++ c :: more = s at h
  induction h generalizing front with
  | nil => simp at hs
  | @pair d s h ih =>
    match front, hs with
    | [], hs => exact absurd (List.cons.inj hs).1 hc
    | [_], hs =>
      cases hs
      exact h
    | _ :: _ :: front, hs => exact ih (List.cons.inj (List.cons.inj hs).2).2
  | char _ _ _ h ih =>
    match front, hs with
    | [], hs =>
      cases hs
      exact h
    | _ :: front, hs => exact ih (List.cons.inj hs).2

theorem decodeFrom_skip (bytes : Bool) (n : Nat) (s : Text) : decodeFrom bytes n s = decodeFrom bytes 0 (s.drop n) := by
  induction s generalizing n with
  | nil => cases n <;> rfl
  | cons c s ih =>
    cases n with
    | zero => rfl
    | succ n => exact ih n

def EndsWell (k : Nat) (more : Text) : Prop := k ≠ 0 → ∃ front c, c ≠ '\\' ∧ more = front ++ c :: more.drop k

theorem endsWell_digits {p : Char → Bool} (hp : p '\\' = false) {digits more : Text}
    (hdigits : ∀ c ∈ digits, p c = true) (hmore : digits <+: more) : EndsWell digits.length more := by
  intro hne
  obtain ⟨rest, rfl⟩ := hmore
  obtain ⟨front, c, rfl⟩ := (eq_nil_or_concat' digits).resolve_left (by rintro rfl; exact hne rfl)
  refine ⟨front, c, ?_, by simp⟩
  rintro rfl
  rw [hdigits '\\' (by simp)] at hp
  cases hp

theorem isSome_hexValue? {digits : Text} {d : Char} (h : hexChar? digits = some d) :
    ∀ c ∈ digits, (hexValue? c).isSome = true := by
  obtain ⟨n, hn, -⟩ := Option.map_eq_some_iff.1 h
  obtain ⟨values, hvalues, -⟩ := Option.map_eq_some_iff.1 (Option.filter_eq_some_iff.1 hn).1
  clear h hn
  induction digits generalizing values with
  | nil => simp
  | cons c digits ih =>
    rw [mapM_cons] at hvalues
    obtain ⟨v, hv, hrest⟩ := Option.bind_eq_some_iff.1 hvalues
    obtain ⟨vs, hvs, -⟩ := Option.bind_eq_some_iff.1 hrest
    intro x hx
    rcases mem_cons.1 hx with rfl | hx
    · simp [hv]
    · exact ih vs hvs x hx

theorem namedEscape?_eq {d : Char} {size : Nat} (h : namedEscape? more = some (d, size)) : EndsWell size more := by
  unfold namedEscape? at h
  split at h
  · rename_i rest
    dsimp only at h
    split at h
    · rename_i hshort
      obtain ⟨_, -, heq⟩ := Option.map_eq_some_iff.1 h
      cases heq
      intro _
      have hsplit := takeWhile_append_dropWhile (p := (· != '\x7d')) (l := rest)
      cases hdrop : rest.dropWhile (· != '\x7d') with
      | nil =>
        rw [hdrop, append_nil] at hsplit
        rw [hsplit] at hshort
        exact absurd hshort (lt_irrefl _)
      | cons c tail =>
        have hc : c = '\x7d' := by
          have hhead := head?_dropWhile_not (· != '\x7d') rest
          rw [hdrop] at hhead
          simpa using hhead
        subst hc
        rw [hdrop] at hsplit
        refine ⟨'\x7b' :: rest.takeWhile (· != '\x7d'), '\x7d', by decide, ?_⟩
        generalize rest.takeWhile (· != '\x7d') = name at hsplit ⊢
        subst hsplit
        simp
    · cases h
  · cases h

theorem decode_escape {e : Char} (he : endsEscape e = true)
    (h : decodeFrom false 0 ('\\' :: e :: more) = some out) :
    ∃ k made out', out = made ++ out' ∧ made.length ≤ 1 ∧ decodeFrom false 0 (more.drop k) = some out' ∧
      EndsWell k more := by
  simp only [decodeFrom, ne_eq, not_true_eq_false, if_false] at h
  split at h
  · rename_i made hletter
    obtain ⟨out', hout, rfl⟩ := Option.map_eq_some_iff.1 h
    refine ⟨0, made, out', rfl, ?_, hout, fun hne => absurd rfl hne⟩
    unfold letterEscape? at hletter
    split_ifs at hletter <;> cases hletter <;> simp
  · rename_i hletter
    split at h
    · rename_i hoctal
      obtain ⟨out', hout, rfl⟩ := Option.map_eq_some_iff.1 h
      have hdigits : ((e :: more).take 3).takeWhile isOctal = e :: (more.take 2).takeWhile isOctal := by
        rw [take_succ_cons, takeWhile_cons_of_pos hoctal]
      rw [hdigits, decodeFrom_skip, length_cons, drop_succ_cons] at hout
      refine ⟨_, [_], out', rfl, le_rfl, hout, ?_⟩
      exact endsWell_digits (by decide) (fun c hc => mem_takeWhile_imp hc)
        (( takeWhile_prefix _).trans ( take_prefix 2 more))
    · rename_i hoctal
      split at h
      · split at h
        · rename_i d size hname
          obtain ⟨out', hout, rfl⟩ := Option.map_eq_some_iff.1 h
          rw [decodeFrom_skip] at hout
          exact ⟨size, [d], out', rfl, le_rfl, hout, namedEscape?_eq hname⟩
        · cases h
      · rename_i hnamed
        split at h
        · rename_i hwidth
          simp [endsEscape, hletter, hoctal, hwidth] at he
          simp [he] at hnamed
        · split at h
          · cases h
          · rename_i hlong
            split at h
            · rename_i d hhex
              obtain ⟨out', hout, rfl⟩ := Option.map_eq_some_iff.1 h
              rw [decodeFrom_skip] at hout
              have hdigits := endsWell_digits (p := fun c => (hexValue? c).isSome) (by decide) (isSome_hexValue? hhex)
                ( take_prefix _ more)
              rw [length_take_of_le (not_lt.1 hlong)] at hdigits
              exact ⟨codeWidth false e, [d], out', rfl, le_rfl, hout, hdigits⟩
            · cases h

/-! ### What a string stands for -/

theorem quoted_eq_append (h : quoted s = front ++ c :: more) (hc : c ≠ '\\') :
    ∃ t, more = quoted t ∧ t.length < s.length := by
  induction s generalizing front with
  | nil => simp [quoted, Text.replaceChar] at h
  | cons d s ih =>
    rw [quoted_cons] at h
    split at h
    · rcases front with _ | ⟨_, _ | ⟨_, front⟩⟩
      · exact absurd (List.cons.inj h).1.symm hc
      · cases h
        exact ⟨s, rfl, by simp⟩
      · obtain ⟨t, ht, hlt⟩ := ih (List.cons.inj (List.cons.inj h).2).2
        exact ⟨t, ht, by simp; omega⟩
    · rcases front with _ | ⟨_, front⟩
      · cases h
        exact ⟨s, rfl, by simp⟩
      · obtain ⟨t, ht, hlt⟩ := ih (List.cons.inj h).2
        exact ⟨t, ht, by simp; omega⟩

theorem not_endsEscape_ne (h : endsEscape c = false) : c ≠ '\\' ∧ c ≠ '"' ∧ c ≠ '\n' := by
  refine ⟨?_, ?_, ?_⟩ <;> rintro rfl <;> exact absurd h (by decide)

theorem decodeFrom_backslash {e : Char} (he : endsEscape e = false) (more : Text) :
    decodeFrom false 0 ('\\' :: e :: more) = (decodeFrom false 0 (e :: more)).map ('\\' :: ·) := by
  have hslash := (not_endsEscape_ne he).1
  simp only [endsEscape, Bool.or_eq_false_iff, Option.isSome_eq_false_iff, Option.isNone_iff_eq_none,
    beq_eq_false_iff_ne, bne_eq_false_iff_eq] at he
  obtain ⟨⟨⟨hletter, hoctal⟩, hnamed⟩, hwidth⟩ := he
  simp [decodeFrom, hletter, hoctal, hnamed, hwidth, hslash]

theorem decodeFrom_char (hc : c ≠ '\\') (s : Text) :
    decodeFrom false 0 (c :: s) = (decodeFrom false 0 s).map (c :: ·) := by
  simp [decodeFrom, hc]

theorem decodeFrom_quote (s : Text) :
    decodeFrom false 0 ('\\' :: '"' :: s) = (decodeFrom false 0 s).map ('"' :: ·) := by
  have hletter : letterEscape? '"' = some ['"'] := rfl
  simp [decodeFrom, hletter]

theorem quoted_quote (s : Text) : quoted ('"' :: s) = '\\' :: '"' :: quoted s := rfl

theorem quoted_char (hc : c ≠ '"') (s : Text) : quoted (c :: s) = c :: quoted s := by
  rw [quoted_cons, if_neg hc]
  rfl

theorem Inside.tail (h : Inside (c :: s)) (hc : c ≠ '\\') : c ≠ '"' ∧ Inside s := by
  cases h with
  | pair _ => exact absurd rfl hc
  | char _ hquote _ h => exact ⟨hquote, h⟩

theorem Inside.rest (h : Inside ('\\' :: c :: s)) : Inside s := by
  cases h with
  | pair h => exact h
  | char hslash => exact absurd rfl hslash

theorem decode_length (hin : Inside (quoted d)) (h : decodeFrom false 0 (quoted d) = some out) :
    out.length ≤ d.length ∧ (out.length = d.length → isUnescaped d = true) := by
  induction hn : d.length using Nat.strong_induction_on generalizing d out with
  | _ n ih =>
  subst hn
  cases d with
  | nil =>
    cases h
    exact ⟨le_rfl, fun _ => rfl⟩
  | cons c d =>
    by_cases hslash : c = '\\'
    · subst hslash
      cases d with
      | nil =>
        cases hin with
        | char hslash => exact absurd rfl hslash
      | cons e d =>
        have hquote : e ≠ '"' := by
          rintro rfl
          exact (hin.rest.tail (by decide)).1 rfl
        rw [quoted_char (by decide), quoted_char hquote] at hin h
        cases he : endsEscape e with
        | false =>
          obtain ⟨hne, -, hline⟩ := not_endsEscape_ne he
          have hmore : Inside (quoted (e :: d)) := by
            rw [quoted_char hquote]
            exact .char hne hquote hline hin.rest
          rw [decodeFrom_backslash he, ← quoted_char hquote] at h
          obtain ⟨out, hout, rfl⟩ := Option.map_eq_some_iff.1 h
          obtain ⟨hle, heq⟩ := ih (e :: d).length (by simp) hmore hout rfl
          refine ⟨Nat.succ_le_succ hle, fun hlength => ?_⟩
          simpa [isUnescaped, he] using heq (Nat.succ.inj hlength)
        | true =>
          -- the escape stands for one character at most, and has two or more
          obtain ⟨k, made, out, rfl, hmade, hout, hends⟩ := decode_escape he h
          obtain ⟨t, ht, hshort, hrest⟩ :
              ∃ t, (quoted d).drop k = quoted t ∧ t.length ≤ d.length ∧ Inside (quoted t) := by
            by_cases hk : k = 0
            · exact ⟨d, by rw [hk, drop_zero], le_rfl, hin.rest⟩
            · obtain ⟨front, c, hc, hsplit⟩ := hends hk
              obtain ⟨t, ht, hlt⟩ := quoted_eq_append hsplit hc
              have hafter : Inside (('\\' :: e :: front) ++ c :: (quoted d).drop k) := by
                rw [cons_append, cons_append, ← hsplit]
                exact hin
              exact ⟨t, ht, hlt.le, ht ▸ hafter.after hc⟩
          rw [ht] at hout
          obtain ⟨hle, -⟩ := ih t.length (by simp; omega) hrest hout rfl
          simp only [length_append, length_cons]
          exact ⟨by omega, fun hlength => by omega⟩
    · have hsame : isUnescaped (c :: d) = isUnescaped d := by simp [isUnescaped, hslash]
      obtain ⟨out, hrest, hout, rfl⟩ :
          ∃ tail, Inside (quoted d) ∧ decodeFrom false 0 (quoted d) = some tail ∧ out = c :: tail := by
        by_cases hquote : c = '"'
        · subst hquote
          rw [quoted_quote] at hin h
          rw [decodeFrom_quote] at h
          obtain ⟨tail, htail, rfl⟩ := Option.map_eq_some_iff.1 h
          exact ⟨tail, hin.rest, htail, rfl⟩
        · rw [quoted_char hquote] at hin h
          rw [decodeFrom_char hslash] at h
          obtain ⟨tail, htail, rfl⟩ := Option.map_eq_some_iff.1 h
          exact ⟨tail, (hin.tail hslash).2, htail, rfl⟩
      obtain ⟨hle, heq⟩ := ih d.length (by simp) hrest hout rfl
      rw [hsame]
      exact ⟨Nat.succ_le_succ hle, fun hlength => heq (Nat.succ.inj hlength)⟩

theorem isUnescaped_cons (h : isUnescaped (c :: d) = true) :
    isUnescaped d = true ∧ (c = '\\' → ∃ e more, d = e :: more ∧ endsEscape e = false) := by
  simp only [isUnescaped, Bool.and_eq_true, Bool.or_eq_true, bne_iff_ne] at h
  refine ⟨h.2, fun hc => ?_⟩
  have hnext := h.1.resolve_left fun hne => hne hc
  cases d with
  | nil => cases hnext
  | cons e more => exact ⟨e, more, rfl, by simpa using hnext⟩

theorem inside_quoted (h : isUnescaped d = true) (hline : '\n' ∉ d) : Inside (quoted d) := by
  induction d with
  | nil => exact .nil
  | cons c d ih =>
    obtain ⟨hrest, hnext⟩ := isUnescaped_cons h
    have hinside := ih hrest fun hmem => hline (mem_cons_of_mem c hmem)
    by_cases hslash : c = '\\'
    · obtain ⟨e, more, rfl, he⟩ := hnext hslash
      obtain ⟨hne, hquote, -⟩ := not_endsEscape_ne he
      rw [quoted_char hquote] at hinside
      rw [hslash, quoted_char (by decide), quoted_char hquote]
      exact .pair (hinside.tail hne).2
    · by_cases hquote : c = '"'
      · rw [hquote, quoted_quote]
        exact .pair hinside
      · rw [quoted_char hquote]
        refine .char hslash hquote ?_ hinside
        rintro rfl
        exact hline mem_cons_self

theorem decode_quoted (h : isUnescaped d = true) : decodeFrom false 0 (quoted d) = some d := by
  induction d with
  | nil => rfl
  | cons c d ih =>
    obtain ⟨hrest, hnext⟩ := isUnescaped_cons h
    by_cases hslash : c = '\\'
    · obtain ⟨e, more, rfl, he⟩ := hnext hslash
      obtain ⟨-, hquote, -⟩ := not_endsEscape_ne he
      rw [hslash, quoted_char (by decide), quoted_char hquote, decodeFrom_backslash he, ← quoted_char hquote,
        ih hrest, Option.map_some]
    · by_cases hquote : c = '"'
      · rw [hquote, quoted_quote, decodeFrom_quote, ih hrest, Option.map_some]
      · rw [quoted_char hquote, decodeFrom_char hslash, ih hrest, Option.map_some]

theorem isUnescaped_concat (d : Text) : isUnescaped (d ++ ['\\']) = false := by
  induction d with
  | nil => rfl
  | cons c d ih => rw [cons_append, isUnescaped, ih, Bool.and_false]

theorem quoted_split (h : quoted d = front ++ '"' :: more) :
    ∃ d₁ d₂, d = d₁ ++ '"' :: d₂ ∧ front = quoted (d₁ ++ ['\\']) := by
  induction d generalizing front with
  | nil => simp [quoted, Text.replaceChar] at h
  | cons c d ih =>
    by_cases hquote : c = '"'
    · subst hquote
      rw [quoted_quote] at h
      rcases front with _ | ⟨_, _ | ⟨_, front⟩⟩
      · cases h
      · cases h
        exact ⟨[], d, rfl, rfl⟩
      · obtain ⟨rfl, hsecond⟩ := List.cons.inj h
        obtain ⟨rfl, htail⟩ := List.cons.inj hsecond
        obtain ⟨d₁, d₂, rfl, rfl⟩ := ih htail
        exact ⟨'"' :: d₁, d₂, rfl, rfl⟩
    · rw [quoted_char hquote] at h
      rcases front with _ | ⟨_, front⟩
      · exact absurd (List.cons.inj h).1 hquote
      · obtain ⟨rfl, htail⟩ := List.cons.inj h
        obtain ⟨d₁, d₂, rfl, rfl⟩ := ih htail
        exact ⟨c :: d₁, d₂, rfl, by rw [cons_append, quoted_char hquote]⟩

theorem isUnescaped_of_decode {rest : Text} (hrest : '"' ∉ rest)
    (hbody : shortBody? '"' (quoted d ++ '"' :: rest) = some (body, n)) (h : decode? false body = some d) :
    isUnescaped d = true := by
  obtain ⟨hin, more, hsplit, -⟩ := inside_of_shortBody? hbody
  have hwhole : body = quoted d → isUnescaped d = true := by
    rintro rfl
    exact (decode_length hin h).2 rfl
  rcases append_eq_append_iff.1 hsplit with ⟨front, hfront, hmore⟩ | ⟨front, hfront, hmore⟩
  · cases front with
    | nil => exact hwhole (by simpa using hfront)
    | cons c front =>
      obtain ⟨-, rfl⟩ := List.cons.inj hmore
      simp at hrest
  · cases front with
    | nil => exact hwhole (by simpa using hfront.symm)
    | cons c front =>
      obtain ⟨rfl, -⟩ := List.cons.inj hmore
      obtain ⟨d₁, d₂, rfl, rfl⟩ := quoted_split hfront
      obtain ⟨hle, heq⟩ := decode_length hin h
      simp only [length_append, length_cons, length_nil] at hle heq
      rw [isUnescaped_concat] at heq
      exact absurd (heq (by omega)) Bool.false_ne_true

/-! ### The expression that text becomes -/

def markup? : Expr → Option Element.Tree
  | .text s => some (.text s)
  | .call f [.text s] => if f.isLibrary "rawhtml".toList then some (.raw s) else none
  | _ => none

def rendered? (child : Text) : Option Text := ((read child).bind markup?).map Element.Tree.write

theorem lexFrom_quoted {rest : Text} (hd : d ≠ [])
    (h : lexFrom 0 ('u' :: '"' :: (quoted d ++ '"' :: rest)) = some ps) :
    ∃ body n t more, shortBody? '"' (quoted d ++ '"' :: rest) = some (body, n) ∧ decode? false body = some t ∧
      ps = .text t :: more := by
  rw [lexFrom, if_neg (by decide), piece?_quoted hd] at h
  cases hbody : shortBody? '"' (quoted d ++ '"' :: rest) with
  | none => simp [hbody] at h
  | some found =>
    obtain ⟨body, n⟩ := found
    cases hdecode : decode? false body with
    | none => simp [hbody, hdecode] at h
    | some t =>
      simp only [hbody, hdecode, Option.bind_some, Option.map_some] at h
      obtain ⟨more, -, rfl⟩ := Option.map_eq_some_iff.1 h
      exact ⟨body, n, t, more, rfl, hdecode, rfl⟩

variable {rest : List Piece}

theorem expression_primary (h : expression n ps = some (e, rest)) :
    e.isCond = true ∨ ∃ m, n = m + 1 ∧ primary m ps = some (e, rest) := by
  cases n with
  | zero => cases h
  | succ n =>
    rw [expression] at h
    cases hvalue : primary n ps with
    | none => simp [hvalue] at h
    | some found =>
      obtain ⟨value, more⟩ := found
      rw [hvalue] at h
      dsimp only at h
      split at h
      · split at h
        · split at h
          · split at h
            · obtain ⟨_, -, heq⟩ := Option.map_eq_some_iff.1 h
              cases heq
              exact .inl rfl
            · cases h
          · cases h
        · cases h
          exact .inr ⟨n, rfl, hvalue⟩
      · cases h
        exact .inr ⟨n, rfl, hvalue⟩

theorem expression_text {more : List Piece}
    (h : expression n (.text t :: more) = some (e, rest)) : e.isCond = true ∨ e = .text t := by
  refine (expression_primary h).imp_right ?_
  rintro ⟨m, -, hprimary⟩
  cases m with
  | zero => cases hprimary
  | succ m =>
    cases hprimary
    rfl

theorem arguments_text {more : List Piece} {args : List Expr}
    (h : arguments n (.text t :: more) = some (args, rest)) :
    ∃ e es, args = e :: es ∧ (e.isCond = true ∨ e = .text t) := by
  cases n with
  | zero => cases h
  | succ n =>
    rw [arguments] at h
    · split at h
      · rename_i e rest' hfirst
        cases h
        exact ⟨e, [], rfl, expression_text hfirst⟩
      · rename_i e rest' hfirst
        obtain ⟨⟨es, _⟩, -, heq⟩ := Option.map_eq_some_iff.1 h
        cases heq
        exact ⟨e, es, rfl, expression_text hfirst⟩
      · cases h
    · simp

def spine : Expr → Nat
  | .member e _ => spine e + 1
  | .call f _ => spine f + 1
  | _ => 0

theorem trailers_spine {e' : Expr} (h : trailers n e ps = some (e', rest)) : e' = e ∨ spine e < spine e' := by
  induction n generalizing e ps with
  | zero => cases h
  | succ n ih =>
    unfold trailers at h
    split at h
    · refine .inr ?_
      rcases ih h with rfl | hlt
      · exact Nat.lt_succ_self _
      · exact (Nat.lt_succ_self _).trans hlt
    · split at h
      · refine .inr ?_
        rcases ih h with rfl | hlt
        · exact Nat.lt_succ_self _
        · exact (Nat.lt_succ_self _).trans hlt
      · cases h
    · cases h
      exact .inl rfl

theorem spine_le_of_markup? (h : markup? e = some tree) : spine e ≤ 2 := by
  unfold markup? at h
  split at h
  · exact Nat.zero_le 2
  · split at h
    · rename_i f _ hlibrary
      unfold Expr.isLibrary at hlibrary
      split at hlibrary
      · exact le_rfl
      · cases hlibrary
    · cases h
  · cases h

theorem markup?_of_call {more : List Piece}
    (h : expression (n + 3) (pathPieces library "rawhtml".toList ++ .symbol ['('] :: .text t :: more) = some (e, rest))
    (htree : markup? e = some tree) : tree = .raw t := by
  rcases expression_primary h with hcond | ⟨m, hm, hprimary⟩
  · cases e <;> cases hcond
    cases htree
  obtain rfl : m = n + 2 := by omega
  obtain ⟨k, -, hpath⟩ := primary_path (isName_library "rawhtml".toList) (n := n + 2) (by omega)
    (.symbol ['('] :: .text t :: more)
  rw [hpath] at hprimary
  cases k with
  | zero => cases hprimary
  | succ k =>
    have hcall : trailers (k + 1) (path library "rawhtml".toList) (.symbol ['('] :: .text t :: more) =
        (arguments k (.text t :: more)).bind fun found =>
          trailers k (.call (path library "rawhtml".toList) found.1) found.2 := by
      rw [trailers]
      cases arguments k (.text t :: more) <;> rfl
    rw [hcall] at hprimary
    obtain ⟨⟨args, left⟩, hargs, hprimary⟩ := Option.bind_eq_some_iff.1 hprimary
    obtain ⟨first, others, rfl, hfirst⟩ := arguments_text hargs
    rcases trailers_spine hprimary with rfl | hlong
    · cases others with
      | nil =>
        rcases hfirst with hcond | rfl
        · cases first <;> cases hcond
          cases htree
        · cases htree
          rfl
      | cons second others => simp [markup?] at htree
    · exact absurd hlong (not_lt.2 (spine_le_of_markup? htree))

theorem quoted_of_not_mem (h : '"' ∉ quoted d) : quoted d = d := by
  induction d with
  | nil => rfl
  | cons c d ih =>
    by_cases hquote : c = '"'
    · rw [hquote, quoted_quote] at h
      simp at h
    · rw [quoted_char hquote] at h ⊢
      rw [ih fun hmem => h (mem_cons_of_mem c hmem)]

theorem eq_of_escape (h : quoted d = Text.escape (quoted d)) (ht : Text.escape t = d) : t = d := by
  have hplain := (Text.escape_eq_self_iff _).1 h.symm
  have hquoted : quoted d = d := quoted_of_not_mem fun hmem => hplain _ hmem (by simp [Text.IsMarked])
  rw [hquoted] at hplain
  rw [← ht, eq_comm, Text.escape_eq_self_iff]
  intro c hc hmarked
  obtain ⟨rest, hrest⟩ := Text.escapeChar_eq_cons hmarked
  have hamp : '&' ∈ t.flatMap Text.escapeChar := mem_flatMap.2 ⟨c, hc, by simp [hrest]⟩
  rw [← Text.escape_eq_flatMap, ht] at hamp
  exact hplain _ hamp (.inl rfl)

theorem rendered?_eq_some (h : rendered? child = some d) :
    ∃ ps e tree, lexFrom 0 child = some ps ∧ expression (4 * ps.length + 4) ps = some (e, []) ∧
      markup? e = some tree ∧ tree.write = d := by
  obtain ⟨tree, htree, rfl⟩ := Option.map_eq_some_iff.1 h
  obtain ⟨e, hread, he⟩ := Option.bind_eq_some_iff.1 htree
  obtain ⟨ps, hps, hexpr⟩ := Option.bind_eq_some_iff.1 hread
  split at hexpr
  · rename_i e' heq
    cases hexpr
    exact ⟨ps, e, tree, hps, heq, he, rfl⟩
  · cases hexpr

theorem rendered_of_unescaped (hd : d ≠ []) (hline : '\n' ∉ d) (h : isUnescaped d = true)
    (hchild : dataPiece d = child ++ [',', ' ']) : rendered? child = some d := by
  have hlex := lexes_quoted hd (shortBody?_of_inside (inside_quoted h hline)) (decode_quoted h)
  obtain ⟨x, ps, hpiece, -, hx, hchain⟩ := dataPiece_reads hlex
  obtain rfl : child = x := append_cancel_right (hchild.symm.trans hpiece)
  unfold rendered?
  rw [read_of_chain hx hchain, Option.bind_some]
  by_cases hescape : quoted d ≠ Text.escape (quoted d)
  · have hexpr : textExpr d = .call (path library "rawhtml".toList) [.text d] := if_pos hescape
    rw [hexpr]
    rfl
  · have hexpr : textExpr d = .text d := if_neg hescape
    have hplain := (Text.escape_eq_self_iff _).1 (not_not.1 hescape).symm
    have hquoted : quoted d = d := quoted_of_not_mem fun hmem => hplain _ hmem (by simp [Text.IsMarked])
    rw [hquoted] at hplain
    rw [hexpr]
    exact congrArg some ((Text.escape_eq_self_iff d).2 hplain)

theorem isUnescaped_of_text (hd : d ≠ []) (hescape : quoted d = Text.escape (quoted d))
    (h : rendered? ('u' :: '"' :: (quoted d ++ ['"'])) = some d) : isUnescaped d = true := by
  obtain ⟨ps, e, tree, hps, hexpr, htree, hwrite⟩ := rendered?_eq_some h
  obtain ⟨body, n, t, more, hbody, hdecode, rfl⟩ := lexFrom_quoted hd hps
  rcases expression_text hexpr with hcond | rfl
  · cases e <;> cases hcond
    cases htree
  · cases htree
    rw [eq_of_escape hescape hwrite] at hdecode
    exact isUnescaped_of_decode (by simp) hbody hdecode

theorem isUnescaped_of_raw (hd : d ≠ [])
    (h : rendered? (pathText library "rawhtml".toList ++ ['('] ++ 'u' :: '"' :: (quoted d ++ ['"', ')'])) = some d) :
    isUnescaped d = true := by
  obtain ⟨ps, e, tree, hps, hexpr, htree, hwrite⟩ := rendered?_eq_some h
  rw [lexes_path isIdentifier_library (by decide)] at hps
  obtain ⟨inner, hinner, rfl⟩ := Option.map_eq_some_iff.1 hps
  obtain ⟨body, n, t, more, hbody, hdecode, rfl⟩ := lexFrom_quoted hd hinner
  rw [append_assoc, singleton_append] at hexpr
  obtain rfl := markup?_of_call hexpr htree
  obtain rfl : t = d := hwrite
  exact isUnescaped_of_decode (by simp) hbody hdecode

theorem rendered_iff (hd : d ≠ []) (hline : '\n' ∉ d) :
    ∃ child, dataPiece d = child ++ [',', ' '] ∧ (rendered? child = some d ↔ isUnescaped d = true) := by
  by_cases hescape : quoted d ≠ Text.escape (quoted d)
  · have hpiece : dataPiece d = "html.rawhtml(u\"".toList ++ quoted d ++ "\"), ".toList := if_pos hescape
    have hchild : dataPiece d = (pathText library "rawhtml".toList ++ ['('] ++ 'u' :: '"' :: (quoted d ++ ['"', ')'])) ++
        [',', ' '] := by
      rw [hpiece]
      simp [pathText, library]
    exact ⟨_, hchild, isUnescaped_of_raw hd, fun h => rendered_of_unescaped hd hline h hchild⟩
  · have hpiece : dataPiece d = "u\"".toList ++ quoted d ++ "\", ".toList := if_neg hescape
    have hchild : dataPiece d = 'u' :: '"' :: (quoted d ++ ['"']) ++ [',', ' '] := by
      rw [hpiece]
      simp
    exact ⟨_, hchild, isUnescaped_of_text hd (not_not.1 hescape), fun h => rendered_of_unescaped hd hline h hchild⟩

/-- Data that is more than white space between lines is written as one expression, which is rendered as the
data, normalised, exactly if no backslash in it makes an escape. -/
theorem writeData_rendered {b : Builder} {data : Text} (hcomma : b.afterIf = true → EndsInComma b.output)
    (hdata : normalize data b.afterCode b.beforeCode ≠ []) :
    ∃ b' child, writeData data b = .ok () b' ∧ b'.output.back? = some (child ++ [',', ' ']) ∧
      (rendered? child = some (normalize data b.afterCode b.beforeCode) ↔
        isUnescaped (normalize data b.afterCode b.beforeCode) = true) := by
  obtain ⟨child, hchild, hiff⟩ := rendered_iff hdata (newline_not_mem_normalize data b.afterCode b.beforeCode)
  have hyields := writeData_yields b data
  cases hwrite : writeData data b with
  | error f c =>
    rw [hwrite] at hyields
    exact absurd (cut_of_endsInComma (hcomma hyields.1)) hyields.2
  | ok a c =>
    rw [hwrite] at hyields
    obtain ⟨hnone, -⟩ | ⟨-, mid, -, rfl⟩ := hyields
    · exact absurd hnone hdata
    · exact ⟨_, child, rfl, by simp [hchild], hiff⟩

/-- Quotes, an ampersand and a backslash that makes no escape, between two pieces of code. -/
theorem writeData_rendered_quotes :
    let b : Builder := { begin ⟨1, 4⟩ "str".toList with afterCode := true, beforeCode := true }
    let d := " say \"\\d\" & go ".toList
    normalize "\nsay \"\\d\" & go\n".toList b.afterCode b.beforeCode = d ∧ isUnescaped d = true ∧
      ∃ b' child, writeData "\nsay \"\\d\" & go\n".toList b = .ok () b' ∧
        b'.output.back? = some (child ++ [',', ' ']) ∧ rendered? child = some d := by
  intro b d
  have hnormal : normalize "\nsay \"\\d\" & go\n".toList b.afterCode b.beforeCode = d := by decide +kernel
  have hunescaped : isUnescaped d = true := by decide +kernel
  have hsome : normalize "\nsay \"\\d\" & go\n".toList b.afterCode b.beforeCode ≠ [] := by
    rw [hnormal]
    decide
  obtain ⟨b', child, hwrite, hback, hiff⟩ :=
    writeData_rendered (b := b) (fun h => absurd h Bool.false_ne_true) hsome
  rw [hnormal] at hiff
  exact ⟨hnormal, hunescaped, b', child, hwrite, hback, hiff.2 hunescaped⟩

/-- A backslash before `n` in the text is a line end in what is rendered. -/
theorem rendered_backslash : dataPiece "a\\nb".toList = "u\"a\\nb\"".toList ++ [',', ' '] ∧
      rendered? "u\"a\\nb\"".toList = some "a\nb".toList ∧ "a\nb".toList ≠ "a\\nb".toList := by
  decide +kernel

end InlineMarkup.Conditional

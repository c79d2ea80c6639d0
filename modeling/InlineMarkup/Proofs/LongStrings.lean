import InlineMarkup.Proofs.Calls
import InlineMarkup.Proofs.Places
import InlineMarkup.Proofs.RowEnds

/-!
Strings over several lines. Main statement: the string that holds markup in a call is read as one token, is
read back as the markup with placeholders, and gives the markup again when its code is filled in.
-/
namespace InlineMarkup

open List hiding tail?

open Lexeme Text
open Translate (quoteLiteral)

/-! ### Rows -/

def firstRow (s : Text) : Text := (lines s).headD []

variable {s a : Text}

theorem firstRow_of_noNewline (hs : ∀ c ∈ s, c ≠ '\n') : firstRow s = s := by
  cases s with
  | nil => rfl
  | cons c rest =>
    rw [firstRow, lines_of_noNewline hs (cons_ne_nil c rest)]
    rfl

theorem firstRow_line {l : Text} (hl : IsLine l) (s : Text) : firstRow (l ++ s) = l := by
  rw [firstRow, lines_append hl]
  rfl

theorem lines_noNewline_append (ha : ∀ c ∈ a, c ≠ '\n') {s : Text} (hs : s ≠ []) :
    lines (a ++ s) = (a ++ firstRow s) :: (lines s).tail := by
  induction a with
  | nil =>
    cases hlines : lines s with
    | nil =>
      have hflat := flatten_lines s
      rw [hlines] at hflat
      exact absurd hflat.symm hs
    | cons l ls => simp [firstRow, hlines]
  | cons c rest ih =>
    have hc : c ≠ '\n' := ha c mem_cons_self
    rw [cons_append, lines, if_neg hc, ih fun d hd => ha d (mem_cons_of_mem _ hd)]
    rfl

theorem firstRow_noNewline_append (ha : ∀ c ∈ a, c ≠ '\n') (s : Text) : firstRow (a ++ s) = a ++ firstRow s := by
  cases s with
  | nil => rw [append_nil, firstRow_of_noNewline ha, show firstRow [] = [] from rfl, append_nil]
  | cons c rest =>
    rw [firstRow, lines_noNewline_append ha (cons_ne_nil c rest)]
    rfl

theorem exists_line (h : '\n' ∈ s) : ∃ l rest, s = l ++ rest ∧ IsLine l := by
  obtain ⟨front, rest, rfl, hfront⟩ := eq_append_cons_of_mem h
  refine ⟨front ++ ['\n'], rest, by simp, isLine_append fun c hc => ?_⟩
  rintro rfl
  exact hfront hc

theorem lines_eq (hs : s ≠ []) : lines s = firstRow s :: lines (s.drop (firstRow s).length) := by
  by_cases h : '\n' ∈ s
  · obtain ⟨l, rest, rfl, hl⟩ := exists_line h
    rw [lines_append hl, firstRow_line hl, drop_left]
  · have hline : ∀ c ∈ s, c ≠ '\n' := fun c hc heq => h (heq ▸ hc)
    rw [lines_of_noNewline hline hs, firstRow_of_noNewline hline, drop_length]
    rfl

theorem length_firstRow_le (s : Text) : (firstRow s).length ≤ s.length := by
  by_cases h : '\n' ∈ s
  · obtain ⟨l, rest, rfl, hl⟩ := exists_line h
    rw [firstRow_line hl, length_append]
    omega
  · rw [firstRow_of_noNewline fun c hc heq => h (heq ▸ hc)]

theorem take_firstRow (hs : s ≠ []) : s.take (firstRow s).length = firstRow s := by
  have hflat := flatten_lines s
  rw [lines_eq hs, flatten_cons] at hflat
  exact (prefix_iff_eq_take.1 ⟨_, hflat⟩).symm

theorem isLine_firstRow (h : s.drop (firstRow s).length ≠ []) : IsLine (firstRow s) := by
  by_cases hnewline : '\n' ∈ s
  · obtain ⟨l, more, rfl, hl⟩ := exists_line hnewline
    rwa [firstRow_line hl]
  · refine absurd ?_ h
    rw [firstRow_of_noNewline fun c hc heq => hnewline (heq ▸ hc), drop_length]

/-! ### Where a string ends -/

def closing? (closer : Closer) : List Text → Option Nat
  | [] => none
  | l :: rest =>
    match tail? closer l with
    | some n => some n
    | none => (closing? closer rest).map (l.length + ·)

namespace Scan

/-! ### The rest of a text -/

def rest (scan : Scan) (line : Text) (col : Nat) (s : Text) : List Token :=
  (readFrom line scan col 0 (firstRow s)).1 ++
    (readFrom line scan col 0 (firstRow s)).2.all (lines (s.drop (firstRow s).length))

/-- No string has been left open, and no line has been joined to the next. -/
structure Calm (scan : Scan) : Prop where
  pending : scan.pending = none
  strict : scan.strict = false
  joined : scan.joined = false

theorem readFrom_skip (line : Text) (scan : Scan) (col skip : Nat) (s : Text) :
    readFrom line scan col skip s = readFrom line scan (col + skip) 0 (s.drop skip) := by
  induction s generalizing col skip with
  | nil => simp [readFrom]
  | cons c more ih =>
    cases skip with
    | zero => rfl
    | succ k =>
      rw [readFrom, ih (col + 1) k, drop_succ_cons]
      congr 1
      omega

variable {gap body line : Text} {front : Front} {size : Nat} {scan : Scan}

theorem run_spacing (h : front? body = some (front, size))
    (hgap : ∀ c ∈ gap, isSpacing c = true) : run isSpacing (gap ++ body) = gap.length := by
  induction gap with
  | nil =>
    cases body with
    | nil => rfl
    | cons c more =>
      by_cases hc : isSpacing c = true
      · rw [front?_spacing hc] at h
        cases h
      · simp [run, hc]
  | cons c more ih =>
    rw [cons_append, run, takeWhile_cons_of_pos (hgap c mem_cons_self), length_cons,
      length_cons]
    exact congrArg (· + 1) (ih fun d hd => hgap d (mem_cons_of_mem _ hd))

theorem readFrom_front (h : front? body = some (front, size)) (hgap : ∀ c ∈ gap, isSpacing c = true) (col : Nat) :
    readFrom line scan col 0 (gap ++ body) =
      match scan.read line (col + gap.length) body front size with
      | .suspended after => ([], after)
      | .token t taken after =>
        (t :: (readFrom line after (col + 1) (gap.length + taken - 1) (gap ++ body).tail).1,
          (readFrom line after (col + 1) (gap.length + taken - 1) (gap ++ body).tail).2) := by
  have hne : body ≠ [] := by
    rintro rfl
    cases h
  have hrun := run_spacing h hgap
  have hdrop : (gap ++ body).drop gap.length = body := drop_left
  cases hall : gap ++ body with
  | nil =>
    rw [append_eq_nil_iff] at hall
    exact absurd hall.2 hne
  | cons c more =>
    rw [hall] at hrun hdrop
    rw [readFrom]
    dsimp only
    rw [hrun, hdrop, if_neg (by simpa using hne), h]
    rfl

theorem readFrom_suspended {after : Scan} {col : Nat}
    (h : front? body = some (front, size)) (hgap : ∀ c ∈ gap, isSpacing c = true)
    (hread : scan.read line (col + gap.length) body front size = .suspended after) :
    readFrom line scan col 0 (gap ++ body) = ([], after) := by
  rw [readFrom_front h hgap, hread]

theorem readFrom_token {after : Scan} {col taken : Nat} {t : Token} (h : front? body = some (front, size))
    (hgap : ∀ c ∈ gap, isSpacing c = true)
    (hread : scan.read line (col + gap.length) body front size = .token t taken after) (hpos : 0 < taken) :
    readFrom line scan col 0 (gap ++ body) =
      (t :: (readFrom line after (col + gap.length + taken) 0 (body.drop taken)).1,
        (readFrom line after (col + gap.length + taken) 0 (body.drop taken)).2) := by
  have hdrop : (gap ++ body).tail.drop (gap.length + taken - 1) = body.drop taken := by
    obtain ⟨k, hk⟩ : ∃ k, gap.length + taken = k + 1 := ⟨gap.length + taken - 1, by omega⟩
    rw [hk, Nat.add_sub_cancel, ← drop_one, drop_drop, Nat.add_comm 1 k, ← hk, ← drop_drop,
      drop_left]
  have hcol : col + 1 + (gap.length + taken - 1) = col + gap.length + taken := by omega
  rw [readFrom_front h hgap, hread]
  dsimp only
  rw [readFrom_skip, hcol, hdrop]

/-! ### A string over several lines -/

theorem firstRow_drop {s : Text} {n : Nat} (h : ∀ c ∈ (firstRow s).take n, c ≠ '\n')
    (hn : n ≤ (firstRow s).length) :
    s.take n = (firstRow s).take n ∧ firstRow (s.drop n) = (firstRow s).drop n := by
  have htake : s.take n = (firstRow s).take n := by
    by_cases hnewline : '\n' ∈ s
    · obtain ⟨l, more, rfl, hl⟩ := exists_line hnewline
      rw [firstRow_line hl] at hn ⊢
      rw [take_append_of_le_length hn]
    · rw [firstRow_of_noNewline fun c hc heq => hnewline (heq ▸ hc)]
  refine ⟨htake, ?_⟩
  have hsplit := firstRow_noNewline_append (htake ▸ h) (s.drop n)
  rw [take_append_drop] at hsplit
  rw [hsplit, htake, drop_append_of_le_length (by rw [length_take_of_le hn]), drop_take]
  simp

theorem all_pending {o : OpenString} {s : Text} {n : Nat} (hpending : scan.pending = some o)
    (hstrict : scan.strict = false) (hjoined : scan.joined = false) (hquote : isQuote o.closer.mark = true)
    (hclosing : closing? o.closer (lines s) = some n) (hadvance : o.start.advance o.text = ⟨scan.row + 1, 0⟩) :
    ∃ (t : Token) (after : Scan) (line : Text) (col : Nat),
      scan.all (lines s) = t :: after.rest line col (s.drop n) ∧ after.Calm ∧ after.depth = scan.depth ∧
      t.kind = .string ∧ t.text = o.text ++ s.take n ∧ t.start = o.start ∧
      t.stop = ⟨after.row, col⟩ ∧ t.start.advance t.text = t.stop := by
  induction hlength : s.length using Nat.strong_induction_on generalizing scan o s n with
  | _ k ih =>
  have hne : s ≠ [] := by
    rintro rfl
    cases hclosing
  rw [lines_eq hne, closing?] at hclosing
  rw [lines_eq hne]
  have hrow : firstRow s ≠ [] := ne_nil_of_mem_lines (lines_eq hne ▸ mem_cons_self)
  have hline : scan.line (firstRow s) = ({ scan with row := scan.row + 1 } : Scan).stringLine o (firstRow s) := by
    unfold Scan.line
    dsimp only
    rw [hpending]
  have hsingle : SingleLine (firstRow s) := singleLine_of_mem_lines (lines_eq hne ▸ mem_cons_self)
  cases htail : tail? o.closer (firstRow s) with
  | some m =>
    rw [htail] at hclosing
    cases hclosing
    obtain ⟨hpos, hle, hlast⟩ := tail?_reach _ n htail
    have hnewline : ∀ c ∈ (firstRow s).take n, c ≠ '\n' := by
      refine hsingle.noNewline_take hlast fun hmark => ?_
      rw [hmark] at hquote
      exact absurd hquote (by decide)
    obtain ⟨htake, hdrop⟩ := firstRow_drop hnewline hle
    have hread : ({ scan with row := scan.row + 1 } : Scan).stringLine o (firstRow s) =
        ({ kind := .string, text := o.text ++ (firstRow s).take n, start := o.start,
            stop := ⟨(scan.row + 1 : Nat), n⟩, line := o.line ++ firstRow s } ::
          (readFrom (firstRow s)
            { scan with row := scan.row + 1, pending := none, strict := false } n 0
            ((firstRow s).drop n)).1,
          some (readFrom (firstRow s)
            { scan with row := scan.row + 1, pending := none, strict := false } n 0
            ((firstRow s).drop n)).2) := by
      unfold stringLine
      dsimp only
      rw [if_neg (by simpa using hrow), htail]
      dsimp only
      rw [readFrom_skip _ _ 0 n, Nat.zero_add]
    refine ⟨⟨.string, o.text ++ (firstRow s).take n, o.start, ⟨(scan.row + 1 : Nat), n⟩, o.line ++ firstRow s⟩,
      { scan with row := scan.row + 1, pending := none, strict := false }, firstRow s, n, ?_,
      ⟨rfl, rfl, hjoined⟩, rfl, rfl, ?_, rfl, rfl, ?_⟩
    · have hleft : (s.drop n).drop ((firstRow s).drop n).length = s.drop (firstRow s).length := by
        rw [drop_drop, length_drop, Nat.add_sub_cancel' hle]
      rw [all_cons_some (hline.trans hread), rest, hdrop, hleft, cons_append]
    · rw [htake]
    · dsimp only
      rw [Pos.advance_append, hadvance, Pos.advance_of_noNewline hnewline, length_take_of_le hle]
      push_cast
      congr 1
      omega
  | none =>
    rw [htail] at hclosing
    obtain ⟨m, hm, rfl⟩ := Option.map_eq_some_iff.1 hclosing
    have hl : IsLine (firstRow s) := isLine_firstRow fun hnil => by
      rw [hnil] at hm
      cases hm
    have hread : ({ scan with row := scan.row + 1 } : Scan).stringLine o (firstRow s) =
        ([], some { scan with row := scan.row + 1, pending := some { o with
            text := o.text ++ firstRow s, line := o.line ++ firstRow s } }) := by
      unfold stringLine
      dsimp only
      rw [if_neg (by simpa using hrow), htail, hstrict]
      rfl
    have hpos := length_pos_iff.2 hrow
    have hle := length_firstRow_le s
    obtain ⟨t, after, line, col, hall, hcalm, hdepth, hkind, htext, hstart, hstop, hend⟩ :=
      @ih (s.drop (firstRow s).length).length (by subst hlength; rw [length_drop]; omega)
        { scan with row := scan.row + 1, pending := some { o with
            text := o.text ++ firstRow s, line := o.line ++ firstRow s } } _
        (s.drop (firstRow s).length) m rfl hstrict hjoined hquote hm
        (by
          dsimp only
          rw [Pos.advance_append, hadvance, Pos.advance_isLine hl]
          push_cast
          rfl) rfl
    refine ⟨t, after, line, col, ?_, hcalm, hdepth, hkind, ?_, hstart, hstop, hend⟩
    · rw [all_cons_some (hline.trans hread), nil_append, hall, drop_drop]
    · rw [htext]
      dsimp only
      rw [append_assoc, take_add, take_firstRow hne]

end Scan

/-! ### The string that holds markup -/

theorem closing?_skip {closer : Closer} {u x : Text} (hu : ∀ c ∈ u, c ≠ '\n') (hx : x ≠ [])
    (h : ∀ y, tail? closer (u ++ y) = (tail? closer y).map (u.length + ·)) :
    closing? closer (lines (u ++ x)) = (closing? closer (lines x)).map (u.length + ·) := by
  have hrows := lines_noNewline_append (a := []) (by simp) hx
  rw [nil_append, nil_append] at hrows
  rw [lines_noNewline_append hu hx, hrows, closing?, closing?, h]
  cases tail? closer (firstRow x) with
  | some n => rfl
  | none =>
    rw [tail_cons, length_append]
    cases closing? closer (lines x).tail with
    | none => rfl
    | some n => simp [Nat.add_assoc]

theorem closing?_newline {closer : Closer} {x : Text} (hmark : closer.mark ≠ '\n') :
    closing? closer (lines ('\n' :: x)) = (closing? closer (lines x)).map (1 + ·) := by
  have htail : tail? closer ['\n'] = none := by
    rw [tail?_plain (by decide), if_neg hmark.symm]
    rfl
  rw [lines, if_pos rfl, closing?, htail]
  rfl

theorem closing?_quoteLiteral (s rest : Text) :
    closing? ⟨'\'', true⟩ (lines (quoteLiteral s ++ (['\'', '\'', '\''] ++ rest))) =
      some ((quoteLiteral s).length + 3) := by
  induction s with
  | nil =>
    have hrow := firstRow_noNewline_append (a := ['\'', '\'', '\'']) (by simp) rest
    rw [show quoteLiteral [] = [] from rfl, nil_append, lines_eq (by simp), hrow, closing?]
    rfl
  | cons c s ih =>
    have hne : quoteLiteral s ++ (['\'', '\'', '\''] ++ rest) ≠ [] := by simp
    -- a backslash hides the character behind it, whatever it is
    have hescaped (e : Char) (he : e ≠ '\n') :
        closing? ⟨'\'', true⟩ (lines (['\\', e] ++ (quoteLiteral s ++ (['\'', '\'', '\''] ++ rest)))) =
          some (2 + (quoteLiteral s).length + 3) := by
      rw [closing?_skip (by simpa using he) hne fun y => by simp [tail?, he], ih, Nat.add_assoc]
      rfl
    rw [quoteLiteral_cons, append_assoc, length_append]
    split_ifs with hslash hquote
    · exact hescaped '\\' (by decide)
    · exact hescaped '\'' (by decide)
    · rw [length_singleton, Nat.add_assoc, singleton_append]
      by_cases hnewline : c = '\n'
      · subst hnewline
        rw [closing?_newline (by decide), ih]
        rfl
      · have hplain (y : Text) : tail? ⟨'\'', true⟩ ([c] ++ y) = (tail? ⟨'\'', true⟩ y).map (1 + ·) := by
          rw [singleton_append, tail?_plain hslash, if_neg hquote]
        rw [← singleton_append, closing?_skip (by simpa using hnewline) hne hplain, ih]
        rfl

theorem tokenize_tripleQuotes {x : Text} {n : Nat} (h : closing? ⟨'\'', true⟩ (lines x) = some n) :
    ∃ t more, tokenize (lines (['\'', '\'', '\''] ++ x)) = t :: more ∧ t.kind = .string ∧
      t.text = ['\'', '\'', '\''] ++ x.take n ∧ t.start = ⟨1, 0⟩ ∧ t.stop = t.start.advance t.text := by
  have hne : x ≠ [] := by
    rintro rfl
    cases h
  rw [lines_eq hne, closing?] at h
  have hquotes : ∀ c ∈ ['\'', '\'', '\''], c ≠ '\n' := by simp
  rw [tokenize, lines_noNewline_append hquotes hne, lines_eq hne, tail_cons]
  have hsingle : SingleLine (firstRow x) := singleLine_of_mem_lines (lines_eq hne ▸ mem_cons_self)
  generalize hline : ['\'', '\'', '\''] ++ firstRow x = line
  have hfront : front? line = some (.opening ⟨'\'', true⟩, 3) := hline ▸ rfl
  have hdrop : line.drop 3 = firstRow x := hline ▸ rfl
  -- the line begins a statement in the first column, so no token comes before its lexemes
  have hstatement : ({} : Scan).line line = ((Scan.readFrom line { row := 1 } 0 0 ([] ++ line)).1,
        some (Scan.readFrom line { row := 1 } 0 0 ([] ++ line)).2) := hline ▸ rfl
  cases htail : tail? ⟨'\'', true⟩ (firstRow x) with
  | some m =>
    rw [htail] at h
    cases h
    obtain ⟨hpos, hle, hlast⟩ := tail?_reach _ n htail
    have hnewline : ∀ c ∈ (firstRow x).take n, c ≠ '\n' := hsingle.noNewline_take hlast (by decide)
    have hread : ({ row := 1 } : Scan).read line (0 + ([] : Text).length) line
        (.opening ⟨'\'', true⟩) 3 =
          .token ⟨.string, line.take (3 + n), ⟨1, 0⟩, ⟨1, (0 + (3 + n) : Nat)⟩, line⟩ (3 + n)
            { row := 1 } := by
      unfold Scan.read
      dsimp only
      rw [hdrop, htail]
      rfl
    rw [Scan.readFrom_token hfront (by simp) hread (by omega)] at hstatement
    have htake : line.take (3 + n) = ['\'', '\'', '\''] ++ (firstRow x).take n := by
      rw [← hline, Nat.add_comm]
      rfl
    have hstop : (⟨1, 0⟩ : Pos).advance (line.take (3 + n)) = ⟨1, (0 + (3 + n) : Nat)⟩ := by
      rw [htake, Pos.advance_append, Pos.advance_of_noNewline hquotes, Pos.advance_of_noNewline hnewline,
        length_take_of_le hle]
      push_cast
      simp
    refine ⟨_, _, Scan.all_cons_some hstatement, rfl, ?_, rfl, hstop.symm⟩
    rw [(Scan.firstRow_drop hnewline hle).1]
    exact htake
  | none =>
    rw [htail] at h
    obtain ⟨m, hm, rfl⟩ := Option.map_eq_some_iff.1 h
    have hl : IsLine (firstRow x) := isLine_firstRow fun hnil => by
      rw [hnil] at hm
      cases hm
    have hread : ({ row := 1 } : Scan).read line (0 + ([] : Text).length) line
        (.opening ⟨'\'', true⟩) 3 =
          .suspended { row := 1, pending := some ⟨line, ⟨1, 0⟩, line, ⟨'\'', true⟩⟩ } := by
      unfold Scan.read
      dsimp only
      rw [hdrop, htail]
      rfl
    rw [Scan.readFrom_suspended hfront (by simp) hread] at hstatement
    obtain ⟨t, after, l, col, hall, -, -, hkind, htext, hstart, -, hend⟩ :=
      @Scan.all_pending { row := 1, pending := some ⟨line, ⟨1, 0⟩, line, ⟨'\'', true⟩⟩ } _ _ _
        rfl rfl rfl rfl hm (by
          dsimp only
          rw [← hline, Pos.advance_append, Pos.advance_isLine hl]
          rfl)
    refine ⟨t, _, (Scan.all_cons_some hstatement).trans hall, hkind, ?_, hstart, hend.symm⟩
    rw [htext, ← hline, take_add, take_firstRow hne, append_assoc]

/-! ### Blocks -/

/-- Markup as a call holds it: text, and then pieces of code, each with the text behind it. -/
structure Block where
  first : Text
  rest : List (Text × Text)

namespace Block

def texts (b : Block) : List Text := b.first :: b.rest.map Prod.snd

def codes (b : Block) : List Text := b.rest.map Prod.fst

def source (b : Block) : Text := b.first ++ b.rest.flatMap fun (code, text) => code ++ text

def format (b : Block) : Text := ['\x7b', '\x7d'].intercalate (b.texts.map Segment.doubled)

def segments (b : Block) : List Segment :=
  .text b.first :: b.rest.flatMap fun (code, text) => [.code code, .text text]

theorem source_segments (b : Block) : Segment.source b.segments = b.source := by
  obtain ⟨first, rest⟩ := b
  refine congrArg (first ++ ·) ?_
  induction rest with
  | nil => rfl
  | cons pair rest ih => simpa [Segment.source] using ih

theorem codes_segments (b : Block) : Segment.codes b.segments = b.codes := by
  obtain ⟨first, rest⟩ := b
  induction rest with
  | nil => rfl
  | cons pair rest ih => simpa [segments, codes, Segment.codes] using ih

theorem format_segments (b : Block) : Segment.format b.segments = b.format := by
  obtain ⟨first, rest⟩ := b
  induction rest generalizing first with
  | nil => simp [segments, format, texts, Segment.format]
  | cons pair rest ih =>
    have hrest := ih pair.2
    simp only [segments, format, texts, Segment.format, flatMap_cons, map_cons, cons_append,
      nil_append] at hrest ⊢
    rw [hrest, intercalate_cons_cons]
    simp

theorem mem_format {b : Block} {c : Char} (h : c ∈ b.format) : c = '\x7b' ∨ c = '\x7d' ∨ ∃ p ∈ b.texts, c ∈ p := by
  obtain ⟨first, rest⟩ := b
  induction rest generalizing first with
  | nil =>
    have hfirst : c ∈ Segment.doubled first := by simpa [format, texts] using h
    exact .inr (.inr ⟨first, mem_cons_self, Segment.mem_doubled.1 hfirst⟩)
  | cons pair rest ih =>
    have hsplit : c ∈ Segment.doubled first ∨ c = '\x7b' ∨ c = '\x7d' ∨ c ∈ format ⟨pair.2, rest⟩ := by
      simpa [format, texts] using h
    rcases hsplit with hfirst | hopen | hclose | hrest
    · exact .inr (.inr ⟨first, mem_cons_self, Segment.mem_doubled.1 hfirst⟩)
    · exact .inl hopen
    · exact .inr (.inl hclose)
    · rcases ih pair.2 hrest with hopen | hclose | ⟨p, hp, hc⟩
      · exact .inl hopen
      · exact .inr (.inl hclose)
      · exact .inr (.inr ⟨p, mem_cons_of_mem _ hp, hc⟩)

end Block

/-- The string that holds a block in a call says all of it. At the front of any text it is one token,
over as many lines as it has; it is read back as the texts with placeholders between them; and the
pieces of code filled in for these give the block. -/
theorem first_argument_reversible (b : Block) (h : ∀ p ∈ b.texts, '\x00' ∉ p ∧ '\r' ∉ p) (after : Text) :
    (∃ t more, tokenize (lines (tripleQuoted b.format ++ after)) = t :: more ∧ t.kind = .string ∧
      t.text = tripleQuoted b.format ∧ t.start = ⟨1, 0⟩ ∧ t.stop = t.start.advance t.text) ∧
    InlineMarkup.Literal.read (tripleQuoted b.format) = .ok (.text b.format) ∧
    Text.format b.format b.codes = .ok b.source := by
  have habsent (c : Char) (hopen : c ≠ '\x7b') (hclose : c ≠ '\x7d') (htexts : ∀ p ∈ b.texts, c ∉ p) :
      c ∉ b.format := by
    intro hc
    rcases Block.mem_format hc with hc | hc | ⟨p, hp, hc⟩
    · exact hopen hc
    · exact hclose hc
    · exact htexts p hp hc
  refine ⟨?_, ?_, ?_⟩
  · obtain ⟨t, more, hall, hkind, htext, hstart, hstop⟩ :=
      tokenize_tripleQuotes (closing?_quoteLiteral b.format after)
    refine ⟨t, more, ?_, hkind, ?_, hstart, hstop⟩
    · rw [tripleQuoted_eq]
      simpa using hall
    · rw [htext, tripleQuoted_eq, ← append_assoc, take_left' (by simp)]
      rfl
  · exact Literal.read_tripleQuoted (habsent _ (by decide) (by decide) fun p hp => (h p hp).2)
      (habsent _ (by decide) (by decide) fun p hp => (h p hp).1)
  · have hformat := Segment.format_codes b.segments []
    rwa [append_nil, Block.format_segments, Block.codes_segments, Block.source_segments] at hformat

/-- Text that ends with a backslash and with quotes, over two lines, and before yet more quotes. -/
theorem first_argument_reversible_quotes :
    let b : Block := ⟨"<a b='\x7b'>\\\n\\".toList, [("\x7bf('''x''')\x7d".toList, "'</a>'''".toList)]⟩
    (∀ p ∈ b.texts, '\x00' ∉ p ∧ '\r' ∉ p) ∧
    (∃ t more, tokenize (lines (tripleQuoted b.format ++ "''\n".toList)) = t :: more ∧ t.kind = .string ∧
      t.text = tripleQuoted b.format ∧ t.start = ⟨1, 0⟩ ∧ t.stop = t.start.advance t.text) ∧
    InlineMarkup.Literal.read (tripleQuoted b.format) = .ok (.text b.format) ∧
    Text.format b.format b.codes = .ok b.source := by
  have h : ∀ p ∈ (⟨"<a b='\x7b'>\\\n\\".toList,
      [("\x7bf('''x''')\x7d".toList, "'</a>'''".toList)]⟩ : Block).texts, '\x00' ∉ p ∧ '\r' ∉ p := by
    decide +kernel
  exact ⟨h, first_argument_reversible _ h _⟩

end InlineMarkup

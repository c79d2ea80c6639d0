import InlineMarkup.Proofs.Pieces

/-!
Scanning after a whole statement. A text that ends with a line, and after which no string, bracket, joined
line or indentation is open, is scanned by itself, and what follows it as if it stood alone, some rows
further down. Main statement: what follows is scanned alike, whatever it is, exactly if the last string over
several lines was not spoiled.
-/
namespace InlineMarkup

open Text Layout List

/-! ### Strings over several rows -/

def Token.spans (t : Token) : Bool := decide (t.start.row < t.stop.row)

def spoilt (ts : List Token) : Bool := (ts.filter Token.spans).getLast?.any (·.kind == .error)

theorem spoilt_append_flat (ts : List Token) {us : List Token} (h : ∀ u ∈ us, u.spans = false) :
    spoilt (ts ++ us) = spoilt ts := by
  have hnone : us.filter Token.spans = [] := filter_eq_nil_iff.2 fun u hu => by simp [h u hu]
  rw [spoilt, filter_append, hnone, append_nil, spoilt]

theorem spoilt_append_cons (ts : List Token) {t : Token} {us : List Token} (ht : t.spans = true)
    (h : ∀ u ∈ us, u.spans = false) : spoilt (ts ++ t :: us) = (t.kind == .error) := by
  have hnone : us.filter Token.spans = [] := filter_eq_nil_iff.2 fun u hu => by simp [h u hu]
  rw [spoilt, filter_append, filter_cons_of_pos ht, hnone, getLast?_concat]
  rfl

variable {row col : Int} {s : Text} {ts : List Token} {left : Option OpenString}

theorem Row.flat (h : Row row col s ts left) : ∀ t ∈ ts, t.spans = false := by
  have hflat {t : Token} {a b : Int} (hstart : t.start = ⟨row, a⟩) (hstop : t.stop = ⟨row, b⟩) :
      t.spans = false := by
    simp [Token.spans, hstart, hstop]
  induction h with
  | blank | opens => simp
  | word t _ _ _ hstart hstop _ _ ih => exact forall_mem_cons.2 ⟨hflat hstart hstop, ih⟩
  | lineEnd t _ _ _ hstart hstop => simpa using hflat hstart hstop
  | joined t _ _ _ _ hstart hstop => simpa using hflat hstart hstop

theorem Row.left_row (h : Row row col s ts left) : ∀ o, left = some o → o.start.row = row := by
  induction h with
  | blank | lineEnd | joined => exact nofun
  | opens p _ _ hstart =>
    intro o ho
    cases ho
    rw [hstart]
  | word _ _ _ _ _ _ _ _ ih => exact ih

namespace Scan

open Lexeme

variable {row : Int} {l : Text} {left : Option OpenString} {ts : List Token} {scan after : Scan}

theorem LineRead.left_row {before : Option OpenString}
    (h : LineRead row l before ts left) (hbefore : ∀ p, before = some p → p.start.row < row) :
    ∀ o, left = some o → o.start.row ≤ row := by
  cases h with
  | fresh hrow => exact fun o ho => (hrow.left_row o ho).le
  | closes _ _ _ _ _ _ _ _ _ hrow => exact fun o ho => (hrow.left_row o ho).le
  | spoiled => exact nofun
  | goesOn p q _ hstart =>
    intro o ho
    cases ho
    rw [hstart]
    exact (hbefore p rfl).le

theorem LineRead.spoilt_fresh (h : LineRead row l none ts left) (before : List Token) : spoilt
    (before ++ ts) = spoilt before := by
  cases h with
  | fresh hrow => exact spoilt_append_flat before hrow.flat

theorem LineRead.spoilt_string {p : OpenString} {t : Token} (h : LineRead row l (some p) (t :: ts) left)
    (hrow : p.start.row < row) (before : List Token) : spoilt (before ++ t :: ts) = (t.kind == .error) := by
  have hspans {n : Int} (hstart : t.start = p.start) (hstop : t.stop = ⟨row, n⟩) : t.spans = true := by
    simpa [Token.spans, hstart, hstop] using hrow
  cases h with
  | closes _ _ _ _ _ _ _ hstart hstop hrest =>
    exact spoilt_append_cons before (hspans hstart hstop) hrest.flat
  | spoiled _ _ _ _ hstart hstop => exact spoilt_append_cons before (hspans hstart hstop) nofun

/-! ### What is kept of a spoiled string -/

theorem readFrom_flag (line : Text) (scan : Scan) (col skip : Nat) (s : Text)
    (h : (readFrom line scan col skip s).2.pending = none) :
    (readFrom line scan col skip s).2.strict = scan.strict := by
  fun_induction readFrom line scan col skip s with
  | case1 | case3 => rfl
  | case2 scan col skip c rest ih => exact ih h
  | case4 scan col c rest spacing body hempty hfront t more after hrest ih =>
    rw [hrest] at ih
    exact ih h
  | case5 scan col c rest spacing body hempty front size hfront after hread =>
    obtain ⟨⟨closer, -, hopen⟩, -⟩ := read_suspended (front?_reaches hfront) hread
    rw [hopen] at h
    cases h
  | case6 scan col c rest spacing body hempty front size hfront t taken after hread more final hrest ih =>
    rw [hrest] at ih
    exact (ih h).trans (read_after hread).2

theorem stringLine_flag {o : OpenString}
    (h : scan.stringLine o l = (ts, some after)) (hpending : after.pending = none) :
    ∃ t more, ts = t :: more ∧ after.strict = (t.kind == .error) := by
  unfold stringLine at h
  dsimp only at h
  split at h
  · cases h
  split at h
  · cases h
    exact ⟨_, _, rfl, readFrom_flag _ _ _ _ _ hpending⟩
  split at h
  · rename_i hspoils
    cases h
    exact ⟨_, _, rfl, (Bool.and_eq_true_iff.1 hspoils).1⟩
  · cases h
    cases hpending

theorem statementLine_flag (h : scan.statementLine l = (ts, some after)) (hpending : after.pending = none) :
    after.strict = scan.strict := by
  unfold statementLine at h
  dsimp only at h
  split at h
  · cases h
  split at h
  · cases h
    rfl
  split at h
  · cases h
    rfl
  · cases h
    exact readFrom_flag _ _ _ _ _ hpending

theorem line_flag (h : scan.line l = (ts, some after)) (hpending : after.pending = none) :
    scan.pending = none ∧ after.strict = scan.strict ∨
      ∃ t more, ts = t :: more ∧ scan.pending ≠ none ∧ after.strict = (t.kind == .error) := by
  rw [line_eq_rowAt] at h
  unfold rowAt at h
  dsimp only at h
  split at h
  · rename_i o ho
    obtain ⟨t, more, hts, hstrict⟩ := stringLine_flag h hpending
    exact .inr ⟨t, more, hts, by simp [ho], hstrict⟩
  · rename_i hnone
    refine .inl ⟨hnone, ?_⟩
    split at h
    · split at h
      · cases h
      · exact (statementLine_flag h hpending :)
    · split at h
      · cases h
      · cases h
        exact readFrom_flag _ _ _ _ _ hpending

/-! ### The mark of the end -/

theorem readFrom_ne_endMarker (line : Text) (scan : Scan) (col skip : Nat) (s : Text) :
    ∀ t ∈ (readFrom line scan col skip s).1, t.kind ≠ .endMarker := by
  fun_induction readFrom line scan col skip s with
  | case1 | case3 | case5 => simp
  | case2 scan col skip c rest ih => exact ih
  | case4 scan col c rest spacing body hempty hfront t more after hrest ih =>
    rw [hrest] at ih
    exact forall_mem_cons.2 ⟨by simp, ih⟩
  | case6 scan col c rest spacing body hempty front size hfront t taken after hread more final hrest ih =>
    rw [hrest] at ih
    exact forall_mem_cons.2 ⟨(read_kind hread).1.2, ih⟩

theorem line_ne_endMarker (h : scan.line l = (ts, some after)) : ∀ t ∈ ts, t.kind ≠ .endMarker := by
  rw [line_eq_rowAt] at h
  unfold rowAt stringLine statementLine at h
  dsimp only at h
  repeat' split at h
  all_goals cases h
  · exact forall_mem_cons.2 ⟨nofun, readFrom_ne_endMarker _ _ _ _ _⟩
  · simp
  · exact nofun
  · simp
  · simp
  · refine forall_mem_append.2 ⟨forall_mem_append.2 ⟨by simp, forall_mem_map.2 fun _ _ => nofun⟩, ?_⟩
    exact readFrom_ne_endMarker _ _ _ _ _
  · refine forall_mem_append.2 ⟨forall_mem_append.2 ⟨by simp, forall_mem_map.2 fun _ _ => nofun⟩, ?_⟩
    exact readFrom_ne_endMarker _ _ _ _ _
  · exact readFrom_ne_endMarker _ _ _ _ _

/-! ### Whole lines -/

/-- What a scan has kept of the tokens before: whether the last string over several lines was spoiled, and
where a string began that is open. -/
structure Recalls (scan : Scan) (ts : List Token) : Prop where
  flag : scan.pending = none → scan.strict = spoilt ts
  begun : ∀ o, scan.pending = some o → o.start.row ≤ scan.row
  marks : ∀ t ∈ ts, t.kind ≠ .endMarker

theorem line_recalls (h : scan.Recalls ts) (hl : IsLine l) :
    ∃ us after, scan.line l = (us, some after) ∧ after.row = scan.row + 1 ∧ after.Recalls (ts ++ us) := by
  rcases line_read scan hl.1 hl.ne_nil with ⟨after, hafter, hrow, hread⟩ | ⟨hblank, -, -⟩
  · obtain ⟨us, hus⟩ : ∃ us, (scan.line l).1 = us := ⟨_, rfl⟩
    have hline : scan.line l = (us, some after) := Prod.ext hus hafter
    rw [hus] at hread
    have hbefore (p : OpenString) (hp : scan.pending = some p) : p.start.row < (scan.row + 1 : Nat) := by
      have hle := h.begun p hp
      omega
    refine ⟨us, after, hline, hrow, fun hpending => ?_, fun o ho => ?_,
      forall_mem_append.2 ⟨h.marks, line_ne_endMarker hline⟩⟩
    · rcases line_flag hline hpending with ⟨hnone, hstrict⟩ | ⟨t, more, rfl, hopen, hstrict⟩
      · rw [hnone] at hread
        rw [hstrict, h.flag hnone, hread.spoilt_fresh]
      · obtain ⟨p, hp⟩ := Option.ne_none_iff_exists'.1 hopen
        rw [hp] at hread
        rw [hstrict, hread.spoilt_string (hbefore p hp)]
    · rw [hrow]
      exact hread.left_row hbefore o ho
  · exact absurd rfl (spacing_noNewline hblank _ (mem_of_getLast? hl.2))

theorem through_recalls {ls : List Text} (hls : ∀ l ∈ ls, IsLine l) {scan : Scan} {ts : List Token}
    (h : scan.Recalls ts) : ∃ after, (scan.through ls).2 = some after ∧ after.row = scan.row + ls.length ∧
      after.Recalls (ts ++ (scan.through ls).1) := by
  induction ls generalizing scan ts with
  | nil => exact ⟨scan, rfl, rfl, by simpa [through] using h⟩
  | cons l rest ih =>
    obtain ⟨hl, hrest⟩ := forall_mem_cons.1 hls
    obtain ⟨us, mid, hline, hrow, hmid⟩ := line_recalls h hl
    obtain ⟨after, hafter, hrows, hrecalls⟩ := ih hrest hmid
    refine ⟨after, ?_, ?_, ?_⟩
    · rw [through, hline]
      exact hafter
    · rw [hrows, hrow, length_cons]
      omega
    · rw [through, hline]
      simpa using hrecalls

theorem recalls_start : ({} : Scan).Recalls [] := ⟨fun _ => rfl, nofun, nofun⟩

theorem line_nil_endMarker {front : List Token} {e : Token} (h : scan.Recalls ts)
    (hrun : ts ++ (scan.line []).1 = front ++ [e]) (hend : e.kind = .endMarker)
    (hdedent : ∀ d ∈ front.getLast?, d.kind ≠ .dedent) : scan.Ready ∧ scan.indents = [] ∧ front = ts := by
  have hself : scan.within scan.indents = scan := rfl
  rcases line_nil_cases scan with ⟨_, -, t, hkind, -, -, hline⟩ | ⟨hready, hline⟩ | ⟨-, -, hline⟩
  · have hlast := hline scan.indents
    rw [hself] at hlast
    rw [hlast] at hrun
    obtain ⟨-, rfl⟩ := append_singleton_inj.1 hrun
    cases hkind.symm.trans hend
  · have hfinish := hline scan.indents
    rw [hself] at hfinish
    rw [hfinish, finish, ← append_assoc] at hrun
    obtain ⟨rfl, -⟩ := append_singleton_inj.1 hrun
    have hnone : scan.indents = [] := by
      cases hindents : scan.indents using List.reverseRecOn with
      | nil => rfl
      | append_singleton more i => exact absurd rfl (hdedent _ (by simp [within, hindents, map_append]; rfl))
    exact ⟨hready, hnone, by simp [within, hnone]⟩
  · have hlast := hline scan.indents
    rw [hself] at hlast
    rw [hlast, append_nil] at hrun
    exact absurd hend (h.marks e (by simp [hrun]))

end Scan

/-! ### Statements scanned apart -/

theorem Token.down_injective (n : Nat) : Function.Injective (Token.down n) := by
  rintro ⟨_, _, ⟨_, _⟩, ⟨_, _⟩, _⟩ ⟨_, _, ⟨_, _⟩, ⟨_, _⟩, _⟩ h
  simpa [Token.down, Pos.down] using h

theorem tokenize_after {s : Text} (hs : s.getLast? = some '\n') {front : List Token} {e : Token}
    (hrun : tokenize (lines s) = front ++ [e]) (hend : e.kind = .endMarker)
    (hdedent : ∀ d ∈ front.getLast?, d.kind ≠ .dedent) (more : Text) : tokenize (lines (s ++ more)) =
      front ++ (({ strict := spoilt front } : Scan).all (lines more)).map (Token.down (lines s).length) := by
  obtain ⟨after, hafter, hrow, hrecalls⟩ :=
    Scan.through_recalls (isLine_of_mem_lines (.inr hs)) Scan.recalls_start
  rw [nil_append] at hrecalls
  have hwhole (ls : List Text) := Scan.all_append hafter ls
  have hself := hwhole []
  rw [append_nil] at hself
  have hline := Scan.line_nil_endMarker hrecalls (hself.symm.trans hrun) hend hdedent
  obtain ⟨⟨hpending, hdepth, hjoined⟩, hindents, rfl⟩ := hline
  have hscan : after = ({ strict := spoilt (({} : Scan).through (lines s)).1 } : Scan).down (lines s).length := by
    have hflag := hrecalls.flag hpending
    obtain ⟨row, depth, joined, indents, pending, strict⟩ := after
    simp_all [Scan.down]
  rw [lines_ended_append (.inr hs), ← Scan.all_down, ← hscan]
  exact hwhole (lines more)

def quotedRows : Text := "'''\nx\n'''\n".toList

theorem quotedRows_marked : ({ strict := true } : Scan).all (lines quotedRows) ≠ tokenize (lines quotedRows) := by
  decide +kernel

/-- A text of whole statements, with nothing open at its end, is scanned apart from whatever follows it
exactly if no string over several lines was spoiled in it, or one was read to its end after that. -/
theorem statements_scanned_apart {s : Text} (hs : s.getLast? = some '\n') {front : List Token} {e : Token}
    (hrun : tokenize (lines s) = front ++ [e]) (hend : e.kind = .endMarker)
    (hdedent : ∀ d ∈ front.getLast?, d.kind ≠ .dedent) :
    (∀ more, tokenize (lines (s ++ more)) = front ++ (tokenize (lines more)).map (Token.down (lines s).length)) ↔
      spoilt front = false := by
  constructor
  · intro hall
    by_contra hspoilt
    have hboth := (tokenize_after hs hrun hend hdedent quotedRows).symm.trans (hall quotedRows)
    rw [Bool.eq_true_of_not_eq_false hspoilt] at hboth
    have hsame := map_injective_iff.2 (Token.down_injective _) (append_cancel_left hboth)
    exact quotedRows_marked hsame
  · intro hspoilt more
    rw [tokenize_after hs hrun hend hdedent more, hspoilt]
    rfl

def blockText : Text := "if a:\n b = '''\n '''\nc\n".toList

theorem statements_scanned_apart_blockText :
    ∃ front e, tokenize (lines blockText) = front ++ [e] ∧ e.kind = .endMarker ∧
      (∀ d ∈ front.getLast?, d.kind ≠ .dedent) ∧ spoilt front = false ∧
      ∀ more, tokenize (lines (blockText ++ more)) =
        front ++ (tokenize (lines more)).map (Token.down (lines blockText).length) := by
  have hrun : tokenize (lines blockText) =
      (tokenize (lines blockText)).dropLast ++ [⟨.endMarker, [], ⟨5, 0⟩, ⟨5, 0⟩, []⟩] := by
    decide +kernel
  have hdedent : ∀ d ∈ (tokenize (lines blockText)).dropLast.getLast?, d.kind ≠ .dedent := by
    decide +kernel
  have hwhole : spoilt (tokenize (lines blockText)).dropLast = false := by
    decide +kernel
  exact ⟨_, _, hrun, rfl, hdedent, hwhole, (statements_scanned_apart rfl hrun rfl hdedent).2 hwhole⟩

def spoiltString : Text := "'a\\\nb\n".toList

/-- After it a string over several lines is spoiled too, though it is a string by itself. -/
theorem spoiltString_not_apart :
    (∃ front, tokenize (lines spoiltString) = front ++ [⟨.endMarker, [], ⟨3, 0⟩, ⟨3, 0⟩, []⟩] ∧
      (∀ d ∈ front.getLast?, d.kind ≠ .dedent)) ∧ (tokenize (lines spoiltString)).dropLast ++
        (tokenize (lines quotedRows)).map (Token.down (lines spoiltString).length) ≠
      tokenize (lines (spoiltString ++ quotedRows)) := by
  refine ⟨⟨(tokenize (lines spoiltString)).dropLast, ?_⟩, ?_⟩
  · decide +kernel
  · decide +kernel

end InlineMarkup

import InlineMarkup.Proofs.Lexeme
import InlineMarkup.Proofs.Lines
import InlineMarkup.Token.Scan

/-!
The tokens of a row tile it: each starts where the last one stopped, with nothing but spacing
between them, and spells what stands there. A row may leave a string open, which is then all that
is left of it.
-/
namespace InlineMarkup

open Lexeme Text List

/-! ### Rows -/

def Spacing (gap : Text) : Prop := ∀ c ∈ gap, isSpacing c

theorem spacing_nil : Spacing [] := forall_mem_nil _

def EndsRow (s : Text) : Prop := s = ['\n'] ∨ s = [] ∨ s.head? = some '\r'

/-- A string that has begun: its text does not begin with a newline, and it ends with quotes. -/
structure OpenString.Begun (p : OpenString) : Prop where
  text : ∃ c rest, p.text = c :: rest ∧ c ≠ '\n'
  quote : isQuote p.closer.mark

variable {p : OpenString} {row col : Int} {s : Text} {ts : List Token} {left : Option OpenString}

theorem OpenString.Begun.ne_nil (h : p.Begun) : p.text ≠ [] := by
  obtain ⟨c, rest, htext, -⟩ := h.text
  simp [htext]

theorem OpenString.Begun.one_lt_length (h : p.Begun) (hlast : p.text.getLast? = some '\n') : 1 < p.text.length := by
  obtain ⟨c, rest, htext, hc⟩ := h.text
  cases rest with
  | nil =>
    rw [htext] at hlast
    exact absurd (by simpa using hlast) hc
  | cons d more => simp [htext]

theorem OpenString.Begun.extend {q : OpenString} (h : p.Begun) {l : Text}
    (htext : q.text = p.text ++ l) (hcloser : q.closer = p.closer) : q.Begun := by
  obtain ⟨c, rest, hp, hc⟩ := h.text
  exact ⟨⟨c, rest ++ l, by rw [htext, hp, cons_append], hc⟩, hcloser ▸ h.quote⟩

def CommentEnds (comment s : Text) (ts : List Token) : Prop :=
  comment.head? = some '#' ∧ (∀ c, s.head? = some c → c = '\r' ∨ c = '\n') ∧
    (s = ['\n'] → ∃ u, ts = [u] ∧ u.kind.isLineEnd = true)

/-- `Row row col s tokens left`: the text `s`, which starts in column `col` of a row, is tiled by the
tokens up to its end, or up to a string that it leaves open. -/
inductive Row (row : Int) : Int → Text → List Token → Option OpenString → Prop where
  | blank {col : Int} {s : Text} (hs : Spacing s) : Row row col s [] none
  | opens {col : Int} {gap : Text} (p : OpenString) (hgap : Spacing gap)
      (hbegun : p.Begun) (hstart : p.start = ⟨row, col + gap.length⟩) :
      Row row col (gap ++ p.text) [] (some p)
  | word {col : Int} {gap s : Text} {ts : List Token} {left : Option OpenString} (t : Token)
      (hgap : Spacing gap) (hkind : t.kind.isLineEnd = false) (htext : ∀ c ∈ t.text, c ≠ '\n')
      (hstart : t.start = ⟨row, col + gap.length⟩)
      (hstop : t.stop = ⟨row, col + gap.length + t.text.length⟩)
      (hcomment : t.kind = .comment → CommentEnds t.text s ts)
      (hrest : Row row (col + gap.length + t.text.length) s ts left) :
      Row row col (gap ++ (t.text ++ s)) (t :: ts) left
  | lineEnd {col : Int} {gap : Text} (t : Token) (hgap : Spacing gap)
      (hkind : t.kind.isLineEnd = true) (htext : EndsRow t.text)
      (hstart : t.start = ⟨row, col + gap.length⟩)
      (hstop : t.stop = ⟨row, col + gap.length + t.text.length⟩) :
      Row row col (gap ++ t.text) [t] none
  | joined {col : Int} {gap e : Text} (t : Token) (hgap : Spacing gap) (hend : IsLineEnd e)
      (hkind : t.kind = .op) (htext : t.text = ['\\'])
      (hstart : t.start = ⟨row, col + gap.length⟩)
      (hstop : t.stop = ⟨row, col + gap.length + 1 + e.length⟩) :
      Row row col (gap ++ '\\' :: e) [t] none

theorem Row.space {gap : Text} (hgap : Spacing gap) (h : Row row (col + gap.length) s ts left) :
    Row row col (gap ++ s) ts left := by
  have happ {more : Text} (hmore : Spacing more) : Spacing (gap ++ more) := by
    intro c hc
    rcases mem_append.mp hc with hc | hc
    · exact hgap c hc
    · exact hmore c hc
  cases h with
  | blank hs => exact .blank (happ hs)
  | opens p hmore hbegun hstart =>
    rw [← append_assoc]
    refine .opens p (happ hmore) hbegun ?_
    rw [hstart, length_append, Nat.cast_add, add_assoc]
  | word t hmore hkind htext hstart hstop hcomment hrest =>
    rw [← append_assoc]
    refine .word t (happ hmore) hkind htext ?_ ?_ hcomment ?_
    · rw [hstart, length_append, Nat.cast_add, add_assoc]
    · rw [hstop, length_append, Nat.cast_add]
      simp only [add_assoc]
    · rw [length_append, Nat.cast_add]
      simpa only [add_assoc] using hrest
  | lineEnd t hmore hkind htext hstart hstop =>
    rw [← append_assoc]
    refine .lineEnd t (happ hmore) hkind htext ?_ ?_
    · rw [hstart, length_append, Nat.cast_add, add_assoc]
    · rw [hstop, length_append, Nat.cast_add]
      simp only [add_assoc]
  | joined t hmore hend hkind htext hstart hstop =>
    rw [← append_assoc]
    refine .joined t (happ hmore) hend hkind htext ?_ ?_
    · rw [hstart, length_append, Nat.cast_add, add_assoc]
    · rw [hstop, length_append, Nat.cast_add]
      simp only [add_assoc]

theorem Row.begun (h : Row row col s ts left) : ∀ o, left = some o → o.Begun := by
  induction h with
  | blank => simp
  | opens p _ hbegun =>
    rintro o ho
    cases ho
    exact hbegun
  | word _ _ _ _ _ _ _ _ ih => exact ih
  | lineEnd | joined => simp

/-! ### One lexeme -/

theorem Lexeme.IsLineEnd.rest_nil {e rest : Text} (h : IsLineEnd e) (front : Text)
    (hline : SingleLine (front ++ (e ++ rest))) : rest = [] := by
  rcases h with rfl | rfl
  · exact hline front rest rfl
  · exact hline (front ++ ['\r']) rest (by simp)

namespace Scan

def Spells (t : Token) (body : Text) (size : Nat) : Prop :=
  (t.kind.isLineEnd = false ∧ t.text = body.take size ∧ ∀ c ∈ t.text, c ≠ '\n') ∨
  (t.kind.isLineEnd = true ∧ t.text = body ∧ IsLineEnd body ∧ size = body.length) ∨
  (t.kind = .op ∧ t.text = ['\\'] ∧ size = body.length ∧ ∃ e, IsLineEnd e ∧ body = '\\' :: e)

theorem numberKind_isLineEnd (s : Text) : (numberKind s).isLineEnd = false := by
  unfold numberKind
  split
  · split <;> rfl
  · rfl

variable {scan after : Scan} {line body rest gap l : Text} {col size taken : Nat} {front : Front} {t : Token}
  {c : Char} {row : Int} {ts : List Token} {left : Option OpenString}

theorem read_token (hline : SingleLine body) (hreach : front.Reaches body size)
    (h : scan.read line col body front size = .token t taken after) :
    t.start = ⟨scan.row, col⟩ ∧ t.stop = ⟨scan.row, (col + taken : Nat)⟩ ∧ 0 < taken ∧
      taken ≤ body.length ∧ Spells t body taken ∧ after.row = scan.row ∧ after.pending = scan.pending := by
  unfold Scan.read at h
  cases front with
  | joined =>
    obtain ⟨e, rest, rfl, he, rfl⟩ := hreach
    have hrest : rest = [] := he.rest_nil ['\\'] hline
    subst hrest
    cases h
    refine ⟨rfl, rfl, by omega, by simp; omega, Or.inr (Or.inr ⟨rfl, rfl, ?_, e, he, by simp⟩), rfl, rfl⟩
    simp only [append_nil, length_cons]
    omega
  | lineEnd =>
    obtain ⟨e, rest, rfl, he, rfl⟩ := hreach
    have hrest : rest = [] := he.rest_nil [] hline
    subst hrest
    cases h
    refine ⟨rfl, rfl, he.length_pos, by simp, Or.inr (Or.inl ⟨?_, ?_, ?_, ?_⟩), rfl, rfl⟩
    · dsimp only
      split <;> rfl
    · simp
    · simpa using he
    · simp
  | openString closer => exact absurd h (by simp)
  | opening closer =>
    obtain ⟨hquote, hpos, hon⟩ := hreach
    dsimp only at h
    split at h
    · rename_i n htail
      cases h
      obtain ⟨hn, hle, hlast⟩ := tail?_reach _ n htail
      rw [length_drop] at hle
      have hlen := hon.le
      refine ⟨rfl, rfl, by omega, by omega, Or.inl ⟨rfl, rfl, ?_⟩, rfl, rfl⟩
      refine hline.noNewline_take (c := closer.mark) ?_ ?_
      · rw [take_add, getLast?_append, hlast]
        rfl
      · rintro hmark
        rw [hmark] at hquote
        exact absurd hquote (by decide)
    · exact absurd h (by simp)
  | number =>
    cases h
    exact ⟨rfl, rfl, hreach.1, hreach.2.le, Or.inl ⟨numberKind_isLineEnd body, rfl, hreach.2.noNewline⟩, rfl, rfl⟩
  | comment | symbol | string | name =>
    cases h
    exact ⟨rfl, rfl, hreach.1, hreach.2.le, Or.inl ⟨rfl, rfl, hreach.2.noNewline⟩, rfl, rfl⟩

theorem read_after (h : scan.read line col body front size = .token t taken after) :
    after.indents = scan.indents ∧ after.strict = scan.strict := by
  unfold Scan.read at h
  cases front with
  | opening closer =>
    dsimp only at h
    split at h <;> cases h
    exact ⟨rfl, rfl⟩
  | openString closer => cases h
  | joined | comment | number | lineEnd | symbol | string | name =>
    cases h
    exact ⟨rfl, rfl⟩

theorem read_suspended_eq (h : scan.read line col body front size = .suspended after) : ∃ closer strict,
    after = { scan with pending := some ⟨body, ⟨scan.row, col⟩, line, closer⟩, strict } ∧
      (front = .opening closer ∧ strict = scan.strict ∧ tail? closer (body.drop size) = none ∨
        front = .openString closer ∧ strict = true) := by
  unfold Scan.read at h
  cases front with
  | opening closer =>
    dsimp only at h
    split at h <;> cases h
    exact ⟨closer, _, rfl, .inl ⟨rfl, rfl, ‹_›⟩⟩
  | openString closer =>
    cases h
    exact ⟨closer, _, rfl, .inr ⟨rfl, rfl⟩⟩
  | joined | comment | number | lineEnd | symbol | string | name => cases h

theorem read_suspended (hreach : front.Reaches body size)
    (h : scan.read line col body front size = .suspended after) : (∃ closer, isQuote closer.mark ∧ after.pending =
        some { text := body, start := ⟨scan.row, col⟩, line := line, closer := closer }) ∧
      after.row = scan.row := by
  obtain ⟨closer, strict, rfl, hfront⟩ := read_suspended_eq h
  refine ⟨⟨closer, ?_, rfl⟩, rfl⟩
  rcases hfront with ⟨rfl, -⟩ | ⟨rfl, -⟩ <;> exact hreach.1

theorem suspended_head (hfront : front? body = some (front, size))
    (h : scan.read line col body front size = .suspended after) : ∃ c rest, body = c :: rest ∧ c ≠ '\n' := by
  cases body with
  | nil => exact absurd (front?_reaches hfront).le (not_le.mpr (front?_reaches hfront).pos)
  | cons c rest =>
    refine ⟨c, rest, rfl, ?_⟩
    rintro rfl
    rw [front?_newline] at hfront
    cases hfront
    exact absurd h (by simp [Scan.read])

/-! ### The rest of a row -/

theorem readFrom_of_length_le (line : Text) (scan : Scan) (col skip : Nat) (body : Text)
    (h : body.length ≤ skip) : readFrom line scan col skip body = ([], scan) := by
  induction body generalizing col skip with
  | nil => simp [readFrom]
  | cons c rest ih =>
    cases skip with
    | zero => simp at h
    | succ k =>
      simp only [readFrom]
      exact ih (col + 1) k (by simpa using h)

theorem readFrom_newline (line : Text) (scan : Scan) (col skip : Nat) (body : Text) (h : body.drop skip = ['\n']) :
    ∃ t, (readFrom line scan col skip body).1 = [t] ∧ t.kind.isLineEnd = true := by
  induction body generalizing col skip with
  | nil => exact absurd h (by simp)
  | cons c rest ih =>
    cases skip with
    | succ k =>
      simp only [readFrom]
      exact ih (col + 1) k (by simpa using h)
    | zero =>
      rw [drop_zero] at h
      cases h
      have hrun : run isSpacing ['\n'] = 0 := rfl
      simp only [readFrom, hrun, drop_zero, front?_newline, Scan.read, isEmpty_cons,
        Bool.false_eq_true, if_false]
      refine ⟨_, rfl, ?_⟩
      dsimp only
      split <;> rfl

theorem read_comment (hfront : front? body = some (front, size))
    (h : scan.read line col body front size = .token t taken after) (ht : t.kind = .comment) :
    t.text.head? = some '#' ∧ ∀ c, (body.drop taken).head? = some c → c = '\r' ∨ c = '\n' := by
  unfold Scan.read at h
  cases front with
  | comment =>
    cases h
    exact comment?_rest (front?_comment hfront)
  | opening closer =>
    dsimp only at h
    split at h
    · cases h
      cases ht
    · exact absurd h (by simp)
  | openString closer => exact absurd h (by simp)
  | number =>
    cases h
    dsimp only [numberKind] at ht
    split at ht
    · split at ht <;> cases ht
    · cases ht
  | lineEnd =>
    cases h
    dsimp only at ht
    split at ht <;> cases ht
  | joined | symbol | string | name =>
    cases h
    cases ht

theorem ne_newline_of_front?_eq_none (h : front? ((c :: rest).drop (run isSpacing (c :: rest))) = none) : c ≠ '\n' := by
  rintro rfl
  have hrun : run isSpacing ('\n' :: rest) = 0 := rfl
  rw [hrun, drop_zero, front?_newline] at h
  exact absurd h (by simp)

theorem spacing_take_run (s : Text) : Spacing (s.take (run isSpacing s)) := by
  intro c hc
  have htake : s.take (run isSpacing s) = s.takeWhile isSpacing :=
    (prefix_iff_eq_take.mp ( takeWhile_prefix isSpacing)).symm
  rw [htake] at hc
  exact mem_takeWhile_imp hc

theorem row_of_spells {col : Int} (hgap : Spacing gap) (hspells : Spells t body size) (hle : size ≤ body.length)
    (hstart : t.start = ⟨row, col + gap.length⟩) (hstop : t.stop = ⟨row, col + gap.length + size⟩)
    (hover : body.length ≤ size → ts = [] ∧ left = none)
    (hcomment : t.kind = .comment → CommentEnds t.text (body.drop size) ts)
    (hrest : Row row (col + gap.length + size) (body.drop size) ts left) :
    Row row col (gap ++ body) (t :: ts) left := by
  rcases hspells with ⟨hkind, htext, hnl⟩ | ⟨hkind, htext, hend, hsize⟩ |
    ⟨hkind, htext, hsize, e, hend, hbody⟩
  · have hlen : t.text.length = size := by rw [htext, length_take_of_le hle]
    have hbody : body = t.text ++ body.drop size := by rw [htext, take_append_drop]
    rw [hbody]
    rw [← hlen] at hstop hrest
    exact .word t hgap hkind hnl hstart hstop (hlen ▸ hcomment) (hlen ▸ hrest)
  · obtain ⟨rfl, rfl⟩ := hover hsize.ge
    rw [← htext]
    refine .lineEnd t hgap hkind ?_ hstart (by rw [hstop, hsize, htext])
    rcases hend with hend | hend
    · exact Or.inl (htext.trans hend)
    · exact Or.inr (Or.inr (by rw [htext, hend]; rfl))
  · obtain ⟨rfl, rfl⟩ := hover hsize.ge
    rw [hbody]
    refine .joined t hgap hend hkind htext hstart ?_
    rw [hstop, hsize, hbody, length_cons, Nat.cast_add, Nat.cast_one]
    congr 1
    omega

theorem row_error {col : Int} (hc : c ≠ '\n') (hrow : Row row (col + 1) rest ts left) : Row row col (c :: rest)
      ({ kind := .error, text := [c], start := ⟨row, col⟩, stop := ⟨row, col + 1⟩, line } :: ts)
      left := by
  refine @Row.word row col [] rest ts left
    { kind := .error, text := [c], start := ⟨row, col⟩, stop := ⟨row, col + 1⟩, line }
    (by simp [Spacing]) rfl (by simpa using hc) ?_ ?_ (by simp) ?_
  · simp
  · simp
  · simpa using hrow

theorem readFrom_row (line : Text) (scan : Scan) (col skip : Nat) (body : Text)
    (hline : SingleLine body) (hpending : scan.pending = none) :
    Row scan.row (col + skip : Nat) (body.drop skip) (readFrom line scan col skip body).1
        (readFrom line scan col skip body).2.pending ∧ (readFrom line scan col skip body).2.row = scan.row := by
  induction body generalizing scan col skip with
  | nil =>
    simp only [readFrom, drop_nil, hpending]
    exact ⟨.blank (by simp [Spacing]), trivial⟩
  | cons c rest ih =>
    have hrestline : SingleLine rest := by simpa using hline.drop 1
    cases skip with
    | succ k =>
      simp only [readFrom, drop_succ_cons]
      have h := ih scan (col + 1) k hrestline hpending
      rwa [show col + 1 + k = col + (k + 1) by omega] at h
    | zero =>
      rw [readFrom]
      dsimp only
      have hgap : Spacing ((c :: rest).take (run isSpacing (c :: rest))) := spacing_take_run _
      have hglen : ((c :: rest).take (run isSpacing (c :: rest))).length = run isSpacing (c :: rest) :=
        length_take_of_le (onLine_run (by decide) _).le
      have hbodyline : SingleLine ((c :: rest).drop (run isSpacing (c :: rest))) := hline.drop _
      have hsplit := take_append_drop (run isSpacing (c :: rest)) (c :: rest)
      have hnewline := @ne_newline_of_front?_eq_none rest c
      generalize run isSpacing (c :: rest) = spacing at *
      generalize hbody : (c :: rest).drop spacing = body at *
      split
      · rename_i hempty
        have hnil : body = [] := by simpa using hempty
        refine ⟨?_, rfl⟩
        rw [drop_zero, ← hsplit, hnil, append_nil, hpending]
        exact .blank hgap
      · split
        · rename_i hnone
          obtain ⟨hrow, hr⟩ := ih scan (col + 1) 0 hrestline hpending
          refine ⟨?_, hr⟩
          exact row_error (hnewline hnone) (by simpa using hrow)
        · rename_i front size hfront
          have hreach := front?_reaches hfront
          split
          · rename_i after hread
            obtain ⟨⟨closer, hquote, hpend⟩, hr⟩ := read_suspended hreach hread
            refine ⟨?_, hr⟩
            rw [drop_zero, ← hsplit, hpend]
            exact Row.opens
              { text := body, start := ⟨scan.row, (col + spacing : Nat)⟩, line, closer }
              hgap ⟨suspended_head hfront hread, hquote⟩ (by simp [hglen])
          · rename_i t taken after hread
            obtain ⟨hstart, hstop, hpos, hle, hspells, hr, hp⟩ :=
              read_token hbodyline hreach hread
            have hcount : col + 1 + (spacing + taken - 1) = col + spacing + taken := by omega
            have hdrop : rest.drop (spacing + taken - 1) = body.drop taken := by
              obtain ⟨k, hk⟩ : ∃ k, spacing + taken = k + 1 := ⟨spacing + taken - 1, by omega⟩
              rw [← hbody, drop_drop, hk, drop_succ_cons, Nat.add_sub_cancel]
            obtain ⟨hrow, hr2⟩ :=
              ih after (col + 1) (spacing + taken - 1) hrestline (hp.trans hpending)
            refine ⟨?_, hr2.trans hr⟩
            rw [drop_zero, ← hsplit]
            rw [hcount, hdrop, hr] at hrow
            have hlength : (c :: rest).length = spacing + body.length := by
              rw [← hsplit, length_append, hglen]
            refine row_of_spells hgap hspells hle ?_ ?_ ?_ ?_ ?_
            · rw [hstart, hglen]
              simp
            · rw [hstop, hglen]
              simp
            · intro hover
              have hall : rest.length ≤ spacing + taken - 1 := by
                rw [length_cons] at hlength
                omega
              rw [readFrom_of_length_le _ _ _ _ _ hall]
              exact ⟨rfl, hp.trans hpending⟩
            · intro ht
              obtain ⟨hhead, hstop⟩ := read_comment hfront hread ht
              refine ⟨hhead, hstop, fun hnl => ?_⟩
              exact readFrom_newline line after (col + 1) _ rest (hdrop.trans hnl)
            · simpa [hglen] using hrow

theorem readFrom_row_zero {row : Nat}
    (hline : SingleLine body) (hpending : scan.pending = none) (hrow : scan.row = row) :
    Row row col body (readFrom line scan col 0 body).1 (readFrom line scan col 0 body).2.pending :=
  hrow ▸ (readFrom_row line scan col 0 body hline hpending).1

/-! ### Whole rows -/

theorem spacing_noNewline (h : Spacing gap) : ∀ c ∈ gap, c ≠ '\n' := by
  rintro c hc rfl
  exact absurd (h _ hc) (by decide)

theorem row_dedents {col : Int} {s : Text} {ds : List Token}
    (hds : ∀ d ∈ ds, d.kind = .dedent ∧ d.text = [] ∧ d.start = ⟨row, col⟩ ∧ d.stop = ⟨row, col⟩)
    (h : Row row col s ts left) : Row row col s (ds ++ ts) left := by
  induction ds with
  | nil => exact h
  | cons d more ih =>
    obtain ⟨hkind, htext, hstart, hstop⟩ := hds d mem_cons_self
    have hmore := ih fun e he => hds e (mem_cons_of_mem _ he)
    have hrow := @Row.word row col [] s (more ++ ts) left d
      (by simp [Spacing]) (by rw [hkind]; rfl) (by simp [htext]) (by simpa using hstart)
      (by simpa [htext] using hstop) (by simp [hkind]) (by simpa [htext] using hmore)
    simpa [htext] using hrow

theorem row_indentation {s : Text} {ins ds : List Token} (hgap : Spacing gap)
    (hins : ins = [] ∨ ∃ t, ins = [t] ∧ t.kind = .indent ∧ t.text = gap ∧ t.start = ⟨row, 0⟩ ∧
      t.stop = ⟨row, gap.length⟩)
    (hds : ∀ d ∈ ds, d.kind = .dedent ∧ d.text = [] ∧ d.start = ⟨row, gap.length⟩ ∧ d.stop = ⟨row, gap.length⟩)
    (h : Row row gap.length s ts left) : Row row 0 (gap ++ s) (ins ++ ds ++ ts) left := by
  have hall := row_dedents hds h
  rw [append_assoc]
  rcases hins with rfl | ⟨t, rfl, hkind, rfl, hstart, hstop⟩
  · exact Row.space hgap (by simpa using hall)
  · exact @Row.word row 0 [] s (ds ++ ts) left t (by simp [Spacing]) (by rw [hkind]; rfl)
      (spacing_noNewline hgap) (by simpa using hstart) (by simpa using hstop) (by simp [hkind])
      (by simpa using hall)

theorem endsRow_of_singleLine (hline : SingleLine (c :: rest))
    (hc : c = '\r' ∨ c = '\n') : EndsRow (c :: rest) := by
  rcases hc with rfl | rfl
  · exact Or.inr (Or.inr rfl)
  · exact Or.inl (by rw [hline [] rest rfl])

theorem row_empty (hgap : Spacing gap) (hbody : EndsRow body) : Row row 0 (gap ++ body)
      [{ kind := .nl, text := body, start := ⟨row, gap.length⟩, stop := ⟨row, (gap ++ body).length⟩, line }] none :=
  Row.lineEnd { kind := .nl, text := body, start := ⟨row, gap.length⟩, stop := ⟨row, (gap ++ body).length⟩, line }
    hgap rfl hbody (by simp) (by simp)

theorem row_comment {comment tail : Text} (hgap : Spacing gap)
    (hhead : comment.head? = some '#') (hcomment : ∀ c ∈ comment, c ≠ '\n') (htail : EndsRow tail) :
    Row row 0 (gap ++ (comment ++ tail))
      [{ kind := .comment, text := comment, start := ⟨row, gap.length⟩,
         stop := ⟨row, (gap.length + comment.length : Nat)⟩, line },
       { kind := .nl, text := tail, start := ⟨row, (gap.length + comment.length : Nat)⟩,
         stop := ⟨row, (gap ++ (comment ++ tail)).length⟩, line }] none := by
  refine Row.word { kind := .comment, text := comment, start := ⟨row, gap.length⟩,
                    stop := ⟨row, (gap.length + comment.length : Nat)⟩, line }
    hgap rfl hcomment (by simp) (by simp) (fun _ => ⟨hhead, ?_, fun _ => ⟨_, rfl, rfl⟩⟩) ?_
  · intro c hc
    rcases htail with rfl | rfl | hr
    · exact Or.inr (by simpa using hc.symm)
    · cases hc
    · exact Or.inl (Option.some.inj (hc.symm.trans hr))
  refine @Row.lineEnd row (0 + gap.length + comment.length) []
    { kind := .nl, text := tail, start := ⟨row, (gap.length + comment.length : Nat)⟩,
      stop := ⟨row, (gap ++ (comment ++ tail)).length⟩, line }
    (by simp [Spacing]) rfl htail (by simp) ?_
  simp [add_assoc]

theorem comment_cut (hline : SingleLine ('#' :: rest)) :
    ∃ comment tail, trimRight (fun d => d == '\r' || d == '\n') ('#' :: rest) = comment ∧
      '#' :: rest = comment ++ tail ∧ comment.head? = some '#' ∧ (∀ c ∈ comment, c ≠ '\n') ∧ EndsRow tail := by
  obtain ⟨tail, happ, htail, hlast⟩ :=
    trimRight_append (fun d => d == '\r' || d == '\n') ('#' :: rest)
  refine ⟨_, tail, rfl, happ, ?_, ?_, ?_⟩
  · generalize trimRight (fun d => d == '\r' || d == '\n') ('#' :: rest) = comment at happ
    cases comment with
    | nil => exact absurd (htail '#' (by rw [← nil_append tail, ← happ]; simp)) (by decide)
    | cons c more => rw [(List.cons.inj happ).1]; rfl
  · have hcut : trimRight (fun d => d == '\r' || d == '\n') ('#' :: rest) =
        ('#' :: rest).take (trimRight (fun d => d == '\r' || d == '\n') ('#' :: rest)).length := by
      have hleft := (@take_left _ (trimRight (fun d => d == '\r' || d == '\n')
        ('#' :: rest)) tail).symm
      rwa [← happ] at hleft
    cases hgl : (trimRight (fun d => d == '\r' || d == '\n') ('#' :: rest)).getLast? with
    | none =>
      rw [getLast?_eq_none_iff.mp hgl]
      simp
    | some x =>
      have hx := hlast x hgl
      rw [hcut] at hgl ⊢
      refine hline.noNewline_take hgl ?_
      rintro rfl
      exact absurd hx (by decide)
  · cases tail with
    | nil => exact Or.inr (Or.inl rfl)
    | cons d more =>
      have hd : d = '\r' ∨ d = '\n' := by simpa using htail d mem_cons_self
      refine endsRow_of_singleLine ?_ hd
      intro front rest' heq
      refine hline (trimRight (fun d => d == '\r' || d == '\n') ('#' :: rest) ++ front) rest' ?_
      rw [append_assoc, ← heq]
      exact happ

theorem statementLine_row (scan : Scan) {line : Text} (hline : SingleLine line) (hpending : scan.pending = none) :
    (∃ after, (scan.statementLine line).2 = some after ∧ after.row = scan.row ∧
        Row scan.row 0 line (scan.statementLine line).1 after.pending) ∨
      (Spacing line ∧ scan.statementLine line = (scan.finish, none)) := by
  have hgap : Spacing (line.take (run isSpacing line)) := spacing_take_run line
  have hwidth : run isSpacing line = (line.take (run isSpacing line)).length :=
    (length_take_of_le (onLine_run (by decide) _).le).symm
  have hsplit := (take_append_drop (run isSpacing line) line).symm
  have hbodyline : SingleLine (line.drop (run isSpacing line)) := hline.drop _
  unfold statementLine
  dsimp only
  generalize hg : line.take (run isSpacing line) = gap at *
  generalize line.drop (run isSpacing line) = body at *
  rw [hwidth]
  subst hsplit
  cases body with
  | nil => exact Or.inr ⟨by simpa using hgap, rfl⟩
  | cons c rest =>
    left
    dsimp only
    split
    · rename_i hc
      subst hc
      obtain ⟨comment, tail, htrim, happ, hhead, hcomment, htail⟩ := comment_cut hbodyline
      refine ⟨scan, rfl, rfl, ?_⟩
      rw [htrim, happ, hpending]
      have hcut : ((gap ++ (comment ++ tail)).take (gap.length + comment.length)).drop gap.length =
          comment := by simp [take_append]
      have hend : ((gap ++ (comment ++ tail)).take (gap ++ (comment ++ tail)).length).drop
          (gap.length + comment.length) = tail := by
        rw [take_length, ← drop_drop, drop_left, drop_left]
      rw [hcut, hend]
      exact row_comment hgap hhead hcomment htail
    · split
      · rename_i hc
        refine ⟨scan, rfl, rfl, ?_⟩
        rw [take_length, drop_left, hpending]
        exact row_empty hgap (endsRow_of_singleLine hbodyline hc)
      · refine ⟨_, rfl, (readFrom_row _ _ _ _ _ hbodyline ?_).2, ?_⟩
        · exact hpending
        · refine row_indentation hgap ?_ ?_ ?_
          · split
            · exact Or.inr ⟨_, rfl, rfl, by simp, rfl, rfl⟩
            · exact Or.inl rfl
          · intro d hd
            obtain ⟨x, -, rfl⟩ := mem_map.mp hd
            exact ⟨rfl, by simp, rfl, rfl⟩
          · exact readFrom_row_zero hbodyline hpending rfl

theorem line_comment (k : Nat) (more : Text) :
    ∃ t ts after, ({} : Scan).line (List.replicate k ' ' ++ '#' :: more) = (t :: ts, after) ∧ t.kind = .comment ∧
      t.text.head? = some '#' := by
  have hwidth : run isSpacing (List.replicate k ' ' ++ '#' :: more) = k := by
    rw [run, takeWhile_append_of_pos fun c hc => ?_, takeWhile_cons_of_neg (by decide)]
    · simp
    · rw [eq_of_mem_replicate hc]
      decide
  have hdrop : (List.replicate k ' ' ++ '#' :: more).drop k = '#' :: more := by simp
  unfold Scan.line
  dsimp only
  rw [if_pos ⟨rfl, rfl⟩, if_neg (by simp)]
  unfold Scan.statementLine
  dsimp only
  rw [hwidth, hdrop]
  refine ⟨_, _, _, rfl, rfl, ?_⟩
  obtain ⟨tail, happ, htail, -⟩ := trimRight_append (fun d => d == '\r' || d == '\n') ('#' :: more)
  generalize trimRight (fun d => d == '\r' || d == '\n') ('#' :: more) = comment at happ
  cases comment with
  | nil => exact absurd (htail '#' (by rw [← nil_append tail, ← happ]; simp)) (by decide)
  | cons c rest =>
    rw [drop_take, hdrop]
    simp

/-! ### Line by line -/

/-- What reading a line comes to: the string that was open before it, the tokens, and the string
that is open after it. -/
inductive LineRead (row : Int) (l : Text) : Option OpenString → List Token → Option OpenString → Prop where
  | fresh {ts : List Token} {left : Option OpenString} (hrow : Row row 0 l ts left) : LineRead row l none ts left
  | closes {ts : List Token} {left : Option OpenString} (p : OpenString) (n : Nat) (t : Token)
      (hkind : t.kind = .string) (hle : n ≤ l.length)
      (hlast : (l.take n).getLast? = some p.closer.mark) (htext : t.text = p.text ++ l.take n)
      (hstart : t.start = p.start) (hstop : t.stop = ⟨row, n⟩)
      (hrow : Row row n (l.drop n) ts left) : LineRead row l (some p) (t :: ts) left
  | spoiled (p : OpenString) (t : Token) (hkind : t.kind = .error) (htext : t.text = p.text ++ l)
      (hstart : t.start = p.start) (hstop : t.stop = ⟨row, l.length⟩) :
      LineRead row l (some p) [t] none
  | goesOn (p q : OpenString) (htext : q.text = p.text ++ l) (hstart : q.start = p.start)
      (hcloser : q.closer = p.closer) : LineRead row l (some p) [] (some q)

theorem LineRead.begun {before : Option OpenString}
    (h : LineRead row l before ts left) (hbefore : ∀ p, before = some p → p.Begun) :
    ∀ p, left = some p → p.Begun := by
  cases h with
  | fresh hrow => exact hrow.begun
  | closes _ _ _ _ _ _ _ _ _ hrow => exact hrow.begun
  | spoiled => simp
  | goesOn p q htext hstart hcloser =>
    rintro o ho
    cases ho
    exact (hbefore p rfl).extend htext hcloser

theorem stringLine_read (scan : Scan) (p : OpenString) {l : Text} (hline : SingleLine l) (hne : l ≠ []) :
    ∃ after, (scan.stringLine p l).2 = some after ∧ after.row = scan.row ∧
      LineRead scan.row l (some p) (scan.stringLine p l).1 after.pending := by
  unfold stringLine
  dsimp only
  rw [if_neg (by simpa using hne)]
  split
  · rename_i n htail
    obtain ⟨-, hle, hlast⟩ := tail?_reach l n htail
    have hread := readFrom_row l { scan with pending := none, strict := false } 0 n l hline rfl
    rw [Nat.zero_add] at hread
    refine ⟨_, rfl, hread.2, ?_⟩
    exact .closes p n _ rfl hle hlast rfl rfl rfl hread.1
  · split
    · exact ⟨_, rfl, rfl, .spoiled p _ rfl rfl rfl rfl⟩
    · exact ⟨_, rfl, rfl, .goesOn p _ rfl rfl rfl⟩

theorem line_read (scan : Scan) {l : Text} (hline : SingleLine l) (hne : l ≠ []) :
    (∃ after, (scan.line l).2 = some after ∧ after.row = scan.row + 1 ∧
        LineRead (scan.row + 1 : Nat) l scan.pending (scan.line l).1 after.pending) ∨
      (Spacing l ∧ scan.pending = none ∧ scan.line l = (finish { scan with row := scan.row + 1 }, none)) := by
  unfold line
  dsimp only
  cases hp : scan.pending with
  | some p =>
    left
    obtain ⟨after, hafter, hr, hread⟩ :=
      stringLine_read { scan with row := scan.row + 1 } p hline hne
    rw [hp] at hafter hr hread
    exact ⟨after, hafter, hr, hread⟩
  | none =>
    dsimp only
    have hempty : l.isEmpty = false := by simpa using hne
    split
    · rcases statementLine_row { scan with row := scan.row + 1 } hline hp with
        ⟨after, hafter, hr, hrow⟩ | ⟨hspace, hfinish⟩
      · left
        rw [hempty, if_neg Bool.false_ne_true]
        rw [hp] at hafter hr hrow
        exact ⟨after, hafter, hr, .fresh hrow⟩
      · right
        rw [hempty, if_neg Bool.false_ne_true]
        rw [hp] at hfinish
        exact ⟨hspace, rfl, hfinish⟩
    · left
      rw [hempty, if_neg Bool.false_ne_true]
      have hread := readFrom_row l
        { scan with row := scan.row + 1, pending := none, joined := false } 0 0 l hline rfl
      exact ⟨_, rfl, hread.2, .fresh (by simpa using hread.1)⟩

/-! ### All lines -/

theorem all_cons_some {rest : List Text}
    (h : scan.line l = (ts, some after)) : scan.all (l :: rest) = ts ++ after.all rest := by
  rw [Scan.all, h]

theorem all_cons_none {rest : List Text} (h : scan.line l = (ts, none)) : scan.all (l :: rest) = ts := by
  rw [Scan.all, h]

theorem line_nil_over (scan : Scan) : (scan.line []).2 = none := by
  unfold Scan.line
  dsimp only
  cases scan.pending with
  | some p => rfl
  | none =>
    dsimp only
    split <;> rfl

/-! ### How many tokens there are -/

theorem read_suspended_indents (h : scan.read line col body front size = .suspended after) :
    after.indents = scan.indents := by
  obtain ⟨_, _, rfl, -⟩ := read_suspended_eq h
  rfl

theorem readFrom_length (line : Text) (scan : Scan) (col skip : Nat) (body : Text) :
    (readFrom line scan col skip body).1.length ≤ body.length ∧
      (readFrom line scan col skip body).2.indents = scan.indents := by
  induction body generalizing scan col skip with
  | nil => simp [readFrom]
  | cons c rest ih =>
    cases skip with
    | succ k =>
      obtain ⟨hlen, hindents⟩ := ih scan (col + 1) k
      simp only [readFrom, length_cons]
      exact ⟨by omega, hindents⟩
    | zero =>
      rw [readFrom]
      dsimp only
      split
      · exact ⟨Nat.zero_le _, rfl⟩
      · split
        · obtain ⟨hlen, hindents⟩ := ih scan (col + 1) 0
          simp only [length_cons]
          exact ⟨by omega, hindents⟩
        · split
          · rename_i after hread
            exact ⟨Nat.zero_le _, read_suspended_indents hread⟩
          · rename_i t taken after hread
            obtain ⟨hlen, hindents⟩ := ih after (col + 1) (run isSpacing (c :: rest) + taken - 1)
            simp only [length_cons]
            exact ⟨by omega, hindents.trans (read_after hread).1⟩

def Costs (scan : Scan) (l : Text) (result : List Token × Option Scan) : Prop :=
  match result with
  | (ts, some after) => ts.length + after.indents.length ≤ scan.indents.length + l.length + 2
  | (ts, none) => ts.length ≤ scan.indents.length + 1

theorem finish_length (scan : Scan) : scan.finish.length = scan.indents.length + 1 := by
  simp [finish]

theorem takeWhile_of_deeper {indents : List Nat} {column : Nat} (h : indents.headD 0 < column) :
    indents.takeWhile (column < ·) = [] := by
  cases indents with
  | nil => rfl
  | cons n more => exact takeWhile_cons_of_neg (by simpa using h.le)

theorem statementLine_costs (scan : Scan) (l : Text) : Costs scan l (scan.statementLine l) := by
  have hsplit := congrArg List.length (take_append_drop (run isSpacing l) l)
  rw [length_append] at hsplit
  unfold statementLine
  dsimp only
  split
  · exact (finish_length scan).le
  · rename_i c rest hbody
    rw [hbody] at hsplit
    split
    · simp only [Costs, length_cons, length_nil]
      omega
    · split
      · simp only [Costs, length_cons, length_nil]
        omega
      · generalize columnOf (l.take (run isSpacing l)) = column
        obtain ⟨hlen, hindents⟩ := readFrom_length l
          { scan with indents := if scan.indents.headD 0 < column then column :: scan.indents
                                 else scan.indents.drop
                                  (scan.indents.takeWhile (column < ·)).length }
          (run isSpacing l) 0 (c :: rest)
        simp only [Costs, length_append, length_map, hindents]
        split
        · rename_i hdeeper
          rw [if_pos hdeeper] at hlen
          simp only [takeWhile_of_deeper hdeeper, length_cons, length_nil]
          omega
        · rename_i hdeeper
          have hclosed : (scan.indents.takeWhile (column < ·)).length ≤ scan.indents.length :=
            ( takeWhile_prefix _).length_le
          rw [if_neg hdeeper] at hlen
          simp only [length_nil, length_drop]
          omega

theorem stringLine_costs (scan : Scan) (p : OpenString) (l : Text) : Costs scan l (scan.stringLine p l) := by
  unfold stringLine
  dsimp only
  split
  · simp [Costs]
  · split
    · rename_i n _
      obtain ⟨hlen, hindents⟩ :=
        readFrom_length l { scan with pending := none, strict := false } 0 n l
      simp only [Costs, length_cons, hindents]
      omega
    · split
      · simp only [Costs, length_cons, length_nil]
        omega
      · simp only [Costs, length_nil]
        omega

theorem line_costs (scan : Scan) (l : Text) : Costs scan l (scan.line l) := by
  unfold line
  dsimp only
  split
  · exact stringLine_costs { scan with row := scan.row + 1 } _ l
  · split
    · split
      · exact (finish_length { scan with row := scan.row + 1 }).le
      · exact statementLine_costs { scan with row := scan.row + 1 } l
    · split
      · exact Nat.zero_le _
      · obtain ⟨hlen, hindents⟩ := readFrom_length l
          { scan with row := scan.row + 1, joined := false } 0 0 l
        simp only [Costs, hindents]
        omega

theorem all_length (scan : Scan) (ls : List Text) :
    (scan.all ls).length ≤ scan.indents.length + ls.flatten.length + 2 * ls.length + 1 := by
  induction ls generalizing scan with
  | nil =>
    have hcosts := line_costs scan []
    have hover := line_nil_over scan
    rw [all]
    rcases hline : scan.line [] with ⟨ts, after⟩
    rw [hline] at hcosts hover
    cases hover
    simp only [Costs] at hcosts
    simpa using hcosts
  | cons l rest ih =>
    have hcosts := line_costs scan l
    rcases hline : scan.line l with ⟨ts, after⟩
    rw [hline] at hcosts
    simp only [flatten_cons, length_append, length_cons]
    cases after with
    | none =>
      rw [all_cons_none hline]
      simp only [Costs] at hcosts
      omega
    | some after =>
      have hrest := ih after
      rw [all_cons_some hline, length_append]
      simp only [Costs] at hcosts
      omega

end Scan

end InlineMarkup

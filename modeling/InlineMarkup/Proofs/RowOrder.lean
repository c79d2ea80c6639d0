import InlineMarkup.Proofs.Statements
import InlineMarkup.Proofs.Truncation

/-!
Tokens come in the order of their rows, whatever the source: a stream hands out no token that stands on a
row before the one to which the token before it leads, however often it was rewound. Tokens in this order
can be laid out.
-/
namespace InlineMarkup

open Text List

def Ascends : Int → List Token → Int → Prop
  | r, [], q => r ≤ q
  | r, t :: ts, q => r ≤ t.start.row ∧ Ascends (Layout.after t).row ts q

variable {q : Int} {ts : List Token}

variable {r row col : Int} {s : Text} {left : Option OpenString}

theorem Ascends.mono {r' : Int} (hr : r' ≤ r) : ∀ {ts : List Token}, Ascends r ts q → Ascends r' ts q
  | [], h => hr.trans h
  | _ :: _, h => ⟨hr.trans h.1, h.2⟩

theorem ascends_append {us : List Token} : Ascends r (ts ++ us) q ↔ ∃ p, Ascends r ts p ∧ Ascends p us q := by
  induction ts generalizing r with
  | nil => exact ⟨fun h => ⟨r, le_refl r, h⟩, fun ⟨p, hp, h⟩ => h.mono hp⟩
  | cons t ts ih =>
    simp only [cons_append, Ascends, ih]
    exact ⟨fun ⟨ht, p, hts, hus⟩ => ⟨p, ⟨ht, hts⟩, hus⟩, fun ⟨p, ⟨ht, hts⟩, hus⟩ => ⟨ht, p, hts, hus⟩⟩

theorem Ascends.adjust (zero : Pos) {r q : Int} {ts : List Token} (h : Ascends r ts q) :
    Ascends (r + zero.row) (ts.map (Stream.adjust zero)) (q + zero.row) := by
  induction ts generalizing r with
  | nil => exact Int.add_le_add_right h _
  | cons t ts ih =>
    have hafter : (Layout.after (Stream.adjust zero t)).row = (Layout.after t).row + zero.row := by
      unfold Layout.after
      by_cases hkind : t.kind.isLineEnd
      · simp only [Stream.adjust, Stream.place, hkind, if_true]
        omega
      · simp [Stream.adjust, Stream.place, hkind]
    refine ⟨Int.add_le_add_right h.1 _, ?_⟩
    rw [hafter]
    exact ih h.2

theorem Ascends.laidOut {p : Pos} (h : Ascends p.row ts q) : ∃ s, Layout.text (some p) ts = .ok s := by
  induction ts generalizing p with
  | nil => exact ⟨[], rfl⟩
  | cons t ts ih =>
    obtain ⟨s, hs⟩ := ih h.2
    refine ⟨Layout.gap (Layout.origin (some p) t) t.start ++ t.text ++ s, ?_⟩
    rw [Layout.text, Layout.origin_row, if_neg (not_lt.2 h.1), hs]
    rfl

theorem Ascends.laidOut_first {t : Token} (h : Ascends t.start.row (t :: ts) q) :
    ∃ s, Layout.plain (t :: ts) = .ok s := by
  obtain ⟨s, hs⟩ := h.laidOut (p := t.start)
  exact ⟨s, hs⟩

/-! ### Rows of a scan -/

def frontRow (row : Int) (left : Option OpenString) : Int := (left.map (·.start.row)).getD row

theorem Row.ascends (h : Row row col s ts left) : Ascends row ts (frontRow (row + 1) left) := by
  induction h with
  | blank => exact (lt_add_one row).le
  | opens p _ _ hstart => simp [Ascends, frontRow, hstart]
  | word t _ hkind _ hstart hstop _ _ ih =>
    refine ⟨by rw [hstart], ?_⟩
    rw [Layout.after, hkind, if_neg Bool.false_ne_true, hstop]
    exact ih
  | lineEnd t _ hkind _ hstart hstop =>
    refine ⟨by rw [hstart], ?_⟩
    rw [Layout.after, hkind, if_pos rfl, hstop]
    exact le_refl (row + 1)
  | joined t _ _ hkind _ hstart hstop =>
    refine ⟨by rw [hstart], ?_⟩
    rw [Layout.after, hkind, if_neg (by decide), hstop]
    exact (lt_add_one row).le

def Token.IsPassed (t : Token) : Prop := t.isOp ['\\'] = true ∨ t.kind = .error ∧ t.text = [' ']

def Token.KeepsRow (t : Token) : Prop :=
  (t.kind = .comment → t.text.head? ≠ some '\n') ∧ (t.kind = .comment ∨ t.IsPassed → t.start.row ≤ t.stop.row)

theorem Row.keepsRow (h : Row row col s ts left) : ∀ t ∈ ts, t.KeepsRow := by
  induction h with
  | blank => simp
  | opens => simp
  | word t _ _ htext hstart hstop _ _ ih =>
    refine forall_mem_cons.2 ⟨⟨fun _ hhead => htext '\n' (mem_of_mem_head? hhead) rfl, fun _ => ?_⟩, ih⟩
    rw [hstop, hstart]
  | lineEnd t _ hkind _ hstart hstop =>
    refine forall_mem_singleton.2 ⟨fun hcomment => ?_, fun _ => by rw [hstop, hstart]⟩
    rw [hcomment] at hkind
    cases hkind
  | joined t _ _ _ htext hstart hstop =>
    exact forall_mem_singleton.2 ⟨by simp [htext], fun _ => by rw [hstop, hstart]⟩

namespace Scan

variable {row : Int} {l : Text} {before left : Option OpenString} {ts : List Token} {scan : Scan}

theorem LineRead.ascends (h : LineRead row l before ts left) : Ascends (frontRow row before) ts (frontRow (row +
    1) left) := by
  cases h with
  | fresh hrow => exact hrow.ascends
  | closes p n t hkind _ _ _ hstart hstop hrow =>
    refine ⟨by rw [hstart]; rfl, ?_⟩
    rw [Layout.after, hkind, if_neg (by decide), hstop]
    exact hrow.ascends
  | spoiled p t hkind _ hstart hstop =>
    refine ⟨by rw [hstart]; rfl, ?_⟩
    rw [Layout.after, hkind, if_neg (by decide), hstop]
    exact (lt_add_one row).le
  | goesOn p q _ hstart => simp [Ascends, frontRow, hstart]

theorem LineRead.keepsRow (h : LineRead row l before ts left) (hbefore : ∀ p, before = some p → p.start.row < row) :
    ∀ t ∈ ts, t.KeepsRow := by
  cases h with
  | fresh hrow => exact hrow.keepsRow
  | closes p _ t hkind _ _ _ hstart hstop hrow =>
    refine forall_mem_cons.2 ⟨⟨by simp [hkind], fun _ => ?_⟩, hrow.keepsRow⟩
    rw [hstart, hstop]
    exact (hbefore p rfl).le
  | spoiled p t hkind _ hstart hstop =>
    refine forall_mem_singleton.2 ⟨by simp [hkind], fun _ => ?_⟩
    rw [hstart, hstop]
    exact (hbefore p rfl).le
  | goesOn => simp

def front (scan : Scan) : Int := frontRow (scan.row + 1 : Nat) scan.pending

theorem finish_ascends (scan : Scan) : Ascends scan.row scan.finish scan.row := by
  unfold finish
  dsimp only
  induction scan.indents with
  | nil => exact ⟨le_refl _, le_refl _⟩
  | cons i rest ih => exact ⟨le_refl _, ih⟩

theorem finish_keepsRow (scan : Scan) : ∀ t ∈ scan.finish, t.KeepsRow := by
  unfold finish
  dsimp only
  induction scan.indents with
  | nil => simp [Token.KeepsRow, Token.IsPassed, Token.isOp]
  | cons i rest ih => simpa [Token.KeepsRow, Token.IsPassed, Token.isOp] using ih

theorem line_ascends (scan : Scan) {l : Text} (hline : SingleLine l) (hne : l ≠ []) :
    ∃ q, Ascends scan.front (scan.line l).1 q ∧ ∀ after, (scan.line l).2 = some after → q ≤ after.front := by
  rcases line_read scan hline hne with ⟨after, hafter, hrow, hread⟩ | ⟨-, hpending, hend⟩
  · refine ⟨_, hread.ascends, fun after' hafter' => ?_⟩
    cases hafter.symm.trans hafter'
    rw [front, hrow]
    rfl
  · rw [hend, front, hpending]
    exact ⟨_, finish_ascends { scan with row := scan.row + 1 }, nofun⟩

def Opened (scan : Scan) : Prop := ∀ p, scan.pending = some p → p.start.row ≤ scan.row

theorem line_keepsRow (hscan : scan.Opened) {l : Text} (hline : SingleLine l) (hne : l ≠ []) :
    (∀ t ∈ (scan.line l).1, t.KeepsRow) ∧ ∀ after, (scan.line l).2 = some after → after.Opened := by
  have hbefore (p : OpenString) (hp : scan.pending = some p) : p.start.row < (scan.row + 1 : Nat) := by
    have := hscan p hp
    omega
  rcases line_read scan hline hne with ⟨after, hafter, hrow, hread⟩ | ⟨-, -, hend⟩
  · refine ⟨hread.keepsRow hbefore, fun after' hafter' => ?_⟩
    cases hafter.symm.trans hafter'
    rw [Opened, hrow]
    exact hread.left_row hbefore
  · rw [hend]
    exact ⟨finish_keepsRow _, nofun⟩

theorem line_nil_keepsRow (hscan : scan.Opened) : ∀ t ∈ (scan.line []).1, t.KeepsRow := by
  have hself : scan.within scan.indents = scan := rfl
  rcases line_nil_cases scan with ⟨o, ho, t, hkind, hstart, hstop, hline⟩ | ⟨-, hline⟩ | ⟨-, -, hline⟩
  · rw [← hself, hline]
    refine forall_mem_singleton.2 ⟨by simp [hkind], fun _ => ?_⟩
    rw [hstart, hstop]
    have hrow : (scan.nextRow.row : Int) = scan.row + 1 := rfl
    have := hscan o ho
    dsimp only
    omega
  · rw [← hself, hline]
    exact finish_keepsRow _
  · rw [← hself, hline]
    exact nofun

theorem line_nil_ascends (scan : Scan) : ∃ q, Ascends scan.front (scan.line []).1 q ∧ (scan.line []).2 = none := by
  have hself : scan.within scan.indents = scan := rfl
  have hnone : (scan.line []).2 = none := by
    rw [line_eq_rowAt]
    unfold rowAt stringLine
    dsimp only
    split
    · rfl
    · split <;> rfl
  rcases line_nil_cases scan with ⟨o, ho, t, hkind, hstart, hstop, hline⟩ | ⟨hready, hline⟩ | ⟨-, -, hline⟩
  · have hlast := hline scan.indents
    rw [hself] at hlast
    rw [hlast]
    exact ⟨_, ⟨by simp [front, frontRow, ho, hstart], le_refl _⟩, hnone⟩
  · have hfinish := hline scan.indents
    rw [hself] at hfinish
    rw [hfinish, front, hready.1]
    exact ⟨_, finish_ascends (scan.nextRow.within scan.indents), hnone⟩
  · have hlast := hline scan.indents
    rw [hself] at hlast
    rw [hlast]
    exact ⟨_, le_refl _, hnone⟩

end Scan

/-! ### Rows of a stream -/

namespace Stream

structure From (s : Stream) (r : Int) : Prop where
  source : Scan.Lines s.source
  rewound : ∀ ls, s.rewound = some ls → Scan.Lines ls
  rows : ∃ q, Ascends r (s.unshifted ++ s.ready.map (adjust s.zero)) q ∧
    ∀ scan, s.scan = some scan → q ≤ scan.front + s.zero.row
  keep : ∀ t ∈ s.unshifted ++ s.ready.map (adjust s.zero), t.KeepsRow
  opened : ∀ scan, s.scan = some scan → scan.Opened

def Hands (r : Int) : Option Token × Stream → Prop
  | (some t, s) => r ≤ t.start.row ∧ s.From (Layout.after t).row ∧ t.KeepsRow
  | (none, s) => s.From r ∧ s.next = (none, s)

section

variable {s : Stream} {r : Int} {scan : Scan} {ls rest : List Text}

theorem keepsRow_adjust (zero : Pos) {ts : List Token} (h : ∀ t ∈ ts, t.KeepsRow) :
    ∀ t ∈ ts.map (adjust zero), t.KeepsRow := by
  refine forall_mem_map.2 fun t ht => ⟨(h t ht).1, fun hkind => ?_⟩
  exact Int.add_le_add_right ((h t ht).2 hkind) zero.row

/-- What comes of a line takes its place among the rows. -/
theorem From.advances {s' : Stream} (h : s.From r) (hu : s.unshifted = []) (hready : s.ready = [])
    (hscan : s.scan = some scan) (hs' : Advances s scan s') : s'.From r := by
  obtain ⟨hsource, hrewound, ⟨q, hrows, hq⟩, -, hopened⟩ := h
  rw [hu, hready] at hrows
  have hr : r ≤ scan.front + s.zero.row := Int.le_trans hrows (hq scan hscan)
  have ho := hopened scan hscan
  have hscanned {rewound : Option (List Text)} {source : List Text} {after : Option Scan} {ts : List Token} {p : Int}
      (hsource : Scan.Lines source) (hrewound : ∀ ls, rewound = some ls → Scan.Lines ls)
      (hts : Ascends scan.front ts p) (hafter : ∀ scan, after = some scan → p ≤ scan.front)
      (hkeep : ∀ u ∈ ts, u.KeepsRow) (hopened : ∀ scan, after = some scan → scan.Opened) :
      From { s with rewound, source, scan := after, ready := ts } r :=
    ⟨hsource, hrewound, ⟨_, by simpa [hu] using (hts.adjust s.zero).mono hr,
      fun scan h => Int.add_le_add_right (hafter scan h) _⟩, by simpa [hu] using keepsRow_adjust s.zero hkeep, hopened⟩
  have hline {l : Text} {rest : List Text} {rewound : Option (List Text)} {source : List Text}
      (hls : Scan.Lines (l :: rest)) (hsource : Scan.Lines source)
      (hrewound : ∀ ls, rewound = some ls → Scan.Lines ls) :
      From { s with rewound, source, scan := (scan.line l).2, ready := (scan.line l).1 } r := by
    obtain ⟨hl, hne⟩ := hls.1 l mem_cons_self
    obtain ⟨p, hp, hafter⟩ := scan.line_ascends hl hne
    obtain ⟨hkeep, ho'⟩ := Scan.line_keepsRow ho hl hne
    exact hscanned hsource hrewound hp hafter hkeep ho'
  cases hs' with
  | @rewound l rest hls =>
    have hlines := hrewound _ hls
    refine hline hlines hsource ?_
    rintro _ ⟨⟩
    exact hlines.tail
  | @source l rest _ hls =>
    rw [hls] at hsource
    exact hline hsource hsource.tail nofun
  | finished =>
    obtain ⟨p, hp, -⟩ := scan.line_nil_ascends
    exact hscanned hsource nofun hp nofun (Scan.line_nil_keepsRow ho) nofun

theorem From.next (h : s.From r) : Hands r s.next := by
  refine next_induction (P := fun s answer => ∀ r, s.From r → Hands r answer) ?_ ?_ ?_ ?_ s r h
  · rintro s t rest hu r ⟨hsource, hrewound, ⟨q, hrows, hq⟩, hkeep, hopened⟩
    rw [hu] at hrows hkeep
    obtain ⟨ht, hkeep⟩ := forall_mem_cons.1 hkeep
    exact ⟨hrows.1, ⟨hsource, hrewound, ⟨q, hrows.2, hq⟩, hkeep, hopened⟩, ht⟩
  · rintro s t rest hu hready r ⟨hsource, hrewound, ⟨q, hrows, hq⟩, hkeep, hopened⟩
    rw [hu, hready] at hrows hkeep
    obtain ⟨ht, hkeep⟩ := forall_mem_cons.1 hkeep
    exact ⟨hrows.1, ⟨hsource, hrewound, ⟨q, by simpa [hu] using hrows.2, hq⟩, by simpa [hu] using hkeep, hopened⟩, ht⟩
  · intro s hu hready hscan r h
    exact ⟨h, by simp [Stream.next, hu, hready, hscan]⟩
  · intro s s' scan answer hu hready hscan hs' ih r h
    exact ih r (h.advances hu hready hscan hs')

theorem From.unshift {q : Int} (h : s.From q) {t : Token} (ht : (Layout.after t).row ≤ q) (hkeep : t.KeepsRow) :
    (s.unshift t).From t.start.row := by
  obtain ⟨hsource, hrewound, ⟨p, hrows, hp⟩, hall, hopened⟩ := h
  exact ⟨hsource, hrewound, ⟨p, ⟨le_refl _, hrows.mono ht⟩, hp⟩, forall_mem_cons.2 ⟨hkeep, hall⟩, hopened⟩

theorem From.rewind (h : s.From r) {t : Token} {s' : Stream} (hrun : (Stream.rewind t).run s = .ok () s') :
    s'.From t.start.row := by
  obtain ⟨text, -, rfl⟩ := rewind_ok hrun
  refine ⟨h.source, ?_, ⟨t.start.row, le_refl _, ?_⟩, by simp [drained], ?_⟩
  · rintro _ ⟨⟩
    exact Scan.lines_lines _
  · rintro _ ⟨⟩
    simp [Scan.front, frontRow]
  · rintro _ ⟨⟩ _ ⟨⟩

end

end Stream

namespace Translate

open Markup

section

variable {mode : Mode} {s s' : Stream} {l : Literal} {t u : Token} {final : Config}

/-! ### What a token does to markup -/

theorem moveOf_rows {b : Builder} (h : moveOf s b t = .feed s' u) :
    u.start = t.start ∧ u.kind = t.kind ∧ (s' = s ∧ u = t ∨
      ∃ rest, s' = s.unshift rest ∧ rest.start = u.stop ∧ (Layout.after rest).row = (Layout.after t).row ∧
        (t.kind.isLineEnd = true → ∃ c ∈ t.text, c ≠ '\r' ∧ c ≠ '\n') ∧ (t.KeepsRow → rest.KeepsRow) ∧
        u.stop = u.start.advance u.text) := by
  cases moveOf_feed h with
  | whole => exact ⟨rfl, rfl, .inl ⟨rfl, rfl⟩⟩
  | mark htext hcomment =>
    refine ⟨rfl, rfl, .inr ⟨_, rfl, rfl, ?_, by simp [hcomment, Kind.isLineEnd], fun hkeep => ⟨nofun, fun _ => ?_⟩, rfl⟩⟩
    · simp [Layout.after, splitToken, hcomment, Kind.isLineEnd]
    · obtain ⟨c, more, htext⟩ := exists_cons_of_ne_nil htext
      have hfirst : c ≠ '\n' := by simpa [htext] using hkeep.1 hcomment
      have hrow : (t.start.advance (t.text.take 1)).row = t.start.row := by
        simp [htext, Pos.advance, Pos.step, hfirst]
      exact hrow.trans_le (hkeep.2 (.inl hcomment))
  | @part n d rest hcomment _ _ hrest hd =>
    refine ⟨rfl, rfl, .inr ⟨_, rfl, rfl, rfl, fun _ => ⟨d, ?_, ?_⟩, fun _ => ⟨fun hkind => absurd hkind hcomment, ?_⟩, rfl⟩⟩
    · exact mem_of_mem_drop (hrest ▸ mem_cons_self)
    · rcases hd with rfl | rfl <;> decide
    · rintro (hkind | hop | ⟨-, hblank⟩)
      · exact absurd hkind hcomment
      · simp only [splitToken, Token.isOp, hrest] at hop
        rcases hd with rfl | rfl <;> simp at hop
      · simp only [splitToken, hrest] at hblank
        rcases hd with rfl | rfl <;> simp at hblank

/-! ### Runs -/

theorem closeLiteral_from {r : Int} (hs : s.From r) (h : closeLiteral mode s l = .ok (s', t)) : ∃ r, s'.From r := by
  obtain ⟨s₁, l₁, hputs, hclosed⟩ := closeLiteral_ok h
  have hput : ∃ r, s₁.From r := by
    cases hputs with
    | nothing => exact ⟨r, hs⟩
    | kept _ hrun => exact ⟨_, hs.rewind hrun⟩
    | trimmed _ hrun => exact ⟨_, hs.rewind hrun⟩
  rcases hclosed with ⟨-, rfl, -⟩ | ⟨-, rfl, -⟩
  · exact hput
  · obtain ⟨q, hq⟩ := hput
    have hnext := hq.next
    unfold takeComment
    split
    · rename_i s₂ hs₂
      rw [hs₂] at hnext
      exact ⟨q, hnext.1⟩
    · rename_i t s₂ hs₂
      rw [hs₂] at hnext
      split
      · exact ⟨_, hnext.2.1⟩
      · exact ⟨_, hnext.2.1.unshift (le_refl _) hnext.2.2⟩

theorem moveOf_from {b : Builder} (hs : s.From (Layout.after t).row) (hkeep : t.KeepsRow)
    (hmove : moveOf s b t = .feed s' u) : ∃ r, s'.From r := by
  obtain ⟨-, -, ⟨rfl, -⟩ | ⟨rest, rfl, -, hafter, -, hrest, -⟩⟩ := moveOf_rows hmove
  · exact ⟨_, hs⟩
  · exact ⟨_, hs.unshift hafter.le (hrest hkeep)⟩

theorem Steps.from {before after : Config} (hbefore : ∃ r, before.stream.From r) (h : Steps mode before after) :
    ∃ r, after.stream.From r := by
  obtain ⟨r, hr⟩ := hbefore
  have hnext {t : Token} {s' : Stream} (h : before.stream.next = (some t, s')) :
      s'.From (Layout.after t).row ∧ t.KeepsRow := by
    have hhands := hr.next
    rw [h] at hhands
    exact hhands.2
  cases h with
  | take _ _ hs | begin _ hs | leave hs | keep _ hs | remark _ hs => exact ⟨_, (hnext hs).1⟩
  | feed hs hmove => exact moveOf_from (hnext hs).1 (hnext hs).2 hmove
  | close hs hmove _ _ hclose =>
    obtain ⟨q, hq⟩ := moveOf_from (hnext hs).1 (hnext hs).2 hmove
    exact closeLiteral_from hq hclose
  | enter hs _ _ hrun | again hs _ hrun => exact ⟨_, (hnext hs).1.rewind hrun⟩
  | stop hs _ hclose =>
    have hhands := hr.next
    rw [hs] at hhands
    exact closeLiteral_from hhands.1 hclose

theorem Run.from {source : Text} {steps : List (Config × Config)} (h : Run mode (start source) steps final) :
    ∃ r, final.stream.From r := by
  refine h.keeps (fun _ _ => Steps.from) ⟨1, Scan.lines_lines source, nofun, ⟨1, le_refl _, ?_⟩, nofun, ?_⟩
  · rintro _ ⟨⟩
    exact le_refl (1 : Int)
  · rintro _ ⟨⟩ _ ⟨⟩

end

end Translate

end InlineMarkup

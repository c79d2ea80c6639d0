import InlineMarkup.Proofs.Rewind
import InlineMarkup.Proofs.SourceTiles
import InlineMarkup.Proofs.Strung

/-!
Rewinding over joined lines. A run takes tokens from a stream over a tidy source, and rewinds the last one
taken whenever all lines put back before have been read.
-/
namespace InlineMarkup

open List hiding get set

open Lexeme Text

/-! ### Lines to be read -/

/-- The lines that are read after `e` was left stand for the text: all but those cut at a joint are
whole. -/
inductive LinesOf : RowEnd → List Text → Text → Prop where
  | nil : LinesOf .done [] []
  | cons {e e' : RowEnd} {l x : Text} {ls : List Text} {text : Text} (hl : LineOf e l x e')
      (h : LinesOf e' ls text) : LinesOf e (l :: ls) (l ++ (x ++ text))

theorem LinesOf.append {e e' : RowEnd} {ls rest : List Text} {text : Text} (hls : ∀ l ∈ ls, Tidy l)
    (hreads : e.reads ls = some e') (h : LinesOf e' rest text) : LinesOf e (ls ++ rest) (ls.flatten ++ text) := by
  induction ls generalizing e with
  | nil =>
    cases hreads
    exact h
  | cons l ls ih =>
    obtain ⟨e'', hread, hreads⟩ := Option.bind_eq_some_iff.1 hreads
    have hl := hls l mem_cons_self
    have hmore := ih (fun k hk => hls k (mem_cons_of_mem _ hk)) hreads
    have hcons := LinesOf.cons (x := []) ⟨by simpa using hl, by simpa using hread, Or.inl rfl⟩ hmore
    simpa using hcons

theorem LinesOf.eq_nil {e : RowEnd} {ls : List Text} (h : LinesOf e ls []) : ls = [] := by
  generalize htext : ([] : Text) = text at h
  cases h with
  | nil => rfl
  | @cons _ _ l x _ _ hl _ =>
    have htidy := hl.tidy
    have hnil : l ++ x = [] := by
      rw [← append_assoc] at htext
      exact (append_eq_nil_iff.1 htext.symm).1
    exact absurd hnil htidy.ne_nil

theorem suffix_of_joint {s : Text} (hline : SingleLine s) (hplain : ∀ c ∈ s, c ≠ '\r')
    (h : rowEnd 0 s = .joint) : ['\\', '\n'] <:+ s := by
  induction hlength : s.length using Nat.strong_induction_on generalizing s with
  | _ k ih =>
  cases hbite : bite s with
  | taken n =>
    have hne : s ≠ [] := by
      rintro rfl
      cases h
    have hpos := bite_taken hne hbite
    rw [rowEnd_taken hbite] at h
    refine (ih _ ?_ (hline.drop n) (fun c hc => hplain c (mem_of_mem_drop hc)) h rfl).trans
      (drop_suffix n s)
    rw [← hlength, length_drop]
    omega
  | last e =>
    rw [rowEnd_last hbite] at h
    subst h
    unfold bite at hbite
    split at hbite
    · cases hbite
    · rename_i n hfront
      obtain ⟨newline, rest, rfl, hend, -⟩ := front?_reaches hfront
      have hnewline : newline = ['\n'] := by
        rcases hend with hend | hend
        · exact hend
        · exact absurd rfl (hplain '\r' (by simp [hend]))
      subst hnewline
      obtain rfl : rest = [] := hline ['\\'] rest (by simp)
      exact suffix_rfl
    · cases hbite
    · split at hbite <;> cases hbite
    · cases hbite

theorem cut_of_read {e : RowEnd} {l : Text} (hl : Tidy l) (h : e.read l = some .joint) :
    ∃ v, l = v ++ ['\n'] ∧ Cut v := by
  have hsuffix : ['\\', '\n'] <:+ l := by
    have hplain : ∀ c ∈ l, c ≠ '\r' := fun c hc => (hl.plain c hc).2.2
    cases e with
    | done | joint => exact suffix_of_joint hl.singleLine hplain (Option.some.inj h)
    | opens closer strict =>
      unfold RowEnd.read at h
      dsimp only at h
      split at h
      · rename_i n _
        have hjoint := Option.some.inj h
        rw [rowEnd_drop] at hjoint
        exact (suffix_of_joint (hl.singleLine.drop n)
          (fun c hc => hplain c (mem_of_mem_drop hc)) hjoint).trans (drop_suffix n l)
      · split at h <;> cases h
  obtain ⟨u, rfl⟩ := hsuffix
  refine ⟨u ++ ['\\'], by simp, u, rfl, fun c hc => ⟨?_, (hl.plain c (by simp [hc])).2.2⟩⟩
  rintro rfl
  obtain ⟨front, rest, rfl⟩ := append_of_mem hc
  exact absurd (hl.singleLine front (rest ++ ['\\', '\n']) (by simp)) (by simp)

/-! ### The end of the lines -/

theorem strung_empty {G : Text → Prop} {p : Pos} {ts : List Token} {rest : Text}
    (h : ∀ t ∈ ts, t.kind.isLineEnd = false ∧ t.text = [] ∧ t.start = p ∧ t.stop = p)
    (hgood : G rest) : Strung G p p rest ts p p rest := by
  induction ts with
  | nil => exact .nil p p rest
  | cons t ts ih =>
    obtain ⟨hkind, htext, hstart, hstop⟩ := h t mem_cons_self
    have hafter : Layout.after t = p := by rw [Layout.after_of_not_lineEnd hkind, hstop]
    have hsits : Sits p p [] t := by
      refine ⟨by rw [hstart, Pos.advance_nil], by rw [hstart], ?_, ?_, by rw [hstart, hstop], ?_⟩
      · rw [Layout.origin_of_not_lineEnd hkind, hstart]
        simp [Layout.gap, Text.copies]
      · intro hend
        rw [hkind] at hend
        cases hend
      · exact fun _ => hafter.trans hstart.symm
    have hmore := ih fun u hu => h u (mem_cons_of_mem _ hu)
    have hcons := @Strung.cons G p p p p [] rest rest t ts hsits (by rwa [htext])
      (by rw [htext, hstart, hafter]; exact hmore)
    rwa [htext] at hcons

namespace Scan

theorem line_nil_kind {scan : Scan} (h : scan.pending = none) :
    ∀ t ∈ (scan.line []).1, t.kind.isLineEnd = false ∧ t.text = [] ∧
      t.start = ⟨scan.row + 1, 0⟩ ∧ t.stop = ⟨scan.row + 1, 0⟩ := by
  intro t ht
  obtain ⟨hkind, htext, hstart, hstop⟩ := Layout.mem_line_nil h ht
  exact ⟨by rcases hkind with hkind | hkind <;> rw [hkind] <;> rfl, htext, hstart, hstop⟩

theorem Rests.flushed {scan : Scan} {e : RowEnd} {p q : Pos} {owed : Text} (h : scan.Rests e p q owed) :
    ∃ out r, Layout.LaysOut q (scan.line []).1 out r ∧ (∀ t ∈ (scan.line []).1, Level t) ∧
      (out = owed ∨ e = .joint ∧ owed = ['\n'] ∧ out = []) := by
  obtain ⟨-, h⟩ := h
  cases hpending : scan.pending with
  | some o =>
    rw [hpending] at h
    obtain ⟨-, -, hq, -, hstring, rfl⟩ := h
    rw [Layout.line_nil_pending hpending]
    refine ⟨_, _, Layout.LaysOut.one rfl hq, ?_, Or.inl rfl⟩
    intro t ht
    cases mem_singleton.1 ht
    have hrows := Pos.row_le_advance o.start o.text
    rw [hstring] at hrows
    exact ⟨by simpa using hrows, nofun⟩
  | none =>
    rw [hpending] at h
    have hkinds := line_nil_kind hpending
    have hlevel : ∀ t ∈ (scan.line []).1, Level t := by
      intro t ht
      obtain ⟨hkind, -, hstart, hstop⟩ := hkinds t ht
      exact ⟨by rw [hstart, hstop], fun hend => by rw [hkind] at hend; cases hend⟩
    rcases h with ⟨-, -, rfl, rfl⟩ | ⟨rfl, -, hq, rfl⟩
    · exact ⟨[], _, Layout.LaysOut.empty hkinds, hlevel, Or.inl rfl⟩
    · generalize (scan.line []).1 = ts at hkinds hlevel
      cases ts with
      | nil => exact ⟨[], q, .nil q, hlevel, Or.inr ⟨rfl, rfl, rfl⟩⟩
      | cons t ts =>
        obtain ⟨hkind, htext, hstart, hstop⟩ := hkinds t mem_cons_self
        have hone := Layout.LaysOut.one hkind (p := q) (by rw [hstart, hq]; simp)
        have hgap : Layout.gap q t.start = ['\n'] := by
          simp [Layout.gap, Text.copies, hstart, hq]
        have hrest := Layout.LaysOut.empty (p := ⟨scan.row + 1, 0⟩)
          fun u hu => hkinds u (mem_cons_of_mem t hu)
        rw [hgap, htext, hstop] at hone
        exact ⟨_, _, hone.append hrest, hlevel, Or.inl rfl⟩

end Scan

theorem Sits.first {p q : Pos} {g : Text} {t : Token} (h : Sits p q g t) :
    ¬ t.start.row < (Layout.origin none t).row ∧ Layout.gap (Layout.origin none t) t.start = [] := by
  cases hkind : t.kind.isLineEnd with
  | true =>
    have hstop := (h.lineEnd hkind).2
    simp [Layout.origin, Layout.gap, Text.copies, hkind, hstop]
  | false => simp [Layout.origin, Layout.gap, Text.copies, hkind]

namespace Stream

/-! ### Places of the whole source -/

theorem gap_place (zero : Pos) {p : Pos} {t : Token} (hp : 1 ≤ p.row) (hrow : p.row ≤ t.start.row) (ht : Level t) :
    Layout.gap (Layout.origin (some (place zero p)) (adjust zero t)) (place zero t.start) =
      Layout.gap (Layout.origin (some p) t) t.start := by
  have hrows : (place zero t.start).row - (place zero p).row = t.start.row - p.row := by
    simp only [place]
    omega
  have hsame : (place zero t.start).row = (place zero p).row ↔ t.start.row = p.row := by
    simp only [place]
    omega
  unfold Layout.gap
  rw [Layout.origin_row, Layout.origin_row, hrows]
  by_cases h : t.start.row = p.row
  · -- on one row both columns are shifted, or neither is
    rw [if_pos (hsame.2 h), if_pos h]
    congr 2
    cases hkind : t.kind.isLineEnd with
    | true =>
      have hstop := ht.2 hkind
      simp only [Layout.origin, adjust, hkind, place, hstop, if_true]
      split <;> omega
    | false =>
      simp only [Layout.origin, adjust, hkind, place, h, Option.getD_some]
      split <;> simp
  · have hne : t.start.row ≠ 1 := by omega
    rw [if_neg (mt hsame.1 h), if_neg h]
    simp [place, hne]

variable {p q : Pos} {t u : Token} {text : Text} {s after : Stream} {last : Option Token}

theorem one_le_after (hp : 1 ≤ p.row) (hrow : p.row ≤ t.start.row)
    (ht : Level t) : 1 ≤ t.stop.row ∧ 1 ≤ (Layout.after t).row := by
  have hstop : 1 ≤ t.stop.row := hp.trans (hrow.trans ht.1)
  refine ⟨hstop, ?_⟩
  unfold Layout.after
  split
  · exact hstop.trans (by simp)
  · exact hstop

theorem laysOut_adjust (zero : Pos) {p q : Pos} {ts : List Token} {s : Text}
    (h : Layout.LaysOut p ts s q) (hp : 1 ≤ p.row) (hts : ∀ t ∈ ts, Level t) :
    Layout.LaysOut (place zero p) (ts.map (adjust zero)) s (place zero q) := by
  induction h with
  | nil p => exact .nil _
  | @cons p q t ts s hrow _ ih =>
    rw [Layout.origin_row] at hrow
    have ht := hts t mem_cons_self
    obtain ⟨hstop, hafter⟩ := one_le_after hp hrow ht
    have hrest := ih hafter fun u hu => hts u (mem_cons_of_mem _ hu)
    rw [← after_adjust zero hstop] at hrest
    have hcons := Layout.LaysOut.cons (p := place zero p) (t := adjust zero t) ?_ hrest
    · rwa [show (adjust zero t).start = place zero t.start from rfl, gap_place zero hp hrow ht]
        at hcons
    · rw [Layout.origin_row]
      simp only [place, adjust]
      omega

theorem sits_adjust (zero : Pos) {p q : Pos} {g : Text} {t : Token} (h : Sits p q g t)
    (hp : 1 ≤ p.row) (hq : 1 ≤ q.row) : Sits (place zero p) (place zero q) g (adjust zero t) := by
  have hlevel := h.level
  have hstop := (one_le_after hq h.row hlevel).1
  refine ⟨?_, ?_, ?_, ?_, ?_, ?_⟩
  · rw [place_advance zero hp, h.start]
    rfl
  · have hrow := h.row
    simp only [place, adjust]
    omega
  · exact (gap_place zero hq h.row hlevel).trans h.gap
  · intro hkind
    obtain ⟨htext, hend⟩ := h.lineEnd hkind
    refine ⟨htext, ?_⟩
    simp only [adjust, place, hend]
    split
    · simp only [Pos.mk.injEq, true_and]
      omega
    · rfl
  · have hrow := h.stop
    simp only [place, adjust]
    omega
  · intro htext
    rw [after_adjust zero hstop, h.after htext]
    rfl

/-! ### Where a stream stands -/

def Awaits (s : Stream) (e : RowEnd) (p q : Pos) (owed more : Text) : Prop :=
  match s.scan with
  | none => e = .done ∧ s.unread = [] ∧ owed = [] ∧ more = []
  | some scan => scan.Rests e p q owed ∧ LinesOf e s.unread more

/-- The text from `p` on, laid out up to `q`, as the scanner counts: tokens, and then what the stream
has still to read. -/
structure Covers (s : Stream) (p q : Pos) (ts : List Token) (text : Text) : Prop where
  unshifted : s.unshifted = []
  row : 1 ≤ p.row
  layoutRow : 1 ≤ q.row
  strung : ∃ p' q' e owed more,
    Strung (Resumes more e) p q text ts p' q' (owed ++ more) ∧ s.Awaits e p' q' owed more

def Answers (zero p q : Pos) (text : Text) : Option Token × Stream → Prop
  | (some t, s) => s.zero = zero ∧ ∃ u, t = adjust zero u ∧ s.Covers p q (u :: s.ready) text
  | (none, s) => s.zero = zero ∧ text = [] ∧ s.unshifted = [] ∧ s.ready = [] ∧ s.scan = none ∧ s.unread = []

theorem Covers.advances {s' : Stream} {scan : Scan} (h : s.Covers p q s.ready text) (hready : s.ready = [])
    (hscan : s.scan = some scan) (hs' : Advances s scan s') : s'.Covers p q s'.ready text := by
  obtain ⟨hu, hp, hq, p', q', e, owed, more, hstrung, hawaits⟩ := h
  rw [hready] at hstrung
  generalize hleft : owed ++ more = left at hstrung
  cases hstrung
  subst hleft
  rw [Awaits, hscan] at hawaits
  obtain ⟨hrests, hlines⟩ := hawaits
  have hline {l : Text} {ls : List Text} {s' : Stream} (hlines : LinesOf e (l :: ls) more) (hu : s'.unshifted = [])
      (hscan : s'.scan = (scan.line l).2) (hready : s'.ready = (scan.line l).1) (hunread : s'.unread = ls) :
      s'.Covers p q s'.ready (owed ++ more) := by
    cases hlines with
    | @cons _ e' _ x _ text hl hrest =>
      obtain ⟨after, p', q', owed', hafter, hstrung, hrests'⟩ := Scan.line_strung hrests hl text
      refine ⟨hu, hp, hq, p', q', e', owed', text, hready ▸ hstrung, ?_⟩
      rw [Awaits, hscan, hafter, hunread]
      exact ⟨hrests', hrest⟩
  cases hs' with
  | rewound hls =>
    rw [unread, hls] at hlines
    exact hline hlines hu rfl rfl rfl
  | source hr hls =>
    rw [unread, hr, hls] at hlines
    exact hline hlines hu rfl rfl rfl
  | finished hr hls =>
    rw [unread, hr, hls] at hlines
    cases hlines
    obtain ⟨hkeeps, hrests⟩ := hrests
    have hpending : scan.pending = none := hkeeps.1
    rw [hpending] at hrests
    obtain ⟨-, rfl, rfl, rfl⟩ | ⟨hcontra, -⟩ := hrests
    · have hgood : Resumes [] .done [] := ⟨[], rfl, by simp, rfl⟩
      exact ⟨hu, hp, hq, _, _, .done, [], [], strung_empty (Scan.line_nil_kind hpending) hgood, rfl,
        by simp [unread, hls], rfl, rfl⟩
    · cases hcontra

theorem next_answers (h : s.Covers p q s.ready text) : Answers s.zero p q text s.next := by
  refine next_induction (P := fun s answer => s.Covers p q s.ready text → Answers s.zero p q text answer)
    ?_ ?_ ?_ ?_ s h
  · intro s t rest hu h
    cases hu.symm.trans h.unshifted
  · intro s t rest _ hready h
    exact ⟨rfl, t, rfl, h.unshifted, h.row, h.layoutRow, hready ▸ h.strung⟩
  · intro s hu hready hscan h
    obtain ⟨-, -, -, p', q', e, owed, more, hstrung, hawaits⟩ := h
    rw [Awaits, hscan] at hawaits
    obtain ⟨-, hunread, rfl, rfl⟩ := hawaits
    rw [hready] at hstrung
    cases hstrung
    exact ⟨rfl, rfl, hu, hready, hscan, hunread⟩
  · intro s s' scan answer _ hready hscan hs' ih h
    have hzero : s'.zero = s.zero := by cases hs' <;> rfl
    exact hzero ▸ ih (h.advances hready hscan hs')

theorem Covers.cons (h : s.Covers p q (u :: s.ready) text) : ∃ g rest, text = g ++ (u.text ++ rest) ∧ Sits p q g u ∧
      s.Covers (u.start.advance u.text) (Layout.after u) s.ready rest := by
  obtain ⟨hu, hp, hq, p', q', e, owed, more, hstrung, hawaits⟩ := h
  cases hstrung with
  | @cons _ _ _ _ g rest _ _ _ ht hgood hstrung =>
    have hrow : 1 ≤ u.start.row := hq.trans ht.row
    exact ⟨g, rest, rfl, ht, hu, hrow.trans (Pos.row_le_advance _ _),
      (one_le_after hq ht.row ht.level).2, p', q', e, owed, more, hstrung, hawaits⟩

theorem Covers.layout (h : s.Covers p q s.ready text) :
    Layout.text (some (place s.zero q)) s.tokens = .ok text := by
  induction hn : s.tokens.length generalizing s p q text with
  | zero =>
    have hanswer := next_answers h
    rw [length_eq_zero_iff] at hn
    rcases hnext : s.next with ⟨- | t, after⟩
    · rw [hnext] at hanswer
      rw [hn, hanswer.2.1]
      rfl
    · rw [tokens_of_next_some hnext] at hn
      cases hn
  | succ n ih =>
    have hanswer := next_answers h
    rcases hnext : s.next with ⟨- | t, after⟩
    · rw [tokens_of_next_none hnext] at hn
      cases hn
    · rw [hnext] at hanswer
      obtain ⟨hzero, u, rfl, hcovers⟩ := hanswer
      rw [tokens_of_next_some hnext] at hn ⊢
      obtain ⟨g, rest, rfl, hsits, hrest⟩ := hcovers.cons
      have hmore := ih hrest (by simpa using hn)
      have hadjusted := sits_adjust s.zero hsits h.row h.layoutRow
      have hstop := (one_le_after h.layoutRow hsits.row hsits.level).1
      have hrow : ¬ (adjust s.zero u).start.row <
          (Layout.origin (some (place s.zero q)) (adjust s.zero u)).row := by
        rw [Layout.origin_row]
        exact not_lt.2 hadjusted.row
      rw [hzero, ← after_adjust s.zero hstop] at hmore
      rw [Layout.text, if_neg hrow, hmore, hadjusted.gap]
      simp [Except.map, adjust]

/-! ### Rewinding -/

structure Restarted (s : Stream) (t : Token) : Prop where
  ready : s.ready = []
  scan : s.scan = some {}
  start : place s.zero ⟨1, 0⟩ = t.start
  text : s.rewound.getD [] = [] → t.text = []

theorem rewound_linesOf {e : RowEnd} {ls source : List Text} {more owed out : Text}
    (hls : ∀ l ∈ ls, Tidy l) (hreads : RowEnd.done.reads ls = some e) (hsource : LinesOf e source more)
    (htext : ls.flatten = text ++ owed) (hout : out = owed ∨ e = .joint ∧ owed = ['\n'] ∧ out = []) :
    LinesOf .done (lines (text ++ out) ++ source) (text ++ (owed ++ more)) := by
  have hisLine : ∀ l ∈ ls, IsLine l := fun l hl => ⟨(hls l hl).singleLine, (hls l hl).ended⟩
  rcases hout with rfl | ⟨rfl, rfl, rfl⟩
  · have hlines : lines (text ++ out) = ls := by
      have happend := lines_flatten_append hisLine []
      rwa [append_nil, lines, append_nil, htext] at happend
    rw [hlines, ← append_assoc, ← htext]
    exact LinesOf.append hls hreads hsource
  · -- the last of the lines is cut at its joint
    rcases eq_nil_or_concat' ls with rfl | ⟨front, l, rfl⟩
    · cases hreads
    rw [RowEnd.reads_append, Option.bind_eq_some_iff] at hreads
    obtain ⟨e', hfront, hread⟩ := hreads
    rw [RowEnd.reads_singleton] at hread
    obtain ⟨v, rfl, hcut⟩ := cut_of_read (hls l (by simp)) hread
    have htext' : text = front.flatten ++ v := by
      rw [flatten_append, flatten_singleton, ← append_assoc] at htext
      exact (append_cancel_right htext).symm
    have hplain : ∀ c ∈ v, c ≠ '\n' := by
      obtain ⟨u, rfl, hu⟩ := hcut
      intro c hc
      rcases mem_append.1 hc with hc | hc
      · exact (hu c hc).1
      · rw [mem_singleton.1 hc]
        decide
    have hlines : lines (text ++ []) = front ++ [v] := by
      rw [append_nil, htext', lines_flatten_append fun l hl => hisLine l (by simp [hl]),
        lines_of_noNewline hplain hcut.ne_nil]
    rw [hlines, htext', append_assoc, append_assoc]
    refine LinesOf.append (fun l hl => hls l (by simp [hl])) hfront ?_
    exact LinesOf.cons ⟨hls (v ++ ['\n']) (by simp), hread, Or.inr ⟨rfl, hcut, rfl⟩⟩ hsource

theorem rewind_covers (h : s.Covers p q (u :: s.ready) text) (hread : s.rewound.getD [] = []) :
    ∃ after g rest, (rewind (adjust s.zero u)).run s = .ok () after ∧
      text = g ++ (u.text ++ rest) ∧ Sits p q g u ∧ after.Restarted (adjust s.zero u) ∧
      after.Covers ⟨1, 0⟩ ⟨1, 0⟩ after.ready (u.text ++ rest) := by
  obtain ⟨hu, hp, hq, p', q', e, owed, more, hstrung, hawaits⟩ := h
  cases hstrung with
  | @cons _ _ _ _ g rest _ _ _ ht hgood hstrung =>
    obtain ⟨⟨held, rfl, hheld⟩, hlevel⟩ := hstrung.laysOut
    obtain ⟨hstop, hafter⟩ := one_le_after hq ht.row ht.level
    -- the lines to come, and what is flushed of the lines that are read
    obtain ⟨out, r, hflushed, hlevel', hout, hsource⟩ : ∃ out r,
        Layout.LaysOut q' ((s.scan.map fun scan => (scan.line []).1).getD []) out r ∧
        (∀ t ∈ (s.scan.map fun scan => (scan.line []).1).getD [], Level t) ∧
        (out = owed ∨ e = .joint ∧ owed = ['\n'] ∧ out = []) ∧ LinesOf e s.source more := by
      unfold Awaits at hawaits
      rw [unread, hread, nil_append] at hawaits
      cases hscan : s.scan with
      | none =>
        rw [hscan] at hawaits
        obtain ⟨rfl, hunread, rfl, rfl⟩ := hawaits
        exact ⟨[], q', .nil q', by simp, Or.inl rfl, hunread ▸ .nil⟩
      | some scan =>
        rw [hscan] at hawaits
        obtain ⟨out, r, hflushed, hlevel', hout⟩ := hawaits.1.flushed
        exact ⟨out, r, hflushed, hlevel', hout, hawaits.2⟩
    obtain ⟨ls, hls, htidy, hreads⟩ := hgood
    have htext : ls.flatten = (u.text ++ held) ++ owed := by
      rw [← append_assoc, ← append_assoc] at hls
      exact (append_cancel_right hls).symm
    have hplain : Layout.plain (adjust s.zero u :: s.flushed) = .ok (u.text ++ held ++ out) := by
      have hlaid := (laysOut_adjust s.zero (hheld.append hflushed) hafter (by
        intro t ht
        exact (mem_append.1 ht).elim (hlevel t) (hlevel' t))).text
      rw [← after_adjust s.zero hstop] at hlaid
      obtain ⟨hrow, hgap⟩ := (sits_adjust s.zero ht hp hq).first
      have hlist : s.flushed = (s.ready ++
          (s.scan.map fun scan => (scan.line []).1).getD []).map (adjust s.zero) := by
        rw [flushed, hu, nil_append]
      rw [Layout.plain, Layout.text, if_neg hrow, hgap, hlist, hlaid]
      simp [Except.map, adjust]
    refine ⟨{ s.drained with
      zero := ⟨(adjust s.zero u).start.row - 1, (adjust s.zero u).start.col⟩,
      rewound := some (lines (u.text ++ held ++ out)), scan := some {} }, g, _, ?_, rfl, ht, ?_, ?_⟩
    · simp [rewind, hplain, EStateM.run, bind, EStateM.bind, get, getThe, MonadStateOf.get,
        EStateM.get, set, MonadStateOf.set, EStateM.set]
    · refine ⟨rfl, rfl, by simp [place], fun hnil => ?_⟩
      have hflat := flatten_lines (u.text ++ held ++ out)
      rw [show lines (u.text ++ held ++ out) = [] from hnil, append_assoc] at hflat
      exact (append_eq_nil_iff.1 hflat.symm).1
    · refine ⟨rfl, le_rfl, le_rfl, _, _, .done, [], _, .nil _ _ _, ⟨⟨rfl, rfl⟩, ?_⟩, ?_⟩
      · exact Or.inl ⟨rfl, rfl, rfl, rfl⟩
      · have hlines := rewound_linesOf htidy hreads hsource htext hout
        rwa [append_assoc u.text held (owed ++ more)] at hlines

theorem Restarted.unread_nil (h : s.Restarted t) (hcovers : s.Covers ⟨1, 0⟩ ⟨1, 0⟩ s.ready []) : s.unread = [] := by
  obtain ⟨-, -, -, p', q', e, owed, more, hstrung, hawaits⟩ := hcovers
  obtain ⟨⟨out, hout, -⟩, -⟩ := hstrung.laysOut
  unfold Awaits at hawaits
  rw [h.scan] at hawaits
  have hmore : more = [] :=
    (append_eq_nil_iff.1 (append_eq_nil_iff.1 hout.symm).2).2
  rw [hmore] at hawaits
  exact hawaits.2.eq_nil

theorem Restarted.covers (h : s.Restarted t) (hcovers : s.Covers ⟨1, 0⟩ ⟨1, 0⟩ s.ready text) (htext : t.text = [])
    (hkind : t.kind.isLineEnd = false) (hstop : t.stop = t.start) :
    ∃ u, t = adjust s.zero u ∧ s.Covers ⟨1, 0⟩ ⟨1, 0⟩ (u :: s.ready) text := by
  refine ⟨{ t with start := ⟨1, 0⟩, stop := ⟨1, 0⟩ }, ?_, ?_⟩
  · have hstart := h.start
    rcases t with ⟨kind, word, start, stop, line⟩
    dsimp only at hstop hstart
    simp only [adjust, hstart, hstop]
  · obtain ⟨hu, hp, hq, p', q', e, owed, more, hstrung, hawaits⟩ := hcovers
    rw [h.ready] at hstrung ⊢
    generalize hleft : owed ++ more = left at hstrung
    cases hstrung
    subst hleft
    have hawaits' := hawaits
    unfold Awaits at hawaits'
    rw [h.scan] at hawaits'
    obtain ⟨⟨-, ⟨rfl, -, -, rfl⟩ | ⟨-, -, hcontra, -⟩⟩, -⟩ := hawaits'
    · refine ⟨hu, hp, hq, _, _, .done, [], more, strung_empty ?_ ⟨[], rfl, by simp, rfl⟩, hawaits⟩
      intro v hv
      rw [mem_singleton.1 hv]
      exact ⟨hkind, htext, rfl, rfl⟩
    · cases hcontra

theorem Covers.ended (h : s.Covers p q (u :: s.ready) text) (hnext : s.next = (none, after)) :
    after.zero = s.zero ∧ after.Covers p q (u :: after.ready) text := by
  have hready : s.ready = [] := by
    have htokens := tokens_of_next_none hnext
    rw [tokens, h.unshifted, nil_append, map_eq_nil_iff] at htokens
    exact (append_eq_nil_iff.1 htokens).1
  obtain ⟨hu, hp, hq, p', q', e, owed, more, hstrung, hawaits⟩ := h
  cases hstrung with
  | @cons _ _ _ _ g rest _ _ _ ht hgood hstrung =>
    have hrest : s.Covers (u.start.advance u.text) (Layout.after u) s.ready rest :=
      ⟨hu, (hq.trans ht.row).trans (Pos.row_le_advance _ _), (one_le_after hq ht.row ht.level).2,
        p', q', e, owed, more, hstrung, hawaits⟩
    have hanswer := next_answers hrest
    rw [hnext] at hanswer
    obtain ⟨hzero, hnil, hu', hready', hscan', hunread'⟩ := hanswer
    rw [hready] at hstrung
    generalize hleft : owed ++ more = left at hstrung
    cases hstrung
    subst hnil
    obtain ⟨rfl, rfl⟩ := append_eq_nil_iff.1 hleft
    have hdone : e = .done := by
      unfold Awaits at hawaits
      cases hscan : s.scan with
      | none =>
        rw [hscan] at hawaits
        exact hawaits.1
      | some scan =>
        rw [hscan] at hawaits
        have hlines := hawaits.2
        rw [hlines.eq_nil] at hlines
        cases hlines
        rfl
    subst hdone
    refine ⟨hzero, hu', hp, hq, u.start.advance u.text, Layout.after u, .done, [], [], ?_, ?_⟩
    · rw [hready']
      exact .cons ht hgood (.nil _ _ _)
    · unfold Awaits
      rw [hscan']
      exact ⟨rfl, hunread', rfl, rfl⟩

/-! ### Runs -/

/-- The tokens that the stream hands out from now on, if nothing is put back. -/
inductive Yields : Stream → List Token → Prop where
  | ended {s after : Stream} (h : s.next = (none, after)) : Yields s []
  | more {s after : Stream} {t : Token} {ts : List Token} (h : s.next = (some t, after))
      (hts : Yields after ts) : Yields s (t :: ts)

theorem yields_tokens (s : Stream) : Yields s s.tokens := by
  induction hn : s.tokens.length generalizing s with
  | zero =>
    rw [length_eq_zero_iff] at hn
    rcases hnext : s.next with ⟨- | t, after⟩
    · exact hn ▸ .ended hnext
    · rw [tokens_of_next_some hnext] at hn
      cases hn
  | succ n ih =>
    rcases hnext : s.next with ⟨- | t, after⟩
    · rw [tokens_of_next_none hnext] at hn
      cases hn
    · rw [tokens_of_next_some hnext] at hn ⊢
      exact .more hnext (ih after (by simpa using hn))

/-- A run over a source: tokens are taken, and the last one taken is rewound when all lines that were
put back before have been read. -/
inductive Ran (source : Text) : List Token → Stream → Prop where
  | start : Ran source [] { source := lines source }
  | next {taken : List Token} {s after : Stream} {t : Token} (h : Ran source taken s)
      (hnext : s.next = (some t, after)) : Ran source (t :: taken) after
  | ended {taken : List Token} {s after : Stream} (h : Ran source taken s)
      (hnext : s.next = (none, after)) : Ran source taken after
  | rewind {taken : List Token} {s after : Stream} {t : Token} (h : Ran source (t :: taken) s)
      (hread : s.rewound.getD [] = []) (hrewind : (rewind t).run s = .ok () after) :
      Ran source (t :: taken) after

/-- A rewind has brought the stream back to where the token stands in the source. -/
structure Back (s : Stream) (source : Text) (t : Token) : Prop extends Restarted s t where
  onSource : ∃ front rest, s.Covers ⟨1, 0⟩ ⟨1, 0⟩ s.ready (t.text ++ rest) ∧
    source = front ++ (t.text ++ rest) ∧ Pos.advance ⟨1, 0⟩ front = t.start
  empty : t.text = [] → t.kind.isLineEnd = false ∧ t.stop = t.start

/-- Where a run has come to: no token has been taken yet, the last one was just taken, or it was
just rewound. -/
inductive Standing (source : Text) (s : Stream) : Option Token → Prop where
  | fresh {p q : Pos} {front text : Text} (hcovers : s.Covers p q s.ready text)
      (hsource : source = front ++ text) (hfront : Pos.advance ⟨1, 0⟩ front = place s.zero p) :
      Standing source s none
  | took {p q : Pos} {front text : Text} (u : Token) (hcovers : s.Covers p q (u :: s.ready) text)
      (hsource : source = front ++ text) (hfront : Pos.advance ⟨1, 0⟩ front = place s.zero p) :
      Standing source s (some (adjust s.zero u))
  | back {t : Token} (h : s.Back source t) : Standing source s (some t)

variable {source : Text} {s : Stream}

theorem Standing.covers (h : Standing source s last) :
    ∃ p q front text, s.Covers p q s.ready text ∧ source = front ++ text ∧
      Pos.advance ⟨1, 0⟩ front = place s.zero p := by
  cases h with
  | fresh hcovers hsource hfront => exact ⟨_, _, _, _, hcovers, hsource, hfront⟩
  | @took p q front text u hcovers hsource hfront =>
    obtain ⟨g, rest, rfl, hsits, hrest⟩ := hcovers.cons
    refine ⟨_, _, front ++ g ++ u.text, rest, hrest, by rw [hsource]; simp, ?_⟩
    rw [Pos.advance_append, Pos.advance_append, hfront, place_advance _ hcovers.row, hsits.start,
      place_advance _ (hcovers.layoutRow.trans hsits.row)]
  | back h =>
    obtain ⟨front, rest, hcovers, hsource, hfront⟩ := h.onSource
    exact ⟨_, _, _, _, hcovers, hsource, hfront.trans h.start.symm⟩

theorem Standing.onSource (h : Standing source s (some t)) :
    ∃ front rest, source = front ++ (t.text ++ rest) ∧ Pos.advance ⟨1, 0⟩ front = t.start := by
  cases h with
  | @took p q front text u hcovers hsource hfront =>
    obtain ⟨g, rest, rfl, hsits, -⟩ := hcovers.cons
    refine ⟨front ++ g, rest, by rw [hsource, append_assoc]; rfl, ?_⟩
    rw [Pos.advance_append, hfront, place_advance _ hcovers.row, hsits.start]
    rfl
  | back h =>
    obtain ⟨front, rest, -, hsource, hfront⟩ := h.onSource
    exact ⟨front, rest, hsource, hfront⟩

theorem rewind_back {front : Text} (hcovers : s.Covers p q (u :: s.ready) text) (hsource : source = front ++ text)
    (hfront : Pos.advance ⟨1, 0⟩ front = place s.zero p) (hread : s.rewound.getD [] = []) :
    ∃ after, (rewind (adjust s.zero u)).run s = .ok () after ∧ after.Back source (adjust s.zero u) := by
  obtain ⟨after, g, rest, hrun, rfl, hsits, hrestarted, hcovers'⟩ := rewind_covers hcovers hread
  refine ⟨after, hrun, hrestarted, ⟨front ++ g, rest, hcovers', ?_, ?_⟩, ?_⟩
  · rw [hsource, append_assoc]
    rfl
  · rw [Pos.advance_append, hfront, place_advance _ hcovers.row, hsits.start]
    rfl
  · intro hnil
    have hadjusted := sits_adjust s.zero hsits hcovers.row hcovers.layoutRow
    have hkind : (adjust s.zero u).kind.isLineEnd = false := by
      cases hkind : (adjust s.zero u).kind.isLineEnd with
      | false => rfl
      | true =>
        rw [(hadjusted.lineEnd hkind).1] at hnil
        cases hnil
    exact ⟨hkind, (Layout.after_of_not_lineEnd hkind).symm.trans (hadjusted.after hnil)⟩

theorem Standing.rewind (h : Standing source s (some t)) (hread : s.rewound.getD [] = []) :
    ∃ after, (rewind t).run s = .ok () after ∧ after.Back source t := by
  cases h with
  | took u hcovers hsource hfront => exact rewind_back hcovers hsource hfront hread
  | back h =>
    obtain ⟨front, rest, hcovers, hsource, hfront⟩ := h.onSource
    have hnil := h.text hread
    obtain ⟨hkind, hstop⟩ := h.empty hnil
    obtain ⟨u, rfl, hcovers'⟩ := h.covers hcovers hnil hkind hstop
    exact rewind_back hcovers' hsource (hfront.trans h.start.symm) hread

theorem Standing.next (h : Standing source s last) (hnext : s.next = (some t, after)) :
    Standing source after (some t) := by
  obtain ⟨p, q, front, text, hcovers, hsource, hfront⟩ := h.covers
  have hanswer := next_answers hcovers
  rw [hnext] at hanswer
  obtain ⟨hzero, u, rfl, hcovers'⟩ := hanswer
  rw [← hzero] at hfront ⊢
  exact .took u hcovers' hsource hfront

theorem Standing.ended (h : Standing source s last)
    (hnext : s.next = (none, after)) : Standing source after last := by
  cases h with
  | @fresh p q _ _ hcovers hsource hfront =>
    have hanswer := next_answers hcovers
    rw [hnext] at hanswer
    obtain ⟨hzero, rfl, hu, hready, hscan, hunread⟩ := hanswer
    refine .fresh (p := p) (q := q)
      ⟨hu, hcovers.row, hcovers.layoutRow, p, q, .done, [], [], ?_, ?_⟩ hsource (hzero ▸ hfront)
    · rw [hready]
      exact .nil _ _ _
    · unfold Awaits
      rw [hscan]
      exact ⟨rfl, hunread, rfl, rfl⟩
  | took u hcovers hsource hfront =>
    obtain ⟨hzero, hcovers'⟩ := hcovers.ended hnext
    rw [← hzero] at hfront ⊢
    exact .took u hcovers' hsource hfront
  | back h =>
    -- a fresh scanner marks the end of the source, so there is a token
    exfalso
    obtain ⟨front, rest, hcovers, -, -⟩ := h.onSource
    have hunread : s.unread = [] := by
      have hanswer := next_answers hcovers
      rw [hnext] at hanswer
      rw [hanswer.2.1] at hcovers
      exact h.unread_nil hcovers
    have htokens := tokens_of_next_none hnext
    rw [tokens, h.scan, hunread] at htokens
    simp [Scan.all, Scan.line, Scan.finish] at htokens

theorem Ran.standing {taken : List Token} (hlines : LinesOf .done (lines source) source) (h : Ran source taken s) :
    Standing source s taken.head? ∧ ∀ t ∈ taken, ∃ front rest,
      source = front ++ (t.text ++ rest) ∧ Pos.advance ⟨1, 0⟩ front = t.start := by
  induction h with
  | start =>
    have hrests : ({} : Scan).Rests .done ⟨1, 0⟩ ⟨1, 0⟩ [] :=
      ⟨⟨rfl, rfl⟩, Or.inl ⟨rfl, rfl, rfl, rfl⟩⟩
    have hcovers : Covers { source := lines source } ⟨1, 0⟩ ⟨1, 0⟩ [] source :=
      ⟨rfl, le_rfl, le_rfl, ⟨1, 0⟩, ⟨1, 0⟩, .done, [], source, .nil _ _ _, hrests, hlines⟩
    exact ⟨.fresh hcovers (nil_append source).symm (by simp [place]), nofun⟩
  | next _ hnext ih =>
    have hstanding := ih.1.next hnext
    refine ⟨hstanding, ?_⟩
    intro u hu
    rcases mem_cons.1 hu with rfl | hu
    · exact hstanding.onSource
    · exact ih.2 u hu
  | ended _ hnext ih => exact ⟨ih.1.ended hnext, ih.2⟩
  | rewind _ hread hrewind ih =>
    obtain ⟨after, hrun, hback⟩ := ih.1.rewind hread
    rw [hrewind] at hrun
    cases hrun
    exact ⟨.back hback, ih.2⟩

end Stream

/-! ### Sources -/

variable {e : RowEnd} {scan : Scan} {ls : List Text}

theorem Resumes.newline_mem {text : Text} (h : Resumes [] e text) (hne : text ≠ []) : '\n' ∈ text := by
  obtain ⟨ls, rfl, hls, -⟩ := h
  rw [append_nil] at hne ⊢
  cases ls with
  | nil => exact absurd rfl hne
  | cons l ls => simp [mem_of_getLast? (hls l mem_cons_self).ended]

theorem Scan.spoils {o : OpenString} {l : Text} (ho : scan.pending = some o)
    (hne : l ≠ []) (hread : (RowEnd.opens o.closer scan.strict).read l = none) :
    ∃ t after, scan.line l = ([t], some after) ∧ t.kind = .error ∧ t.text = o.text ++ l := by
  unfold RowEnd.read at hread
  dsimp only at hread
  unfold Scan.line Scan.stringLine
  rw [ho]
  dsimp only
  rw [if_neg (by simpa using hne)]
  cases htail : tail? o.closer l with
  | some n =>
    rw [htail] at hread
    cases hread
  | none =>
    rw [htail] at hread
    dsimp only at hread
    split at hread
    · rename_i hspoils
      dsimp only
      rw [if_pos hspoils]
      exact ⟨_, _, rfl, rfl, rfl⟩
    · cases hread

theorem linesOf_all {p q : Pos} {owed : Text} (hrests : scan.Rests e p q owed) (hls : ∀ l ∈ ls, Tidy l)
    (hjoin : ∀ l, ls.getLast? = some l → ¬ ['\\', '\n'] <:+ l) (hjoint : e = .joint → ls ≠ [])
    (hwhole : ∀ t ∈ scan.all ls, t.kind = .error → '\n' ∉ t.text) : LinesOf e ls ls.flatten := by
  induction ls generalizing scan e p q owed with
  | nil =>
    cases e with
    | done => exact .nil
    | joint => exact absurd rfl (hjoint rfl)
    | opens closer strict =>
      obtain ⟨⟨o, ho, -⟩, hrests⟩ := hrests
      rw [ho] at hrests
      rw [Scan.all, Layout.line_nil_pending ho] at hwhole
      exact absurd (hrests.2.1.newline_mem hrests.1.ne_nil) (hwhole _ mem_cons_self rfl)
  | cons l ls ih =>
    have hl := hls l mem_cons_self
    cases hread : e.read l with
    | none =>
      cases e with
      | done | joint => cases hread
      | opens closer strict =>
        obtain ⟨⟨o, ho, rfl, rfl⟩, -⟩ := hrests
        obtain ⟨t, after, hline, hkind, htext⟩ := Scan.spoils ho hl.ne_nil hread
        rw [Scan.all_cons_some hline] at hwhole
        refine absurd ?_ (hwhole t (by simp) hkind)
        rw [htext]
        exact mem_append_right _ (mem_of_getLast? hl.ended)
    | some e' =>
      have hlineOf : LineOf e l [] e' := ⟨by simpa using hl, by simpa using hread, Or.inl rfl⟩
      obtain ⟨after, p', q', owed', hafter, -, hrests'⟩ := Scan.line_strung hrests hlineOf []
      rw [Scan.all_cons_some (Prod.ext rfl hafter)] at hwhole
      have hrest := ih hrests' (fun k hk => hls k (mem_cons_of_mem _ hk)) ?_ ?_
        (fun t ht => hwhole t (mem_append_right _ ht))
      · simpa using LinesOf.cons hlineOf hrest
      · intro k hk
        refine hjoin k ?_
        rw [getLast?_cons, hk]
        rfl
      · rintro rfl rfl
        obtain ⟨v, rfl, u, rfl, -⟩ := cut_of_read hl hread
        exact hjoin _ rfl ⟨u, by simp⟩

theorem linesOf_source {source : Text} (h : Layout.TidySource source)
    (hwhole : ∀ t ∈ tokenize (lines source), t.kind = .error → '\n' ∉ t.text) :
    LinesOf .done (lines source) source := by
  have hrests : ({} : Scan).Rests .done ⟨1, 0⟩ ⟨1, 0⟩ [] :=
    ⟨⟨rfl, rfl⟩, Or.inl ⟨rfl, rfl, rfl, rfl⟩⟩
  have hlines := linesOf_all hrests h.tidy h.not_joined (by simp) hwhole
  rwa [flatten_lines] at hlines

def sourceFrom (source : Text) (p : Pos) : Text := source.drop (offset (lines source) p).toNat

theorem exists_lines (s : Text) : ∃ (ls : List Text) (rest : Text), s = ls.flatten ++ rest ∧
    (∀ l ∈ ls, IsLine l) ∧ ∀ c ∈ rest, c ≠ '\n' := by
  induction s using List.reverseRecOn with
  | nil => exact ⟨[], [], rfl, nofun, nofun⟩
  | append_singleton s c ih =>
    obtain ⟨ls, rest, rfl, hls, hrest⟩ := ih
    by_cases hc : c = '\n'
    · subst hc
      refine ⟨ls ++ [rest ++ ['\n']], [], by simp, ?_, nofun⟩
      intro l hl
      rcases mem_append.1 hl with hl | hl
      · exact hls l hl
      · rw [mem_singleton.1 hl]
        exact isLine_append hrest
    · refine ⟨ls, rest ++ [c], by simp, hls, ?_⟩
      intro d hd
      rcases mem_append.1 hd with hd | hd
      · exact hrest d hd
      · rwa [mem_singleton.1 hd]

theorem Pos.advance_lines (hls : ∀ l ∈ ls, IsLine l) (row : Int) :
    Pos.advance ⟨row, 0⟩ ls.flatten = ⟨row + ls.length, 0⟩ := by
  induction ls generalizing row with
  | nil => simp
  | cons l ls ih =>
    rw [flatten_cons, Pos.advance_append, Pos.advance_isLine (hls l mem_cons_self),
      ih fun k hk => hls k (mem_cons_of_mem _ hk), length_cons]
    push_cast
    congr 1
    omega

theorem sourceFrom_advance (front rest : Text) : sourceFrom (front ++ rest) (Pos.advance ⟨1, 0⟩ front) = rest := by
  obtain ⟨ls, last, rfl, hls, hlast⟩ := exists_lines front
  have hplace : Pos.advance ⟨1, 0⟩ (ls.flatten ++ last) = ⟨(ls.length + 1 : Nat), last.length⟩ := by
    rw [Pos.advance_append, Pos.advance_lines hls, Pos.advance_of_noNewline hlast]
    push_cast
    congr 1
    · omega
    · simp
  rw [sourceFrom, hplace, append_assoc, lines_flatten_append hls, offset_row]
  have hlength : ((ls.flatten.length : Int) + last.length).toNat = (ls.flatten ++ last).length := by
    rw [length_append]
    omega
  rw [hlength, ← append_assoc, drop_left]

namespace Stream

/-- Every token that a run takes spells what the source has where the token starts. Whenever the last
one can be rewound, the tokens that then come are laid out as the source from there on. -/
theorem rewinding_keeps_source {source : Text} (hsource : Layout.TidySource source)
    (hwhole : ∀ t ∈ tokenize (lines source), t.kind = .error → '\n' ∉ t.text)
    {taken : List Token} {s : Stream} (hran : Ran source taken s) :
    (∀ t ∈ taken, t.text <+: sourceFrom source t.start) ∧ ∀ t, taken.head? = some t → s.rewound.getD [] = [] →
        ∃ after ts, (rewind t).run s = .ok () after ∧ after.Yields ts ∧
          Layout.text (some t.start) ts = .ok (sourceFrom source t.start) := by
  obtain ⟨hstanding, htaken⟩ := hran.standing (linesOf_source hsource hwhole)
  refine ⟨?_, ?_⟩
  · intro t ht
    obtain ⟨front, rest, rfl, hfront⟩ := htaken t ht
    rw [← hfront, sourceFrom_advance]
    exact ⟨rest, rfl⟩
  · intro t ht hread
    rw [ht] at hstanding
    obtain ⟨after, hrun, hback⟩ := hstanding.rewind hread
    obtain ⟨front, rest, hcovers, rfl, hfront⟩ := hback.onSource
    refine ⟨after, after.tokens, hrun, yields_tokens after, ?_⟩
    have hlayout := hcovers.layout
    rwa [hback.start, ← hfront, ← sourceFrom_advance front (t.text ++ rest), hfront] at hlayout

def joinedWord (kind : Kind) (c : Char) (col : Int) : Token :=
  { kind, text := [c], start := ⟨1, col⟩, stop := ⟨1, col + 1⟩, line := "x = 1 + \\\n".toList }

theorem rewinding_keeps_source_joined : ∃ s after ts,
      Ran "x = 1 + \\\n2\n".toList [joinedWord .op '=' 2, joinedWord .name 'x' 0] s ∧
      s.rewound.getD [] = [] ∧ (rewind (joinedWord .op '=' 2)).run s = .ok () after ∧
      after.Yields ts ∧ Layout.text (some ⟨1, 2⟩) ts = .ok "= 1 + \\\n2\n".toList := by
  have hran : Ran "x = 1 + \\\n2\n".toList [joinedWord .op '=' 2, joinedWord .name 'x' 0]
      (next (next { source := lines "x = 1 + \\\n2\n".toList }).2).2 :=
    .next (.next .start (Prod.ext (by decide +kernel) rfl)) (Prod.ext (by decide +kernel) rfl)
  have hread : (next (next { source := lines "x = 1 + \\\n2\n".toList }).2).2.rewound.getD []
      = [] := by decide +kernel
  have htidy : Layout.TidySource "x = 1 + \\\n2\n".toList :=
    ⟨by decide, by simp, by decide +kernel, by decide +kernel⟩
  obtain ⟨after, ts, hrun, hyields, htext⟩ :=
    (rewinding_keeps_source htidy (by decide +kernel) hran).2 _ rfl hread
  refine ⟨_, after, ts, hran, hread, hrun, hyields, htext.trans (congrArg _ ?_)⟩
  decide +kernel

end Stream

end InlineMarkup

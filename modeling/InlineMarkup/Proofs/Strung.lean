import InlineMarkup.Proofs.Places
import InlineMarkup.Proofs.RowEnds

/-!
Tokens strung along a text. Every token stands where its text does, and layout finds its way from each token
to the next: the two part only at a joint, whose newline the layout owes until the next token.
-/
namespace InlineMarkup

open Lexeme Text List

/-! ### Tokens in their places -/

/-- After a text that ends at `p`, laid out up to `q`, the token comes after the gap `g`. -/
structure Sits (p q : Pos) (g : Text) (t : Token) : Prop where
  start : p.advance g = t.start
  row : q.row ≤ t.start.row
  gap : Layout.gap (Layout.origin (some q) t) t.start = g
  lineEnd : t.kind.isLineEnd = true → t.text = ['\n'] ∧ t.stop = ⟨t.start.row, t.start.col + 1⟩
  stop : t.start.row ≤ t.stop.row
  after : t.text = [] → Layout.after t = t.start

/-- `Strung G p q text ts p' q' rest`: the tokens `ts` take the text down to `rest`, and `G` holds of
what is left of it at each of them. -/
inductive Strung (G : Text → Prop) : Pos → Pos → Text → List Token → Pos → Pos → Text → Prop where
  | nil (p q : Pos) (text : Text) : Strung G p q text [] p q text
  | cons {p q p' q' : Pos} {g more rest : Text} {t : Token} {ts : List Token} (ht : Sits p q g t)
      (hgood : G (t.text ++ more))
      (h : Strung G (t.start.advance t.text) (Layout.after t) more ts p' q' rest) :
      Strung G p q (g ++ (t.text ++ more)) (t :: ts) p' q' rest

def Level (t : Token) : Prop :=
  t.start.row ≤ t.stop.row ∧ (t.kind.isLineEnd = true → t.stop.row = t.start.row)

variable {p q : Pos} {l x : Text} {e e' : RowEnd}

variable {g text owed s : Text} {t : Token} {ts : List Token} {row col : Int}

theorem Sits.level (h : Sits p q g t) : Level t :=
  ⟨h.stop, fun hkind => by rw [(h.lineEnd hkind).2]⟩

theorem Strung.laysOut {G : Text → Prop} {p' q' : Pos} {rest : Text} (h : Strung G p q text ts p' q' rest) :
    (∃ out, text = out ++ rest ∧ Layout.LaysOut q ts out q') ∧ ∀ t ∈ ts, Level t := by
  induction h with
  | nil p q text => exact ⟨⟨[], rfl, .nil q⟩, nofun⟩
  | @cons p q p' q' g more rest t ts ht _ _ ih =>
    obtain ⟨⟨out, rfl, hout⟩, hts⟩ := ih
    have hrow := (Layout.origin_row q t).trans_le ht.row
    refine ⟨⟨g ++ (t.text ++ out), by simp, ?_⟩, ?_⟩
    · rw [← ht.gap]
      exact .cons hrow hout
    · intro u hu
      rcases mem_cons.1 hu with rfl | hu
      · exact ht.level
      · exact hts u hu

def Resumes (more : Text) (e : RowEnd) (text : Text) : Prop :=
  ∃ ls : List Text, text = ls.flatten ++ more ∧ (∀ l ∈ ls, Tidy l) ∧ RowEnd.done.reads ls = some e

theorem resumes_line (more : Text) {l : Text} {e : RowEnd} (hl : Tidy l) (he : rowEnd 0 l = e) :
    Resumes more e (l ++ more) :=
  ⟨[l], by simp, by simpa using hl, by rw [RowEnd.reads_singleton, ← he]; rfl⟩

theorem Resumes.line (h : Resumes [] e text) (hl : Tidy l)
    (hread : e.read l = some e') (more : Text) : Resumes more e' (text ++ (l ++ more)) := by
  obtain ⟨ls, rfl, hls, hreads⟩ := h
  refine ⟨ls ++ [l], by simp, ?_, ?_⟩
  · intro k hk
    rcases mem_append.1 hk with hk | hk
    · exact hls k hk
    · exact mem_singleton.1 hk ▸ hl
  · rw [RowEnd.reads_append, hreads]
    exact (RowEnd.reads_singleton e l).trans hread

/-! ### Rows -/

def RowLeft (row : Int) (e : RowEnd) (p q : Pos) (owed : Text) : Option OpenString → Prop
  | none => e = .done ∧ p = ⟨row + 1, 0⟩ ∧ q = ⟨row + 1, 0⟩ ∧ owed = [] ∨
      e = .joint ∧ p.advance ['\n'] = ⟨row + 1, 0⟩ ∧ q.row = row ∧ owed = ['\n']
  | some o => Tidy o.text ∧ o.start.row = row ∧ q.row ≤ row ∧ p.advance (Layout.gap q o.start) = o.start ∧
      owed = Layout.gap q o.start ++ o.text

theorem sits_word (hp : p.advance owed = ⟨row, col⟩) (hq : Layout.Before q row col owed) (hgap : Spacing g)
    (hplain : ∀ c ∈ g ++ s, c ≠ '\t' ∧ c ≠ '\x0c' ∧ c ≠ '\r') (hkind : t.kind.isLineEnd = false)
    (hstart : t.start = ⟨row, col + g.length⟩) (hstop : t.stop.row = row)
    (hafter : t.text = [] → t.stop = t.start) : Sits p q (owed ++ g) t where
  start := by
    rw [Pos.advance_append, hp, Pos.advance_of_noNewline (Scan.spacing_noNewline hgap), hstart]
  row := by
    rw [hstart]
    exact hq.row_le
  gap := by
    rw [Layout.origin_of_not_lineEnd hkind, hstart, hq.gap, ← eq_replicate_of_spacing hgap hplain]
  lineEnd h := by
    rw [hkind] at h
    cases h
  stop := by rw [hstart, hstop]
  after h := by rw [Layout.after_of_not_lineEnd hkind, hafter h]

theorem row_strung {left : Option OpenString}
    (h : Row row col s ts left) {l x : Text} (more : Text) {e : RowEnd} {k : Nat} (hk : col = k)
    (hs : l.drop k = s) (htidy : Tidy (s ++ x)) (hx : x = [] ∨ x = ['\n'] ∧ e = .joint ∧ left = none)
    (hends : ∀ t ∈ ts, ∀ n : Nat, t.start = ⟨row, n⟩ → l.drop n ≠ [] ∧ rowEnd 0 (l.drop n ++ x) = e)
    {p q : Pos} {owed : Text} (hp : p.advance owed = ⟨row, col⟩)
    (hq : Layout.Before q row col owed) (howed : s = [] → owed = []) :
    ∃ p' q' owed', Strung (Resumes more e) p q (owed ++ (s ++ (x ++ more))) ts p' q'
        (owed' ++ more) ∧ RowLeft row e p' q' owed' left := by
  induction h generalizing k p q owed with
  | @blank col s hspace =>
    rcases hx with rfl | ⟨rfl, rfl, -⟩
    · rw [append_nil] at htidy
      exact absurd hspace htidy.not_spacing
    · obtain ⟨rfl, -⟩ := htidy.endsRow hspace (Or.inl rfl)
      obtain rfl := howed rfl
      refine ⟨p, q, ['\n'], .nil p q _, Or.inr ⟨rfl, ?_, ?_, rfl⟩⟩
      · rw [show p = ⟨row, col⟩ from hp]
        rfl
      · rcases hq with ⟨rfl, -⟩ | ⟨-, -, hcontra⟩
        · rfl
        · cases hcontra
  | @opens col g o hgap hbegun hstart =>
    rcases hx with rfl | ⟨-, -, hcontra⟩
    · rw [append_nil] at htidy
      have hlayout : Layout.gap q o.start = owed ++ g := by
        rw [hstart]
        exact hq.gap_spacing hgap htidy
      refine ⟨p, q, owed ++ (g ++ o.text), ?_, htidy.of_append (Scan.spacing_noNewline hgap), ?_, ?_, ?_, ?_⟩
      · simpa using Strung.nil p q _
      · rw [hstart]
      · exact hq.row_le
      · rw [hlayout, Pos.advance_append, hp, Pos.advance_of_noNewline (Scan.spacing_noNewline hgap), hstart]
      · rw [hlayout, append_assoc]
    · cases hcontra
  | @word col g s ts left t hgap hkind htext hstart hstop _ hrest ih =>
    have hplain : ∀ c ∈ g ++ (t.text ++ s), c ≠ '\t' ∧ c ≠ '\x0c' ∧ c ≠ '\r' := fun c hc =>
      htidy.plain c (mem_append_left x hc)
    have hsits : Sits p q (owed ++ g) t := by
      refine sits_word hp hq hgap hplain hkind hstart (by rw [hstop]) fun hnil => ?_
      rw [hstop, hstart, hnil]
      simp
    have hdrop : l.drop (k + g.length) = t.text ++ s := by
      rw [← drop_drop, hs, drop_left]
    have hstart' : t.start = ⟨row, (k + g.length : Nat)⟩ := by
      rw [hstart, hk]
      simp
    have hend := (hends t mem_cons_self _ hstart').2
    rw [hdrop] at hend
    have hafter : Tidy (t.text ++ s ++ x) := by
      rw [append_assoc] at htidy
      exact htidy.of_append (Scan.spacing_noNewline hgap)
    have htidy' : Tidy (s ++ x) := by
      rw [append_assoc] at hafter
      exact hafter.of_append htext
    have hp' : (t.start.advance t.text).advance [] = ⟨row, col + g.length + t.text.length⟩ := by
      rw [Pos.advance_nil, Pos.advance_of_noNewline htext, hstart]
    have hq' : Layout.Before (Layout.after t) row (col + g.length + t.text.length) [] :=
      Or.inl ⟨by rw [Layout.after_of_not_lineEnd hkind, hstop], rfl⟩
    obtain ⟨p', q', owed', hstrung, hleft⟩ := ih (k := k + g.length + t.text.length)
      (by rw [hk]; push_cast; rfl) (by rw [← drop_drop, hdrop, drop_left]) htidy' hx
      (fun u hu => hends u (mem_cons_of_mem _ hu)) hp' hq' (fun _ => rfl)
    refine ⟨p', q', owed', ?_, hleft⟩
    have hgood := resumes_line more hafter hend
    simp only [append_assoc, nil_append] at hgood hstrung ⊢
    have hcons := Strung.cons hsits hgood hstrung
    rwa [append_assoc] at hcons
  | @lineEnd col g t hgap hkind htext hstart hstop =>
    have hstart' : t.start = ⟨row, (k + g.length : Nat)⟩ := by
      rw [hstart, hk]
      simp
    have hdrop : l.drop (k + g.length) = t.text := by rw [← drop_drop, hs, drop_left]
    obtain ⟨hne, hend⟩ := hends t mem_cons_self _ hstart'
    rw [hdrop] at hne hend
    -- a row that ends with a newline lacks none
    obtain rfl : x = [] := by
      rcases hx with hx | ⟨rfl, -, -⟩
      · exact hx
      · rcases htext with htext | htext | htext
        · exact absurd (htidy.singleLine g ['\n'] (by simp [htext])) (by simp)
        · exact absurd htext hne
        · exact absurd rfl (htidy.plain '\r' (by simp [mem_of_head? htext])).2.2
    rw [append_nil] at htidy hend
    obtain ⟨rfl, htail⟩ := htidy.endsRow hgap htext
    rw [htail, rowEnd_newline] at hend
    subst hend
    have hhere : t.start = ⟨row, col⟩ := by simpa using hstart
    have hthere : t.stop = ⟨row, col + 1⟩ := by simpa [htail] using hstop
    have hsits : Sits p q owed t := by
      refine ⟨hp.trans hhere.symm, by rw [hhere]; exact hq.row_le,
        hq.gap_lineEnd hkind hhere hthere, fun _ => ⟨htail, by rw [hhere, hthere]⟩, by rw [hhere, hthere],
        fun hnil => ?_⟩
      rw [htail] at hnil
      cases hnil
    refine ⟨⟨row + 1, 0⟩, ⟨row + 1, 0⟩, [], ?_, Or.inl ⟨rfl, rfl, rfl, rfl⟩⟩
    have hgood : Resumes more .done (t.text ++ more) := resumes_line more (htail ▸ htidy) (by rw [htail, rowEnd_newline])
    have hcons := Strung.cons hsits hgood (.nil _ _ more)
    rw [htail, hhere] at hcons
    simpa [Layout.after, hkind, hthere, htail, Pos.step] using hcons
  | @joined col g newline t hgap hend hkind htext hstart hstop =>
    have hstart' : t.start = ⟨row, (k + g.length : Nat)⟩ := by
      rw [hstart, hk]
      simp
    have hdrop : l.drop (k + g.length) = '\\' :: newline := by
      rw [← drop_drop, hs, drop_left]
    have hnewline : newline = ['\n'] := by
      rcases hend with hend | hend
      · exact hend
      · exact absurd rfl (htidy.plain '\r' (by simp [hend])).2.2
    subst hnewline
    obtain rfl : x = [] := by
      rcases hx with hx | ⟨rfl, -, -⟩
      · exact hx
      · exact absurd (htidy.singleLine (g ++ ['\\']) ['\n'] (by simp)) (by simp)
    have hjoint := (hends t mem_cons_self _ hstart').2
    rw [hdrop, append_nil, rowEnd_last bite_joint] at hjoint
    subst hjoint
    rw [append_nil] at htidy
    have hsits : Sits p q (owed ++ g) t := by
      refine sits_word hp hq hgap htidy.plain (by rw [hkind]; rfl) hstart (by rw [hstop]) fun hnil => ?_
      rw [htext] at hnil
      cases hnil
    have hgood : Resumes more .joint (t.text ++ (['\n'] ++ more)) := by
      rw [htext]
      exact resumes_line more (l := ['\\', '\n']) (htidy.of_append (Scan.spacing_noNewline hgap))
        (rowEnd_last bite_joint)
    refine ⟨t.start.advance t.text, Layout.after t, ['\n'], ?_, Or.inr ⟨rfl, ?_, ?_, rfl⟩⟩
    · have hcons := Strung.cons hsits hgood (.nil _ _ (['\n'] ++ more))
      rw [htext] at hcons ⊢
      simpa using hcons
    · rw [htext, hstart]
      rfl
    · rw [Layout.after_of_not_lineEnd (by rw [hkind]; rfl), hstop]

/-! ### Lines -/

def Scan.Rests (scan : Scan) (e : RowEnd) (p q : Pos) (owed : Text) : Prop :=
  scan.Keeps e ∧
  match scan.pending with
  | none => e = .done ∧ p = ⟨scan.row + 1, 0⟩ ∧ q = ⟨scan.row + 1, 0⟩ ∧ owed = [] ∨
      e = .joint ∧ p.advance ['\n'] = ⟨scan.row + 1, 0⟩ ∧ q.row = scan.row ∧ owed = ['\n']
  | some o => o.Begun ∧ Resumes [] e o.text ∧ q.row ≤ o.start.row ∧
      p.advance (Layout.gap q o.start) = o.start ∧ o.start.advance o.text = ⟨scan.row + 1, 0⟩ ∧
      owed = Layout.gap q o.start ++ o.text

/-- A line `l` as it is read, which may lack the newline `x` after a joint, and what the whole line
leaves after `e`. -/
structure LineOf (e : RowEnd) (l x : Text) (e' : RowEnd) : Prop where
  tidy : Tidy (l ++ x)
  read : e.read (l ++ x) = some e'
  cut : x = [] ∨ x = ['\n'] ∧ Cut l ∧ e' = .joint

theorem LineOf.singleLine (h : LineOf e l x e') : SingleLine l := by
  intro front rest hl
  have hrest := h.tidy.singleLine front (rest ++ x) (by rw [hl]; simp)
  exact (append_eq_nil_iff.1 hrest).1

theorem LineOf.not_spacing (h : LineOf e l x e') : ¬ Spacing l := by
  intro hspace
  rcases h.cut with rfl | ⟨-, ⟨u, rfl, -⟩, -⟩
  · have htidy := h.tidy
    rw [append_nil] at htidy
    exact htidy.not_spacing hspace
  · exact absurd (hspace '\\' (by simp)) (by decide)

theorem LineOf.exists_read (h : LineOf e l x e') (hquoted : e.Quoted) :
    ∃ e'', e.read l = some e'' ∧ (x = [] ∧ e'' = e' ∨ x = ['\n'] ∧ Cut l ∧ e' = .joint ∧ e'' = .done) := by
  have hread := h.read
  rcases h.cut with rfl | ⟨rfl, hcut, rfl⟩
  · rw [append_nil] at hread
    exact ⟨e', hread, Or.inl ⟨rfl, rfl⟩⟩
  · exact ⟨.done, RowEnd.read_cut hquoted hcut hread, Or.inr ⟨rfl, hcut, rfl, rfl⟩⟩

theorem Scan.Rests.quoted {scan : Scan} (h : scan.Rests e p q owed) : e.Quoted := by
  obtain ⟨hkeeps, hrests⟩ := h
  cases e with
  | done | joint => trivial
  | opens closer strict =>
    obtain ⟨o, ho, rfl, -⟩ := hkeeps
    rw [ho] at hrests
    exact hrests.1.quote

namespace Scan

def Ends (s x : Text) (e : RowEnd) : Prop :=
  x = [] ∧ rowEnd 0 s = e ∨ x = ['\n'] ∧ Cut s ∧ rowEnd 0 (s ++ ['\n']) = .joint ∧ e = .joint

variable {l s x : Text} {row : Nat} {ts : List Token} {after : Scan} {e : RowEnd}

theorem Follows.ends (h : Follows l s row ts after) (hends : Ends s x e) :
    ∀ t ∈ ts, ∀ n : Nat, t.start = ⟨row, n⟩ → l.drop n ≠ [] ∧ rowEnd 0 (l.drop n ++ x) = e := by
  intro t ht n hn
  obtain ⟨k, hk, hreached, hne⟩ := h.tokens t ht
  obtain rfl : k = n := by
    rw [hk, Pos.mk.injEq] at hn
    exact_mod_cast hn.2
  refine ⟨hne, ?_⟩
  rcases hends with ⟨rfl, rfl⟩ | ⟨rfl, hcut, hjoint, rfl⟩
  · rw [append_nil]
    exact hreached.rowEnd_eq.symm
  · exact hreached.joint hcut hjoint hne

theorem Follows.keeps_ends (h : Follows l s row ts after) (hends : Ends s x e) : after.Keeps e := by
  rcases hends with ⟨-, rfl⟩ | ⟨-, hcut, hjoint, rfl⟩
  · exact h.keeps
  · have hkeeps := h.keeps
    rw [rowEnd_cut hcut hjoint] at hkeeps
    exact hkeeps

theorem Follows.strung {k : Nat}
    (h : Follows l s row ts after) (hrow : Row row k s ts after.pending) (hs : l.drop k = s)
    (htidy : Tidy (s ++ x)) (hends : Ends s x e) (hafter : after.row = row) (more : Text) {p q : Pos}
    {owed : Text} (hp : p.advance owed = ⟨row, k⟩) (hq : Layout.Before q row k owed) (howed : s = [] → owed = []) :
    ∃ p' q' owed', Strung (Resumes more e) p q (owed ++ (s ++ (x ++ more))) ts p' q'
        (owed' ++ more) ∧ after.Rests e p' q' owed' := by
  have hkeeps := h.keeps_ends hends
  have hx : x = [] ∨ x = ['\n'] ∧ e = .joint ∧ after.pending = none := by
    rcases hends with ⟨rfl, -⟩ | ⟨rfl, -, -, rfl⟩
    · exact Or.inl rfl
    · exact Or.inr ⟨rfl, rfl, hkeeps.1⟩
  obtain ⟨p', q', owed', hstrung, hleft⟩ :=
    row_strung hrow more rfl hs htidy hx (h.ends hends) hp hq howed
  refine ⟨p', q', owed', hstrung, hkeeps, ?_⟩
  cases hpending : after.pending with
  | none =>
    rw [hpending] at hleft
    simpa only [RowLeft, hafter] using hleft
  | some o =>
    rw [hpending] at hleft
    obtain ⟨htidy', hstart, hq', hadvance, rfl⟩ := hleft
    have hend : rowEnd 0 o.text = e := by
      rcases hends with ⟨-, rfl⟩ | ⟨-, -, -, rfl⟩
      · exact (h.left o hpending).rowEnd_eq.symm
      · rw [hkeeps.1] at hpending
        cases hpending
    refine ⟨hrow.begun o hpending, ?_, hstart ▸ hq', hadvance, ?_, rfl⟩
    · simpa using resumes_line [] htidy' hend
    · rw [Pos.advance_isLine ⟨htidy'.singleLine, htidy'.ended⟩, hstart, hafter]

theorem line_strung {scan : Scan} {e' : RowEnd} {p q : Pos} {owed : Text}
    (hrests : scan.Rests e p q owed) (hl : LineOf e l x e') (more : Text) :
    ∃ after p' q' owed', (scan.line l).2 = some after ∧
      Strung (Resumes more e') p q (owed ++ (l ++ (x ++ more))) (scan.line l).1 p' q'
        (owed' ++ more) ∧ after.Rests e' p' q' owed' := by
  obtain ⟨e'', hread, hshape⟩ := hl.exists_read hrests.quoted
  have hclosed : l.getLast? = some '\n' ∨ e.read (l ++ ['\n']) = some .joint := by
    rcases hl.cut with rfl | ⟨rfl, -, rfl⟩
    · exact Or.inl (by simpa using hl.tidy.ended)
    · exact Or.inr hl.read
  obtain ⟨after, hafter, hrow, hstep⟩ := line_step hrests.1 hl.singleLine
    (fun c hc => (hl.tidy.plain c (mem_append_left x hc)).2.2) hl.not_spacing hclosed hread
  refine ⟨after, ?_⟩
  generalize (scan.line l).1 = ts at hstep
  obtain ⟨hkeeps, hstands⟩ := hrests
  cases hstep with
  | fresh hpending hrow' hfollows =>
    rw [hpending] at hstands
    have hends : Ends l x e' := by
      rcases hshape with ⟨rfl, rfl⟩ | ⟨rfl, hcut, rfl, -⟩
      · exact Or.inl ⟨rfl, rfl⟩
      · have hjoint := hl.read
        rw [hkeeps.read_eq hpending] at hjoint
        exact Or.inr ⟨rfl, hcut, Option.some.inj hjoint, rfl⟩
    have hne : l = [] → owed = [] := fun hnil => absurd hnil fun h => hl.not_spacing (h ▸ spacing_nil)
    have hbefore : p.advance owed = ⟨(scan.row + 1 : Nat), (0 : Nat)⟩ ∧
        Layout.Before q (scan.row + 1 : Nat) (0 : Nat) owed := by
      rcases hstands with ⟨-, rfl, rfl, rfl⟩ | ⟨-, hadvance, hq, rfl⟩
      · exact ⟨rfl, Or.inl ⟨rfl, rfl⟩⟩
      · exact ⟨hadvance, Or.inr ⟨by rw [hq]; rfl, rfl, rfl⟩⟩
    obtain ⟨p', q', owed', hstrung, hleft⟩ := hfollows.strung hrow' rfl hl.tidy hends hrow more
      hbefore.1 hbefore.2 hne
    exact ⟨p', q', owed', hafter, hstrung, hleft⟩
  | @closes us _ o n t hpending hkind htail htext hstart hstop hrow' hfollows =>
    rw [hpending] at hstands
    obtain ⟨hbegun, hresumes, hq, hadvance, hstring, rfl⟩ := hstands
    obtain ⟨-, hle, hlast⟩ := tail?_reach l n htail
    have hnewline : ∀ c ∈ l.take n, c ≠ '\n' := by
      refine hl.singleLine.noNewline_take hlast fun hmark => ?_
      have hquote := hbegun.quote
      rw [hmark] at hquote
      exact absurd hquote (by decide)
    have htidy : Tidy (l.drop n ++ x) := by
      refine Tidy.of_append (a := l.take n) ?_ hnewline
      rw [← append_assoc, take_append_drop]
      exact hl.tidy
    have hends : Ends (l.drop n) x e' := by
      rcases hshape with ⟨rfl, rfl⟩ | ⟨rfl, hcut, rfl, -⟩
      · exact Or.inl ⟨rfl, (rowEnd_drop n l).symm⟩
      · have hjoint := hl.read
        obtain rfl := hkeeps.eq_opens hpending
        rw [RowEnd.read_newline hbegun.quote hcut htail, Option.some.injEq] at hjoint
        exact Or.inr ⟨rfl, RowEnd.cut_of_joint hcut hjoint, hjoint, rfl⟩
    have hstop' : t.start.advance t.text = ⟨(scan.row + 1 : Nat), n⟩ := by
      rw [hstart, htext, Pos.advance_append, hstring, Pos.advance_of_noNewline hnewline, length_take_of_le hle]
      simp
    have hafter' : Layout.after t = ⟨(scan.row + 1 : Nat), n⟩ := by
      rw [Layout.after_of_not_lineEnd (by rw [hkind]; rfl), hstop]
    have hp' : (t.start.advance t.text).advance [] = ⟨(scan.row + 1 : Nat), n⟩ := by
      rw [hstop', Pos.advance_nil]
    have hq' : Layout.Before (Layout.after t) (scan.row + 1 : Nat) n [] := Or.inl ⟨hafter', rfl⟩
    obtain ⟨p', q', owed', hstrung, hleft⟩ :=
      hfollows.strung hrow' rfl htidy hends hrow more hp' hq' (fun _ => rfl)
    refine ⟨p', q', owed', hafter, ?_, hleft⟩
    have hsits : Sits p q (Layout.gap q o.start) t := by
      refine ⟨hadvance.trans hstart.symm, hstart ▸ hq, ?_, ?_, ?_, ?_⟩
      · rw [Layout.origin_of_not_lineEnd (by rw [hkind]; rfl), hstart]
      · rw [hkind]
        rintro ⟨⟩
      · rw [hstop]
        have hrows := Pos.row_le_advance t.start t.text
        rwa [hstop'] at hrows
      · intro hnil
        rw [htext] at hnil
        exact absurd (append_eq_nil_iff.1 hnil).1 hbegun.ne_nil
    have hwhole : l.take n ++ (l.drop n ++ (x ++ more)) = l ++ (x ++ more) := by
      rw [← append_assoc, take_append_drop]
    have hgood : Resumes more e' (t.text ++ (l.drop n ++ (x ++ more))) := by
      have hresumed := hresumes.line hl.tidy hl.read more
      rw [htext, append_assoc, hwhole]
      rwa [append_assoc] at hresumed
    have hcons := Strung.cons hsits hgood hstrung
    rwa [htext, append_assoc, hwhole, ← append_assoc] at hcons
  | goesOn o o' hpending hafter' hstrict htext hstart hcloser =>
    rw [hpending] at hstands
    obtain ⟨hbegun, hresumes, hq, hadvance, hstring, rfl⟩ := hstands
    obtain ⟨rfl, rfl⟩ : x = [] ∧ .opens o.closer scan.strict = e' := by
      rcases hshape with h | ⟨-, -, -, hcontra⟩
      · exact h
      · cases hcontra
    have hread' := hl.read
    rw [append_nil] at hread'
    refine ⟨p, q, Layout.gap q o.start ++ o.text ++ l, hafter, ?_, ?_, ?_⟩
    · simpa using Strung.nil p q _
    · exact ⟨o', hafter', hcloser, hstrict⟩
    · rw [hafter']
      refine ⟨hbegun.extend htext hcloser, ?_, hstart ▸ hq, hstart ▸ hadvance, ?_, ?_⟩
      · have htidy := hl.tidy
        rw [append_nil] at htidy
        rw [htext]
        simpa using hresumes.line htidy hread' []
      · have htidy := hl.tidy
        rw [append_nil] at htidy
        rw [hstart, htext, Pos.advance_append, hstring, Pos.advance_isLine ⟨htidy.singleLine, htidy.ended⟩, hrow]
        rfl
      · rw [hstart, htext, append_assoc]

end Scan

end InlineMarkup

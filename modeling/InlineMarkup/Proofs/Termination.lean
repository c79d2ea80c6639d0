import InlineMarkup.Proofs.RowOrder

/-!
Translating ends. Two measures of a configuration show it. Main statement: in either mode every source is
translated in finitely many steps, and the rounds that translating is given are enough.
-/
namespace InlineMarkup

open Text List
open scoped List

/-! ### What a stream holds -/

def openText (left : Option OpenString) : Text := (left.map OpenString.text).getD []

theorem Row.sublist {row col : Int} {s : Text} {ts : List Token} {left : Option OpenString}
    (h : Row row col s ts left) : ts.flatMap Token.text ++ openText left <+ s := by
  induction h with
  | blank => exact nil_sublist _
  | opens p => simp [openText]
  | word t _ _ _ _ _ _ _ ih =>
    rw [flatMap_cons, append_assoc]
    exact (ih.append_left t.text).trans (sublist_append_right _ _)
  | lineEnd t => simp [openText]
  | joined t _ _ _ htext => simp [openText, htext]

namespace Scan

def owed (scan : Option Scan) : Text := openText (scan.bind Scan.pending)

theorem finish_texts (scan : Scan) : scan.finish.flatMap Token.text = [] := by
  simp [finish]

theorem line_nil_sublist (scan : Scan) : (scan.line []).1.flatMap Token.text <+ owed (some scan) := by
  have hfinish := finish_texts { scan with row := scan.row + 1 }
  unfold line
  dsimp only
  cases hpending : scan.pending with
  | some p => simp [stringLine, owed, openText, hpending]
  | none =>
    dsimp only
    split
    · rw [hpending] at hfinish
      simp [hfinish]
    · simp

theorem line_sublist (scan : Scan) {l : Text} (hline : SingleLine l) (hne : l ≠ []) :
    (scan.line l).1.flatMap Token.text ++ owed (scan.line l).2 <+ owed (some scan) ++ l := by
  rcases scan.line_read hline hne with ⟨after, hafter, -, hread⟩ | ⟨-, -, hfinish⟩
  · rw [hafter]
    have howed : owed (some scan) = openText scan.pending := rfl
    rw [howed]
    change _ ++ openText after.pending <+ _
    generalize scan.pending = before, (scan.line l).1 = ts, after.pending = left at hread
    cases hread with
    | fresh hrow => exact hrow.sublist
    | closes p n t _ _ _ htext _ _ hrow =>
      have hwhole : openText (some p) ++ l = t.text ++ l.drop n := by
        rw [htext, append_assoc, take_append_drop]
        rfl
      rw [hwhole, flatMap_cons, append_assoc]
      exact hrow.sublist.append_left t.text
    | spoiled p t _ htext => simp [openText, htext]
    | goesOn p q htext => simp [openText, htext]
  · rw [hfinish]
    simp [finish_texts, owed, openText]

def load (scan : Option Scan) (ls : List Text) : Nat :=
  (scan.map fun scan => scan.indents.length + 2).getD 0 + (ls.flatten.length + 2 * ls.length)

theorem line_spends (scan : Scan) {l : Text} (hl : SingleLine l ∧ l ≠ []) (ls : List Text) :
    (scan.line l).1.flatMap Token.text ++ (owed (scan.line l).2 ++ ls.flatten) <+ owed (some scan) ++
    (l :: ls).flatten ∧ (scan.line l).1.length + load (scan.line l).2 ls ≤ load (some scan) (l :: ls) := by
  have hcosts := scan.line_costs l
  refine ⟨by simpa using (scan.line_sublist hl.1 hl.2).append_right ls.flatten, ?_⟩
  rcases hresult : scan.line l with ⟨ts, _ | after⟩
  all_goals
    rw [hresult] at hcosts
    simp only [Costs] at hcosts
    simp [load]
    omega

theorem line_nil_spends (scan : Scan) : (scan.line []).1.flatMap Token.text <+ owed (some scan) ∧
    (scan.line []).1.length < load (some scan) [] := by
  have hcosts := scan.line_costs []
  have hnone := scan.line_nil_over
  refine ⟨scan.line_nil_sublist, ?_⟩
  rcases hresult : scan.line [] with ⟨ts, after⟩
  rw [hresult] at hcosts hnone
  cases hnone
  simp only [Costs] at hcosts
  simp [load]
  omega

end Scan

namespace Stream

def rest (s : Stream) : Text :=
  (s.unshifted ++ s.ready).flatMap Token.text ++ (Scan.owed s.scan ++ s.unread.flatten)

def load (s : Stream) : Nat := (s.unshifted ++ s.ready).length + Scan.load s.scan s.unread

theorem extent_eq (s : Stream) : s.extent = s.rest.length + s.load := by
  have hscan : (s.scan.map fun scan => scan.indents.length + (scan.pending.map (·.text.length)).getD 0 + 2).getD 0 =
      (Scan.owed s.scan).length + (s.scan.map fun scan => scan.indents.length + 2).getD 0 := by
    cases s.scan with
    | none => rfl
    | some scan =>
      cases hpending : scan.pending with
      | none => simp [Scan.owed, openText, hpending]
      | some p =>
        simp only [Scan.owed, openText, hpending, Option.map_some, Option.getD_some, Option.bind_some]
        omega
  unfold extent rest load Scan.load
  rw [hscan]
  simp only [unread, length_append]
  omega

def Spends (s : Stream) : Option Token × Stream → Prop
  | (some t, s') => t.text ++ s'.rest <+ s.rest ∧ s'.load < s.load
  | (none, s') => s'.rest <+ s.rest

section

variable {s s' : Stream} {scan : Scan} {ls : List Text}

theorem Spends.mono {r : Option Token × Stream} (h : Spends s r) (hrest : s.rest <+ s'.rest)
    (hload : s.load ≤ s'.load) : Spends s' r := by
  obtain ⟨_ | t, s''⟩ := r
  · exact h.trans hrest
  · exact ⟨h.1.trans hrest, h.2.trans_le hload⟩

theorem From.spends {r : Int} (h : s.From r) (hu : s.unshifted = []) (hready : s.ready = [])
    (hscan : s.scan = some scan) (hs' : Advances s scan s') : s'.rest <+ s.rest ∧ s'.load ≤ s.load := by
  cases hs' with
  | @rewound l ls hr =>
    obtain ⟨hsub, hload⟩ := scan.line_spends ((h.rewound _ hr).1 l mem_cons_self) (ls ++ s.source)
    exact ⟨by simpa [rest, hu, hready, hscan, hr, unread] using hsub,
      by simpa [load, hu, hready, hscan, hr, unread] using hload⟩
  | @source l ls hr hsource =>
    obtain ⟨hsub, hload⟩ := scan.line_spends (h.source.1 l (hsource ▸ mem_cons_self)) ls
    exact ⟨by simpa [rest, hu, hready, hscan, hr, hsource, unread] using hsub,
      by simpa [load, hu, hready, hscan, hr, hsource, unread] using hload⟩
  | finished hr hsource =>
    obtain ⟨hsub, hload⟩ := scan.line_nil_spends
    exact ⟨by simpa [rest, hu, hready, hscan, hr, hsource, unread, Scan.owed, openText] using hsub,
      by simpa [load, Scan.load, hu, hready, hscan, hr, hsource, unread] using Nat.le_of_lt hload⟩

theorem From.next_spends {r : Int} (h : s.From r) : Spends s s.next := by
  refine next_induction (P := fun s answer => s.From r → Spends s answer) ?_ ?_ ?_ ?_ s h
  · intro s t ts hu _
    exact ⟨by simp [rest, hu, unread], by simp [load, hu, unread]⟩
  · intro s t ts hu hready _
    exact ⟨by simp [rest, hu, hready, unread, adjust], by simp [load, hu, hready, unread]⟩
  · intro s _ _ _ _
    exact List.Sublist.refl _
  · intro s s' scan answer hu hready hscan hs' ih h
    obtain ⟨hrest, hload⟩ := h.spends hu hready hscan hs'
    exact (ih (h.advances hu hready hscan hs')).mono hrest hload

end

/-! ### Putting text back -/

section

variable {p : Char → Bool}

theorem countP_text (hp : p ' ' = false ∧ p '\n' = false) {last : Option Pos} {ts : List Token} {s : Text}
    (h : Layout.text last ts = .ok s) : s.countP p = (ts.flatMap Token.text).countP p := by
  induction ts generalizing last s with
  | nil =>
    cases h
    rfl
  | cons t ts ih =>
    rw [Layout.text] at h
    split at h
    · cases h
    cases hrest : Layout.text (some (Layout.after t)) ts with
    | error f =>
      rw [hrest] at h
      cases h
    | ok more =>
      rw [hrest] at h
      cases h
      simp [Layout.gap, copies, countP_replicate, hp, ih hrest]

theorem rewind_countP (hp : p ' ' = false ∧ p '\n' = false) {t : Token} {s s' : Stream}
    (h : (rewind t).run s = .ok () s') : s'.rest.countP p ≤ (t.text ++ s.rest).countP p := by
  obtain ⟨text, hplain, rfl⟩ := rewind_ok h
  have hscan : ((s.scan.map fun scan => (scan.line []).1).getD []).flatMap Token.text <+ Scan.owed s.scan := by
    cases s.scan with
    | none => exact nil_sublist _
    | some scan => exact scan.line_nil_sublist
  have hcount := hscan.countP_le (p := p)
  have htext := countP_text hp hplain
  have hadjust (ts : List Token) : (ts.map (adjust s.zero)).flatMap Token.text = ts.flatMap Token.text := by
    simp [flatMap_map, adjust]
  simp only [flushed, flatMap_cons, flatMap_append, hadjust, countP_append] at htext
  have hrest : rest { s.drained with zero := ⟨t.start.row - 1, t.start.col⟩, rewound := some (lines text), scan := some {} } =
      text ++ s.source.flatten := by
    simp [rest, drained, unread, Scan.owed, openText, flatten_lines]
  rw [hrest]
  simp only [rest, unread, flatMap_append, flatten_append, countP_append]
  omega

end

def atComment (s : Stream) : Bool := s.next.1.any fun t => t.kind == .comment && t.text.head? == some '#'

theorem lines_hash (k : Nat) (more : Text) :
    ∃ l ls, lines (List.replicate k ' ' ++ '#' :: more) = (List.replicate k ' ' ++ '#' :: l) :: ls := by
  have hcons {c : Char} (hc : c ≠ '\n') (s : Text) : ∃ l ls, lines (c :: s) = (c :: l) :: ls := by
    rw [lines, if_neg hc]
    cases lines s with
    | nil => exact ⟨[], [], rfl⟩
    | cons l ls => exact ⟨l, ls, rfl⟩
  induction k with
  | zero => exact hcons (by decide) more
  | succ k ih =>
    obtain ⟨l, ls, h⟩ := ih
    refine ⟨l, ls, ?_⟩
    rw [replicate_succ, cons_append, lines, if_neg (by decide), h]
    rfl

theorem rewind_atComment {t : Token} {s s' : Stream} {more : Text} (htext : t.text = '#' :: more)
    (h : (rewind t).run s = .ok () s') : s'.atComment = true := by
  obtain ⟨text, hplain, rfl⟩ := rewind_ok h
  obtain ⟨k, more, rfl⟩ : ∃ k more, text = List.replicate k ' ' ++ '#' :: more := by
    unfold Layout.plain at hplain
    rw [Layout.text] at hplain
    split at hplain
    · cases hplain
    cases hrest : Layout.text (some (Layout.after t)) s.flushed with
    | error f =>
      rw [hrest] at hplain
      cases hplain
    | ok rest =>
      rw [hrest] at hplain
      cases hplain
      have hrow : (Layout.origin none t).row = t.start.row := by
        unfold Layout.origin
        split <;> rfl
      exact ⟨_, more ++ rest, by simp [Layout.gap, copies, hrow, htext]; rfl⟩
  obtain ⟨l, ls, hlines⟩ := lines_hash k more
  obtain ⟨u, us, after, hline, hkind, hhash⟩ := Scan.line_comment k l
  simp [atComment, next, drained, hlines, pullRewound, hline, hkind, hhash, adjust]

end Stream

namespace Translate

open Markup

/-! ### The measure -/

def isMark (c : Char) : Bool := c == '#' || c == '<' || c == '\x7b'

def grace (s : Stream) : Nat := if s.atComment then 0 else 1

def literals : List Frame → Nat
  | [] => 0
  | .literal _ :: outer => literals outer + 1
  | .code _ :: outer => literals outer

def toll (config : Config) : Nat :=
  config.stream.rest.countP isMark + literals config.frames + grace config.stream

def Frame.Opened : Frame → Prop
  | .literal l => ∃ start, Builder.Open start l.builder
  | .code _ => True

/-- What every run keeps: the rows are in order, and markup that is being read is not complete. -/
structure Sound (config : Config) : Prop where
  ordered : ∃ r, config.stream.From r
  opened : ∀ f ∈ config.frames, f.Opened

section

variable {mode : Mode} {s s' s₁ : Stream} {l : Literal} {t u : Token} {before after : Config}

theorem Steps.sound (hbefore : Sound before) (h : Steps mode before after) : Sound after := by
  refine ⟨h.from hbefore.ordered, ?_⟩
  have hopened := hbefore.opened
  cases h with
  | take => exact forall_mem_cons.2 ⟨trivial, (forall_mem_cons.1 hopened).2⟩
  | begin _ _ hop _ hread =>
    exact forall_mem_cons.2 ⟨⟨_, Builder.read_begin hop hread⟩,
      forall_mem_cons.2 ⟨trivial, (forall_mem_cons.1 hopened).2⟩⟩
  | @leave _ _ c l t _ b _ _ hread =>
    obtain ⟨-, ⟨start, hl⟩, houter⟩ := by simpa only [forall_mem_cons] using hopened
    refine forall_mem_cons.2 ⟨⟨start, ?_⟩, houter⟩
    rw [Literal.filled_builder]
    exact Builder.leavesOpen_readCode _ start _ _ _ hl hread
  | feed _ _ hread hnot =>
    obtain ⟨⟨start, hl⟩, houter⟩ := forall_mem_cons.1 hopened
    obtain ⟨hstart, hbegun, -⟩ := Builder.read_ok hread hl.begun hl.notDone
    exact forall_mem_cons.2 ⟨⟨start, hstart.trans hl.start, hbegun, hnot⟩, houter⟩
  | close | stop =>
    obtain ⟨-, -, houter⟩ := by simpa only [forall_mem_cons] using hopened
    exact forall_mem_cons.2 ⟨trivial, houter⟩
  | enter _ _ hpass =>
    obtain ⟨⟨start, hl⟩, houter⟩ := forall_mem_cons.1 hopened
    exact forall_mem_cons.2 ⟨trivial, forall_mem_cons.2
      ⟨⟨start, Builder.leavesOpen_passOver _ start _ _ _ hl hpass⟩, houter⟩⟩
  | keep =>
    obtain ⟨hl, houter⟩ := forall_mem_cons.1 hopened
    exact forall_mem_cons.2 ⟨hl, houter⟩
  | remark _ _ _ hread =>
    obtain ⟨⟨start, hl⟩, houter⟩ := forall_mem_cons.1 hopened
    exact forall_mem_cons.2 ⟨⟨start, Builder.leavesOpen_readComment _ start _ _ _ hl hread⟩, houter⟩
  | again => exact hopened

/-! ### What a step pays -/

theorem grace_le (s : Stream) : grace s ≤ 1 := by
  unfold grace
  split <;> simp

theorem grace_of_head (hnext : s.next = (some t, s')) (h : t.kind ≠ .comment ∨ t.text.head? ≠ some '#') : grace s
    = 1 := by
  have hno : s.atComment = false := by
    simp only [Stream.atComment, hnext, Option.any_some, Bool.and_eq_false_iff, beq_eq_false_iff_ne]
    exact h
  rw [grace, hno, if_neg Bool.false_ne_true]

theorem grace_paid (hnext : s.next = (some t, s')) : 1 ≤ grace s + (t.text.take 1).countP isMark := by
  by_cases h : t.text.head? = some '#'
  · obtain ⟨more, hmore⟩ := head?_eq_some_iff.1 h
    simp [hmore, isMark]
  · rw [grace_of_head hnext (.inr h)]
    exact Nat.le_add_right _ _

theorem next_spends (hs : ∃ r, s.From r) (hnext : s.next = (some t, s')) :
    t.text ++ s'.rest <+ s.rest ∧ s'.extent + t.text.length < s.extent := by
  obtain ⟨r, hr⟩ := hs
  have hspends := hr.next_spends
  rw [hnext] at hspends
  have hlength := hspends.1.length_le
  have hload := hspends.2
  rw [length_append] at hlength
  refine ⟨hspends.1, ?_⟩
  rw [Stream.extent_eq, Stream.extent_eq]
  omega

theorem unshift_rest (s : Stream) (t : Token) : (s.unshift t).rest = t.text ++ s.rest := by
  simp [Stream.rest, Stream.unshift, Stream.unread]

theorem unshift_extent (s : Stream) (t : Token) : (s.unshift t).extent = s.extent + t.text.length + 1 := by
  simp only [Stream.extent, Stream.unshift, cons_append, flatMap_cons, length_append, length_cons]
  omega

theorem fed_spends {b : Builder} (hs : ∃ r, s.From r) (hnext : s.next = (some t, s'))
    (hmove : moveOf s' b t = .feed s₁ u) :
    u.text ++ s₁.rest <+ s.rest ∧ s₁.extent < s.extent ∧ 1 ≤ grace s + (u.text.take 1).countP isMark := by
  obtain ⟨hrest, hextent⟩ := next_spends hs hnext
  have hpaid := grace_paid hnext
  have hsplit (n : Nat) : t.text.take n ++ (t.text.drop n ++ s'.rest) = t.text ++ s'.rest := by
    rw [← append_assoc, take_append_drop]
  cases moveOf_feed hmove with
  | whole => exact ⟨hrest, by omega, hpaid⟩
  | mark htext =>
    have hlength := length_pos_iff.2 htext
    rw [unshift_rest, unshift_extent]
    refine ⟨by rwa [splitToken, hsplit], ?_, by rwa [splitToken, take_take]⟩
    simp only [splitToken, length_drop]
    omega
  | @part n d rest hkind _ hn hdrop _ =>
    have hlength := congrArg List.length hdrop
    rw [length_drop, length_cons] at hlength
    rw [unshift_rest, unshift_extent, grace_of_head hnext (.inl hkind)]
    refine ⟨by rwa [splitToken, hsplit], ?_, Nat.le_add_right _ _⟩
    simp only [splitToken, length_drop]
    omega

theorem takeComment_rest (hs : ∃ r, s.From r) (l : Literal) : (takeComment s l).1.rest <+ s.rest := by
  obtain ⟨r, hr⟩ := hs
  have hspends := hr.next_spends
  unfold takeComment
  split
  · rename_i s' hnext
    rw [hnext] at hspends
    exact hspends
  · rename_i t s' hnext
    rw [hnext] at hspends
    split
    · exact (sublist_append_right _ _).trans hspends.1
    · rw [unshift_rest]
      exact hspends.1

theorem isMark_blank : isMark ' ' = false ∧ isMark '\n' = false := by decide

theorem closeLiteral_countP {r v : Token} {s₂ : Stream} (hs : ∃ r, s.From r) (hr : l.builder.remainder = some r)
    (h : closeLiteral mode s l = .ok (s₂, v)) : s₂.rest.countP isMark ≤ (r.text ++ s.rest).countP isMark := by
  obtain ⟨s₁, l₁, hputs, hclosed⟩ := closeLiteral_ok h
  obtain ⟨hcount, hfrom⟩ : s₁.rest.countP isMark ≤ (r.text ++ s.rest).countP isMark ∧ ∃ q, s₁.From q := by
    obtain ⟨q, hq⟩ := hs
    cases hputs with
    | nothing hno => cases hno.symm.trans hr
    | kept hr' hrun | trimmed hr' hrun =>
      cases hr'.symm.trans hr
      exact ⟨Stream.rewind_countP isMark_blank hrun, _, hq.rewind hrun⟩
  rcases hclosed with ⟨-, rfl, -⟩ | ⟨-, rfl, -⟩
  · exact hcount
  · exact (takeComment_rest hfrom l₁).countP_le.trans hcount

theorem taken_pays (hs : ∃ r, s.From r) (hnext : s.next = (some t, s')) :
    s'.rest.countP isMark + 1 ≤ s.rest.countP isMark + grace s := by
  have hcount := (next_spends hs hnext).1.countP_le (p := isMark)
  have hfirst := (take_sublist 1 t.text).countP_le (p := isMark)
  have hpaid := grace_paid hnext
  rw [countP_append] at hcount
  omega

theorem Steps.pays (hbefore : Sound before) (h : Steps mode before after) :
    toll after < toll before ∨ toll after ≤ toll before ∧ after.stream.extent < before.stream.extent := by
  have hgrace := grace_le after.stream
  have hs := hbefore.ordered
  unfold toll
  cases h with
  | take _ _ hnext | leave hnext | keep _ hnext | remark _ hnext =>
    have hcount := taken_pays hs hnext
    have hextent := (next_spends hs hnext).2
    simp only [literals] at *
    exact .inr ⟨by omega, by omega⟩
  | begin _ hnext hop =>
    obtain ⟨hrest, hextent⟩ := next_spends hs hnext
    simp only [Token.isOp_iff] at hop
    have hcount := hrest.countP_le (p := isMark)
    have hbegun := grace_of_head hnext (.inl (by simp [hop.1]))
    have hmark : List.countP isMark ['<'] = 1 := rfl
    rw [countP_append, hop.2, hmark] at hcount
    simp only [literals] at *
    exact .inr ⟨by omega, by omega⟩
  | @feed _ _ _ _ _ u _ _ hnext hmove =>
    obtain ⟨hrest, hextent, hpaid⟩ := fed_spends hs hnext hmove
    have hcount := hrest.countP_le (p := isMark)
    have hfirst := (take_sublist 1 u.text).countP_le (p := isMark)
    rw [countP_append] at hcount
    simp only [literals] at *
    exact .inr ⟨by omega, by omega⟩
  | @close _ s' s₁ s₂ l c t u v outer b hnext hmove hread hdone hclose =>
    obtain ⟨hrest, -, hpaid⟩ := fed_spends hs hnext hmove
    obtain ⟨r, hr⟩ := hs
    have hhands := hr.next
    rw [hnext] at hhands
    obtain ⟨start, hl⟩ := hbefore.opened _ mem_cons_self
    obtain ⟨front, rest, htext, hlast, -, hrem⟩ := (Builder.read_ok hread hl.begun hl.notDone).2.2 hdone
    -- the markup ends after the first character, so what is put back does not have it
    have hfirst := (take_sublist 1 front).countP_le (p := isMark)
    have hback := closeLiteral_countP (moveOf_from hhands.2.1 hhands.2.2 hmove) hrem hclose
    have hcount := hrest.countP_le (p := isMark)
    obtain ⟨d, more, rfl⟩ := exists_cons_of_ne_nil (ne_nil_of_mem (mem_of_getLast? hlast))
    rw [htext, cons_append, take_succ_cons, take_zero] at hpaid
    rw [take_succ_cons, take_zero] at hfirst
    rw [countP_append, htext, countP_append] at hcount
    rw [countP_append] at hback
    simp only [literals] at *
    left
    omega
  | @enter _ s' s₁ l t outer b hnext hmove hpass hrun =>
    obtain ⟨more, htext⟩ := moveOf_enter hmove
    have hcount := (next_spends hs hnext).1.countP_le (p := isMark)
    have hback := Stream.rewind_countP isMark_blank hrun
    have hbegun := grace_of_head hnext (.inr (by simp [htext]))
    have hmark : List.countP isMark ('\x7b' :: more) = List.countP isMark more + 1 := countP_cons_of_pos rfl
    rw [countP_append, htext, hmark] at hcount
    rw [countP_append, splitToken, htext, drop_succ_cons, drop_zero] at hback
    simp only [literals] at *
    left
    omega
  | @again _ s' s₁ l t outer hnext hmove hrun =>
    obtain ⟨more, htext, hkind⟩ := moveOf_again hmove
    have hcount := (next_spends hs hnext).1.countP_le (p := isMark)
    have hback := Stream.rewind_countP isMark_blank hrun
    have hbegun := grace_of_head hnext (.inl hkind)
    have hnow : grace s₁ = 0 := if_pos (Stream.rewind_atComment htext hrun)
    simp only [literals] at *
    left
    omega
  | stop _ hdone =>
    obtain ⟨start, hl⟩ := hbefore.opened _ mem_cons_self
    cases hl.notDone.symm.trans hdone

/-! ### Runs -/

theorem round_pays {n : Nat} {config final : Config} (hconfig : Sound config) (h : round mode n config = .ok final) :
    Sound final ∧ (toll final < toll config ∨
      toll final ≤ toll config ∧ final.stream.extent + n ≤ config.stream.extent) := by
  induction n generalizing config with
  | zero =>
    cases h
    exact ⟨hconfig, .inr ⟨le_rfl, le_rfl⟩⟩
  | succ n ih =>
    rw [round] at h
    split at h
    · cases h
    rename_i mid hmid
    have hsteps := step_steps hmid
    obtain ⟨hfinal, hlater⟩ := ih (hsteps.sound hconfig) h
    have hfirst := hsteps.pays hconfig
    exact ⟨hfinal, by omega⟩

theorem Sound.ends {config : Config} (h : Sound config) : ∃ steps final result, Run mode config steps final ∧
    step mode final = .error result ∧ ∀ n, toll config < n → run mode n config = result := by
  induction hk : toll config using Nat.strong_induction_on generalizing config with
  | _ k ih =>
    have hround := round_run mode (config.stream.extent + 1) config
    cases hresult : round mode (config.stream.extent + 1) config with
    | error result =>
      rw [hresult] at hround
      obtain ⟨steps, final, hrun, hstop⟩ := hround
      refine ⟨steps, final, result, hrun, hstop, fun n hn => ?_⟩
      obtain ⟨n, rfl⟩ := Nat.exists_eq_add_one_of_ne_zero (Nat.ne_zero_of_lt hn)
      rw [run, hresult]
    | ok mid =>
      rw [hresult] at hround
      obtain ⟨past, hpast, -⟩ := hround
      obtain ⟨hmid, hpays⟩ := round_pays h hresult
      have hless : toll mid < toll config := by omega
      obtain ⟨steps, final, result, hrun, hstop, hrounds⟩ := ih _ (hk ▸ hless) hmid rfl
      refine ⟨past ++ steps, final, result, hpast.append hrun, hstop, fun n hn => ?_⟩
      obtain ⟨n, rfl⟩ := Nat.exists_eq_add_one_of_ne_zero (Nat.ne_zero_of_lt hn)
      rw [run, hresult]
      exact hrounds n (by omega)

theorem Run.isPrefix {config last final : Config} {xs ys : List (Config × Config)} {result : Result}
    (hfinal : Run mode config ys final) (hstop : step mode final = .error result) (hrun : Run mode config xs last) :
    xs <+: ys := by
  induction hrun generalizing ys with
  | refl => exact nil_prefix
  | next hstep _ ih =>
    cases hfinal with
    | refl => cases hstop.symm.trans hstep
    | next hstep' hrest =>
      cases hstep.symm.trans hstep'
      exact (prefix_cons_inj _).2 (ih hrest)

end

/-- Translating ends, in either mode and for every source: some step stops, with the tokens made and perhaps a
fault, and every run is a beginning of the run up to there. It takes at most one round for each mark in the
source and two more, which is no more than translating is given. -/
theorem translation_ends (mode : Mode) (source : Text) : ∃ steps final result,
    Run mode (start source) steps final ∧ step mode final = .error result ∧
    (∀ others last, Run mode (start source) others last → others <+: steps) ∧
    (∀ n, source.countP isMark + 1 < n → run mode n (start source) = result) ∧
    translateTokens mode (Text.lines source) = (result.1.toList.map Token.trimNewline, result.2) := by
  have hsound : Sound (start source) := ⟨(Run.refl (start source) : Run mode _ _ _).from, by simp [start, Frame.Opened]⟩
  obtain ⟨steps, final, result, hrun, hstop, hrounds⟩ := @Sound.ends mode _ hsound
  have htoll : toll (start source) ≤ source.countP isMark + 1 := by
    have hgrace := grace_le (start source).stream
    have hrest : (start source).stream.rest = source := by
      simp [start, Stream.rest, Stream.unread, Scan.owed, openText, flatten_lines]
    have hframes : literals (start source).frames = 0 := rfl
    rw [toll, hrest, hframes]
    omega
  have hall (n : Nat) (hn : source.countP isMark + 1 < n) : run mode n (start source) = result :=
    hrounds n (htoll.trans_lt hn)
  refine ⟨steps, final, result, hrun, hstop, fun _ _ => hrun.isPrefix hstop, hall, ?_⟩
  have hmarks := source.countP_le_length (p := isMark)
  have hbudget : run mode (budget (Text.lines source)) (start source) = result :=
    hall _ (by rw [budget, flatten_lines]; omega)
  unfold translateTokens
  rw [← start, hbudget]

end Translate

end InlineMarkup

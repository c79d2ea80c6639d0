import InlineMarkup.Proofs.Places
import InlineMarkup.Proofs.Stream

/-!
Rewinding. A stream over neat text stands at a place, with text scanned but not handed out and lines not
read after it.
-/
namespace InlineMarkup

open Text

namespace Stream

/-! ### Positions of the whole source -/

theorem place_advance (zero : Pos) {p : Pos} (hp : 1 ≤ p.row) (s : Text) :
    (place zero p).advance s = place zero (p.advance s) := by
  induction s generalizing p with
  | nil => rfl
  | cons c rest ih =>
    have hstep : (place zero p).step c = place zero (p.step c) := by
      unfold Pos.step place
      split
      · have hne : p.row + 1 ≠ 1 := by omega
        simp [hne]
        omega
      · split
        · simp only [Pos.mk.injEq, true_and]
          omega
        · simp
    have hrow : 1 ≤ (p.step c).row := hp.trans (Pos.row_le_advance p [c])
    rw [Pos.advance_cons, Pos.advance_cons, hstep, ih hrow]

theorem after_adjust (zero : Pos) {t : Token} (ht : 1 ≤ t.stop.row) :
    Layout.after (adjust zero t) = place zero (Layout.after t) := by
  unfold Layout.after adjust
  dsimp only
  split
  · have hne : t.stop.row + 1 ≠ 1 := by omega
    simp [place, hne]
    omega
  · rfl

theorem placed_adjust (zero : Pos) {p : Pos} {k : Nat} {t : Token} (h : Placed p k t) (hp : 1 ≤ p.row) :
    Placed (place zero p) k (adjust zero t) ∧
      Layout.after (adjust zero t) = place zero (Layout.after t) ∧ 1 ≤ (Layout.after t).row := by
  have hstart : 1 ≤ t.start.row := by
    rw [h.start]
    exact hp
  have hrow : 1 ≤ (Layout.after t).row := by
    rw [← h.stop]
    exact hstart.trans (Pos.row_le_advance _ _)
  have hend : t.kind.isLineEnd = true → t.stop.row = t.start.row := by
    intro hkind
    have hstop := congrArg Pos.row h.stop
    rw [(h.lineEnd hkind).2.1] at hstop
    simpa [Layout.after, hkind, Pos.step] using hstop.symm
  have hafter : Layout.after (adjust zero t) = place zero (Layout.after t) := by
    refine after_adjust zero ?_
    by_cases hkind : t.kind.isLineEnd = true
    · rw [hend hkind]
      exact hstart
    · rwa [Layout.after_of_not_lineEnd (by simpa using hkind)] at hrow
  refine ⟨⟨?_, ?_, ?_, h.newline, h.comment⟩, hafter, hrow⟩
  · simp only [adjust, place, h.start]
    split
    · simp only [Pos.mk.injEq, true_and]
      omega
    · rfl
  · rw [hafter, ← h.stop]
    exact place_advance zero hstart t.text
  · intro hkind
    obtain ⟨hk, htext, hcol⟩ := h.lineEnd hkind
    refine ⟨hk, htext, ?_⟩
    simp only [adjust, place, hend hkind]
    split
    · omega
    · exact hcol

/-! ### Where a stream stands -/

def Settled (scan : Option Scan) (unread : List Text) (q : Pos) (owed : Text) : Prop :=
  match scan with
  | none => owed = [] ∧ unread = []
  | some scan => scan.strict = false ∧ scan.Owes q owed

/-- The stream stands at `p` and holds text that is scanned and not handed out. -/
structure Stands (s : Stream) (p : Pos) (held : Text) : Prop where
  neat : Neat held
  lines : ∀ l ∈ s.unread, NeatLine l
  tiles : ∃ m q front out owed, Tiles p s.unshifted front (place s.zero m) ∧ 1 ≤ m.row ∧
    Tiles m s.ready out q ∧ held = front ++ (out ++ owed) ∧ Settled s.scan s.unread q owed

def Took (p : Pos) (text : Text) : Option Token × Stream → Prop
  | (some t, s) => ∃ k held, Placed p k t ∧ Stands s (Layout.after t) held ∧
      Neat (List.replicate k ' ' ++ (t.text ++ held)) ∧
      text = List.replicate k ' ' ++ (t.text ++ (held ++ s.unread.flatten)) ∧
      (t.kind = .comment → EndsFirst (s.unshifted ++ s.ready))
  | (none, s) => text = [] ∧ s.unread = [] ∧ Stands s p []

variable {s : Stream} {p : Pos} {held : Text} {t : Token}

theorem Stands.advances {s' : Stream} {scan : Scan} (h : Stands s p held)
    (hu : s.unshifted = []) (hready : s.ready = []) (hscan : s.scan = some scan) (hs' : Advances s scan s') :
    ∃ held', Stands s' p held' ∧ held' ++ s'.unread.flatten = held ++ s.unread.flatten := by
  obtain ⟨hneat, hlines, m, q, front, out, owed, hfront, hm, hout, rfl, hsettled⟩ := h
  rw [hu] at hfront
  rw [hready] at hout
  rw [hscan] at hsettled
  cases hfront
  cases hout
  obtain ⟨hstrict, howes⟩ := hsettled
  have hnone : Tiles (place s.zero m) s.unshifted [] (place s.zero m) := hu ▸ .nil _
  -- A line is scanned, and what was owed before and the line are the text of its tokens and what is owed then.
  have hline {l : Text} {rest : List Text} (hread : s.unread = l :: rest) {next : Stream}
      (hfields : next.unshifted = s.unshifted ∧ next.zero = s.zero ∧ next.ready = (scan.line l).1 ∧
        next.scan = (scan.line l).2 ∧ next.unread = rest) :
      ∃ held', Stands next (place s.zero m) held' ∧ held' ++ next.unread.flatten = owed ++ s.unread.flatten := by
    obtain ⟨hl, hrest⟩ := List.forall_mem_cons.1 (hread ▸ hlines)
    obtain ⟨after, out, owing, r, hafter, hstrict, htiles, howing, heq⟩ := line_tiles hstrict howes hl
    obtain ⟨hnu, hnz, hnr, hns, hnl⟩ := hfields
    refine ⟨out ++ owing, ⟨heq ▸ hneat.append hl.neat, hnl ▸ hrest, m, r, [], out, owing, ?_, hm, hnr ▸ htiles, rfl, ?_⟩, ?_⟩
    · rw [hnu, hnz]
      exact hnone
    · rw [hns, hafter]
      exact ⟨hstrict, howing⟩
    · rw [hnl, hread, ← heq, List.append_assoc, List.flatten_cons]
  cases hs' with
  | rewound h => exact hline (by simp [unread, h]) ⟨rfl, rfl, rfl, rfl, rfl⟩
  | source hr h => exact hline (by simp [unread, hr, h]; rfl) ⟨rfl, rfl, rfl, rfl, by simp [unread]⟩
  | finished hr h =>
    obtain ⟨r, htiles⟩ := line_nil_tiles howes
    exact ⟨owed, ⟨hneat, by simp [unread, h], m, r, [], owed, [], hnone, hm, htiles, by simp, rfl, by simp [unread, h]⟩,
      by simp [unread, hr, h]⟩

theorem next_took (h : Stands s p held) : Took p (held ++ s.unread.flatten) s.next := by
  refine next_induction (P := fun s r => ∀ p held, Stands s p held → Took p (held ++ s.unread.flatten) r)
    ?_ ?_ ?_ ?_ s p held h
  · rintro s t rest hu p _ ⟨hneat, hlines, m, q, front, out, owed, hfront, hm, hready, rfl, hsettled⟩
    rw [hu] at hfront
    cases hfront with
    | @cons _ _ k _ _ more hplaced hcomment htiles =>
      have htext : Neat (List.replicate k ' ' ++ (t.text ++ (more ++ (out ++ owed)))) := by
        simpa only [List.append_assoc] using hneat
      refine ⟨k, more ++ (out ++ owed), hplaced, ⟨htext.of_append.of_append, hlines, ?_⟩, htext,
        by simp [unread], fun hkind => ?_⟩
      · exact ⟨m, q, more, out, owed, htiles, hm, hready, rfl, hsettled⟩
      · obtain ⟨u, us, hus, hend⟩ := hcomment hkind
        exact ⟨u, us ++ s.ready, by rw [hus]; rfl, hend⟩
  · rintro s t rest hu hr p _ ⟨hneat, hlines, m, q, front, out, owed, hfront, hm, hready, rfl, hsettled⟩
    rw [hu] at hfront
    rw [hr] at hready
    cases hfront
    cases hready with
    | @cons _ _ k _ _ more hplaced hcomment htiles =>
      obtain ⟨hadjusted, hafter, hrow⟩ := placed_adjust s.zero hplaced hm
      have htext : Neat (List.replicate k ' ' ++ (t.text ++ (more ++ owed))) := by
        simpa only [List.nil_append, List.append_assoc] using hneat
      refine ⟨k, more ++ owed, hadjusted, ⟨htext.of_append.of_append, hlines, ?_⟩, htext, by simp [adjust, unread], ?_⟩
      · refine ⟨Layout.after t, q, [], more, owed, ?_, hrow, htiles, rfl, hsettled⟩
        rw [hu, hafter]
        exact .nil _
      · rw [hu, List.nil_append]
        exact hcomment
  · rintro s hu hr hscan p _ ⟨hneat, hlines, m, q, front, out, owed, hfront, hm, hready, rfl, hsettled⟩
    have hall := hsettled
    rw [hu] at hfront
    rw [hr] at hready
    rw [hscan] at hall
    cases hfront
    cases hready
    obtain ⟨rfl, hunread⟩ := hall
    exact ⟨by simp [hunread], hunread, neat_nil, hlines, m, m, [], [], [], hu ▸ .nil _, hm, hr ▸ .nil _, rfl, hsettled⟩
  · intro s s' scan r hu hr hscan hs' htook p held h
    obtain ⟨held', h', htext⟩ := h.advances hu hr hscan hs'
    exact htext ▸ htook p held' h'

theorem next_endsFirst {after : Stream} (hnext : s.next = (some t, after))
    (h : EndsFirst (s.unshifted ++ s.ready)) : t.kind.isLineEnd = true := by
  obtain ⟨u, us, heq, hu⟩ := h
  unfold next at hnext
  split at hnext
  · rename_i hunshifted
    cases hnext
    rw [hunshifted] at heq
    cases heq
    exact hu
  · rename_i hunshifted
    rw [hunshifted, List.nil_append] at heq
    rw [heq] at hnext
    cases hnext
    exact hu

theorem unshift_stands {k : Nat}
    (h : Stands s (Layout.after t) held) (ht : Placed p k t) (hkind : t.kind ≠ .comment)
    (hneat : Neat (List.replicate k ' ' ++ (t.text ++ held))) :
    Stands (s.unshift t) p (List.replicate k ' ' ++ (t.text ++ held)) := by
  obtain ⟨-, hlines, m, q, front, out, owed, hfront, hm, hready, rfl, hsettled⟩ := h
  refine ⟨hneat, hlines, m, q, _, out, owed, .cons ht ?_ hfront, hm, hready, by simp, hsettled⟩
  exact fun hcomment => absurd hcomment hkind

/-! ### Rewinding -/

theorem tiles_adjust (zero : Pos) {p q : Pos} {ts : List Token} {s : Text} (h : Tiles p ts s q)
    (hp : 1 ≤ p.row) : Tiles (place zero p) (ts.map (adjust zero)) s (place zero q) := by
  induction h with
  | nil p => exact .nil _
  | cons ht hcomment _ ih =>
    obtain ⟨hadjusted, hafter, hrow⟩ := placed_adjust zero ht hp
    have hrest := ih hrow
    rw [← hafter] at hrest
    refine .cons hadjusted (fun hkind => ?_) hrest
    obtain ⟨u, us, rfl, hu⟩ := hcomment hkind
    exact ⟨adjust zero u, us.map (adjust zero), rfl, hu⟩

theorem flushed_tiles (h : Stands s p held) : ∃ r, Tiles p s.flushed held r := by
  obtain ⟨-, -, m, q, front, out, owed, hfront, hm, hready, rfl, hsettled⟩ := h
  have hrest : ∃ r, Tiles q ((s.scan.map fun scan => (scan.line []).1).getD []) owed r := by
    cases hscan : s.scan with
    | none =>
      rw [hscan] at hsettled
      rw [hsettled.1]
      exact ⟨q, .nil q⟩
    | some scan =>
      rw [hscan] at hsettled
      exact line_nil_tiles hsettled.2
  obtain ⟨r, hrest⟩ := hrest
  exact ⟨_, hfront.append (tiles_adjust s.zero (hready.append hrest) hm)⟩

theorem rewind_stands (h : Stands s p held)
    (hkind : t.kind.isLineEnd = false) (hp : Layout.after t = p) (hneat : Neat (t.text ++ held)) :
    ∃ after, (rewind t).run s = .ok () after ∧ Stands after t.start [] ∧
      after.unread = Text.lines (t.text ++ held) ++ s.source := by
  obtain ⟨r, hflushed⟩ := flushed_tiles h
  have hplain : Layout.plain (t :: s.flushed) = .ok (t.text ++ held) := by
    have htext := hflushed.laysOut.text
    rw [← hp] at htext
    have horigin : Layout.origin none t = t.start := by simp [Layout.origin, hkind]
    simp [Layout.plain, Layout.text, horigin, htext, Layout.gap, Text.copies, Except.map]
  have hplace : place ⟨t.start.row - 1, t.start.col⟩ ⟨1, 0⟩ = t.start := by
    simp [place]
  refine ⟨{ s.drained with
    zero := ⟨t.start.row - 1, t.start.col⟩, rewound := some (Text.lines (t.text ++ held)),
    scan := some {} }, ?_, ⟨neat_nil, ?_, ?_⟩, rfl⟩
  · simp [rewind, hplain, EStateM.run, bind, EStateM.bind, get, getThe, MonadStateOf.get,
      EStateM.get, set, MonadStateOf.set, EStateM.set]
  · intro l hl
    rcases List.mem_append.mp hl with hl | hl
    · exact hneat.lines l hl
    · exact h.lines l (List.mem_append_right _ hl)
  · refine ⟨⟨1, 0⟩, ⟨1, 0⟩, [], [], [], ?_, le_rfl, .nil _, rfl, rfl, rfl, rfl⟩
    rw [hplace]
    exact .nil _

theorem stands_source {source : Text} (h : Neat source) : Stands { source := Text.lines source } ⟨1, 0⟩ [] := by
  refine ⟨neat_nil, by simpa [unread] using h.lines, ⟨1, 0⟩, ⟨1, 0⟩, [], [], [], ?_, le_rfl, .nil _,
    rfl, rfl, rfl, rfl⟩
  have hplace : place ⟨0, 0⟩ ⟨1, 0⟩ = ⟨1, 0⟩ := by simp [place]
  rw [hplace]
  exact .nil _

end Stream

end InlineMarkup

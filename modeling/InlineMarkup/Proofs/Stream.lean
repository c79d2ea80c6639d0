import InlineMarkup.Proofs.Tiling
import InlineMarkup.Token.Stream

/-!
What a stream will hand out. As long as nothing is put back, the tokens of a stream are those put
back before, those scanned already, and those of the lines not read yet.
-/
namespace InlineMarkup.Stream

def unread (s : Stream) : List Text := s.rewound.getD [] ++ s.source

/-! ### Requests

A request hands out a token that is at hand. Without one the scanner reads a line, and the request is made anew. -/

/-- The scanner reads one more line, of those put back if there are any, or the end of the source. -/
inductive Advances (s : Stream) (scan : Scan) : Stream → Prop where
  | rewound {l : Text} {rest : List Text} (h : s.rewound = some (l :: rest)) :
      Advances s scan { s with rewound := some rest, scan := (scan.line l).2, ready := (scan.line l).1 }
  | source {l : Text} {rest : List Text} (hr : s.rewound.getD [] = []) (h : s.source = l :: rest) :
      Advances s scan { s with rewound := none, source := rest, scan := (scan.line l).2, ready := (scan.line l).1 }
  | finished (hr : s.rewound.getD [] = []) (h : s.source = []) :
      Advances s scan { s with rewound := none, scan := none, ready := (scan.line []).1 }

theorem pullSource_congr (s : Stream) (source : List Text) (old : Option Scan) (scan : Scan) (ls : List Text) :
    pullSource { s with source, scan := old } scan ls = pullSource s scan ls := by
  induction ls generalizing scan with
  | nil => simp only [pullSource]
  | cons l rest ih =>
    simp only [pullSource]
    split <;> first | rfl | exact ih _

theorem pullRewound_congr (s : Stream) (rewound : Option (List Text)) (old : Option Scan) (scan : Scan)
    (ls : List Text) : pullRewound { s with rewound, scan := old } scan ls = pullRewound s scan ls := by
  induction ls generalizing scan with
  | nil => exact pullSource_congr { s with rewound := none } s.source old scan s.source
  | cons l rest ih =>
    simp only [pullRewound]
    split <;> first | rfl | exact ih _

variable {s s' after : Stream} {scan : Scan} {t : Token}

theorem exists_advances (hu : s.unshifted = []) (hready : s.ready = [])
    (hscan : s.scan = some scan) : ∃ s', Advances s scan s' ∧ s.next = s'.next := by
  obtain ⟨source, rewound, _, _, _, zero⟩ := s
  cases hu
  cases hready
  cases hscan
  have hsource (hr : rewound.getD [] = []) : ∃ s', Advances ⟨source, rewound, some scan, [], [], zero⟩ scan s' ∧
      pullSource ⟨source, none, some scan, [], [], zero⟩ scan source = s'.next := by
    cases source with
    | nil =>
      refine ⟨_, .finished hr rfl, ?_⟩
      have hover := Scan.line_nil_over scan
      rw [pullSource]
      split <;> rename_i heq <;> rw [heq] at hover <;> cases hover <;> simp [next, heq]
    | cons l rest =>
      refine ⟨_, .source hr rfl, ?_⟩
      rw [pullSource]
      split <;> rename_i heq <;> simp [next, heq]
      exact (pullSource_congr ⟨l :: rest, none, some scan, [], [], zero⟩ rest _ _ rest).symm
  match rewound with
  | none => exact hsource rfl
  | some [] => exact hsource rfl
  | some (l :: rest) =>
    refine ⟨_, .rewound rfl, ?_⟩
    change pullRewound _ scan (l :: rest) = _
    rw [pullRewound]
    split <;> rename_i heq <;> simp [next, heq]
    exact (pullRewound_congr ⟨source, some (l :: rest), some scan, [], [], zero⟩ (some rest) _ _ rest).symm

theorem next_induction {P : Stream → Option Token × Stream → Prop}
    (hunshifted : ∀ {s t rest}, s.unshifted = t :: rest → P s (some t, { s with unshifted := rest }))
    (hready : ∀ {s t rest}, s.unshifted = [] → s.ready = t :: rest →
      P s (some (adjust s.zero t), { s with ready := rest }))
    (hover : ∀ {s}, s.unshifted = [] → s.ready = [] → s.scan = none → P s (none, s))
    (hstep : ∀ {s s' scan r}, s.unshifted = [] → s.ready = [] → s.scan = some scan → Advances s scan s' →
      P s' r → P s r) (s : Stream) : P s s.next := by
  induction hn : s.unread.length + s.scan.toList.length using Nat.strong_induction_on generalizing s with
  | _ n ih =>
    cases hu : s.unshifted with
    | cons t rest =>
      have hnext : s.next = (some t, { s with unshifted := rest }) := by simp [next, hu]
      exact hnext ▸ hunshifted hu
    | nil =>
      cases hr : s.ready with
      | cons t rest =>
        have hnext : s.next = (some (adjust s.zero t), { s with ready := rest }) := by simp [next, hu, hr]
        exact hnext ▸ hready hu hr
      | nil =>
        cases hscan : s.scan with
        | none =>
          have hnext : s.next = (none, s) := by simp [next, hu, hr, hscan]
          exact hnext ▸ hover hu hr hscan
        | some scan =>
          obtain ⟨s', hs', hnext⟩ := exists_advances hu hr hscan
          rw [hnext]
          refine hstep hu hr hscan hs' (ih _ ?_ s' rfl)
          rw [← hn, hscan]
          cases hs' with
          | rewound h => simp [unread, h]
          | source hr h => simp [unread, hr, h]
          | finished hr h => simp [unread, hr, h]

/-! ### The tokens to come -/

def tokens (s : Stream) : List Token :=
  s.unshifted ++ (s.ready ++ (s.scan.map fun scan => scan.all s.unread).getD []).map (adjust s.zero)

def Delivers (ts : List Token) : Option Token × Stream → Prop
  | (some t, after) => ts = t :: after.tokens
  | (none, _) => ts = []

theorem Advances.tokens (h : Advances s scan s') (hready : s.ready = [])
    (hscan : s.scan = some scan) : s'.tokens = s.tokens := by
  have hall (l : Text) (rest : List Text) :
      scan.all (l :: rest) = (scan.line l).1 ++ ((scan.line l).2.map fun after => after.all rest).getD [] := by
    rw [Scan.all]
    rcases scan.line l with ⟨ts, _ | after⟩ <;> simp
  cases h with
  | rewound h => simp [Stream.tokens, unread, hready, hscan, h, hall]
  | source hr h => simp [Stream.tokens, unread, hready, hscan, hr, h, hall]
  | finished hr h => simp [Stream.tokens, unread, hready, hscan, hr, h, Scan.all]

theorem next_delivers (s : Stream) : Delivers s.tokens s.next := by
  refine next_induction (P := fun s r => Delivers s.tokens r) ?_ ?_ ?_ ?_ s
  · intro s t rest hu
    simp [Delivers, tokens, unread, hu]
  · intro s t rest hu hready
    simp [Delivers, tokens, unread, hu, hready]
  · intro s hu hready hscan
    simp [Delivers, tokens, hu, hready, hscan]
  · intro s s' scan r _ hready hscan hs' h
    rwa [hs'.tokens hready hscan] at h

theorem tokens_of_next_some (h : s.next = (some t, after)) : s.tokens = t :: after.tokens := by
  have hnext := next_delivers s
  rwa [h] at hnext

theorem tokens_of_next_none (h : s.next = (none, after)) : s.tokens = [] := by
  have hnext := next_delivers s
  rwa [h] at hnext

theorem tokens_of_source (lines : List Text) : tokens { source := lines } = tokenize lines := by
  have hadjust : adjust ⟨0, 0⟩ = id := by
    funext t
    simp [adjust, place]
  simp [tokens, unread, hadjust, tokenize]

theorem rewind_ok (h : (rewind t).run s = .ok () s') :
    ∃ text, Layout.plain (t :: s.flushed) = .ok text ∧ s' = { s.drained with
      zero := ⟨t.start.row - 1, t.start.col⟩, rewound := some (Text.lines text), scan := some {} } := by
  simp only [rewind, EStateM.run, bind, EStateM.bind, get, getThe, MonadStateOf.get, EStateM.get] at h
  cases hplain : Layout.plain (t :: s.flushed) with
  | error f =>
    rw [hplain] at h
    cases h
  | ok text =>
    rw [hplain] at h
    cases h
    exact ⟨text, rfl, rfl⟩

end InlineMarkup.Stream

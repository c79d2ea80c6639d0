import InlineMarkup.Proofs.Account

/-!
What a translation keeps of its source. Main statement: the text made is the source, up to where the
translation stopped and without what rewinds forgot, with markup replaced.
-/
namespace InlineMarkup.Translate

open Layout

/-! ### Runs -/

def literalsOf (steps : List (Config × Config)) : List Token :=
  steps.flatMap fun s => literalMade s.1.frames s.2.frames

def lostBy (steps : List (Config × Config)) : Text := steps.flatMap fun s => forgotten s.1 s.2

theorem Run.reached {mode : Mode} {source : Text} {before final : Config}
    {steps : List (Config × Config)} (hrun : Run mode before steps final) {literals : List Token}
    {lost : Text} (h : Reached mode source literals lost before) :
    Reached mode source (literals ++ literalsOf steps) (lost ++ lostBy steps) final := by
  induction hrun generalizing literals lost with
  | refl => simpa [literalsOf, lostBy] using h
  | next hstep _ ih =>
    have hrest := ih (step_reached h hstep)
    simpa [literalsOf, lostBy] using hrest

/-! ### Where a run can stop -/

theorem Stack.not_stops {made result : Array Token} {place : Pos} {s : Stream} {frames : List Frame}
    (h : Stack made place frames) : ¬ Stops ⟨s, frames⟩ result := by
  intro hstops
  cases hstops with
  | none | atEnd => cases h
  | brace _ _ _ houter =>
    cases h with
    | code => exact houter _ _ rfl
  | literal houter => cases h <;> exact houter _ _ rfl

theorem Reached.stop {mode : Mode} {source : Text} {literals : List Token} {lost : Text}
    {config : Config} {made : Array Token} (h : Reached mode source literals lost config)
    (hstop : step mode config = .error (made, none)) :
    ∃ p held, Outside mode source made literals lost config.stream p held ∧
      (held ++ config.stream.unread.flatten = [] ↔ config.stream.next.1 = none) := by
  have hstops := step_stops hstop
  cases h with
  | @outside c s p held hout =>
    have htook := Stream.next_took hout.stands
    cases hstops with
    | atEnd hnext =>
      rw [hnext] at htook
      exact ⟨p, held, hout, by simp [htook.1, hnext]⟩
    | brace hnext hop =>
      rw [hnext] at htook
      obtain ⟨k, held', -, -, -, htext, -⟩ := htook
      simp only [Token.isOp_iff] at hop
      exact ⟨p, held, hout, by simp [htext, hop.2, hnext]⟩
  | inside hstack hin => exact absurd hstops hstack.not_stops

/-! ### What is kept -/

def start (source : Text) : Config := ⟨{ source := Text.lines source }, [.code {}]⟩

theorem reached_start (mode : Mode) {source : Text} (h : Neat source) :
    Reached mode source [] [] (start source) := by
  refine .outside ⟨Stream.stands_source h, [], ⟨1, 0⟩, written_nil mode, Or.inl rfl, ?_⟩
  have hunread : (Stream.unread { source := Text.lines source }).flatten = source := by
    simp [Stream.unread, Text.flatten_lines]
  rw [hunread]
  exact ⟨List.Sublist.refl _, rfl⟩

theorem renderResult_ok {result : List Token × Option Fault} {out : Text} (h : renderResult result = .ok out) :
    result.2 = none ∧ Layout.file result.1 = .ok out := by
  unfold renderResult at h
  cases hfile : Layout.file result.1 with
  | error f =>
    rw [hfile] at h
    cases h
  | ok text =>
    rw [hfile] at h
    cases hfault : result.2 with
    | some f =>
      rw [hfault] at h
      cases h
    | none =>
      rw [hfault] at h
      cases h
      exact ⟨rfl, rfl⟩

theorem translate_ok {mode : Mode} {source out : Text} (h : translate mode source = .ok out) :
    ∃ made, run mode (budget (Text.lines source)) (start source) = (made, none) ∧
      Layout.file (made.toList.map Token.trimNewline) = .ok out := by
  obtain ⟨hnone, hfile⟩ := renderResult_ok h
  exact ⟨_, Prod.ext rfl hnone, hfile⟩

theorem lostBy_eq_nil_iff (steps : List (Config × Config)) :
    lostBy steps = [] ↔ ∀ s ∈ steps, forgotten s.1 s.2 = [] := by
  rw [lostBy, List.flatMap_eq_nil_iff]

def madeOf (mode : Mode) (source : Text) : Array Token :=
  (run mode (budget (Text.lines source)) (start source)).1

/-- A translation that succeeds is a run. What it makes is the source with its markup replaced, but
for the text that rewinds forgot and the text from a closing brace on at which the run stopped; so
it is all of the source exactly if each rewind found the text put back before read to its end, and
the run came to the end of the source. The lines kept that no markup touches are lines of the
result, in their order. -/
theorem source_kept_iff {mode : Mode} {source out : Text} (hneat : Neat source)
    (h : translate mode source = .ok out) (hwhole : Whole (madeOf mode source)) :
    ∃ steps final kept rest, Run mode (start source) steps final ∧
      step mode final = .error (madeOf mode source, none) ∧ Kept source (kept ++ rest) (lostBy steps) ∧
      (kept = source ↔ (∀ s ∈ steps, forgotten s.1 s.2 = []) ∧ final.stream.next.1 = none) ∧
      Replaces mode.reversible ⟨1, 0⟩ ((literalsOf steps).map Token.trimNewline) kept out ∧
      (untouched (touches ((literalsOf steps).map Token.trimNewline)) 1
        (Text.lines kept)).Sublist (Text.lines out) := by
  obtain ⟨made, hrun, hfile⟩ := translate_ok h
  have hmade : madeOf mode source = made := by rw [madeOf, hrun]
  rw [hmade] at hwhole ⊢
  obtain ⟨steps, final, hsteps, hstop⟩ := exists_run hrun
  obtain ⟨p, held, hout, hend⟩ := (hsteps.reached (reached_start mode hneat)).stop hstop
  obtain ⟨kept, q, hwritten, -, hkept⟩ := hout.text
  obtain ⟨text, hreplaces, hlaid⟩ := hwritten.laid hwhole
  have htext : text = out := by
    have hsame := hlaid.text.symm.trans hfile
    cases hsame
    rfl
  subst htext
  refine ⟨steps, final, kept, _, hsteps, hstop, hkept, ?_, hreplaces, hreplaces.lines_kept⟩
  rw [← lostBy_eq_nil_iff, ← hend]
  exact hkept.eq_iff

def swallowedLines : Text := "x = <a>'''</a>\ny = <b></b>\nz = '''\n".toList

def swallowedLinesMade : Text := "x = html.x_a()(u\"'''\", )\ny = html.x_b()()\n".toList

theorem translate_swallowedLines : (translate {} swallowedLines).toOption = some swallowedLinesMade := by
  decide +kernel

theorem source_kept_iff_swallowedLines : ∃ steps final kept rest, Run {} (start swallowedLines) steps final ∧
      step {} final = .error (madeOf {} swallowedLines, none) ∧ Kept swallowedLines (kept ++ rest) (lostBy steps) ∧
      (kept = swallowedLines ↔ (∀ s ∈ steps, forgotten s.1 s.2 = []) ∧ final.stream.next.1 = none) ∧
      Replaces false ⟨1, 0⟩ ((literalsOf steps).map Token.trimNewline) kept swallowedLinesMade ∧
      (untouched (touches ((literalsOf steps).map Token.trimNewline)) 1
        (Text.lines kept)).Sublist (Text.lines swallowedLinesMade) := by
  have hok : translate {} swallowedLines = .ok swallowedLinesMade := by
    have hmade : (translate {} swallowedLines).toOption = some swallowedLinesMade := by
      decide +kernel
    cases htranslate : translate {} swallowedLines with
    | error f =>
      rw [htranslate] at hmade
      cases hmade
    | ok out =>
      rw [htranslate] at hmade
      cases hmade
      rfl
  exact source_kept_iff (by decide +kernel) hok (by decide +kernel)

end InlineMarkup.Translate

import InlineMarkup.Proofs.Nesting

/-!
Runs of a builder over all that it is given: characters, rows to go down to, comments and code. What each input does
to the output is said once, for all that follows from it in a whole run.
-/
namespace InlineMarkup.Markup.Builder

/-! ### Children -/

def Told (texts : List Text) (codes : List (List Token)) : Part → Prop
  | .text s => s ∈ texts
  | .code tokens => tokens ∈ codes

/-- What is written besides elements: the `else` that an `if` lacks, newlines, and texts and code as children. -/
inductive Calm (C : Part → Prop) (v : View) : View → Prop where
  | resolve {mid : List Text} (hmid : Resolved v.output v.afterIf mid) : Calm C v ⟨mid, v.tags, false⟩
  | rows {ps : List Text} (hps : ∀ p ∈ ps, ∀ c ∈ p, c = '\n') : Calm C v { v with output := v.output ++ ps }
  | text {s : Text} (hafter : v.afterIf = false) (hs : C (.text s)) (afterCode beforeCode : Bool) :
      Calm C v ⟨v.output ++ [dataPiece (normalize s afterCode beforeCode)], bump v.tags, false⟩
  | code {tokens : List Token} (hafter : v.afterIf = false) (htokens : C (.code tokens)) :
      Calm C v ⟨v.output ++ [codePiece tokens (codeText tokens)], bump v.tags, false⟩

abbrev Calms (C : Part → Prop) : View → View → Prop := Relation.ReflTransGen (Calm C)

section

variable {C : Part → Prop} {v w : View} {b c : Builder} {a : Unit}

theorem Handled.calms {f s : Text} (h : Handled f v (.data s) w) (hs : C (.text s)) : Calms C v w := by
  cases h with
  | blank => exact .refl
  | data hmid afterCode beforeCode => exact .tail (.single (.resolve hmid)) (.text rfl hs _ _)
  | whole _ he => cases he

theorem Handled.data_cases {f s : Text} (h : Handled f v (.data s) w) : w = v ∨ w.afterIf = false := by
  cases h with
  | blank => exact .inl rfl
  | data => exact .inr rfl
  | whole _ he => cases he

theorem advanceTo_calms {row : Int} (h : advanceTo row b = .ok a c) : Calms C b.view c.view := by
  obtain ⟨-, rfl⟩ := (advanceTo_yields b row).of_ok h
  refine .single (.rows fun p hp d hd => ?_)
  split at hp
  · rw [List.map_singleton, List.mem_singleton] at hp
    rw [hp] at hd
    exact List.eq_of_mem_replicate hd
  · cases hp

def TakesCode (m : Machine) : Prop :=
  (m.state = .data ∨ m.state = .cdataSection) ∨ m.state = .beforeAttributeValue ∨ m.inValue = true

theorem readCode_calms {tokens : List Token} (hplace : TakesCode b.machine) (hdata : C (.text b.machine.data))
    (hcode : C (.code tokens)) (h : readCode tokens b = .ok a c) :
    Calms C b.view c.view ∧ c.textFunction = b.textFunction ∧ c.afterIf = false := by
  obtain ⟨first, last, d, e, -, -, hclose, hdown, hplaced⟩ := (readCode_yields tokens b).of_ok h
  obtain ⟨mid, hmid, rfl⟩ := (closeIf_yields b).of_ok hclose
  have hrows : Calms C b.view e.view := (Relation.ReflTransGen.single (.resolve hmid)).trans (advanceTo_calms hdown)
  obtain ⟨-, rfl⟩ := (advanceTo_yields _ _).of_ok hdown
  cases hplaced with
  | @child d _ hwrite =>
    obtain ⟨hhandled, hframed⟩ := (handle_yields _ (.data b.machine.data)).of_ok hwrite
    have hafter : d.afterIf = false := hhandled.data_cases.elim (congrArg View.afterIf) id
    have hchild : Calm C d.view ⟨d.view.output ++ [codePiece tokens (codeText tokens)], bump d.openTags, false⟩ :=
      .code hafter hcode
    refine ⟨(hrows.trans (hhandled.calms hdata)).tail ?_, hframed.textFunction, hafter⟩
    simpa [view, hafter] using hchild
  | value => exact ⟨hrows, rfl, rfl⟩
  | nowhere hchild hvalue => exact (hplace.elim hchild hvalue).elim

end

/-! ### Runs -/

/-- What a builder is given: a character, a row to go down to, a place, a comment, or code. -/
inductive Input where
  | char (c : Char)
  | rows (row : Int)
  | place (p : Pos)
  | comment (s : Text)
  | code (tokens : List Token)

namespace Input

def perform : Input → Build Unit
  | .char c => readChar c relocate
  | .rows row => advanceTo row
  | .place p => modify fun b => { b with stop := p }
  | .comment s => push s
  | .code tokens => readCode tokens

def Fits (b : Builder) : Input → Prop
  | .comment s => s.head? = some '#'
  | .code _ => TakesCode b.machine
  | _ => True

instance (b : Builder) : DecidablePred (Fits b)
  | .comment s => inferInstanceAs (Decidable (s.head? = some '#'))
  | .code _ => inferInstanceAs (Decidable ((_ ∨ _) ∨ _))
  | .char _ | .rows _ | .place _ => .isTrue trivial

end Input

/-- What a builder has been told: the events, the code, the comments with their places in the output, and where
the conditions end of those `if`s that stand in an element. -/
structure Log where
  events : List Event := []
  codes : List (List Token) := []
  comments : List (Nat × Text) := []
  conditions : List Nat := []

def endsIf : Event → Bool
  | .finish tag | .startEnd tag _ => tag = some "if".toList
  | _ => false

def Log.note (log : Log) (b c : Builder) : Input → Log
  | .char ch => match b.machine.step ch with
    | .event _ e _ => { log with
        events := log.events ++ [e]
        conditions := log.conditions ++ if endsIf e && !c.openTags.isEmpty then [c.output.size - 1] else [] }
    | _ => log
  | .comment s => { log with comments := log.comments ++ [(b.output.size, s)] }
  | .code tokens => { log with events := log.events ++ [.data b.machine.data], codes := log.codes ++ [tokens] }
  | _ => log

def feed (s : Log × Builder) (i : Input) : Option (Log × Builder) :=
  if s.2.isDone = false ∧ i.Fits s.2 then
    match i.perform s.2 with
    | .ok _ c => some (s.1.note s.2 c i, c)
    | .error _ _ => none
  else none

def feedEach (start : Pos) (function : Text) (inputs : List Input) : Option (Log × Builder) :=
  inputs.foldlM feed ({}, begin start function)

inductive Advances (function : Text) (log : Log) (v : View) : Log → View → Prop where
  | calm {w : View} (texts : List Text) (codes : List (List Token)) (h : Calms (Told texts codes) v w) :
      Advances function log v { log with events := log.events ++ texts.map .data, codes := log.codes ++ codes } w
  | comment {s : Text} (hs : s.head? = some '#') : Advances function log v
      { log with comments := log.comments ++ [(v.output.length, s)] } { v with output := v.output ++ [s] }
  | event {e : Event} {w : View} (h : Handled function v e w) : Advances function log v { log with
        events := log.events ++ [e]
        conditions := log.conditions ++ if endsIf e && !w.tags.isEmpty then [w.output.length - 1] else [] } w

theorem perform_advances (log : Log) {b c : Builder} {i : Input} (hfits : i.Fits b) (h : i.perform b = .ok () c) :
    Advances b.textFunction log b.view (log.note b c i) c.view ∧ c.textFunction = b.textFunction := by
  have hstill {w : View} (h : Calms (Told [] []) b.view w) : Advances b.textFunction log b.view log w := by
    have hcalm : Advances b.textFunction log b.view _ w := .calm [] [] h
    simpa using hcalm
  cases i with
  | char ch =>
    cases readsChar_of_ok h with
    | quiet hstep =>
      have hnote (c : Builder) : log.note b c (.char ch) = log := by simp [Log.note, hstep]
      rw [hnote]
      exact ⟨hstill .refl, rfl⟩
    | @event during after e d hstep hhandle =>
      have hnote : log.note b { d with machine := after } (.char ch) = { log with
          events := log.events ++ [e]
          conditions := log.conditions ++
            if endsIf e && !d.view.tags.isEmpty then [d.view.output.length - 1] else [] } := by
        simp [Log.note, hstep, view]
      obtain ⟨hhandled, hframed⟩ := (handle_yields { b with machine := during } e).of_ok hhandle
      rw [hnote]
      exact ⟨.event hhandled, hframed.textFunction⟩
  | rows row =>
    refine ⟨hstill (advanceTo_calms h), ?_⟩
    obtain ⟨-, rfl⟩ := (advanceTo_yields b row).of_ok h
    rfl
  | place p =>
    cases h
    exact ⟨hstill .refl, rfl⟩
  | comment s =>
    cases h
    have hcomment : Advances b.textFunction log b.view _ _ := .comment hfits
    exact ⟨by simpa [view, Log.note] using hcomment, rfl⟩
  | code tokens =>
    obtain ⟨hcalm, hfunction, -⟩ := readCode_calms (C := Told [b.machine.data] [tokens]) hfits (List.mem_singleton.2 rfl)
      (List.mem_singleton.2 rfl) h
    exact ⟨.calm [b.machine.data] [tokens] hcalm, hfunction⟩

theorem perform_enclosed {b c : Builder} {i : Input} (hb : Enclosed b) (hfits : i.Fits b)
    (h : i.perform b = .ok () c) (hopen : c.isDone = false) : Enclosed c := by
  intro htags
  cases i with
  | char ch =>
    cases readsChar_of_ok h with
    | quiet hstep => exact hb htags
    | @event during after e d hstep hhandle =>
      by_cases hstate : b.machine.state = .data
      · rw [Machine.step, hstate] at hstep
        dsimp only at hstep
        split at hstep
        · cases hstep
          obtain ⟨hhandled, -⟩ := (handle_yields _ _).of_ok hhandle
          rcases hhandled.data_cases with hsame | hafter
          · have htags : d.view.tags = [] := htags
            rw [hsame] at htags
            exact (congrArg View.afterIf hsame).trans (hb htags)
          · exact hafter
        · cases hstep
      · have hreturns := Machine.step_returns ch hstate
        rw [hstep] at hreturns
        have hemits : d.output ≠ #[] := Array.size_pos_iff.1 (emits_handle hreturns.2.2 hhandle)
        have hnone : d.openTags = [] := htags
        simp [isDone, hnone, hreturns.1, hemits] at hopen
  | rows row =>
    obtain ⟨-, rfl⟩ := (advanceTo_yields b row).of_ok h
    exact hb htags
  | place p | comment s =>
    cases h
    exact hb htags
  | code tokens => exact (readCode_calms (C := fun _ => True) hfits trivial trivial h).2.2

theorem feedEach_advances {start : Pos} {function : Text} {P : Log → View → Prop} (hbegin : P {} ⟨[], [], false⟩)
    (hstep : ∀ log v log' w, P log v → Advances function log v log' w → P log' w) {inputs : List Input} {log : Log}
    {b : Builder} (h : feedEach start function inputs = some (log, b)) :
    P log b.view ∧ (b.isDone = false → Enclosed b) := by
  have hall (inputs : List Input) (s t : Log × Builder) (hs : P s.1 s.2.view) (hin : s.2.isDone = false → Enclosed s.2)
      (hfunction : s.2.textFunction = function) (h : inputs.foldlM feed s = some t) :
      P t.1 t.2.view ∧ (t.2.isDone = false → Enclosed t.2) := by
    induction inputs generalizing s with
    | nil =>
      cases h
      exact ⟨hs, hin⟩
    | cons i inputs ih =>
      obtain ⟨u, hu, h⟩ := Option.bind_eq_some_iff.1 h
      unfold feed at hu
      split at hu
      · rename_i hfits
        split at hu
        · rename_i hperform
          cases hu
          obtain ⟨hadvances, hsame⟩ := perform_advances s.1 hfits.2 hperform
          exact ih _ (hstep _ _ _ _ hs (hfunction ▸ hadvances)) (perform_enclosed (hin hfits.1) hfits.2 hperform)
            (hsame.trans hfunction) h
        · cases hu
      · cases hu
  exact hall inputs _ (log, b) hbegin (fun _ _ => rfl) rfl h

end InlineMarkup.Markup.Builder

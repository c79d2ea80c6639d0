import InlineMarkup.Proofs.Restoring
import InlineMarkup.Proofs.SourceKept

/-!
How much of a source is read. Translating and restoring both pass on what stands outside markup and outside
calls, token by token. Main statement: each comes to the end of the tokens unless a bracket is closed that
was not opened; it then stops there without a fault.
-/
namespace InlineMarkup

namespace Translate

/-! ### What a step passes on -/

def passedOn (before after : Config) : List Token :=
  match before.frames, after.frames with
  | [.code _], [.code _] => before.stream.next.1.toList
  | before, after => literalMade before after

inductive Alternates : List Frame → Prop where
  | outermost (c : Code) : Alternates [.code c]
  | literal (l : Literal) {c : Code} {rest : List Frame} (h : Alternates (.code c :: rest)) :
      Alternates (.literal l :: .code c :: rest)
  | code (c : Code) {l : Literal} {rest : List Frame} (h : Alternates (.literal l :: rest)) :
      Alternates (.code c :: .literal l :: rest)

variable {before after : Config} {mode : Mode}

theorem produced_cons (f g : Frame) (rest : List Frame) : produced (f :: g :: rest) = produced (g :: rest) := by
  rw [produced]
  simp

theorem passedOn_of_length (h : after.frames.length ≠ 1) : passedOn before after = [] := by
  unfold passedOn
  split
  · rename_i c c' hbefore hafter
    rw [hafter] at h
    exact absurd rfl h
  · exact literalMade_of_length _ h

theorem step_passes (h : Alternates before.frames) (hstep : step mode before = .ok after) :
    Alternates after.frames ∧
      (produced after.frames).toList = (produced before.frames).toList ++ passedOn before after := by
  have hinner {before after : Config} (hafter : Alternates after.frames) (hlength : after.frames.length ≠ 1)
      (hmade : produced after.frames = produced before.frames) : Alternates after.frames ∧
        (produced after.frames).toList = (produced before.frames).toList ++ passedOn before after :=
    ⟨hafter, by rw [passedOn_of_length hlength, List.append_nil, hmade]⟩
  cases step_steps hstep with
  | take depth significant hnext =>
    cases h with
    | outermost => exact ⟨.outermost _, by simp [produced, passedOn, Code.add, hnext]⟩
    | code _ h => exact hinner (.code _ h) (by simp) (by simp only [produced_cons])
  | begin =>
    cases h with
    | outermost => exact hinner (.literal _ (.outermost _)) (by simp) rfl
    | code _ h => exact hinner (.literal _ (.code _ h)) (by simp) (by simp only [produced_cons])
  | leave =>
    cases h with
    | code _ h =>
      cases h with
      | literal _ h => exact hinner (.literal _ h) (by simp) (by simp only [produced_cons])
  | feed | keep | remark | again =>
    cases h with
    | literal _ h => exact hinner (.literal _ h) (by simp) (by simp only [produced_cons])
  | enter =>
    cases h with
    | literal _ h => exact hinner (.code _ (.literal _ h)) (by simp) (by simp only [produced_cons])
  | close | stop =>
    cases h with
    | literal _ h =>
      cases h with
      | outermost => exact ⟨.outermost _, by simp [produced, passedOn, literalMade, Code.add]⟩
      | code _ h => exact hinner (.code _ h) (by simp) (by simp only [produced_cons])

theorem Run.passes {final : Config} {steps : List (Config × Config)}
    (hrun : Run mode before steps final) (h : Alternates before.frames) :
    Alternates final.frames ∧ (produced final.frames).toList =
      (produced before.frames).toList ++ steps.flatMap fun s => passedOn s.1 s.2 := by
  induction hrun with
  | refl => exact ⟨h, by simp⟩
  | next hstep _ ih =>
    obtain ⟨hmid, hmade⟩ := step_passes h hstep
    obtain ⟨hfinal, hrest⟩ := ih hmid
    refine ⟨hfinal, ?_⟩
    rw [hrest, hmade, List.flatMap_cons, List.append_assoc]

/-! ### Where a run stops -/

theorem Alternates.stop {config : Config} {made : Array Token} (h : Alternates config.frames)
    (hstop : step mode config = .error (made, none)) :
    ∃ c, config.frames = [.code c] ∧ made = c.made ∧ ∀ t ∈ config.stream.next.1,
      t.isOp ['\x7d'] = true ∧ c.depth ≤ 0 := by
  cases step_stops hstop with
  | none => cases h
  | @atEnd _ _ c hnext => exact ⟨c, rfl, rfl, by simp [hnext]⟩
  | @brace _ _ c _ _ hnext hop hdepth houter =>
    cases h with
    | outermost => exact ⟨c, rfl, rfl, by simp [hnext, hop, hdepth]⟩
    | code => exact absurd rfl (houter _ _)
  | literal houter =>
    cases h with
    | literal => exact absurd rfl (houter _ _)

theorem step_outermost {c : Code} (hbefore : before.frames = [.code c]) (hstep : step mode before = .ok after) :
    ∃ t, before.stream.next.1 = some t ∧
      (passedOn before after = [t] ∨ t.isOp ['<'] = true ∧ opensAfter c.last = true) := by
  obtain ⟨stream, frames⟩ := before
  subst hbefore
  cases step_steps hstep with
  | @take _ _ _ t _ _ _ hnext => exact ⟨t, by rw [hnext], .inl (by simp [passedOn, hnext])⟩
  | @begin _ _ _ t _ _ _ hnext hop hopens => exact ⟨t, by rw [hnext], .inr ⟨hop, hopens⟩⟩

end Translate

theorem eq_ok_of_toOption {x : Except Fault Text} {out : Text} (h : x.toOption = some out) : x = .ok out := by
  cases x with
  | error f => cases h
  | ok s =>
    cases h
    rfl

theorem restore_ok {source out : Text} (h : restore source = .ok out) :
    ∃ made, Restore.run {} (tokenize (Text.lines source)) = (made, none) ∧
      Layout.file (made.toList.map Token.trimNewline) = .ok out := by
  obtain ⟨hnone, hfile⟩ := Translate.renderResult_ok h
  exact ⟨_, Prod.ext rfl hnone, hfile⟩

open Translate Restore in
/-- Where a source is cut short. A translation that succeeds has taken tokens one by one, has passed on
each token outside markup, and has come to the end of the tokens or to a brace that closes nothing;
what comes after that is not in the result. A source that is restored has passed on each token
outside calls, up to the end, where the front of a call is dropped, or up to a bracket that closes
nothing. -/
theorem truncated_only_at_brackets (mode : Mode) (source : Text) :
    (∀ out, translate mode source = .ok out → ∃ steps final,
      Translate.Run mode (Translate.start source) steps final ∧
      Layout.file ((steps.flatMap fun s => passedOn s.1 s.2).map Token.trimNewline) = .ok out ∧
      (∀ s ∈ steps, ∀ c, s.1.frames = [.code c] → ∃ t, s.1.stream.next.1 = some t ∧
        (passedOn s.1 s.2 = [t] ∨ t.isOp ['<'] = true ∧ opensAfter c.last = true)) ∧
      ∃ c, final.frames = [.code c] ∧ ∀ t ∈ final.stream.next.1, t.isOp ['\x7d'] = true ∧ c.depth ≤ 0) ∧
    (∀ out, restore source = .ok out → ∃ passed kept left made,
      tokenize (Text.lines source) = passed ++ (kept ++ left) ∧ Passed passed made ∧
      Layout.file (made.map Token.trimNewline) = .ok out ∧
      ((Front kept ∧ left = []) ∨ (kept = [] ∧ depthAfter passed = 0 ∧
        ∃ t more, left = t :: more ∧ isBracket t "\x7d)]".toList = true))) := by
  constructor
  · intro out h
    obtain ⟨made, hrun, hfile⟩ := translate_ok h
    obtain ⟨steps, final, hsteps, hstop⟩ := exists_run hrun
    obtain ⟨hframes, hmade⟩ := hsteps.passes (.outermost {})
    obtain ⟨c, hcode, rfl, hend⟩ := hframes.stop hstop
    refine ⟨steps, final, hsteps, ?_, fun s hs c hc => step_outermost hc (hsteps.step_of_mem hs), c, hcode, hend⟩
    have hsame : c.made.toList = steps.flatMap fun s => passedOn s.1 s.2 := by
      rw [hcode] at hmade
      simpa [produced, Translate.start] using hmade
    rw [← hsame]
    exact hfile
  · intro out h
    obtain ⟨made, hrun, hfile⟩ := restore_ok h
    obtain ⟨passed, kept, left, htokens, hpassed, hend⟩ := run_passed .start hrun
    exact ⟨passed, kept, left, made.toList, htokens, hpassed, hfile, hend⟩

def strayBrace : Text := "a = 1 \x7d\nb = 2\n".toList

/-- The text up to the brace is all that is left of it, and nothing is said. -/
theorem cut_at_strayBrace : (translate {} strayBrace).toOption = some "a = 1".toList ∧
      (restore strayBrace).toOption = some "a = 1".toList := by
  decide +kernel

open Translate Restore in
theorem truncated_only_at_brackets_strayBrace :
    (∃ steps final, Translate.Run {} (Translate.start strayBrace) steps final ∧
      Layout.file ((steps.flatMap fun s => passedOn s.1 s.2).map Token.trimNewline) = .ok "a = 1".toList ∧
      (∀ s ∈ steps, ∀ c, s.1.frames = [.code c] → ∃ t, s.1.stream.next.1 = some t ∧
        (passedOn s.1 s.2 = [t] ∨ t.isOp ['<'] = true ∧ opensAfter c.last = true)) ∧
      ∃ c, final.frames = [.code c] ∧ ∀ t ∈ final.stream.next.1, t.isOp ['\x7d'] = true ∧ c.depth ≤ 0) ∧
    (∃ passed kept left made, tokenize (Text.lines strayBrace) = passed ++ (kept ++ left) ∧
      Passed passed made ∧ Layout.file (made.map Token.trimNewline) = .ok "a = 1".toList ∧
      ((Front kept ∧ left = []) ∨ (kept = [] ∧ depthAfter passed = 0 ∧
        ∃ t more, left = t :: more ∧ isBracket t "\x7d)]".toList = true))) := by
  have htranslate : translate {} strayBrace = .ok "a = 1".toList := eq_ok_of_toOption (by decide +kernel)
  have hrestore : restore strayBrace = .ok "a = 1".toList := eq_ok_of_toOption (by decide +kernel)
  have h := truncated_only_at_brackets {} strayBrace
  exact ⟨h.1 _ htranslate, h.2 _ hrestore⟩

end InlineMarkup

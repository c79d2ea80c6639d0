import InlineMarkup.Proofs.Stepping

/-!
Where markup ends inside a token. Main statement: a token fed to markup that is open is read up to the `>` that closes
the outermost tag, and what is left of it is kept as a token that starts there; the parts in which a token is fed make
up its text, each starting where the one before it stops.
-/
namespace InlineMarkup

open Markup Translate

namespace Markup.Builder

/-- A builder that has read a `<`, and tokens, comments, code and the places of braces after it while it was open. -/
inductive Reached : Builder → Prop
  | opened {t : Token} {textFunction : Text} {b : Builder} (ht : t.isOp ['<'] = true)
      (hread : read t (begin t.start textFunction) = .ok () b) : Reached b
  | took {b c : Builder} {action : Build Unit} (h : Reached b) (hopen : b.isDone = false)
      (haction : (∃ t, action = read t ∨ action = passOver t ∨ action = readComment t) ∨ ∃ tokens, action = readCode tokens)
      (htook : action b = .ok () c) : Reached c

variable {b c : Builder} {t : Token}

theorem Reached.begun (h : Reached b) : b.Begun := by
  induction h with
  | opened ht hread => exact (read_begin ht hread).begun
  | @took b _ _ _ hopen haction htook ih =>
    have hb : Open b.start b := ⟨rfl, ih, hopen⟩
    obtain ⟨t, rfl | rfl | rfl⟩ | ⟨tokens, rfl⟩ := haction
    · exact (read_ok htook ih hopen).2.1
    · exact (leavesOpen_passOver t _ _ _ _ hb htook).begun
    · exact (leavesOpen_readComment t _ _ _ _ hb htook).begun
    · exact (leavesOpen_readCode tokens _ _ _ _ hb htook).begun

/-- A token is read from its start, up to the first `>` after which the markup is complete or to its end. -/
theorem read_first (hb : b.Begun) (hn : b.isDone = false) (hkind : t.kind ≠ .indent) (hskips : skips t = false)
    (h : read t b = .ok () c) : ∃ e d front rest, arrive t b = .ok () e ∧ t.text = front ++ rest ∧
      readText front e = .ok [] d ∧ c = leave t rest d ∧ d.stop = t.start.advance front ∧
      (∀ x y, front = x ++ y → y ≠ [] → ∃ d, readText x e = .ok [] d ∧ d.isDone = false) ∧
      if d.isDone then front.getLast? = some '>' else rest = [] := by
  cases readsToken_of_ok h with
  | passed hpassed => exact absurd (hskips.symm.trans hpassed) Bool.false_ne_true
  | @taken e d rest _ harrive htext =>
    rw [if_neg hkind] at htext
    obtain ⟨hat, -, he, hen⟩ := arrive_open harrive ⟨rfl, hb, hn⟩
    obtain ⟨-, -, front, hfront, hstop, hread, hfirst, hlast⟩ := readText_ok htext he hen
    exact ⟨e, d, front, rest, harrive, hfront, hread, rfl, hat ▸ hstop, hfirst, hlast⟩

end Markup.Builder

/-- Two tokens that a token is split into: one after the other they have its text, and each starts where it should. -/
structure Token.Splits (t first rest : Token) : Prop where
  text : first.text ++ rest.text = t.text
  start : first.start = t.start
  firstStop : first.stop = first.start.advance first.text
  restStart : rest.start = first.stop
  stop : rest.stop = t.stop

namespace Translate

theorem splits_splitToken (t : Token) (n : Nat) : t.Splits (splitToken t n).1 (splitToken t n).2 :=
  ⟨List.take_append_drop n t.text, rfl, rfl, rfl, rfl⟩

variable {mode : Mode} {s : Stream} {l : Literal} {t : Token} {outer : List Frame}

theorem enterCode_splits {after : Config} (h : enterCode s l t outer = .ok after) : ∃ brace rest b, t.Splits brace rest ∧
    (Builder.passOver brace).run l.builder = .ok () b ∧ (Stream.rewind rest).run s = .ok () after.stream := by
  unfold enterCode at h
  dsimp only at h
  split at h
  · exact absurd h (by simp [stop])
  rename_i b hpass
  split at h
  · exact absurd h (by simp [stop])
  rename_i s' hrewind
  cases h
  exact ⟨_, _, b, splits_splitToken t 1, hpass, hrewind⟩

/-- A token in markup is read whole or in part, begins code after a brace, or is kept whole as a comment or to be scanned
anew. -/
def GoesInParts (mode : Mode) (s : Stream) (l : Literal) (t : Token) (outer : List Frame) : Prop :=
  (∃ first rest s', (first = t ∧ s' = s ∨ t.Splits first rest ∧ s' = s.unshift rest) ∧
    literalToken mode s l t outer = feedLiteral mode s' l first outer) ∨
  (literalToken mode s l t outer = enterCode s l t outer ∧ ∀ after, enterCode s l t outer = .ok after →
    ∃ brace rest b, t.Splits brace rest ∧ (Builder.passOver brace).run l.builder = .ok () b ∧
      (Stream.rewind rest).run s = .ok () after.stream) ∨
  moveOf s l.builder t = .remark ∨ moveOf s l.builder t = .again

theorem goesInParts_literalToken : GoesInParts mode s l t outer := by
  unfold GoesInParts
  rw [literalToken_eq]
  have hmoves := moves_moveOf s l.builder t
  cases hmove : moveOf s l.builder t with
  | feed s' u =>
    rw [hmove] at hmoves
    refine .inl ?_
    cases hmoves with
    | whole => exact ⟨t, t, s, .inl ⟨rfl, rfl⟩, rfl⟩
    | mark =>
      refine ⟨_, { (splitToken t 1).2 with kind := .error }, _, .inr ⟨?_, rfl⟩, rfl⟩
      exact ⟨(splits_splitToken t 1).text, rfl, rfl, rfl, rfl⟩
    | @part n => exact ⟨_, _, _, .inr ⟨splits_splitToken t n, rfl⟩, rfl⟩
  | enter => exact .inr (.inl ⟨rfl, fun _ => enterCode_splits⟩)
  | remark => exact .inr (.inr (.inl rfl))
  | again => exact .inr (.inr (.inr rfl))

/-- Nothing of a token is lost where markup ends in it. Markup that becomes complete has read the token's text up to a
`>`, and no less of it completes the markup; the rest starts where that `>` stops. Markup that stays open has read all
of the text. And the parts in which a token goes to markup, at a brace or a `#`, make up the token. -/
theorem markup_ends_inside_token :
    (∀ b c t, Builder.Reached b → b.isDone = false → t.kind ≠ .indent → t.isOp ['\\'] = false →
      ¬(t.kind = .error ∧ t.text = [' ']) → Builder.read t b = .ok () c →
      ∃ e d front rest, Builder.arrive t b = .ok () e ∧ t.text = front ++ rest ∧
        Builder.readText front e = .ok [] d ∧ c = Builder.leave t rest d ∧
        (∀ x y, front = x ++ y → y ≠ [] → ∃ d, Builder.readText x e = .ok [] d ∧ d.isDone = false) ∧
        if c.isDone then front.getLast? = some '>' ∧ c.stop = t.start.advance front ∧
          c.remainder = some { t with text := rest, start := t.start.advance front }
        else rest = [] ∧ c.stop = t.stop) ∧
    ∀ mode s l t outer, GoesInParts mode s l t outer := by
  refine ⟨fun b c t hreached hopen hkind hjoin hblank h => ?_, fun _ _ _ _ _ => goesInParts_literalToken⟩
  obtain ⟨e, d, front, rest, harrive, htext, hread, rfl, hstop, hfirst, hlast⟩ :=
    Builder.read_first hreached.begun hopen hkind (by simpa [Builder.skips, hjoin] using hblank) h
  refine ⟨e, d, front, rest, harrive, htext, hread, rfl, hfirst, ?_⟩
  unfold Builder.leave
  by_cases hdone : d.isDone = true
  · rw [if_pos hdone] at hlast ⊢
    rw [if_pos (by exact hdone), ← hstop]
    exact ⟨hlast, rfl, rfl⟩
  · rw [if_neg hdone] at hlast ⊢
    rw [if_neg (by exact hdone)]
    exact ⟨hlast, rfl⟩

def tagMark : Token := ⟨.op, ['<'], ⟨1, 0⟩, ⟨1, 1⟩, []⟩

def tagTail : Token := ⟨.string, "a\n/>, b".toList, ⟨1, 1⟩, ⟨2, 5⟩, []⟩

theorem markup_ends_inside_token_rows : ∃ b c, Builder.Reached b ∧ Builder.read tagTail b = .ok () c ∧ c.isDone = true ∧
    ∃ front rest, tagTail.text = front ++ rest ∧
      c.remainder = some { tagTail with text := rest, start := tagTail.start.advance front } := by
  let b : Builder := { Builder.begin tagMark.start [] with machine := { state := .tagOpen }, stop := tagMark.stop }
  have hreached : Builder.Reached b := @Builder.Reached.opened tagMark [] b rfl rfl
  obtain ⟨c, hread, hdone⟩ : ∃ c, Builder.read tagTail b = .ok () c ∧ c.isDone = true := ⟨_, rfl, rfl⟩
  obtain ⟨e, d, front, rest, -, htext, -, -, -, hends⟩ :=
    markup_ends_inside_token.1 b c tagTail hreached rfl (by decide) (by decide) (by decide) hread
  rw [if_pos hdone] at hends
  exact ⟨b, c, hreached, hread, hdone, front, rest, htext, hends.2.2⟩

end Translate

end InlineMarkup

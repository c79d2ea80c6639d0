import InlineMarkup.Proofs.Builder
import InlineMarkup.Translate

/-!
What a step of the translator does. A token in code is taken, begins markup or ends the code; a token in
markup is fed to it whole or in part, begins code, is kept as a comment, or is scanned anew. Main statement:
a step that goes on does one of these.
-/
namespace InlineMarkup.Translate

open Markup

/-! ### What a token does to markup -/

/-- What is to be done with a token in markup: to feed it or its front, to begin code, to keep a comment, or
to scan it anew. -/
inductive Move where
  | feed (s : Stream) (u : Token)
  | enter
  | remark
  | again

def moveOf (s : Stream) (b : Builder) (t : Token) : Move :=
  match t.text with
  | [] => .feed s t
  | c :: _ =>
    if c = '\x7b' then if b.codeAllowed then .enter else .feed s t
    else if t.kind = .comment then
      if b.commentAllowed then .remark
      else .feed (s.unshift { (splitToken t 1).2 with kind := .error }) (splitToken t 1).1
    else if c = '#' then .again
    else
      let n := (t.text.takeWhile fun c => c != '#' && c != '\x7b').length
      if n < t.text.length then .feed (s.unshift (splitToken t n).2) (splitToken t n).1 else .feed s t

/-- What a move says about the token. -/
inductive Moves (s : Stream) (b : Builder) (t : Token) : Move → Prop where
  | whole (hhash : t.kind = .comment ∨ t.text.head? ≠ some '#') : Moves s b t (.feed s t)
  | mark (htext : t.text ≠ []) (hkind : t.kind = .comment) :
      Moves s b t (.feed (s.unshift { (splitToken t 1).2 with kind := .error }) (splitToken t 1).1)
  | part {n : Nat} {d : Char} {rest : Text} (hkind : t.kind ≠ .comment) (hhash : t.text.head? ≠ some '#') (hn : 0 < n)
      (hrest : t.text.drop n = d :: rest) (hd : d = '#' ∨ d = '\x7b') :
      Moves s b t (.feed (s.unshift (splitToken t n).2) (splitToken t n).1)
  | enter {more : Text} (htext : t.text = '\x7b' :: more) : Moves s b t .enter
  | remark (hkind : t.kind = .comment) (hallowed : b.commentAllowed = true) (htext : t.text ≠ [])
      (hbrace : t.text.head? ≠ some '\x7b') : Moves s b t .remark
  | again {more : Text} (htext : t.text = '#' :: more) (hkind : t.kind ≠ .comment) : Moves s b t .again

theorem moves_moveOf (s : Stream) (b : Builder) (t : Token) : Moves s b t (moveOf s b t) := by
  unfold moveOf
  split
  · rename_i htext
    exact .whole (.inr (by simp [htext]))
  rename_i c more htext
  split_ifs with hbrace hcode hcomment hallowed hhash
  · exact .enter (htext.trans (by rw [hbrace]))
  · exact .whole (.inr (by simp [htext, hbrace]))
  · exact .remark hcomment hallowed (by simp [htext]) (by simpa [htext] using hbrace)
  · exact .mark (by simp [htext]) hcomment
  · exact .again (htext.trans (by rw [hhash])) hcomment
  · dsimp only
    split_ifs with hn
    · -- the rest begins where the marks do
      have hdrop : t.text.drop (t.text.takeWhile fun c => c != '#' && c != '\x7b').length =
          t.text.dropWhile fun c => c != '#' && c != '\x7b' :=
        (congrArg (List.drop _) t.text.takeWhile_append_dropWhile.symm).trans List.drop_left
      have hne := List.ne_nil_of_length_pos (List.length_drop ▸ Nat.sub_pos_of_lt hn)
      obtain ⟨d, rest, hrest⟩ := List.exists_cons_of_ne_nil hne
      have hmark := List.head?_dropWhile_not (fun c => c != '#' && c != '\x7b') t.text
      rw [← hdrop, hrest] at hmark
      refine .part hcomment (by simpa [htext] using hhash) ?_ hrest (by simpa [or_iff_not_imp_left] using hmark)
      simp [htext, hbrace, hhash]
    · exact .whole (.inr (by simpa [htext] using hhash))

section

variable {mode : Mode} {s s' : Stream} {l : Literal} {b : Builder} {t u : Token} {outer : List Frame}
  {final before after : Config}

theorem moveOf_feed (h : moveOf s b t = .feed s' u) : Moves s b t (.feed s' u) := h ▸ moves_moveOf s b t

theorem moveOf_enter (h : moveOf s b t = .enter) : ∃ more, t.text = '\x7b' :: more := by
  cases h ▸ moves_moveOf s b t with
  | enter htext => exact ⟨_, htext⟩

theorem moveOf_remark (h : moveOf s b t = .remark) : t.kind = .comment ∧ b.commentAllowed = true ∧
    t.text ≠ [] ∧ t.text.head? ≠ some '\x7b' := by
  cases h ▸ moves_moveOf s b t with
  | remark hkind hallowed htext hbrace => exact ⟨hkind, hallowed, htext, hbrace⟩

theorem moveOf_again (h : moveOf s b t = .again) : ∃ more, t.text = '#' :: more ∧ t.kind ≠ .comment := by
  cases h ▸ moves_moveOf s b t with
  | again htext hkind => exact ⟨_, htext, hkind⟩

theorem literalToken_eq : literalToken mode s l t outer = match moveOf s l.builder t with
    | .feed s' u => feedLiteral mode s' l u outer
    | .enter => enterCode s l t outer
    | .remark =>
      if mode.reversible then .ok ⟨s, .literal { l with pieces := l.pieces.push (sanitize t) } :: outer⟩
      else match (Builder.readComment t).run l.builder with
        | .error f _ => stop outer f
        | .ok _ builder => .ok ⟨s, .literal { l with builder } :: outer⟩
    | .again =>
      match (Stream.rewind t).run s with
      | .error f _ => stop outer f
      | .ok _ s => .ok ⟨s, .literal l :: outer⟩ := by
  unfold literalToken moveOf
  rcases htext : t.text with _ | ⟨c, more⟩
  · rfl
  · dsimp only
    split_ifs <;> rfl

/-! ### Markup that has ended -/

/-- What is left of the token in which markup ended is put back, if something is left, and taken off the
markup where that is kept. -/
inductive PutsBack (mode : Mode) (s : Stream) (l : Literal) : Stream → Literal → Prop where
  | nothing (hr : l.builder.remainder = none) : PutsBack mode s l s l
  | kept {r : Token} {s₁ : Stream} (hr : l.builder.remainder = some r) (hrun : (Stream.rewind r).run s = .ok () s₁)
      (hkept : mode.reversible = false ∨ r.text = []) : PutsBack mode s l s₁ l
  | trimmed {r : Token} {s₁ : Stream} (hr : l.builder.remainder = some r) (hrun : (Stream.rewind r).run s = .ok () s₁)
      (hmode : mode.reversible = true) (hbraces : ∀ c ∈ r.text, c ≠ '\x7b' ∧ c ≠ '\x7d') :
      PutsBack mode s l s₁ (trimLast l r)

variable {s₁ : Stream} {l₁ : Literal} {made : Array Token}

theorem putBack_ok (h : putBack mode s l = .ok (s₁, l₁)) : PutsBack mode s l s₁ l₁ := by
  unfold putBack at h
  split at h
  · rename_i hr
    cases h
    exact .nothing hr
  rename_i r hr
  split at h
  · cases h
  rename_i s₂ hrun
  split_ifs at h with hleft hbraces
  · cases h
    simp only [Bool.or_eq_true, not_or, List.contains_iff_mem] at hbraces
    exact .trimmed hr hrun (Bool.and_eq_true_iff.1 hleft).1 fun c hc =>
      ⟨fun he => hbraces.1 (he ▸ hc), fun he => hbraces.2 (he ▸ hc)⟩
  · cases h
    exact .kept hr hrun (by simpa [or_iff_not_imp_left] using hleft)

@[simp] theorem trimLast_builder (l : Literal) (r : Token) : (trimLast l r).builder = l.builder := by
  unfold trimLast
  split <;> rfl

@[simp] theorem takeComment_builder (s : Stream) (l : Literal) : (takeComment s l).2.builder = l.builder := by
  unfold takeComment
  split
  · rfl
  · split <;> rfl

theorem PutsBack.builder (h : PutsBack mode s l s₁ l₁) : l₁.builder = l.builder := by
  cases h with
  | nothing | kept => rfl
  | trimmed => exact trimLast_builder l _

theorem closeLiteral_ok {s₂ : Stream} {v : Token} (h : closeLiteral mode s l = .ok (s₂, v)) :
    ∃ s₁ l₁, PutsBack mode s l s₁ l₁ ∧ (mode.reversible = false ∧ s₂ = s₁ ∧ v = l.builder.token ∨
      mode.reversible = true ∧ s₂ = (takeComment s₁ l₁).1 ∧ ∃ form, reversibleForm (takeComment s₁ l₁).2 = .ok form ∧
        v = { l.builder.token with text := form }) := by
  unfold closeLiteral at h
  cases hback : putBack mode s l with
  | error f =>
    rw [hback] at h
    cases h
  | ok result =>
    obtain ⟨s₁, l₁⟩ := result
    have hputs := putBack_ok hback
    refine ⟨s₁, l₁, hputs, ?_⟩
    rw [hback] at h
    dsimp only [bind, Except.bind] at h
    split at h
    · rename_i hmode
      cases hform : reversibleForm (takeComment s₁ l₁).2 with
      | error f =>
        rw [hform] at h
        cases h
      | ok form =>
        rw [hform] at h
        cases h
        exact .inr ⟨hmode, rfl, form, rfl, by rw [takeComment_builder, hputs.builder]⟩
    · rename_i hmode
      cases h
      exact .inl ⟨Bool.eq_false_of_not_eq_true hmode, rfl, by rw [hputs.builder]⟩

/-! ### Steps -/

def Literal.fed (mode : Mode) (l : Literal) (b : Builder) (u : Token) : Literal :=
  { l with builder := b, pieces := if mode.reversible then l.pieces.push (sanitize u) else l.pieces }

def Literal.filled (mode : Mode) (l : Literal) (b : Builder) (c : Code) (t : Token) : Literal :=
  if mode.reversible then { l with
    builder := b
    pieces := l.pieces.push { t with text := ['\x7b', '\x7d'], start := l.brace.1, line := [] }
    fragments := l.fragments.push
      ([{ t with text := ['\x7b'], start := l.brace.1, stop := l.brace.2 }] ++ c.made.toList ++ [t]) }
  else { l with builder := b }

@[simp] theorem Literal.filled_builder (mode : Mode) (l : Literal) (b : Builder) (c : Code) (t : Token) :
    (l.filled mode b c t).builder = b := by
  unfold Literal.filled
  split <;> rfl

def shownCode (mode : Mode) (c : Code) (t : Token) : List Token :=
  (if mode.reversible then Token.dropComments c.made.toList else c.made.toList) ++ [{ t with text := [], start := t.stop }]

inductive Steps (mode : Mode) : Config → Config → Prop where
  | take {s s' : Stream} {c : Code} {t : Token} {outer : List Frame} (depth : Int) (significant : Bool)
      (hnext : s.next = (some t, s')) : Steps mode ⟨s, .code c :: outer⟩
        ⟨s', .code (({ c with depth } : Code).add t significant) :: outer⟩
  | begin {s s' : Stream} {c : Code} {t : Token} {outer : List Frame} {b : Builder} (depth : Int)
      (hnext : s.next = (some t, s')) (hop : t.isOp ['<'] = true) (hopens : opensAfter c.last = true)
      (hread : (Builder.read t).run (Builder.begin t.start mode.textFunction) = .ok () b) :
      Steps mode ⟨s, .code c :: outer⟩ ⟨s', .literal { builder := b, pieces := if mode.reversible then #[t] else #[] } ::
        .code { c with depth } :: outer⟩
  | leave {s s' : Stream} {c : Code} {l : Literal} {t : Token} {outer : List Frame} {b : Builder}
      (hnext : s.next = (some t, s')) (hop : t.isOp ['\x7d'] = true)
      (hread : (Builder.readCode (shownCode mode c t)).run l.builder = .ok () b) :
      Steps mode ⟨s, .code c :: .literal l :: outer⟩ ⟨s', .literal (l.filled mode b c t) :: outer⟩
  | feed {s s' s₁ : Stream} {l : Literal} {t u : Token} {outer : List Frame} {b : Builder}
      (hnext : s.next = (some t, s')) (hmove : moveOf s' l.builder t = .feed s₁ u)
      (hread : (Builder.read u).run l.builder = .ok () b) (hopen : b.isDone = false) :
      Steps mode ⟨s, .literal l :: outer⟩ ⟨s₁, .literal (l.fed mode b u) :: outer⟩
  | close {s s' s₁ s₂ : Stream} {l : Literal} {c : Code} {t u v : Token} {outer : List Frame} {b : Builder}
      (hnext : s.next = (some t, s')) (hmove : moveOf s' l.builder t = .feed s₁ u)
      (hread : (Builder.read u).run l.builder = .ok () b) (hdone : b.isDone = true)
      (hclose : closeLiteral mode s₁ (l.fed mode b u) = .ok (s₂, v)) :
      Steps mode ⟨s, .literal l :: .code c :: outer⟩ ⟨s₂, .code (c.add v true) :: outer⟩
  | enter {s s' s₁ : Stream} {l : Literal} {t : Token} {outer : List Frame} {b : Builder}
      (hnext : s.next = (some t, s')) (hmove : moveOf s' l.builder t = .enter)
      (hpass : (Builder.passOver (splitToken t 1).1).run l.builder = .ok () b)
      (hrun : (Stream.rewind (splitToken t 1).2).run s' = .ok () s₁) :
      Steps mode ⟨s, .literal l :: outer⟩ ⟨s₁, .code {} :: .literal { l with
        builder := b, brace := (t.start, (splitToken t 1).1.stop) } :: outer⟩
  | keep {s s' : Stream} {l : Literal} {t : Token} {outer : List Frame} (hmode : mode.reversible = true)
      (hnext : s.next = (some t, s')) (hmove : moveOf s' l.builder t = .remark) :
      Steps mode ⟨s, .literal l :: outer⟩ ⟨s', .literal { l with pieces := l.pieces.push (sanitize t) } :: outer⟩
  | remark {s s' : Stream} {l : Literal} {t : Token} {outer : List Frame} {b : Builder} (hmode : mode.reversible = false)
      (hnext : s.next = (some t, s')) (hmove : moveOf s' l.builder t = .remark)
      (hread : (Builder.readComment t).run l.builder = .ok () b) :
      Steps mode ⟨s, .literal l :: outer⟩ ⟨s', .literal { l with builder := b } :: outer⟩
  | again {s s' s₁ : Stream} {l : Literal} {t : Token} {outer : List Frame} (hnext : s.next = (some t, s'))
      (hmove : moveOf s' l.builder t = .again) (hrun : (Stream.rewind t).run s' = .ok () s₁) :
      Steps mode ⟨s, .literal l :: outer⟩ ⟨s₁, .literal l :: outer⟩
  | stop {s s' s₂ : Stream} {l : Literal} {c : Code} {v : Token} {outer : List Frame} (hnext : s.next = (none, s'))
      (hdone : l.builder.isDone = true) (hclose : closeLiteral mode s' l = .ok (s₂, v)) :
      Steps mode ⟨s, .literal l :: .code c :: outer⟩ ⟨s₂, .code (c.add v true) :: outer⟩

theorem leaveLiteral_ok (h : leaveLiteral mode s l outer = .ok final) : ∃ c rest s₂ v, outer = .code c :: rest ∧
    closeLiteral mode s l = .ok (s₂, v) ∧ final = ⟨s₂, .code (c.add v true) :: rest⟩ := by
  unfold leaveLiteral at h
  split at h
  · cases h
  rename_i s₂ v hclose
  split at h
  · rename_i c rest
    cases h
    exact ⟨c, rest, s₂, v, rfl, hclose, rfl⟩
  · cases h

theorem codeToken_steps {c : Code} (hnext : s.next = (some t, s')) (h : codeToken mode s' c t outer = .ok final) :
    Steps mode ⟨s, .code c :: outer⟩ final := by
  unfold codeToken at h
  dsimp only at h
  generalize (if t.isOp ['\x7b'] = true then c.depth + 1
    else if t.isOp ['\x7d'] = true then c.depth - 1 else c.depth) = depth at h
  split at h
  · rename_i hbrace
    split at h
    · unfold leaveCode at h
      dsimp only at h
      split at h
      · cases h
      rename_i b hread
      cases h
      exact .leave hnext (Bool.and_eq_true_iff.1 hbrace).1 hread
    · cases h
  split at h
  · rename_i hmarkup
    unfold enterLiteral at h
    split at h
    · cases h
    rename_i b hread
    cases h
    obtain ⟨hop, hopens⟩ := Bool.and_eq_true_iff.1 hmarkup
    exact .begin depth hnext hop hopens hread
  · cases h
    exact .take depth _ hnext

theorem literalToken_steps (hnext : s.next = (some t, s')) (h : literalToken mode s' l t outer = .ok final) :
    Steps mode ⟨s, .literal l :: outer⟩ final := by
  rw [literalToken_eq] at h
  split at h
  · rename_i s₁ u hmove
    unfold feedLiteral at h
    split at h
    · cases h
    rename_i b hread
    dsimp only at h
    split at h
    · rename_i hdone
      obtain ⟨c, rest, s₂, v, rfl, hclose, rfl⟩ := leaveLiteral_ok h
      exact .close hnext hmove hread hdone hclose
    · rename_i hopen
      cases h
      exact .feed hnext hmove hread (Bool.eq_false_of_not_eq_true hopen)
  · rename_i hmove
    unfold enterCode at h
    dsimp only at h
    split at h
    · cases h
    rename_i b hpass
    split at h
    · cases h
    rename_i s₁ hrun
    cases h
    exact .enter hnext hmove hpass hrun
  · rename_i hmove
    split at h
    · rename_i hmode
      cases h
      exact .keep hmode hnext hmove
    · rename_i hmode
      split at h
      · cases h
      rename_i b hread
      cases h
      exact .remark (Bool.eq_false_of_not_eq_true hmode) hnext hmove hread
  · rename_i hmove
    split at h
    · cases h
    rename_i s₁ hrun
    cases h
    exact .again hnext hmove hrun

theorem step_steps (h : step mode before = .ok after) : Steps mode before after := by
  obtain ⟨s, frames⟩ := before
  unfold step at h
  dsimp only at h
  split at h
  · cases h
  · split at h
    · rename_i t s' hnext
      exact codeToken_steps hnext h
    · split at h <;> cases h
  · split at h
    · rename_i t s' hnext
      exact literalToken_steps hnext h
    · rename_i s' hnext
      unfold endInLiteral at h
      split at h
      · rename_i hdone
        obtain ⟨c, rest, s₂, v, rfl, hclose, rfl⟩ := leaveLiteral_ok h
        exact .stop hnext hdone hclose
      · cases h

/-! ### Steps that stop -/

/-- Where a step stops without a fault: at the end of the source, or at a brace that closes nothing, in the
outermost code. -/
inductive Stops : Config → Array Token → Prop where
  | none {s : Stream} : Stops ⟨s, []⟩ #[]
  | atEnd {s s' : Stream} {c : Code} (hnext : s.next = (none, s')) : Stops ⟨s, [.code c]⟩ c.made
  | brace {s s' : Stream} {c : Code} {t : Token} {outer : List Frame} (hnext : s.next = (some t, s'))
      (hop : t.isOp ['\x7d'] = true) (hdepth : c.depth ≤ 0) (houter : ∀ l rest, outer ≠ .literal l :: rest) :
      Stops ⟨s, .code c :: outer⟩ (produced (.code c :: outer))
  | literal {s : Stream} {l : Literal} {outer : List Frame} (houter : ∀ c rest, outer ≠ .code c :: rest) :
      Stops ⟨s, .literal l :: outer⟩ (produced outer)

theorem leaveLiteral_stops (h : leaveLiteral mode s l outer = .error (made, none)) :
    made = produced outer ∧ ∀ c rest, outer ≠ .code c :: rest := by
  unfold leaveLiteral at h
  split at h
  · cases h
  split at h
  · cases h
  · rename_i hno
    cases h
    exact ⟨rfl, fun c rest => hno c rest⟩

theorem literalToken_stops (h : literalToken mode s l t outer = .error (made, none)) :
    made = produced outer ∧ ∀ c rest, outer ≠ .code c :: rest := by
  rw [literalToken_eq] at h
  split at h
  · unfold feedLiteral at h
    split at h
    · cases h
    dsimp only at h
    split at h
    · exact leaveLiteral_stops h
    · cases h
  · unfold enterCode at h
    dsimp only at h
    split at h
    · cases h
    · split at h <;> cases h
  · split at h
    · cases h
    · split at h <;> cases h
  · split at h <;> cases h

theorem step_stops (h : step mode before = .error (made, none)) : Stops before made := by
  obtain ⟨s, frames⟩ := before
  unfold step at h
  dsimp only at h
  split at h
  · cases h
    exact .none
  · rename_i c outer
    split at h
    · rename_i t s' hnext
      unfold codeToken at h
      dsimp only at h
      generalize hdepth : (if t.isOp ['\x7b'] = true then c.depth + 1
        else if t.isOp ['\x7d'] = true then c.depth - 1 else c.depth) = depth at h
      split at h
      · rename_i hbrace
        rw [Bool.and_eq_true, decide_eq_true_eq] at hbrace
        split at h
        · unfold leaveCode at h
          dsimp only at h
          split at h <;> cases h
        · rename_i hno
          cases h
          have hneg := hbrace.2
          exact .brace hnext hbrace.1 (by split_ifs at hdepth <;> omega) fun l rest => hno l rest
      · split at h
        · unfold enterLiteral at h
          split at h <;> cases h
        · cases h
    · rename_i s' hnext
      split at h
      · rename_i hempty
        cases h
        cases List.isEmpty_iff.1 hempty
        exact .atEnd hnext
      · cases h
  · rename_i l outer
    split at h
    · obtain ⟨rfl, hno⟩ := literalToken_stops h
      exact .literal hno
    · unfold endInLiteral at h
      split at h
      · obtain ⟨rfl, hno⟩ := leaveLiteral_stops h
        exact .literal hno
      · cases h

/-! ### Runs -/

/-- Steps of the translator, one after the other, each with the configurations before and after. -/
inductive Run (mode : Mode) : Config → List (Config × Config) → Config → Prop where
  | refl (config : Config) : Run mode config [] config
  | next {before mid final : Config} {steps : List (Config × Config)}
      (hstep : step mode before = .ok mid) (h : Run mode mid steps final) :
      Run mode before ((before, mid) :: steps) final

theorem Run.append {mid : Config} {xs ys : List (Config × Config)} (h : Run mode before xs mid)
    (hmore : Run mode mid ys final) : Run mode before (xs ++ ys) final := by
  induction h with
  | refl => exact hmore
  | next hstep _ ih => exact .next hstep (ih hmore)

theorem Run.step_of_mem {steps : List (Config × Config)} (hrun : Run mode before steps final) {x : Config × Config}
    (hx : x ∈ steps) : step mode x.1 = .ok x.2 := by
  induction hrun with
  | refl => cases hx
  | next hstep _ ih =>
    rcases List.mem_cons.1 hx with rfl | hx
    · exact hstep
    · exact ih hx

theorem Run.keeps {P : Config → Prop} (hstep : ∀ before after, P before → Steps mode before after → P after)
    {steps : List (Config × Config)} (hrun : Run mode before steps final) (h : P before) : P final := by
  induction hrun with
  | refl => exact h
  | next hone _ ih => exact ih (hstep _ _ h (step_steps hone))

theorem round_run (mode : Mode) (n : Nat) (config : Config) :
    match round mode n config with
    | .ok final => ∃ steps, Run mode config steps final ∧ steps.length = n
    | .error result => ∃ steps final, Run mode config steps final ∧ step mode final = .error result := by
  induction n generalizing config with
  | zero => exact ⟨[], .refl config, rfl⟩
  | succ n ih =>
    rw [round]
    cases hstep : step mode config with
    | error result => exact ⟨[], config, .refl config, hstep⟩
    | ok mid =>
      have hrest := ih mid
      dsimp only
      split at hrest
      · obtain ⟨steps, hrun, hlength⟩ := hrest
        exact ⟨_, .next hstep hrun, by simp [hlength]⟩
      · obtain ⟨steps, final, hrun, hfinal⟩ := hrest
        exact ⟨_, final, .next hstep hrun, hfinal⟩

theorem exists_run {n : Nat} {config : Config} (h : run mode n config = (made, none)) :
    ∃ steps final, Run mode config steps final ∧ step mode final = .error (made, none) := by
  induction n generalizing config with
  | zero => cases h
  | succ n ih =>
    have hround := round_run mode (config.stream.extent + 1) config
    rw [run] at h
    split at h
    · rename_i result hresult
      subst h
      rwa [hresult] at hround
    · rename_i mid hmid
      rw [hmid] at hround
      obtain ⟨xs, hrun, -⟩ := hround
      obtain ⟨ys, final, hrest, hfinal⟩ := ih h
      exact ⟨xs ++ ys, final, hrun.append hrest, hfinal⟩

end

end InlineMarkup.Translate

import InlineMarkup.Proofs.Emitting

/-!
How far the builder reads. What it writes leaves alone where it stands; only reading moves it on,
and markup ends with the `>` that closes its last element. What is left of the token in which it
ends is kept for the code after it.
-/
namespace InlineMarkup.Markup

/-! ### Back to data -/

def Step.Returns (c : Char) : Step → Prop
  | .quiet after => after.state ≠ .data
  | .event _ e after => after.state = .data ∧ c = '>' ∧ ∀ s, e ≠ .data s
  | .again _ | .fault _ _ => True

namespace Machine

theorem returns_closeTag (m : Machine) : (m.closeTag).Returns '>' := by
  unfold closeTag
  split
  · trivial
  · split
    · trivial
    · refine ⟨rfl, rfl, fun s => ?_⟩
      split
      · simp
      · split <;> simp

variable {m : Machine} {c : Char}

theorem returns_withAttribute {next : Machine → Step}
    (h : ∀ k : Machine, k.state = m.state → (next k).Returns c) : (m.withAttribute next).Returns c := by
  unfold withAttribute
  split
  · rename_i k hk
    apply h
    unfold closeAttribute at hk
    split at hk
    · cases hk
    · split at hk
      · cases hk
      · cases hk
        rfl
  · trivial

theorem returns_extendValue (h : m.state ≠ .data) : (m.extendValue c).Returns c := by
  unfold extendValue
  split
  · exact h
  · trivial

theorem returns_openName (m : Machine) (tag : Tag) (c : Char) : (m.openName tag c).Returns c := by
  unfold openName
  split
  · simp [Step.Returns]
  · trivial

theorem returns_openDeclaration (h : m.state ≠ .data) : (m.openDeclaration c).Returns c := by
  unfold openDeclaration
  split
  · trivial
  · dsimp only
    repeat' split
    all_goals first
      | trivial
      | simp [Step.Returns, goto]

theorem returns_readSection (h : m.state ≠ .data) : (m.readSection c).Returns c := by
  unfold readSection
  split
  · trivial
  · dsimp only
    split
    · rename_i seen _ hseen
      have hc : c = '>' := by
        have := congrArg List.getLast? hseen
        simpa [sectionMark] using this
      simp [closeData, Step.Returns, hc]
    · exact h

theorem step_returns (c : Char) (h : m.state ≠ .data) : (m.step c).Returns c := by
  have hclose (k : Machine) (hc : c = '>') : (k.closeTag).Returns c := hc ▸ returns_closeTag k
  unfold step
  split
  · contradiction
  all_goals
    repeat' split
  all_goals first
    | trivial
    | exact hclose _ ‹_›
    | exact returns_openName _ _ _
    | exact returns_extendValue h
    | exact returns_openDeclaration h
    | exact returns_readSection h
    | exact returns_withAttribute fun k _ => trivial
    | exact returns_withAttribute fun k _ => hclose k ‹_›
    | exact returns_withAttribute fun k _ => by simp [Step.Returns, goto]
    | simp [Step.Returns, goto, closeData, extendData, *]

end Machine

namespace Builder

/-! ### Writing -/

/-- Writing changes neither where the builder stands nor its machine, and takes no output back. -/
structure Wrote (level : Prop) (b c : Builder) : Prop where
  start : c.start = b.start
  stop : c.stop = b.stop
  machine : c.machine = b.machine
  remainder : c.remainder = b.remainder
  size : b.output.size ≤ c.output.size
  tags : level → c.openTags.length = b.openTags.length

def Writes (level : Prop) {α : Type} (x : Build α) : Prop :=
  ∀ b a c, x b = .ok a c → Wrote level b c

section

variable {level : Prop}

theorem writes_push (s : Text) : Writes level (push s) := by
  intro b a c h
  cases h
  exact ⟨rfl, rfl, rfl, rfl, by simp, fun _ => rfl⟩

theorem length_bump (tags : List OpenTag) : (bump tags).length = tags.length := by
  cases tags <;> rfl

theorem writes_countChild : Writes level countChild := by
  intro b a c h
  rw [countChild_eq] at h
  cases h
  exact ⟨rfl, rfl, rfl, rfl, le_rfl, fun _ => length_bump _⟩

theorem writes_closeIf : Writes level closeIf := by
  intro b a c h
  obtain ⟨mid, hmid, rfl⟩ := (closeIf_yields b).of_ok h
  exact ⟨rfl, rfl, rfl, rfl, by simpa using hmid.length, fun _ => rfl⟩

theorem writes_advanceTo (level : Prop) (row : Int) : Writes level (advanceTo row) := by
  intro b a c h
  obtain ⟨-, rfl⟩ := (advanceTo_yields b row).of_ok h
  exact ⟨rfl, rfl, rfl, rfl, by simp [put], fun _ => rfl⟩

theorem writes_writeData (data : Text) : Writes level (writeData data) := by
  intro b a c h
  obtain ⟨-, rfl⟩ | ⟨-, mid, hmid, rfl⟩ := (writeData_yields b data).of_ok h
  · exact ⟨rfl, rfl, rfl, rfl, le_rfl, fun _ => rfl⟩
  · have hle : b.output.size ≤ mid.length := by simpa using hmid.length
    exact ⟨rfl, rfl, rfl, rfl, by simpa using Nat.le_succ_of_le hle, fun _ => length_bump _⟩

theorem writes_handle (e : Event) : Writes False (handle e) := by
  intro b a c h
  obtain ⟨hhandled, hframed⟩ := (handle_yields b e).of_ok h
  exact ⟨hframed.start, hframed.stop, hframed.machine, hframed.remainder, by simpa [view] using hhandled.length.1,
    False.elim⟩

theorem emits_handle {e : Event} (he : ∀ s, e ≠ .data s) {b c : Builder} {a : Unit} (h : handle e b = .ok a c) :
    0 < c.output.size :=
  Nat.zero_lt_of_lt ((((handle_yields b e).of_ok h).1.length.2 he).trans_eq (Array.length_toList ..))

end

/-! ### What reading does -/

section

variable {b c : Builder} {a : Unit}

inductive ReadsChar (ch : Char) (b : Builder) : Builder → Prop where
  | quiet {m : Machine} (hstep : b.machine.step ch = .quiet m) : ReadsChar ch b { b with machine := m }
  | event {during after : Machine} {e : Event} {d : Builder} (hstep : b.machine.step ch = .event during e after)
      (hhandle : handle e { b with machine := during } = .ok () d) : ReadsChar ch b { d with machine := after }

theorem readsChar_of_ok {ch : Char} {blame : Pos → Fault → Fault} (h : readChar ch blame b = .ok a c) :
    ReadsChar ch b c := by
  unfold readChar at h
  obtain ⟨_, _, hget, h⟩ := bind_eq_ok h
  cases hget
  cases hstep : b.machine.step ch with
  | quiet machine =>
    rw [hstep] at h
    cases h
    exact .quiet hstep
  | again machine | fault machine f =>
    rw [hstep] at h
    cases h
  | event during e after =>
    rw [hstep] at h
    obtain ⟨_, _, h1, h⟩ := bind_eq_ok h
    cases h1
    obtain ⟨_, d, h2, h⟩ := bind_eq_ok h
    cases h
    exact .event hstep h2

theorem readText_cons (ch : Char) (rest : Text) (b : Builder) :
    readText (ch :: rest) b = if b.isDone then .ok (ch :: rest) b
      else (readChar ch relocate >>= fun _ => readText rest) { b with stop := b.stop.step ch } := by
  change (if b.isDone then pure (ch :: rest) else _ : Build Text) b = _
  split <;> rfl

theorem readText_cons_ok {ch : Char} {s rest : Text} (h : readText (ch :: s) b = .ok rest c) :
    b.isDone = true ∧ rest = ch :: s ∧ c = b ∨
      b.isDone = false ∧ ∃ d, readChar ch relocate { b with stop := b.stop.step ch } = .ok () d ∧
        readText s d = .ok rest c := by
  rw [readText_cons] at h
  split at h
  · cases h
    exact Or.inl ⟨‹_›, rfl, rfl⟩
  · obtain ⟨_, d, hchar, h⟩ := bind_eq_ok h
    exact Or.inr ⟨Bool.eq_false_of_not_eq_true ‹_›, d, hchar, h⟩

def skips (t : Token) : Bool := t.isOp ['\\'] || (t.kind == .error && t.text == [' '])

/-- On the way to a token: rows down to it, and a space over a gap. -/
def arrive (t : Token) : Build Unit := do
  let before := (← get).stop
  advanceTo t.start.row
  if t.start.row = before.row ∧ before.col < t.start.col then readChar ' ' fun _ f => f
  modify fun b => { b with stop := t.start }

def leave (t : Token) (rest : Text) (b : Builder) : Builder :=
  if b.isDone then { b with remainder := some { t with text := rest, start := b.stop } } else { b with stop := t.stop }

theorem read_of_skips {t : Token} (h : skips t = true) : read t b = .ok () b := by
  simp only [skips, Bool.or_eq_true, Bool.and_eq_true, beq_iff_eq] at h
  unfold read
  rcases h with h | h
  · rw [if_pos h]
    rfl
  · rw [if_pos h]
    split <;> rfl

theorem read_eq {t : Token} (h : skips t = false) : read t b =
    (arrive t >>= fun _ => (if t.kind = .indent then pure t.text else readText t.text) >>= fun rest => modify (leave t rest)) b := by
  simp only [skips, Bool.or_eq_false_iff, Bool.and_eq_false_iff, beq_eq_false_iff_ne] at h
  have hleave (rest : Text) : (do
      let b ← get
      if b.isDone then modify fun b => { b with remainder := some { t with text := rest, start := b.stop } }
      else modify fun b => { b with stop := t.stop } : Build Unit) = modify (leave t rest) := by
    funext b
    rw [get_bind]
    change _ = EStateM.Result.ok () (leave t rest b)
    unfold leave
    split <;> rfl
  unfold read arrive
  rw [if_neg (by simp [h.1]), if_neg fun hblank => h.2.elim (· hblank.1) (· hblank.2)]
  simp only [hleave, bind_assoc]
  refine congrFun (congrArg _ (funext fun _ => congrArg _ (funext fun _ => ?_))) b
  split_ifs <;> simp only [bind_assoc]

/-- What reading a token does. -/
inductive ReadsToken (t : Token) (b : Builder) : Builder → Prop where
  | passed (hskips : skips t = true) : ReadsToken t b b
  | taken {e f : Builder} {rest : Text} (hskips : skips t = false) (harrive : arrive t b = .ok () e)
      (htext : (if t.kind = .indent then pure t.text else readText t.text) e = .ok rest f) : ReadsToken t b (leave t rest f)

theorem readsToken_of_ok {t : Token} (h : read t b = .ok a c) : ReadsToken t b c := by
  cases hskips : skips t with
  | true =>
    rw [read_of_skips hskips] at h
    cases h
    exact .passed hskips
  | false =>
    rw [read_eq hskips] at h
    obtain ⟨_, e, harrive, h⟩ := bind_eq_ok h
    obtain ⟨rest, f, htext, h⟩ := bind_eq_ok h
    cases h
    exact .taken hskips harrive htext

theorem arrive_ok {t : Token} (h : arrive t b = .ok a c) : ∃ d e, advanceTo t.start.row b = .ok () d ∧
    (e = d ∨ readChar ' ' (fun _ f => f) d = .ok () e) ∧ c = { e with stop := t.start } := by
  unfold arrive at h
  obtain ⟨_, _, hget, h⟩ := bind_eq_ok h
  cases hget
  obtain ⟨_, d, hdown, h⟩ := bind_eq_ok h
  dsimp only at h
  split at h
  · obtain ⟨_, e, hspace, h⟩ := bind_eq_ok h
    cases h
    exact ⟨d, e, hdown, .inr hspace, rfl⟩
  · cases h
    exact ⟨d, d, hdown, .inl rfl, rfl⟩

/-- Where code goes: among the children after the data before it, into a value, or nowhere. -/
inductive PlacesCode (tokens : List Token) (b : Builder) : Builder → Prop where
  | child {d : Builder} (hdata : b.machine.state = .data ∨ b.machine.state = .cdataSection)
      (hwrite : writeData b.machine.data { b with beforeCode := true } = .ok () d) (hlays : Lays (.code tokens)) :
      PlacesCode tokens b { d with
        machine := { d.machine with data := [] }, output := d.output.push (codePiece tokens (codeText tokens))
        openTags := bump d.openTags, beforeCode := false, afterCode := true }
  | value {m : Machine} (hdata : ¬ (b.machine.state = .data ∨ b.machine.state = .cdataSection))
      (hvalue : b.machine.state = .beforeAttributeValue ∨ b.machine.inValue = true)
      (hcode : b.machine.readCode tokens = .ok m) : PlacesCode tokens b { b with machine := m }
  | nowhere (hdata : ¬ (b.machine.state = .data ∨ b.machine.state = .cdataSection))
      (hvalue : ¬ (b.machine.state = .beforeAttributeValue ∨ b.machine.inValue = true)) :
      PlacesCode tokens b { b with openTags := bump b.openTags }

def ReadsCode (tokens : List Token) (b c : Builder) : Prop :=
  ∃ first last d e, tokens.head? = some first ∧ tokens.getLast? = some last ∧ closeIf b = .ok () d ∧
    advanceTo first.start.row d = .ok () e ∧ PlacesCode tokens { e with stop := last.stop } c

theorem readCode_fault {m : Machine} {tokens : List Token} {f : Fault} (h : m.readCode tokens = .error f) :
    ¬ f.OfComma := by
  unfold Machine.readCode at h
  repeat' split at h
  all_goals
    cases h
    try exact id

def TakesChild (b : Builder) (tokens : List Token) : Prop :=
  (∃ first ∈ tokens.head?, b.stop.row ≤ first.start.row) ∧ b.machine.state = .data ∧ Lays (.code tokens)

theorem placesCode_yields (tokens : List Token) (hafter : b.afterIf = false) :
    Yields (fun f => ¬ f.OfComma ∧ ¬ (b.machine.state = .data ∧ Lays (.code tokens))) (PlacesCode tokens b) ((do
      let m := (← get).machine
      if m.state = .data ∨ m.state = .cdataSection then
        modify fun b => { b with beforeCode := true }
        writeData m.data
        modify fun b => { b with machine := { b.machine with data := [] } }
        let code ← layOut tokens
        push (if isBareGenerator tokens then ['('] ++ code ++ "), ".toList else code ++ ", ".toList)
        modify fun b => { b with beforeCode := false, afterCode := true }
        countChild
      else if m.state = .beforeAttributeValue ∨ m.inValue then
        match m.readCode tokens with
        | .ok machine => modify fun b => { b with machine }
        | .error f => throw f
      else countChild : Build Unit) b) := by
  rw [get_bind]
  dsimp only
  split
  · rename_i hdata
    rw [modify_bind]
    refine .bind_of_eq ((writeData_yields _ _).imp (fun _ h => absurd h (not_lacks hafter)) fun _ h => h)
      fun d hwrite _ => ?_
    rw [modify_bind]
    unfold layOut
    cases hplain : Layout.plain tokens with
    | error f => exact ⟨text_fault hplain, fun h => nomatch hplain.symm.trans h.2⟩
    | ok code =>
      obtain ⟨rfl, hlays⟩ := lays_of_plain hplain
      change Yields _ _ (countChild { d with
        machine := { d.machine with data := [] }, output := d.output.push (codePiece tokens (codeText tokens))
        beforeCode := false, afterCode := true })
      rw [countChild_eq]
      exact .child hdata hwrite hlays
  rename_i hdata
  have hother (h : b.machine.state = .data ∧ Lays (.code tokens)) : False := hdata (.inl h.1)
  split
  · rename_i hvalue
    cases hcode : b.machine.readCode tokens with
    | error f => exact ⟨readCode_fault hcode, hother⟩
    | ok m => exact .value hdata hvalue hcode
  · rw [countChild_eq]
    exact .nowhere hdata ‹_›

theorem readCode_yields (tokens : List Token) (b : Builder) :
    Yields (Refused (Lacks b.view) False (¬ TakesChild b tokens)) (ReadsCode tokens b) (readCode tokens b) := by
  unfold readCode
  refine .bind_of_eq ((closeIf_yields b).imp (fun _ => .inl) fun _ h => h) ?_
  rintro _ hclose ⟨mid, -, rfl⟩
  cases hfirst : tokens.head? with
  | none => exact .inr (.inr ⟨id, fun ⟨⟨_, h, _⟩, _⟩ => by simp [hfirst] at h⟩)
  | some first =>
  cases hlast : tokens.getLast? with
  | none => simp [List.getLast?_eq_none_iff.1 hlast] at hfirst
  | some last =>
  refine .bind_of_eq ((advanceTo_yields _ _).imp (fun _ h => .inr (.inr ⟨h.1, ?_⟩)) fun _ h => h) ?_
  · rintro ⟨⟨t, ht, hrow⟩, -⟩
    rw [hfirst] at ht
    cases ht
    exact absurd h.2 (not_lt.2 hrow)
  rintro _ hdown ⟨-, rfl⟩
  rw [modify_bind]
  exact (placesCode_yields tokens rfl).imp (fun _ h => .inr (.inr ⟨h.1, fun htakes => h.2 htakes.2⟩))
    fun c h => ⟨first, last, _, _, hfirst, hlast, hclose, hdown, h⟩

end

/-! ### Reading characters -/

def Begun (b : Builder) : Prop := b.machine.state = .data → 0 < b.output.size

variable {b c : Builder}

theorem not_done_of_state (h : b.machine.state ≠ .data) : b.isDone = false := by
  simp [isDone, h]

theorem Begun.not_done (h : b.Begun) (hb : b.isDone = false)
    (hstate : c.machine.state = .data → b.machine.state = .data)
    (htags : c.openTags.length = b.openTags.length) : c.isDone = false := by
  by_cases hdata : c.machine.state = .data
  · have hsize := h (hstate hdata)
    have hopen : b.openTags ≠ [] := by
      rintro hnil
      simp [isDone, hstate hdata, hnil] at hb
      simp [hb] at hsize
    have hne : c.openTags ≠ [] := by
      rw [← List.length_pos_iff, htags, List.length_pos_iff]
      exact hopen
    simp [isDone, hne]
  · exact not_done_of_state hdata

theorem readChar_ok {ch : Char} {blame : Pos → Fault → Fault} {a : Unit}
    (h : readChar ch blame b = .ok a c) (hb : b.Begun) (hn : b.isDone = false) :
    c.start = b.start ∧ c.stop = b.stop ∧ c.remainder = b.remainder ∧ c.Begun ∧ (c.isDone = true → ch = '>') := by
  have hdata (hstate : b.machine.state = .data) : b.machine.step ch =
      if ch = '<' then b.machine.closeData .data .tagOpen
      else .quiet (b.machine.extendData [ch] .data) := by
    rw [Machine.step, hstate]
  have hother (hstate : b.machine.state ≠ .data) := Machine.step_returns ch hstate
  cases readsChar_of_ok h with
  | @quiet machine hstep =>
    rw [hstep] at hother
    have hkeep : machine.state = .data → b.machine.state = .data := by
      intro hm
      by_contra hne
      exact hother hne hm
    refine ⟨rfl, rfl, rfl, fun hm => hb (hkeep hm), fun hdone => ?_⟩
    have hno := hb.not_done (c := { b with machine }) hn hkeep rfl
    exact absurd hdone (by simp [hno])
  | @event during after e d hstep hhandle =>
    rw [hstep] at hother hdata
    have hwrote := writes_handle e _ _ _ hhandle
    have hne (hafter : after.state = .data) : b.machine.state ≠ .data := by
      intro hstate
      have heq := hdata hstate
      split at heq
      · cases heq
        cases hafter
      · cases heq
    refine ⟨hwrote.start, hwrote.stop, hwrote.remainder, fun hafter => ?_, fun hdone => ?_⟩
    · have hemits := emits_handle (hother (hne hafter)).2.2 hhandle
      exact hemits
    · have hafter : after.state = .data := by
        by_contra hstate
        rw [not_done_of_state hstate] at hdone
        cases hdone
      exact (hother (hne hafter)).2.1

theorem readText_of_done (h : b.isDone = true) (s : Text) : readText s b = .ok s b := by
  cases s with
  | nil => rfl
  | cons ch rest => rw [readText_cons, if_pos h]

/-- The text is read up to the first `>` after which the markup is complete, or to its end. -/
theorem readText_ok {s rest : Text} (h : readText s b = .ok rest c) (hb : b.Begun) (hn : b.isDone = false) :
    c.start = b.start ∧ c.Begun ∧ ∃ front, s = front ++ rest ∧ c.stop = b.stop.advance front ∧
      readText front b = .ok [] c ∧
      (∀ x y, front = x ++ y → y ≠ [] → ∃ d, readText x b = .ok [] d ∧ d.isDone = false) ∧
      if c.isDone then front.getLast? = some '>' else rest = [] := by
  induction s generalizing b with
  | nil =>
    cases h
    refine ⟨rfl, hb, [], rfl, rfl, rfl, fun x y heq hy => ?_, by simp [hn]⟩
    exact absurd (List.append_eq_nil_iff.1 heq.symm).2 hy
  | cons ch more ih =>
    obtain ⟨hdone, -⟩ | ⟨-, b2, h2, h⟩ := readText_cons_ok h
    · exact absurd (hn.symm.trans hdone) Bool.false_ne_true
    obtain ⟨hstart, hstop, -, hb2, hend⟩ := readChar_ok h2 hb hn
    have hcons (x : Text) : readText (ch :: x) b = readText x b2 := by
      rw [readText_cons, hn, if_neg Bool.false_ne_true, bind_ok h2]
    by_cases hdone : b2.isDone = true
    · rw [readText_of_done hdone] at h
      cases h
      refine ⟨hstart, hb2, [ch], rfl, hstop, hcons [], ?_, by simp [hdone, hend hdone]⟩
      rintro (_ | ⟨_, x⟩) y heq hy
      · exact ⟨b, rfl, hn⟩
      · exact absurd (List.append_eq_nil_iff.1 (List.cons.inj heq).2.symm).2 hy
    · obtain ⟨hstart', hc, front, rfl, hstop', hread, hfirst, hlast⟩ := ih h hb2 (Bool.not_eq_true _ ▸ hdone)
      refine ⟨hstart'.trans hstart, hc, ch :: front, rfl, ?_, (hcons front).trans hread, ?_, ?_⟩
      · rw [hstop', hstop]
        rfl
      · rintro (_ | ⟨_, x⟩) y heq hy
        · exact ⟨b, rfl, hn⟩
        · obtain ⟨rfl, htail⟩ := List.cons.inj heq
          rw [hcons]
          exact hfirst x y htail hy
      · split_ifs at hlast ⊢
        · rw [List.getLast?_cons, hlast]
          rfl
        · exact hlast

theorem Wrote.open (h : Wrote True b c) (hb : b.Begun) (hn : b.isDone = false) : c.Begun ∧ c.isDone = false := by
  have hstate : c.machine.state = .data → b.machine.state = .data := by
    rw [h.machine]
    exact id
  exact ⟨fun hdata => (hb (hstate hdata)).trans_le h.size, hb.not_done hn hstate (h.tags trivial)⟩

/-! ### Markup that goes on -/

structure Open (start : Pos) (b : Builder) : Prop where
  start : b.start = start
  begun : b.Begun
  notDone : b.isDone = false

def LeavesOpen {α : Type} (x : Build α) : Prop :=
  ∀ start b a c, Open start b → x b = .ok a c → Open start c

section

variable {α β : Type}

theorem LeavesOpen.bind {x : Build α} {f : α → Build β} (hx : LeavesOpen x)
    (hf : ∀ a, LeavesOpen (f a)) : LeavesOpen (x >>= f) := by
  intro start b y d hopen h
  obtain ⟨a, c, hc, hd⟩ := bind_eq_ok h
  exact hf a start c y d (hx start b a c hopen hc) hd

theorem Writes.leavesOpen {x : Build α} (h : Writes True x) : LeavesOpen x := by
  intro start b a c hopen hx
  have hw := h b a c hx
  obtain ⟨hbegun, hdone⟩ := hw.open hopen.begun hopen.notDone
  exact ⟨hw.start.trans hopen.start, hbegun, hdone⟩

theorem arrive_open {t : Token} {start : Pos} (h : arrive t b = .ok a c) (hb : Open start b) :
    c.stop = t.start ∧ Open start c := by
  obtain ⟨d, e, hdown, hgap, rfl⟩ := arrive_ok h
  have hd := (writes_advanceTo True _).leavesOpen start b _ d hb hdown
  refine ⟨rfl, ?_⟩
  rcases hgap with rfl | hgap
  · exact ⟨hd.start, hd.begun, hd.notDone⟩
  · obtain ⟨hstart, -, -, he, hend⟩ := readChar_ok hgap hd.begun hd.notDone
    refine ⟨hstart.trans hd.start, he, Bool.eq_false_of_not_eq_true fun hdone => ?_⟩
    exact absurd (hend hdone) (by decide)

theorem read_ok {t : Token} {a : Unit} (h : read t b = .ok a c) (hb : b.Begun) (hn : b.isDone = false) :
    c.start = b.start ∧ c.Begun ∧ (c.isDone = true → ∃ front rest, t.text = front ++ rest ∧
      front.getLast? = some '>' ∧ c.stop = t.start.advance front ∧
      c.remainder = some { t with text := rest, start := c.stop }) := by
  cases readsToken_of_ok h with
  | passed => exact ⟨rfl, hb, by simp [hn]⟩
  | @taken e f rest _ harrive htext =>
    obtain ⟨hat, hstart, he, hen⟩ := arrive_open harrive ⟨rfl, hb, hn⟩
    unfold leave
    split at htext
    · cases htext
      rw [hen, if_neg Bool.false_ne_true]
      exact ⟨hstart, he, fun hdone => absurd (hen.symm.trans hdone) Bool.false_ne_true⟩
    · obtain ⟨hstart', hf, front, hsplit, hstop, -, -, hlast⟩ := readText_ok htext he hen
      rw [hat] at hstop
      split_ifs at hlast ⊢ with hdone
      · exact ⟨hstart'.trans hstart, hf, fun _ => ⟨front, rest, hsplit, hlast, hstop, rfl⟩⟩
      · exact ⟨hstart'.trans hstart, hf, fun hd => absurd hd hdone⟩

theorem LeavesOpen.modify {f : Builder → Builder}
    (hf : ∀ start b, Open start b → Open start (f b)) : LeavesOpen (modify f : Build Unit) := by
  intro start b a c hopen h
  cases h
  exact hf start b hopen

end

variable {t : Token} {textFunction : Text} {c : Builder} {a : Unit}

theorem leavesOpen_read_empty (ht : t.text = []) : LeavesOpen (read t) := by
  intro start b a c hopen h
  obtain ⟨hstart, hbegun, hdone⟩ := read_ok h hopen.begun hopen.notDone
  refine ⟨hstart.trans hopen.start, hbegun, ?_⟩
  by_contra hd
  obtain ⟨front, rest, htext, hlast, -⟩ := hdone (by simpa using hd)
  rw [ht, eq_comm, List.append_eq_nil_iff] at htext
  rw [htext.1] at hlast
  cases hlast

theorem leavesOpen_passOver (t : Token) : LeavesOpen (passOver t) :=
  .bind (leavesOpen_read_empty rfl) fun _ => .modify fun _ _ h => ⟨h.start, h.begun, h.notDone⟩

theorem leavesOpen_readComment (t : Token) : LeavesOpen (readComment t) :=
  .bind (leavesOpen_read_empty rfl) fun _ => .bind (writes_push _).leavesOpen fun _ =>
    .modify fun _ _ h => ⟨h.start, h.begun, h.notDone⟩

theorem readCode_state {m k : Machine} {tokens : List Token} (h : m.readCode tokens = .ok k) : k.state ≠ .data := by
  unfold Machine.readCode at h
  split at h
  · cases h
    simp
  · split at h
    · rename_i hvalue
      split at h
      · cases h
        intro hdata
        rw [Machine.inValue, hdata] at hvalue
        exact absurd hvalue (by decide)
      · cases h
    · split at h <;> cases h

theorem leavesOpen_readCode (tokens : List Token) : LeavesOpen (readCode tokens) := by
  intro start b a c hb h
  obtain ⟨first, last, d, e, -, -, hclose, hdown, hplace⟩ := (readCode_yields tokens b).of_ok h
  have hd := writes_closeIf.leavesOpen start b _ d hb hclose
  have he := (writes_advanceTo True _).leavesOpen start d _ e hd hdown
  have hstop : Open start { e with stop := last.stop } := ⟨he.start, he.begun, he.notDone⟩
  cases hplace with
  | @child g _ hwrite =>
    have hg : Open start g := by
      refine (writes_writeData _).leavesOpen start { e with stop := last.stop, beforeCode := true } _ g ?_ hwrite
      exact ⟨hstop.start, hstop.begun, hstop.notDone⟩
    exact ⟨hg.start, fun _ => by simp, hg.begun.not_done hg.notDone id (length_bump _)⟩
  | value _ _ hcode =>
    have hstate := readCode_state hcode
    exact ⟨hstop.start, fun hdata => absurd hdata hstate, not_done_of_state hstate⟩
  | nowhere => exact writes_countChild.leavesOpen start _ _ _ hstop (countChild_eq _)

theorem advanceTo_self (b : Builder) : advanceTo b.stop.row b = .ok () b := by
  simp [advanceTo, bind, EStateM.bind, get, getThe, MonadStateOf.get, EStateM.get, pure, EStateM.pure]

theorem read_at_stop {b : Builder} (hstart : t.start = b.stop) (hkind : t.kind ≠ .indent)
    (hjoin : t.isOp ['\\'] = false) (hblank : ¬(t.kind = .error ∧ t.text = [' '])) :
    read t b = (readText t.text >>= fun rest => modify (leave t rest)) b := by
  have hgap : ¬(t.start.row = b.stop.row ∧ b.stop.col < t.start.col) := by
    rw [hstart]
    omega
  have harrive : arrive t b = .ok () b := by
    unfold arrive
    rw [get_bind, bind_ok (hstart ▸ advanceTo_self b), if_neg hgap, hstart]
    rfl
  rw [read_eq (by simpa [skips, hjoin] using hblank), bind_ok harrive, if_neg hkind]

theorem read_begin_eq (ht : t.isOp ['<'] = true) (h : read t (begin t.start textFunction) = .ok a c) :
    c = { begin t.start textFunction with machine := { state := .tagOpen }, stop := t.stop } := by
  obtain ⟨hkind, htext⟩ := Token.isOp_iff.1 ht
  have hread : readText ['<'] (begin t.start textFunction) = .ok []
      { begin t.start textFunction with machine := { state := .tagOpen }, stop := t.start.step '<' } := rfl
  rw [read_at_stop rfl (by simp [hkind]) (by simp [Token.isOp, htext]) (by simp [hkind]), htext, bind_ok hread] at h
  cases h
  rfl

theorem read_begin (ht : t.isOp ['<'] = true) (h : read t (begin t.start textFunction) = .ok a c) : Open t.start c := by
  rw [read_begin_eq ht h]
  exact ⟨rfl, fun hdata => absurd hdata (by simp), rfl⟩

end Builder

end InlineMarkup.Markup

import InlineMarkup.Proofs.Builder
import InlineMarkup.Proofs.Equipped

/-!
The builder drives the markup reader as the bare reader is driven.
-/
namespace InlineMarkup.Markup

/-! ### The character that is read twice -/

def Step.isAgain : Step → Bool
  | .again _ => true
  | _ => false

namespace Machine

variable {m : Machine} {ch : Char}

theorem isAgain_closeTag : m.closeTag.isAgain = false := by
  unfold closeTag
  split
  · rfl
  · split <;> rfl

theorem isAgain_withAttribute {next : Machine → Step} (h : ∀ k, (next k).isAgain = false) :
    (m.withAttribute next).isAgain = false := by
  unfold withAttribute
  split
  · exact h _
  · rfl

theorem isAgain_extendValue : (m.extendValue ch).isAgain = false := by
  unfold extendValue
  split <;> rfl

theorem isAgain_openName (tag : Tag) : (m.openName tag ch).isAgain = false := by
  unfold openName
  split <;> rfl

theorem isAgain_openDeclaration : (m.openDeclaration ch).isAgain = false := by
  unfold openDeclaration
  split
  · rfl
  · dsimp only
    split_ifs <;> rfl

theorem isAgain_readSection : (m.readSection ch).isAgain = false := by
  unfold readSection
  split
  · rfl
  · dsimp only
    split <;> rfl

theorem isAgain_step (hch : ¬(m.state = .beforeAttributeValue ∧ ch = '&')) : (m.step ch).isAgain = false := by
  unfold step
  cases hstate : m.state with
  | beforeAttributeValue =>
    have hne : ch ≠ '&' := fun h => hch ⟨hstate, h⟩
    dsimp only
    rw [if_neg hne]
    split_ifs <;> rfl
  | afterAttributeValue =>
    refine isAgain_withAttribute fun k => ?_
    split_ifs
    · rfl
    · rfl
    · exact isAgain_closeTag
    · rfl
  | declarationOpen => exact isAgain_openDeclaration
  | cdataSection => exact isAgain_readSection
  | _ =>
    dsimp only
    repeat' split
    all_goals first
      | rfl
      | exact isAgain_closeTag
      | exact isAgain_extendValue
      | exact isAgain_openName _
      | exact isAgain_withAttribute fun _ => rfl
      | exact isAgain_withAttribute fun _ => isAgain_closeTag

theorem step_ampersand (hstate : m.state = .beforeAttributeValue) :
    m.step '&' = .again { m with attributeValue := some [], state := .valueUnquoted } := by
  simp [step, hstate, isSpace]

theorem wholeStep_ampersand (hstate : m.state = .beforeAttributeValue) :
    m.wholeStep '&' = .quiet { m with attributeValue := some [.text ['&']], state := .valueUnquoted } := by
  rw [wholeStep, step_ampersand hstate]
  rfl

theorem wholeStep_of_not_again (h : (m.step ch).isAgain = false) : m.wholeStep ch = m.step ch := by
  unfold wholeStep
  split
  · rename_i n hn
    rw [hn] at h
    cases h
  · rfl

end Machine

namespace Builder

/-! ### Changes that handlers do not notice -/

/-- A change to the machine of a builder and to the pieces of its output, after which piece `n` is piece
`place n`, and which from the piece `first` on leaves the pieces as they are. -/
structure Change where
  machine : Machine → Machine
  output : Array Text → Array Text
  place : Nat → Nat
  first : Nat
  same : Fault → Fault → Prop
  refl : ∀ f, same f f
  push : ∀ {out}, first ≤ out.size → ∀ s, output (out.push s) = (output out).push s
  set : ∀ out i s, output (out.setIfInBounds i s) = (output out).setIfInBounds (place i) s
  get : ∀ out i, (output out).getD (place i) [] = out.getD i []
  size : ∀ {out}, first ≤ out.size → (output out).size = place out.size
  last : ∀ {n}, first ≤ n → place (n + 1) = place n + 1
  drop : ∀ {out n}, first ≤ out.size → first ≤ n → (output out).toList.drop (place n) = out.toList.drop n
  comma : ∀ {out}, first ≤ out.size → match lastComma out out.size with
    | .ok (i, n) => lastComma (output out) (output out).size = .ok (place i, n)
    | .error f => ∃ g, same f g ∧ lastComma (output out) (output out).size = .error g

section

variable {α β : Type} {c : Change} {k : Nat}

def Change.tag (c : Change) (t : OpenTag) : OpenTag := { t with opening := t.opening.map c.place }

def Change.on (c : Change) (b : Builder) : Builder :=
  { b with machine := c.machine b.machine, output := c.output b.output, openTags := b.openTags.map c.tag }

/-- Once there are `k` pieces from the first on, `y` does after the change what `x` does before it. -/
def Blind (c : Change) (k : Nat) (x y : Build α) : Prop := ∀ b, c.first + k ≤ b.output.size →
  match x b with
  | .ok a d => y (c.on b) = .ok a (c.on d) ∧ c.first + k ≤ d.output.size
  | .error f d => ∃ g, c.same f g ∧ y (c.on b) = .error g (c.on d)

theorem Blind.pure (a : α) : Blind c k (Pure.pure a : Build α) (Pure.pure a) := fun _ hb => ⟨rfl, hb⟩

theorem Blind.throw (f : Fault) : Blind c k (throw f : Build α) (throw f) := fun _ _ => ⟨f, c.refl f, rfl⟩

theorem Blind.bind {x y : Build α} {f g : α → Build β} (hx : Blind c k x y) (hf : ∀ a, Blind c k (f a) (g a)) :
    Blind c k (x >>= f) (y >>= g) := by
  intro b hb
  have hfirst := hx b hb
  simp only [Bind.bind, EStateM.bind]
  cases hxb : x b with
  | ok a d =>
    rw [hxb] at hfirst
    rw [hfirst.1]
    exact hf a d hfirst.2
  | error e d =>
    rw [hxb] at hfirst
    obtain ⟨e', hsame, hy⟩ := hfirst
    rw [hy]
    exact ⟨e', hsame, rfl⟩

theorem Blind.get {f g : Builder → Build β} (h : ∀ b, c.first + k ≤ b.output.size → Blind c k (f b) (g (c.on b))) :
    Blind c k (MonadState.get >>= f) (MonadState.get >>= g) := fun b hb => h b hb b hb

theorem Blind.modify {f g : Builder → Builder} (h : ∀ b, c.first + k ≤ b.output.size → g (c.on b) = c.on (f b) ∧
    (f b).output.size = b.output.size) : Blind c k (modify f : Build Unit) (modify g) :=
  fun b hb => ⟨congrArg _ (h b hb).1, (h b hb).2 ▸ hb⟩

theorem Blind.ite {p : Prop} [Decidable p] {x y x' y' : Build α} (hx : p → Blind c k x x')
    (hy : Blind c k y y') : Blind c k (if p then x else y) (if p then x' else y') := by
  split
  · exact hx ‹p›
  · exact hy

theorem Blind.optional {p : Prop} [Decidable p] {x x' : Build Unit} {f g : Unit → Build α}
    (hx : p → Blind c k x x') (hf : ∀ a, Blind c k (f a) (g a)) :
    Blind c k (if p then x >>= f else f ()) (if p then x' >>= g else g ()) :=
  .ite (fun h => .bind (hx h) hf) (hf ())

theorem Blind.check {f : Builder → Fault} {g : β → Build α} (hf : ∀ b, f (c.on b) = f b) :
    Blind c k (MonadState.get >>= fun b => (MonadExcept.throw (f b) : Build β) >>= g)
      (MonadState.get >>= fun b => (MonadExcept.throw (f b) : Build β) >>= g) :=
  fun b _ => ⟨f b, c.refl _, congrArg (EStateM.Result.error · (c.on b)) (hf b)⟩

theorem Blind.push {s : Text} {f g : Unit → Build α} (hf : ∀ a, Blind c (k + 1) (f a) (g a)) :
    Blind c k (Builder.push s >>= f) (Builder.push s >>= g) := by
  intro b hb
  have hmore := hf () { b with output := b.output.push s } (by rw [Array.size_push]; omega)
  have hpush : c.on { b with output := b.output.push s } = { c.on b with output := (c.on b).output.push s } := by
    simp only [Change.on, c.push (Nat.le_of_add_right_le hb)]
  rw [hpush] at hmore
  change match f () { b with output := b.output.push s } with
    | .ok a d => g () { c.on b with output := (c.on b).output.push s } = _ ∧ _
    | .error e d => _
  split at hmore
  · exact ⟨hmore.1, by omega⟩
  · exact hmore

theorem blind_push (s : Text) : Blind c k (push s) (push s) :=
  .push (f := Pure.pure) (g := Pure.pure) fun a => .pure a

theorem blind_replacePiece (i : Nat) (s : Text) : Blind c k (replacePiece i s) (replacePiece (c.place i) s) :=
  .modify fun b _ => ⟨by simp only [Change.on, c.set], Array.size_setIfInBounds⟩

theorem blind_layOut (tokens : List Token) : Blind c k (layOut tokens) (layOut tokens) := by
  unfold layOut
  split
  · exact .pure _
  · exact .throw _

theorem blind_deleteLastComma : Blind c k deleteLastComma deleteLastComma := by
  refine .get fun b hb => ?_
  have hcomma := c.comma (Nat.le_of_add_right_le hb)
  change match lastComma b.output b.output.size with
    | .ok (i, n) => lastComma (c.on b).output (c.on b).output.size = .ok (c.place i, n)
    | .error f => ∃ g, c.same f g ∧ lastComma (c.on b).output (c.on b).output.size = .error g at hcomma
  dsimp only
  cases hlast : lastComma b.output b.output.size with
  | error f =>
    rw [hlast] at hcomma
    obtain ⟨g, hsame, hon⟩ := hcomma
    rw [hon]
    exact fun _ _ => ⟨g, hsame, rfl⟩
  | ok place =>
    rw [hlast] at hcomma
    rw [hcomma]
    dsimp only
    have hget : (c.on b).output.getD (c.place place.1) [] = b.output.getD place.1 [] := c.get b.output place.1
    rw [hget]
    exact blind_replacePiece _ _

theorem blind_closeIf : Blind c k closeIf closeIf := by
  refine .get fun b _ => .ite (fun _ => ?_) (.pure _)
  exact .bind blind_deleteLastComma fun _ => .bind (blind_push _) fun _ => .modify fun _ _ => ⟨rfl, rfl⟩

theorem blind_countChild : Blind c k countChild countChild := by
  refine .modify fun b _ => ?_
  cases htags : b.openTags <;> simp [Change.on, Change.tag, htags]

theorem blind_forgetLast : Blind c k forgetLast forgetLast := .modify fun _ _ => ⟨rfl, rfl⟩

theorem blind_writePart (part : Part) : Blind c k (writePart part) (writePart part) := by
  cases part with
  | code tokens =>
    refine .get fun b _ => .bind (blind_push _) fun _ => .bind (blind_layOut tokens) fun _ => ?_
    exact .bind (blind_push _) fun _ => .bind (blind_push _) fun _ => blind_push _
  | text s => exact .bind (blind_push _) fun _ => blind_push _

theorem blind_writeParts (parts : List Part) : Blind c k (writeParts parts) (writeParts parts) := by
  induction parts with
  | nil => exact .pure _
  | cons part rest ih => exact .bind (blind_writePart part) fun _ => ih

theorem blind_writeValue (value : Option (List Part)) : Blind c k (writeValue value) (writeValue value) := by
  unfold writeValue
  split
  · exact .throw _
  · split
    · exact .bind (blind_layOut _) fun _ => blind_push _
    · exact blind_push _
    · exact .bind (blind_push _) fun _ => .bind (blind_writeParts _) fun _ => blind_push _

theorem blind_writeAttributes (more : Bool) (attributes : List Attribute) :
    Blind c k (writeAttributes more attributes) (writeAttributes more attributes) := by
  induction attributes generalizing more with
  | nil => exact .pure _
  | cons a rest ih =>
    unfold writeAttributes
    refine .optional (fun _ => blind_push _) fun _ => ?_
    cases a.name with
    | none => exact .throw _
    | some name =>
      refine .bind (blind_push _) fun _ => .bind (blind_push _) fun _ => ?_
      exact .bind (blind_writeValue _) fun _ => ih true

theorem blind_openFragment : Blind c k openFragment openFragment := by
  refine .bind (.modify fun b hb => ?_) fun _ => .bind (blind_push _) fun _ => blind_forgetLast
  have hsize := c.size (Nat.le_of_add_right_le hb)
  cases htags : b.openTags <;> simp [Change.on, Change.tag, htags, hsize]

theorem blind_writeCondition (opened : OpenTag) :
    Blind c k (writeCondition opened) (writeCondition (c.tag opened)) := by
  unfold writeCondition
  refine .bind (blind_push _) fun _ => .get fun b hb => .bind (blind_push _) fun _ => ?_
  have hfirst : c.first ≤ b.output.size := Nat.le_of_add_right_le hb
  have hsize : (c.on b).output.size = c.place b.output.size := c.size hfirst
  dsimp only [Change.tag]
  rw [hsize]
  split
  · exact .throw _
  · refine .bind (blind_writeValue _) fun _ => .get fun d hd => ?_
    have hdrop : (c.on d).output.toList.drop (c.place b.output.size) = d.output.toList.drop b.output.size :=
      c.drop (Nat.le_of_add_right_le hd) hfirst
    rw [hdrop]
    exact .ite (fun _ => blind_push _) (blind_replacePiece _ _)

theorem blind_dropFragment (opened : OpenTag) :
    Blind c (k + 1) (dropFragment opened) (dropFragment (c.tag opened)) := by
  unfold dropFragment
  refine .get fun b hb => ?_
  have hsize : (c.on b).output.size - 1 = c.place (b.output.size - 1) := by
    obtain ⟨n, hn⟩ := Nat.exists_eq_add_of_le hb
    have hout : (c.on b).output.size = c.place b.output.size := c.size (Nat.le_of_add_right_le hb)
    rw [hout, hn, show c.first + (k + 1) + n = c.first + k + n + 1 by omega, c.last (by omega)]
    rfl
  rw [hsize]
  refine .bind (blind_replacePiece _ _) fun _ => .bind blind_deleteLastComma fun _ => ?_
  cases hopening : opened.opening with
  | none =>
    simp only [Change.tag, hopening]
    exact .throw _
  | some i =>
    simp only [Change.tag, hopening]
    exact blind_replacePiece _ _

theorem blind_beginElement (tag : Text) (attributes : List Attribute) (call : Bool) :
    Blind c k (beginElement tag attributes call) (beginElement tag attributes call) := by
  unfold beginElement
  refine .bind blind_countChild fun _ => .bind (.modify fun _ _ => ⟨rfl, rfl⟩) fun _ => ?_
  refine .ite (fun _ => ?_) (.ite (fun _ => ?_) ?_)
  · refine .bind blind_closeIf fun _ => .ite (fun _ => .check fun _ => rfl) ?_
    exact .ite (fun _ => .check fun _ => rfl) blind_openFragment
  · refine .ite (fun _ => .check fun _ => rfl) (.get fun b _ => .ite (fun _ => .check fun _ => rfl) ?_)
    exact .bind blind_deleteLastComma fun _ => .bind (blind_push _) fun _ => blind_openFragment
  · refine .bind blind_closeIf fun _ => .optional (fun _ => blind_push _) fun _ => ?_
    refine .bind (blind_push _) fun _ => .bind (blind_writeAttributes _ _) fun _ => ?_
    exact .bind (blind_push _) fun _ => .optional (fun _ => blind_push _) fun _ => blind_forgetLast

/-- After its parenthesis, of which the end of an element makes use, an element ends alike. -/
theorem endElement_blind (c : Change) (tag : Text) (call : Bool) : ∃ leave : Unit → Build Unit,
    (∀ k a, (call = true → 0 < k) → Blind c k (leave a) (leave a)) ∧
      endElement tag call = closeIf >>= fun _ => if call then push [')'] >>= leave else leave () := by
  refine ⟨_, fun k _ hcall => ?_, rfl⟩
  refine .get fun b _ => ?_
  cases htags : b.openTags with
  | nil =>
    simp only [Change.on, htags, List.map_nil]
    exact .throw _
  | cons opened rest =>
    simp only [Change.on, htags, List.map_cons, List.isEmpty_map]
    refine .bind (.modify fun _ _ => ⟨rfl, rfl⟩) fun _ => .ite (fun _ => .check fun _ => rfl) ?_
    refine .optional (fun hdrop => ?_) fun _ => .optional (fun _ => blind_writeCondition opened) fun _ => ?_
    · obtain ⟨n, rfl⟩ := Nat.exists_eq_succ_of_ne_zero (hcall hdrop.2.1).ne'
      exact blind_dropFragment opened
    · refine .bind (.modify fun _ _ => ⟨rfl, rfl⟩) fun _ => ?_
      exact .optional (fun _ => blind_push _) fun _ => .modify fun _ _ => ⟨rfl, rfl⟩

theorem blind_endElement (tag : Text) (call : Bool) : Blind c k (endElement tag call) (endElement tag call) := by
  obtain ⟨leave, hleave, heq⟩ := endElement_blind c tag call
  rw [heq]
  refine .bind blind_closeIf fun _ => ?_
  cases call with
  | true => exact .push fun a => hleave _ a fun _ => Nat.succ_pos k
  | false => exact hleave k () nofun

theorem blind_wholeElement (tag : Text) (attributes : List Attribute) :
    Blind c k (wholeElement tag attributes) (wholeElement tag attributes) :=
  .bind (blind_beginElement _ _ _) fun _ => blind_endElement _ _

theorem blind_declare (tag argument : String) (content : Text) :
    Blind c k (declare tag argument content) (declare tag argument content) :=
  .bind (blind_wholeElement _ _) fun _ => blind_forgetLast

theorem blind_writeData (data : Text) : Blind c k (writeData data) (writeData data) := by
  refine .get fun b _ => .ite (fun _ => ?_) (.pure _)
  refine .bind blind_countChild fun _ => .bind blind_closeIf fun _ => .ite (fun _ => ?_) ?_
  · exact .bind (blind_push _) fun _ => blind_forgetLast
  · exact .bind (blind_push _) fun _ => blind_forgetLast

theorem blind_handle (e : Event) : Blind c k (handle e) (handle e) := by
  unfold handle
  split
  · exact blind_writeData _
  · exact blind_beginElement _ _ _
  · exact blind_wholeElement _ _
  · exact blind_endElement _ _
  · exact blind_declare _ _ _
  · exact blind_declare _ _ _
  · exact blind_declare _ _ _
  · exact .throw _

end

/-! ### What does not depend on the reader -/

def around (b : Builder) (m : Machine) : Builder := { b with machine := m }

/-- To another reader. -/
def Change.reader (m : Machine) : Change where
  machine _ := m
  output := id
  place := id
  first := 0
  same := Eq
  refl _ := rfl
  push _ _ := rfl
  set _ _ _ := rfl
  get _ _ := rfl
  size _ := rfl
  last _ := rfl
  drop _ _ := rfl
  comma := by
    intro out _
    split
    · assumption
    · exact ⟨_, rfl, ‹_›⟩

theorem Change.reader_on (m : Machine) (b : Builder) : (reader m).on b = b.around m := by
  have htags : b.openTags.map (reader m).tag = b.openTags := by
    rw [show (reader m).tag = id from funext fun t => by simp [tag, reader], List.map_id]
  unfold on
  rw [htags]
  rfl

theorem handle_around (e : Event) (b : Builder) (m : Machine) : match handle e b with
    | .ok a d => handle e (b.around m) = .ok a (d.around m)
    | .error f d => handle e (b.around m) = .error f (d.around m) := by
  have hhandle := blind_handle (c := .reader m) (k := 0) e b (Nat.zero_le _)
  simp only [Change.reader_on] at hhandle
  revert hhandle
  cases handle e b with
  | ok a d => exact And.left
  | error f d =>
    rintro ⟨_, rfl, herror⟩
    exact herror

/-! ### Two ways to read a text -/

def attend : Text → EStateM Fault (Machine × Builder) Text
  | [] => pure []
  | ch :: rest => do
    let (m, b) ← get
    if (b.around m).isDone then pure (ch :: rest)
    else
      set (m, { b with stop := b.stop.step ch })
      Machine.hear handle ch
      attend rest

/-- The builder comes to what the bare reader comes to. It reports a fault of the reader with its position. -/
inductive Agrees {α : Type} : EStateM.Result Fault Builder α → EStateM.Result Fault (Machine × Builder) α → Prop
  | ok (a : α) (m : Machine) (b : Builder) : Agrees (.ok a (b.around m)) (.ok a (m, b))
  | error {f g : Fault} (m : Machine) (b : Builder) (h : g = f ∨ g = relocate b.stop f) :
    Agrees (.error g (b.around m)) (.error f (m, b))

variable {m : Machine} {ch : Char} {b : Builder}

theorem readChar_agrees (h : (m.step ch).isAgain = false) (b : Builder) :
    Agrees (readChar ch relocate (b.around m)) (Machine.hear handle ch (m, b)) := by
  rw [Machine.hear_eq, Machine.wholeStep_of_not_again h]
  have hget : (get : Build Builder) (b.around m) = .ok (b.around m) (b.around m) := rfl
  have hmachine : (b.around m).machine = m := rfl
  unfold readChar
  rw [bind_ok hget, hmachine]
  cases hstep : m.step ch with
  | again n =>
    rw [hstep] at h
    cases h
  | quiet n => exact .ok () n b
  | fault n f => exact .error n b (.inr rfl)
  | event during e n =>
    have hrun := handle_around e b during
    have hbind : (do
        modify fun b => { b with machine := during }
        handle e
        modify fun b => { b with machine := n } : Build Unit) (b.around m) =
          (handle e >>= fun _ => modify fun b => { b with machine := n } : Build Unit) (b.around during) := rfl
    dsimp only
    rw [hbind, Step.heard]
    simp only [bind, EStateM.bind]
    cases hhandle : handle e b with
    | ok a c =>
      rw [hhandle] at hrun
      rw [hrun]
      exact .ok () n c
    | error f c =>
      rw [hhandle] at hrun
      rw [hrun]
      exact .error during c (.inl rfl)

theorem attend_cons (ch : Char) (rest : Text) (m : Machine) (b : Builder) :
    attend (ch :: rest) (m, b) = if (b.around m).isDone then .ok (ch :: rest) (m, b)
      else (Machine.hear handle ch >>= fun _ => attend rest) (m, { b with stop := b.stop.step ch }) := by
  change (if (b.around m).isDone then pure (ch :: rest) else _ : EStateM Fault (Machine × Builder) Text) (m, b) = _
  split <;> rfl

theorem char_together (hch : ¬(m.state = .beforeAttributeValue ∧ ch = '&')) (hdone : (b.around m).isDone = false) :
    (∃ f g n c, (g = f ∨ g = relocate c.stop f) ∧ ∀ rest, attend (ch :: rest) (m, b) = .error f (n, c) ∧
      readText (ch :: rest) (b.around m) = .error g (c.around n)) ∨
    ∃ n c, ∀ rest, attend (ch :: rest) (m, b) = attend rest (n, c) ∧
      readText (ch :: rest) (b.around m) = readText rest (c.around n) := by
  have hone := readChar_agrees (Machine.isAgain_step hch) { b with stop := b.stop.step ch }
  have hattend (rest : Text) := attend_cons ch rest m b
  -- the builder moves on before it reads, whichever reader it has
  have hread (rest : Text) : readText (ch :: rest) (b.around m) = if (b.around m).isDone then _
      else (readChar ch relocate >>= fun _ => readText rest) (around { b with stop := b.stop.step ch } m) :=
    readText_cons ch rest (b.around m)
  simp only [hdone, Bool.false_eq_true, if_false, bind, EStateM.bind] at hattend hread
  revert hone hattend hread
  generalize readChar ch relocate (around { b with stop := b.stop.step ch } m) = read
  generalize Machine.hear handle ch (m, { b with stop := b.stop.step ch }) = heard
  intro hone hattend hread
  cases hone with
  | ok _ n c => exact .inr ⟨n, c, fun rest => ⟨hattend rest, hread rest⟩⟩
  | error n c hfault => exact .inl ⟨_, _, n, c, hfault, fun rest => ⟨hattend rest, hread rest⟩⟩

def MeetsAmpersand (s : Text) (m : Machine) (b : Builder) : Prop :=
  ∃ front rest n c, s = front ++ '&' :: rest ∧ attend front (m, b) = .ok [] (n, c) ∧ n.state = .beforeAttributeValue

theorem readText_agrees (s : Text) (m : Machine) (b : Builder) (h : ¬MeetsAmpersand s m b) :
    Agrees (readText s (b.around m)) (attend s (m, b)) := by
  induction s generalizing m b with
  | nil => exact .ok [] m b
  | cons ch rest ih =>
    by_cases hdone : (b.around m).isDone = true
    · rw [attend_cons, readText_cons, if_pos hdone, if_pos hdone]
      exact .ok _ m b
    have hch : ¬(m.state = .beforeAttributeValue ∧ ch = '&') := by
      rintro ⟨hstate, rfl⟩
      exact h ⟨[], rest, m, b, rfl, rfl, hstate⟩
    rcases char_together hch (Bool.eq_false_of_not_eq_true hdone) with ⟨f, g, n, c, hfault, hboth⟩ | ⟨n, c, hboth⟩
    · rw [(hboth rest).1, (hboth rest).2]
      exact .error n c hfault
    · rw [(hboth rest).1, (hboth rest).2]
      refine ih n c fun ⟨front, more, k, d, hrest, hfront, hstate⟩ => h ⟨ch :: front, more, k, d, ?_, ?_, hstate⟩
      · rw [hrest, List.cons_append]
      · rw [(hboth front).1, hfront]

theorem readText_ampersand (s : Text) (m : Machine) (b : Builder) (h : MeetsAmpersand s m b) :
    ∃ c, readText s (b.around m) = .error .ambiguousValue c := by
  obtain ⟨front, rest, n, c, rfl, hfront, hstate⟩ := h
  have hrefused (k : Machine) (d : Builder) (hk : k.state = .beforeAttributeValue) (more : Text) :
      ∃ e, readText ('&' :: more) (d.around k) = .error .ambiguousValue e := by
    have hdone : (d.around k).isDone = false := by simp [isDone, around, hk]
    rw [readText_cons, hdone, if_neg Bool.false_ne_true]
    simp [bind, EStateM.bind, readChar, around, Machine.step_ampersand hk, get, getThe, MonadStateOf.get, EStateM.get,
      modify, modifyGet, MonadStateOf.modifyGet, EStateM.modifyGet, throw, throwThe, MonadExceptOf.throw, EStateM.throw]
  induction front generalizing m b with
  | nil =>
    cases hfront
    exact hrefused n c hstate rest
  | cons ch front ih =>
    by_cases hch : m.state = .beforeAttributeValue ∧ ch = '&'
    · obtain ⟨hm, rfl⟩ := hch
      exact hrefused m b hm _
    have hdone : (b.around m).isDone = false := by
      by_contra hend
      rw [attend_cons, if_pos (by simpa using hend)] at hfront
      cases hfront
    rcases char_together hch hdone with ⟨f, g, k, d, _, hboth⟩ | ⟨k, d, hboth⟩
    · rw [(hboth front).1] at hfront
      cases hfront
    · rw [(hboth front).1] at hfront
      rw [List.cons_append, (hboth _).2]
      exact ih k d hfront

/-- A token that stands where the builder stands is read as a bare reader reads its characters when the builder only
listens, unless that reader comes to an ampersand at the front of a value: the bare reader takes the ampersand as the
first character of the value, and the builder fails. -/
theorem builder_drives_reader {t : Token} {b : Builder} (hstart : t.start = b.stop) (hkind : t.kind ≠ .indent)
    (hjoin : t.isOp ['\\'] = false) (hblank : ¬(t.kind = .error ∧ t.text = [' '])) :
    (∀ front rest n c, t.text = front ++ '&' :: rest → attend front (b.machine, b) = .ok [] (n, c) →
      n.state = .beforeAttributeValue →
      (∃ d, read t b = .error .ambiguousValue d) ∧ Machine.hear handle '&' (n, c) =
        .ok () ({ n with attributeValue := some [.text ['&']], state := .valueUnquoted }, c)) ∧
    (¬MeetsAmpersand t.text b.machine b →
      (∀ rest m c, attend t.text (b.machine, b) = .ok rest (m, c) → read t b = .ok () (leave t rest (c.around m))) ∧
      ∀ f m c, attend t.text (b.machine, b) = .error f (m, c) →
        ∃ g, (g = f ∨ g = relocate c.stop f) ∧ read t b = .error g (c.around m)) := by
  rw [read_at_stop hstart hkind hjoin hblank]
  simp only [bind, EStateM.bind]
  constructor
  · intro front rest n c htext hfront hstate
    obtain ⟨d, hd⟩ := readText_ampersand t.text b.machine b ⟨front, rest, n, c, htext, hfront, hstate⟩
    change readText t.text b = _ at hd
    refine ⟨⟨d, by rw [hd]⟩, ?_⟩
    rw [Machine.hear_eq, Machine.wholeStep_ampersand hstate, Step.heard]
  · intro hmeets
    have hagrees := readText_agrees t.text b.machine b hmeets
    change Agrees (readText t.text b) _ at hagrees
    generalize readText t.text b = x at hagrees
    constructor
    · intro rest m c h
      rw [h] at hagrees
      cases hagrees
      rfl
    · intro f m c h
      rw [h] at hagrees
      cases hagrees with
      | error _ _ hfault => exact ⟨_, hfault, rfl⟩

def wholeToken (s : Text) : Token := { kind := .op, text := s, start := ⟨1, 4⟩, stop := ⟨1, 4 + s.length⟩, line := s }

def fresh : Builder := begin ⟨1, 4⟩ "str".toList

def built {α : Type} : EStateM.Result Fault (Machine × Builder) α → Option Text
  | .ok _ (_, b) => some b.output.toList.flatten
  | .error _ _ => none

def failure {α : Type} : EStateM.Result Fault Builder α → Option Fault
  | .ok _ _ => none
  | .error f _ => some f

def quotedValue : Text := "<a b='c'></a>".toList

theorem builder_drives_reader_quotedValue :
    ∃ rest m c, attend quotedValue (fresh.machine, fresh) = .ok rest (m, c) ∧
      c.output.toList.flatten = "html.x_a(b='c')()".toList ∧
      read (wholeToken quotedValue) fresh = .ok () (leave (wholeToken quotedValue) rest (c.around m)) := by
  have hbuilt : built (attend quotedValue (fresh.machine, fresh)) = some "html.x_a(b='c')()".toList := by decide +kernel
  have hmeets : ¬MeetsAmpersand quotedValue fresh.machine fresh := by
    rintro ⟨front, rest, n, c, htext, _⟩
    have hmem : '&' ∈ quotedValue := by simp [htext]
    exact absurd hmem (by decide)
  have hread := (builder_drives_reader (t := wholeToken quotedValue) (b := fresh) rfl (by decide) rfl (by decide)).2 hmeets
  cases hrun : attend quotedValue (fresh.machine, fresh) with
  | error f after =>
    rw [hrun] at hbuilt
    cases hbuilt
  | ok rest after =>
    rw [hrun] at hbuilt
    exact ⟨rest, after.1, after.2, rfl, Option.some.inj hbuilt, hread.1 rest after.1 after.2 hrun⟩

/-- The bare reader makes an element with the value `&c`, and the builder fails. -/
theorem ampersand_refused :
    built (attend "<a b=&c></a>".toList (fresh.machine, fresh)) = some "html.x_a(b='&c')()".toList ∧
      failure (read (wholeToken "<a b=&c></a>".toList) fresh) = some .ambiguousValue := by
  decide +kernel

end Builder

end InlineMarkup.Markup

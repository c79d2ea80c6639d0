import InlineMarkup.Proofs.Inputs
import InlineMarkup.Translate

/-!
Which commas are deleted. After an `if` and after a child, the last piece of the output that is neither
blank nor a comment of the source ends in a comma. The main statement is `comma_deleted`.
-/
namespace InlineMarkup.Markup.Builder

open List

structure LastReal (notes : List Nat) (out front : List Text) (p : Text) (tail : List Text) : Prop where
  split : out = front ++ p :: tail
  real : (∃ c ∈ p, isBlank c = false) ∧ front.length ∉ notes
  rest : ∀ (i : Nat) q, tail[i]? = some q → (∀ c ∈ q, isBlank c = true) ∨ front.length + 1 + i ∈ notes

def CommaLast (plain : Prop) (notes : List Nat) (out : List Text) : Prop :=
  ∃ front x blanks tail, LastReal notes out front (x ++ ',' :: blanks) tail ∧ (∀ c ∈ blanks, isBlank c = true) ∧
    (plain → (x ++ [',']).head? ≠ some '#')

def Log.notes (log : Log) : List Nat := log.comments.map Prod.fst

def Log.Stays (log : Log) (out : List Text) : Prop :=
  ∀ n ∈ log.comments, out[n.1]? = some n.2 ∧ n.2.head? = some '#'

section

variable {log : Log} {out mid new ps : List Text} {plain : Prop}

theorem Log.Stays.lt (h : log.Stays out) {i : Nat} (hi : i ∈ log.notes) : i < out.length := by
  obtain ⟨n, hn, rfl⟩ := mem_map.1 hi
  exact (List.getElem?_eq_some_iff.1 (h n hn).1).1

theorem Log.Stays.not_mem (h : log.Stays out) {i : Nat} (hi : out.length ≤ i) : i ∉ log.notes :=
  fun hmem => absurd (h.lt hmem) (by omega)

theorem Log.Stays.append (h : log.Stays out) (ps : List Text) : log.Stays (out ++ ps) := fun n hn =>
  ⟨by rw [getElem?_append_left (h.lt (mem_map_of_mem hn)), (h n hn).1], (h n hn).2⟩

theorem Log.Stays.set (h : log.Stays out) {i : Nat} (hi : i ∉ log.notes) (p : Text) : log.Stays (out.set i p) := by
  intro n hn
  have hne : i ≠ n.1 := fun heq => hi (heq ▸ mem_map_of_mem hn)
  rw [getElem?_set_ne hne]
  exact h n hn

theorem Log.Stays.cut (h : log.Stays out) (hcut : Cut out new) : log.Stays new := by
  obtain ⟨front, x, blanks, tail, rfl, rfl, hx, -⟩ := hcut
  have hplace : front.length ∉ log.notes := by
    intro hmem
    obtain ⟨n, hn, hplace⟩ := mem_map.1 hmem
    obtain ⟨hget, hhash⟩ := h n hn
    rw [hplace] at hget
    have hpiece : x ++ ',' :: blanks = n.2 := by simpa using hget
    rw [← hpiece] at hhash
    cases x with
    | nil => simp at hhash
    | cons c x => exact hx hhash
  have hset : front ++ (x ++ blanks) :: tail = (front ++ (x ++ ',' :: blanks) :: tail).set front.length (x ++ blanks) := by
    simp
  rw [hset]
  exact h.set hplace _

theorem Log.Stays.resolved {after : Bool} (h : log.Stays out) (hmid : Resolved out after mid) :
    log.Stays mid ∧ out.length ≤ mid.length := by
  cases hmid with
  | nothing => exact ⟨h, le_rfl⟩
  | added _ hcut => exact ⟨(h.cut hcut).append _, by simp [hcut.length]⟩

theorem commaLast_push (h : log.Stays out) (x : Text) {blanks : Text} (hblanks : ∀ c ∈ blanks, isBlank c = true)
    (hx : plain → (x ++ [',']).head? ≠ some '#') : CommaLast plain log.notes (out ++ [x ++ ',' :: blanks]) :=
  ⟨out, x, blanks, [], ⟨rfl, ⟨⟨',', by simp, by decide⟩, h.not_mem le_rfl⟩, by simp⟩, hblanks, hx⟩

theorem CommaLast.write (h : CommaLast plain log.notes out) (hps : ∀ p ∈ ps, ∀ c ∈ p, isBlank c = true) :
    CommaLast plain log.notes (out ++ ps) := by
  obtain ⟨front, x, blanks, tail, hlast, hblanks, hx⟩ := h
  refine ⟨front, x, blanks, tail ++ ps, ⟨by simp [hlast.split], hlast.real, fun i q hq => ?_⟩, hblanks, hx⟩
  rw [getElem?_append] at hq
  split at hq
  · exact hlast.rest i q hq
  · exact .inl (hps q (mem_of_getElem? hq))

theorem CommaLast.comment (h : CommaLast plain log.notes out) (s : Text) :
    CommaLast plain (log.notes ++ [out.length]) (out ++ [s]) := by
  obtain ⟨front, x, blanks, tail, hlast, hblanks, hx⟩ := h
  refine ⟨front, x, blanks, tail ++ [s], ⟨by simp [hlast.split], ⟨hlast.real.1, ?_⟩, fun i q hq => ?_⟩, hblanks, hx⟩
  · simp [hlast.real.2, hlast.split]
  · rw [getElem?_append] at hq
    split at hq
    · exact (hlast.rest i q hq).imp_right (mem_append_left _)
    · have hi := (List.getElem?_eq_some_iff.1 hq).1
      rw [length_singleton] at hi
      refine .inr (mem_append_right _ (mem_singleton.2 ?_))
      simp only [hlast.split, length_append, length_cons]
      omega

theorem Log.Stays.cut_of_last (h : log.Stays out) {front : List Text} {x blanks : Text} {tail : List Text}
    (hlast : LastReal log.notes out front (x ++ ',' :: blanks) tail) (hblanks : ∀ c ∈ blanks, isBlank c = true)
    (hx : (x ++ [',']).head? ≠ some '#') : Cut out (front ++ (x ++ blanks) :: tail) := by
  refine ⟨front, x, blanks, tail, hlast.split, rfl, hx, hblanks, fun p hp => ?_⟩
  obtain ⟨i, hi⟩ := getElem?_of_mem hp
  rcases hlast.rest i p hi with hblank | hnote
  · exact not_counts_blank hblank
  · obtain ⟨n, hn, hplace⟩ := mem_map.1 hnote
    obtain ⟨hget, hhash⟩ := h n hn
    have hsame : p = n.2 := by
      rw [hplace, hlast.split, getElem?_append_right (by omega)] at hget
      have hsub : front.length + 1 + i - front.length = i + 1 := by omega
      rw [hsub, getElem?_cons_succ, hi] at hget
      exact Option.some.inj hget
    exact hsame ▸ not_counts_hash hhash

end

/-- What holds throughout a run: the comments stay, an open fragment is none of them, and there is a comma after
an `if` and after a child. -/
structure Commas (log : Log) (v : View) : Prop where
  stays : log.Stays v.output
  openings : ∀ t ∈ v.tags, ∀ i ∈ t.opening, i < v.output.length ∧ i ∉ log.notes
  ready : ∀ t ∈ v.tags.head?, v.afterIf = true ∨ 0 < t.children → CommaLast (v.afterIf = true) log.notes v.output

section

variable {log : Log} {v w : View} {C : Part → Prop} {function : Text}

theorem openings_bump {tags : List OpenTag} {P : Nat → Prop} (h : ∀ t ∈ tags, ∀ i ∈ t.opening, P i) :
    ∀ t ∈ bump tags, ∀ i ∈ t.opening, P i := by
  cases tags with
  | nil => exact h
  | cons t rest => exact forall_mem_cons.2 (forall_mem_cons.1 h)

theorem Commas.child (h : Commas log v) (x : Text) : Commas log ⟨v.output ++ [x ++ [',', ' ']], bump v.tags,
    false⟩ := by
  refine ⟨h.stays.append _, openings_bump fun t ht i hi => ?_, fun t _ _ => ?_⟩
  · exact ⟨(h.openings t ht i hi).1.trans_le (by simp), (h.openings t ht i hi).2⟩
  · exact commaLast_push h.stays x (forall_mem_singleton.2 rfl) fun h => absurd h Bool.false_ne_true

theorem exists_dataPiece (d : Text) : ∃ x, dataPiece d = x ++ [',', ' '] := by
  unfold dataPiece
  dsimp only
  split
  · exact ⟨"html.rawhtml(u\"".toList ++ Text.replaceChar '"' ['\\', '"'] d ++ "\")".toList, by simp⟩
  · exact ⟨"u\"".toList ++ Text.replaceChar '"' ['\\', '"'] d ++ "\"".toList, by simp⟩

theorem exists_codePiece (tokens : List Token) : ∃ x, codePiece tokens (codeText tokens) = x ++ [',', ' '] := by
  unfold codePiece
  split
  · exact ⟨['('] ++ codeText tokens ++ [')'], by simp⟩
  · exact ⟨codeText tokens, rfl⟩

theorem Commas.calm (h : Commas log v) (hcalm : Calm C v w) : Commas log w := by
  cases hcalm with
  | @resolve mid hmid =>
    obtain ⟨hstays, hlength⟩ := h.stays.resolved hmid
    refine ⟨hstays, fun t ht i hi => ⟨(h.openings t ht i hi).1.trans_le hlength, (h.openings t ht i hi).2⟩, ?_⟩
    intro t ht hchild
    cases hmid with
    | nothing hafter =>
      have hready := h.ready t ht (hchild.imp (absurd · Bool.false_ne_true) id)
      rwa [hafter] at hready
    | added _ hcut =>
      exact commaLast_push (h.stays.cut hcut) " else None".toList (forall_mem_singleton.2 rfl) fun _ => by simp
  | @rows ps hps =>
    refine ⟨h.stays.append ps, fun t ht i hi => ?_, fun t ht hchild => (h.ready t ht hchild).write fun p hp c hc => ?_⟩
    · exact ⟨(h.openings t ht i hi).1.trans_le (by simp), (h.openings t ht i hi).2⟩
    · rw [hps p hp c hc]
      decide
  | text _ _ afterCode beforeCode =>
    obtain ⟨x, hx⟩ := exists_dataPiece (normalize _ afterCode beforeCode)
    rw [hx]
    exact h.child x
  | code _ _ =>
    obtain ⟨x, hx⟩ := exists_codePiece _
    rw [hx]
    exact h.child x

theorem Commas.calms (h : Commas log v) (hcalms : Calms C v w) : Commas log w := by
  induction hcalms with
  | refl => exact h
  | tail _ hcalm ih => exact ih.calm hcalm

theorem Commas.begins {tag : Text} {call : Bool} {attributes : List Attribute} {opening : Option Nat} {out : List Text}
    (h : Commas log v) (hbegin : Begins function call v tag attributes opening out) :
    log.Stays out ∧ v.output.length ≤ out.length ∧ ∀ i ∈ opening, i < out.length ∧ i ∉ log.notes := by
  cases hbegin with
  | element _ _ hmid =>
    obtain ⟨hstays, hlength⟩ := h.stays.resolved hmid
    exact ⟨hstays.append _, hlength.trans (by simp), nofun⟩
  | condition _ _ _ hmid =>
    obtain ⟨hstays, hlength⟩ := h.stays.resolved hmid
    refine ⟨hstays.append _, hlength.trans (by simp), fun i hi => ?_⟩
    cases hi
    exact ⟨by simp, hstays.not_mem le_rfl⟩
  | alternative _ _ _ hcut =>
    have hstays := h.stays.cut hcut
    refine ⟨hstays.append _, by simp [hcut.length], fun i hi => ?_⟩
    cases hi
    exact ⟨by simp, hstays.not_mem (by omega)⟩

theorem Commas.ends {t : OpenTag} {rest : List OpenTag} {out : List Text} (h : Commas log v)
    (htags : v.tags = t :: rest) (hend : Ends function true t v out) :
    log.Stays out ∧ v.output.length ≤ out.length := by
  cases hend with
  | closed _ hmid =>
    obtain ⟨hstays, hlength⟩ := h.stays.resolved hmid
    exact ⟨(hstays.append _).append _, hlength.trans (by simp)⟩
  | dropped _ _ _ hmid hcut hopening =>
    obtain ⟨hstays, hlength⟩ := h.stays.resolved hmid
    have hnote := (h.openings t (htags ▸ mem_cons_self) _ hopening).2
    refine ⟨(((hstays.append _).cut hcut).set hnote _).append _, ?_⟩
    simp only [length_append, length_set, hcut.length]
    omega

theorem Commas.handled {e : Event} (h : Commas log v) (hhandled : Handled function v e w) : Commas log w := by
  have hcomma {out : List Text} (hout : log.Stays out) (tags : List OpenTag) (plain : Prop) :
      log.Stays (out ++ comma tags) ∧ ∀ t ∈ tags.head?, CommaLast plain log.notes (out ++ comma tags) := by
    refine ⟨hout.append _, ?_⟩
    cases tags with
    | nil => exact nofun
    | cons t tags => exact fun _ _ => commaLast_push hout [] (forall_mem_nil _) fun _ => by decide
  have hold {out : List Text} (hlength : v.output.length ≤ out.length) (t : OpenTag) (ht : t ∈ v.tags) (i : Nat)
      (hi : i ∈ t.opening) : i < out.length ∧ i ∉ log.notes :=
    ⟨(h.openings t ht i hi).1.trans_le hlength, (h.openings t ht i hi).2⟩
  cases hhandled with
  | blank => exact h
  | data hmid afterCode beforeCode =>
    have hresolved := h.calm (C := fun _ => True) (.resolve hmid)
    exact hresolved.calm (C := fun _ => True) (.text rfl trivial afterCode beforeCode)
  | start row hbegin =>
    obtain ⟨hstays, hlength, hopening⟩ := h.begins hbegin
    refine ⟨hstays, forall_mem_cons.2 ⟨hopening, openings_bump (hold hlength)⟩, fun t ht hchild => ?_⟩
    cases ht
    simp at hchild
  | finish htags hend =>
    obtain ⟨hstays, hlength⟩ := h.ends htags hend
    obtain ⟨hstays, hready⟩ := hcomma hstays _ _
    exact ⟨hstays, fun u hu => hold (hlength.trans (by simp)) u (htags ▸ mem_cons_of_mem _ hu),
      fun t ht _ => hready t ht⟩
  | whole row he hbegin =>
    obtain ⟨hstays, hlength, -⟩ := h.begins hbegin
    obtain ⟨hstays, hready⟩ := hcomma (hstays.append _) _ _
    refine ⟨hstays, openings_bump (hold (hlength.trans (by simp))), fun t ht _ => hready t ht⟩

theorem Commas.advances {log' : Log} (h : Commas log v) (hadvances : Advances function log v log' w) :
    Commas log' w := by
  cases hadvances with
  | calm texts codes hcalms => exact ⟨(h.calms hcalms).1, (h.calms hcalms).2, (h.calms hcalms).3⟩
  | @comment s hs =>
    refine ⟨?_, fun t ht i hi => ⟨(h.openings t ht i hi).1.trans_le (by simp), ?_⟩, fun t ht hchild => ?_⟩
    · refine forall_mem_append.2 ⟨h.stays.append _, forall_mem_singleton.2 ⟨by simp, hs⟩⟩
    · obtain ⟨hlt, hnote⟩ := h.openings t ht i hi
      have hne : i ≠ v.output.length := by omega
      simpa [Log.notes, hne] using hnote
    · simpa [Log.notes] using (h.ready t ht hchild).comment s
  | event hhandled => exact ⟨(h.handled hhandled).1, (h.handled hhandled).2, (h.handled hhandled).3⟩

end

/-! ### The faults of a missing comma -/

def Passes : Step → Prop
  | .fault _ f => ¬ f.OfComma
  | _ => True

theorem step_passes (m : Machine) (c : Char) : Passes (m.step c) := by
  have hclose (k : Machine) : Passes k.closeTag := by
    unfold Machine.closeTag
    repeat' split
    all_goals first
      | trivial
      | exact id
  have hinside : Passes (m.extendValue c) ∧ Passes (m.openDeclaration c) ∧ Passes (m.readSection c) ∧
      ∀ k : Machine, ∀ tag, Passes (k.openName tag c) := by
    unfold Machine.extendValue Machine.openDeclaration Machine.readSection Machine.openName
    refine ⟨?_, ?_, ?_, fun k tag => ?_⟩
    all_goals try dsimp only
    all_goals repeat' split
    all_goals first
      | trivial
      | exact id
  have hattribute {next : Machine → Step} (hnext : ∀ k, Passes (next k)) : Passes (m.withAttribute next) := by
    unfold Machine.withAttribute
    split
    · exact hnext _
    · rename_i f hf
      unfold Machine.closeAttribute at hf
      repeat' split at hf
      all_goals
        cases hf
        try exact id
  unfold Machine.step
  repeat' split
  all_goals first
    | trivial
    | exact id
    | exact hclose _
    | exact hattribute fun k => trivial
    | exact hattribute fun k => id
    | exact hattribute hclose
    | exact hinside.1
    | exact hinside.2.1
    | exact hinside.2.2.1
    | exact hinside.2.2.2 _ _

theorem readChar_yields (b : Builder) (ch : Char) :
    Yields (fun f => f.OfComma → Lacks b.view ∨ LacksChild true b.view) (fun _ => True) (readChar ch relocate b) := by
  unfold readChar
  rw [get_bind]
  have hpasses := step_passes b.machine ch
  cases hstep : b.machine.step ch with
  | quiet => trivial
  | again => exact False.elim
  | fault m f =>
    rw [hstep] at hpasses
    refine fun hf => absurd ?_ hpasses
    cases f <;> exact hf
  | event during e after =>
    exact .bind (b := { b with machine := during }) ((handle_yields _ e).imp (fun _ h hf => (h hf).imp_right And.right)
      fun _ _ => trivial) fun _ _ => trivial

section

variable {start : Pos} {function : Text} {inputs : List Input} {log : Log} {b : Builder}

def Deletes (notes : List Nat) (b : Builder) (p : Text) : Prop :=
  ∃ front x blanks tail, p = x ++ ',' :: blanks ∧ (∀ c ∈ blanks, isBlank c = true) ∧
    LastReal notes b.output.toList front p tail ∧
    (p.head? ≠ some '#' → deleteLastComma b = .ok () { b with output := (front ++ (x ++ blanks) :: tail).toArray })

theorem CommaLast.deletes {plain : Prop} (h : CommaLast plain log.notes b.output.toList)
    (hstays : log.Stays b.output.toList) : ∃ p, Deletes log.notes b p ∧ (plain → p.head? ≠ some '#') ∧
      (p.head? ≠ some '#' → ∃ new, Cut b.output.toList new) := by
  obtain ⟨front, x, blanks, tail, hlast, hblanks, hx⟩ := h
  have hhead : (x ++ ',' :: blanks).head? = (x ++ [',']).head? := by cases x <;> rfl
  have hcut (hno : (x ++ ',' :: blanks).head? ≠ some '#') := hstays.cut_of_last hlast hblanks (hhead ▸ hno)
  exact ⟨x ++ ',' :: blanks, ⟨front, x, blanks, tail, rfl, hblanks, hlast, fun hno => deleteLastComma_of_cut (hcut hno)⟩,
    fun hplain => hhead ▸ hx hplain, fun hno => ⟨_, hcut hno⟩⟩

theorem closeIf_of_resolved {mid : List Text} (h : Resolved b.output.toList b.afterIf mid) :
    closeIf b = .ok () { b with output := mid.toArray, afterIf := false } := by
  unfold closeIf
  rw [get_bind]
  cases h with
  | nothing hafter =>
    have hsame : b = { b with output := b.output.toList.toArray, afterIf := false } := by simp [← hafter]
    rw [hafter]
    exact congrArg (EStateM.Result.ok ()) hsame
  | @added new hafter hcut =>
    rw [if_pos hafter, bind_ok (deleteLastComma_of_cut hcut), push_bind]
    exact congrArg (fun out => EStateM.Result.ok () { b with output := out, afterIf := false }) (push_eq new.toArray _)

theorem comma_deleted (h : feedEach start function inputs = some (log, b)) (hopen : b.isDone = false) :
    (b.afterIf = true → ∃ p, Deletes log.notes b p ∧ p.head? ≠ some '#') ∧
    (∀ t rest c, b.openTags = t :: rest → 0 < t.children → closeIf b = .ok () c →
      ∃ p, Deletes log.notes { c with output := c.output.push [] } p) ∧
    ∀ (i : Input) f c, i.Fits b → i.perform b = .error f c → f.OfComma → ∃ t rest d p, b.openTags = t :: rest ∧
      IsConditional t.tag ∧ t.children = 1 ∧ closeIf b = .ok () d ∧
        Deletes log.notes { d with output := d.output.push [] } p ∧ p.head? = some '#' := by
  obtain ⟨hcommas, henclosed⟩ := feedEach_advances (P := Commas) ⟨nofun, nofun, nofun⟩
    (fun _ _ _ _ hv hadvances => hv.advances hadvances) h
  have hafter (hyes : b.afterIf = true) : ∃ p, Deletes log.notes b p ∧ p.head? ≠ some '#' ∧
      ∃ new, Cut b.output.toList new := by
    cases htags : b.openTags with
    | nil => exact absurd (hyes.symm.trans (henclosed hopen htags)) Bool.noConfusion
    | cons t rest =>
      obtain ⟨p, hp, hplain, hcut⟩ := (hcommas.ready t (congrArg List.head? htags) (.inl hyes)).deletes hcommas.stays
      exact ⟨p, hp, hplain hyes, hcut (hplain hyes)⟩
  have hlacks : ¬ Lacks b.view := fun hno => hno.2 (hafter hno.1).choose_spec.2.2
  have hchild (t : OpenTag) (rest : List OpenTag) (mid : List Text) (htags : b.openTags = t :: rest)
      (hone : 0 < t.children) (hmid : Resolved b.output.toList b.afterIf mid) :
      ∃ p, Deletes log.notes { b with output := mid.toArray.push [], afterIf := false } p ∧
        (p.head? ≠ some '#' → ∃ new, Cut (mid ++ [[]]) new) := by
    have hresolved := hcommas.calm (C := fun _ => True) (.resolve hmid)
    have hblank : ∀ p ∈ ([[]] : List Text), ∀ c ∈ p, isBlank c = true := by simp
    have hready := (hresolved.ready t (congrArg List.head? htags) (.inr hone)).write hblank
    obtain ⟨p, hp, -, hcut⟩ := CommaLast.deletes (b := { b with output := mid.toArray.push [], afterIf := false })
      (by simpa using hready) (by simpa using hresolved.stays.append [[]])
    exact ⟨p, hp, by simpa using hcut⟩
  refine ⟨fun hyes => ?_, fun t rest c htags hone hclose => ?_, fun i f c hfits hperform hf => ?_⟩
  · obtain ⟨p, hp, hplain, -⟩ := hafter hyes
    exact ⟨p, hp, hplain⟩
  · obtain ⟨mid, hmid, rfl⟩ := (closeIf_yields b).of_ok hclose
    obtain ⟨p, hp, -⟩ := hchild t rest mid htags hone hmid
    exact ⟨p, hp⟩
  · have hfail : LacksChild true b.view := by
      cases i with
      | char ch => exact ((readChar_yields b ch).of_error hperform hf).resolve_left hlacks
      | rows row => exact absurd hf ((advanceTo_yields b row).of_error hperform).1
      | place | comment => cases hperform
      | code tokens => exact absurd (((readCode_yields tokens b).of_error hperform).comma hf) hlacks
    obtain ⟨-, t, rest, mid, htags, hcond, hone, hmid, hno⟩ := hfail
    obtain ⟨p, hp, hcut⟩ := hchild t rest mid htags (by omega) hmid
    exact ⟨t, rest, _, p, htags, hcond, hone, closeIf_of_resolved hmid, hp, not_not.1 fun hplain => hno (hcut hplain)⟩

def childOfIf (code : List Token) : List Input :=
  "<p><if cond=".toList.map .char ++ [.code [⟨.name, ['a'], ⟨1, 12⟩, ⟨1, 13⟩, []⟩], .char '>', .comment "# d".toList,
    .code code]

def hiddenCode : List Token :=
  [⟨.comment, "# e".toList, ⟨1, 20⟩, ⟨1, 23⟩, []⟩, ⟨.newline, ['\n'], ⟨1, 23⟩, ⟨1, 24⟩, []⟩,
    ⟨.name, ['b'], ⟨2, 0⟩, ⟨2, 1⟩, []⟩]

/-- After an `if` around `b` a comma can be deleted. Where an `if` ends around code that begins with a comment, none
is found. -/
theorem comma_deleted_childOfIf :
    (∃ log b p, feedEach ⟨1, 0⟩ "str".toList (childOfIf [⟨.name, ['b'], ⟨1, 20⟩, ⟨1, 21⟩, []⟩] ++
      "</if>".toList.map .char) = some (log, b) ∧ b.afterIf = true ∧ Deletes log.notes b p ∧ p.head? ≠ some '#') ∧
    ∃ log b f c, feedEach ⟨1, 0⟩ "str".toList (childOfIf hiddenCode ++ "</if".toList.map .char) = some (log, b) ∧
      readChar '>' relocate b = .error f c ∧ f.OfComma ∧ ∃ t rest d p, b.openTags = t :: rest ∧
        IsConditional t.tag ∧ t.children = 1 ∧ closeIf b = .ok () d ∧
          Deletes log.notes { d with output := d.output.push [] } p ∧ p.head? = some '#' := by
  constructor
  · have hfed : ((feedEach ⟨1, 0⟩ "str".toList (childOfIf [⟨.name, ['b'], ⟨1, 20⟩, ⟨1, 21⟩, []⟩] ++
        "</if>".toList.map .char)).any fun s => !s.2.isDone && s.2.afterIf) = true := by
      decide +kernel
    obtain ⟨⟨log, b⟩, hfeed, hs⟩ := (Option.any_eq_true _ _).1 hfed
    rw [Bool.and_eq_true, Bool.not_eq_true'] at hs
    obtain ⟨p, hp⟩ := (comma_deleted hfeed hs.1).1 hs.2
    exact ⟨log, b, p, hfeed, hs.2, hp⟩
  · have hfed : ((feedEach ⟨1, 0⟩ "str".toList (childOfIf hiddenCode ++ "</if".toList.map .char)).any fun s =>
        !s.2.isDone && match readChar '>' relocate s.2 with
          | .error (.noCommaAt _ _ _) _ => true
          | _ => false) = true := by
      decide +kernel
    obtain ⟨⟨log, b⟩, hfeed, hs⟩ := (Option.any_eq_true _ _).1 hfed
    rw [Bool.and_eq_true, Bool.not_eq_true'] at hs
    obtain ⟨hopen, hs⟩ := hs
    split at hs
    · rename_i hread
      exact ⟨log, b, _, _, hfeed, hread, trivial, (comma_deleted hfeed hopen).2.2 (.char '>') _ _ trivial hread trivial⟩
    · cases hs

/-- The comma after code that begins with a comment is not found. -/
theorem comma_not_found : (match translate {} "x = <p><if cond=\"\x7ba\x7d\">\x7b# c\nb\x7d</if></p>\n".toList with
      | .error (.noCommaAt _ piece _) => piece == fragmentPiece
      | _ => false) = true := by
  decide +kernel

end

end InlineMarkup.Markup.Builder

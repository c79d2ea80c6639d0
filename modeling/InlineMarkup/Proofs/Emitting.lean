import InlineMarkup.Markup.Builder
import InlineMarkup.Proofs.Lines

/-!
What a builder emits, said once for all that follows from it.
-/
namespace InlineMarkup

open List

def Fault.OfComma : Fault → Prop
  | .noComma | .noCommaAt _ _ _ => True
  | _ => False

def Fault.OfNesting : Fault → Prop
  | .conditionCount _ | .conditionMissing _ | .elseAttributes _ | .elseAlone _
  | .mismatched _ _ _ _ | .nothingOpen _ => True
  | _ => False

namespace Markup

def Counts (s : Text) : Prop := ∃ c rest, Text.trimRight isBlank s = c :: rest ∧ c ≠ '#'

/-- A piece of output: of the builder's own, or code with something of the builder's own around it. -/
inductive Piece where
  | own (s : Text)
  | code (before : Text) (tokens : List Token) (text after : Text)

namespace Piece

def text : Piece → Text
  | .own s => s
  | .code before _ text after => before ++ text ++ after

def codes : Piece → List (List Token)
  | .own _ => []
  | .code _ tokens _ _ => [tokens]

end Piece

namespace Builder

/-- What the handlers work on: the output, the open elements, and whether an `if` has just ended. -/
structure View where
  output : List Text
  tags : List OpenTag
  afterIf : Bool

def view (b : Builder) : View := ⟨b.output.toList, b.openTags, b.afterIf⟩

def bump : List OpenTag → List OpenTag
  | t :: rest => { t with children := t.children + 1 } :: rest
  | [] => []

section

variable {α β : Type} {b : Builder}

variable {x : Build α} {f : α → Build β}

theorem bind_ok {c : Builder} {a : α} (h : x b = .ok a c) : (x >>= f) b = f a c := by
  simp [bind, EStateM.bind, h]

theorem bind_eq_ok {d : Builder} {y : β} (h : (x >>= f) b = .ok y d) : ∃ a c, x b = .ok a c ∧ f a c = .ok y d := by
  simp only [bind, EStateM.bind] at h
  split at h
  · rename_i a c hx
    exact ⟨a, c, hx, h⟩
  · cases h

variable (b)

theorem get_bind (f : Builder → Build α) : (get >>= f) b = f b b := rfl

theorem modify_bind (g : Builder → Builder) (f : Unit → Build α) : (modify g >>= f) b = f () (g b) := rfl

theorem push_bind (piece : Text) (f : Unit → Build α) :
    (push piece >>= f) b = f () { b with output := b.output.push piece } := rfl

theorem push_eq (out : Array Text) (s : Text) : out.push s = (out.toList ++ [s]).toArray := Array.ext' (by simp)

theorem countChild_eq : countChild b = .ok () { b with openTags := bump b.openTags } := by
  obtain ⟨_, _, _, _, _, tags, _, _, _, _⟩ := b
  cases tags <;> rfl

end

/-! ### Outcomes -/

def Yields (E : Fault → Prop) (Q : Builder → Prop) : EStateM.Result Fault Builder Unit → Prop
  | .ok _ c => Q c
  | .error f _ => E f

def Refused (lacks strays unlaid : Prop) (f : Fault) : Prop :=
  lacks ∨ f.OfNesting ∧ strays ∨ ¬ f.OfComma ∧ unlaid

section

variable {E : Fault → Prop} {Q R : Builder → Prop} {b : Builder} {f : Fault}

variable {r : EStateM.Result Fault Builder Unit}

variable {x : Build Unit} {k : Unit → Build Unit}

theorem Yields.bind_of_eq (hx : Yields E Q (x b))
    (hk : ∀ c, x b = .ok () c → Q c → Yields E R (k () c)) : Yields E R ((x >>= k) b) := by
  cases h : x b with
  | ok a c =>
    rw [h] at hx
    rw [bind_ok h]
    exact hk c h hx
  | error fault c =>
    rw [h] at hx
    have herror : (x >>= k) b = .error fault c := by simp [Bind.bind, EStateM.bind, h]
    rw [herror]
    exact hx

theorem Yields.bind (hx : Yields E Q (x b)) (hk : ∀ c, Q c → Yields E R (k () c)) : Yields E R ((x >>= k) b) :=
  hx.bind_of_eq fun c _ => hk c

theorem Yields.of_ok {a : Unit} (h : Yields E Q r) (hr : r = .ok a b) : Q b := by
  rwa [hr] at h

theorem Yields.of_error (h : Yields E Q r) (hr : r = .error f b) : E f := by
  rwa [hr] at h

theorem Yields.exists_ok (h : Yields (fun _ => False) Q r) : ∃ c, r = .ok () c ∧ Q c := by
  cases r with
  | ok a c => exact ⟨c, rfl, h⟩
  | error f c => exact h.elim

theorem Yields.imp {E' : Fault → Prop} (h : Yields E Q r)
    (hE : ∀ f, E f → E' f) (hQ : ∀ c, Q c → R c) : Yields E' R r := by
  cases r with
  | ok a c => exact hQ c h
  | error f c => exact hE f h

theorem yields_optional {p : Prop} [Decidable p] {x : Build Unit} {k : Unit → Build Unit}
    (hx : p → Yields E R ((x >>= k) b)) (hk : ¬ p → Yields E R (k () b)) :
    Yields E R ((if p then x >>= k else k ()) b) := by
  split
  · exact hx ‹_›
  · exact hk ‹_›

theorem Refused.comma {lacks strays unlaid : Prop} (h : Refused lacks strays unlaid f) (hf : f.OfComma) : lacks := by
  rcases h with h | ⟨hnesting, -⟩ | ⟨hno, -⟩
  · exact h
  · cases f <;> first | exact hf.elim | exact hnesting.elim
  · exact absurd hf hno

end

/-! ### The last comma -/

theorem trimRight_comma (x : Text) {blanks : Text} (h : ∀ c ∈ blanks, isBlank c = true) :
    Text.trimRight isBlank (x ++ ',' :: blanks) = x ++ [','] := by
  have hdrop : (blanks.reverse ++ ',' :: x.reverse).dropWhile isBlank = ',' :: x.reverse := by
    rw [dropWhile_append_of_pos fun c hc => h c (mem_reverse.mp hc), dropWhile_cons]
    have hcomma : isBlank ',' = false := by decide
    rw [hcomma, if_neg Bool.false_ne_true]
  simp [Text.trimRight, hdrop]

variable {x blanks s : Text} {out new : List Text}

theorem counts_comma (hx : (x ++ [',']).head? ≠ some '#') (hblanks : ∀ c ∈ blanks, isBlank c = true) :
    Counts (x ++ ',' :: blanks) := by
  have htrim := trimRight_comma x hblanks
  cases x with
  | nil => exact ⟨',', [], htrim, by decide⟩
  | cons c x => exact ⟨c, x ++ [','], htrim, by simpa using hx⟩

theorem not_counts_blank (h : ∀ c ∈ s, isBlank c = true) : ¬ Counts s := by
  rintro ⟨c, rest, hcons, -⟩
  have hnil : Text.trimRight isBlank s = [] := by
    simpa [Text.trimRight, dropWhile_eq_nil_iff] using h
  rw [hnil] at hcons
  cases hcons

theorem not_counts_nil : ¬ Counts [] := not_counts_blank (forall_mem_nil _)

theorem not_counts_hash (h : s.head? = some '#') : ¬ Counts s := by
  rintro ⟨c, rest, hcons, hc⟩
  obtain ⟨tail, hsplit, -⟩ := Text.trimRight_append isBlank s
  rw [hsplit, hcons] at h
  exact hc (Option.some.inj h)

theorem lastComma_eq (front : List Text) {tail : List Text} {x blanks : Text}
    (hblanks : ∀ c ∈ blanks, isBlank c = true) (hx : (x ++ [',']).head? ≠ some '#')
    (htail : ∀ p ∈ tail, ¬ Counts p) :
    lastComma (front ++ (x ++ ',' :: blanks) :: tail).toArray (front.length + 1 + tail.length) =
      .ok (front.length, x.length + 1) := by
  have hpiece : ∀ k, k ≤ tail.length →
      lastComma (front ++ (x ++ ',' :: blanks) :: tail).toArray (front.length + 1 + k) =
        .ok (front.length, x.length + 1) := by
    intro k hk
    induction k with
    | zero =>
      have hget : (front ++ (x ++ ',' :: blanks) :: tail).toArray.getD front.length [] = x ++ ',' :: blanks := by
        simp [Array.getD]
      rw [Nat.add_zero, lastComma]
      dsimp only
      rw [hget, trimRight_comma x hblanks]
      obtain ⟨c, more, hcons⟩ : ∃ c more, x ++ [','] = c :: more := by
        cases x <;> exact ⟨_, _, rfl⟩
      rw [hcons] at hx ⊢
      have hc : c ≠ '#' := by simpa using hx
      have hlast : (c :: more).getLast? = some ',' := by rw [← hcons]; simp
      have hlen : (c :: more).length = x.length + 1 := by rw [← hcons]; simp
      dsimp only
      rw [if_neg hc, if_pos hlast, hlen]
    | succ k ih =>
      have hlt : k < tail.length := hk
      have hget : (front ++ (x ++ ',' :: blanks) :: tail).toArray.getD (front.length + 1 + k) [] = tail[k] := by
        have hidx : front.length + 1 + k < (front ++ (x ++ ',' :: blanks) :: tail).length := by
          simp; omega
        simp [Array.getD, getElem_append_right, Nat.add_assoc, Nat.add_comm 1 k, hlt]
      rw [← Nat.add_assoc, lastComma]
      dsimp only
      rw [hget]
      cases htrim : Text.trimRight isBlank tail[k] with
      | nil => exact ih (by omega)
      | cons c rest =>
        have hc : c = '#' := by_contra fun hne => htail _ (List.getElem_mem hlt) ⟨c, rest, htrim, hne⟩
        dsimp only
        rw [if_pos hc]
        exact ih (by omega)
  exact hpiece tail.length le_rfl

theorem lastComma_found {output : Array Text} {m i len : Nat} (h : lastComma output m = .ok (i, len)) :
    i < m ∧ Counts (output.getD i []) ∧ (∀ j, i < j → j < m → ¬ Counts (output.getD j [])) ∧
      (Text.trimRight isBlank (output.getD i [])).getLast? = some ',' := by
  induction m with
  | zero => cases h
  | succ m ih =>
    -- Where the last piece does not count, the comma is found before it.
    have hlater (h : lastComma output m = .ok (i, len)) (hm : ¬ Counts (output.getD m [])) :
        i < m + 1 ∧ Counts (output.getD i []) ∧ (∀ j, i < j → j < m + 1 → ¬ Counts (output.getD j [])) ∧
          (Text.trimRight isBlank (output.getD i [])).getLast? = some ',' := by
      obtain ⟨hlt, hcounts, hrest, hcomma⟩ := ih h
      refine ⟨Nat.lt_succ_of_lt hlt, hcounts, fun j hij hjm => ?_, hcomma⟩
      rcases Nat.lt_succ_iff_lt_or_eq.1 hjm with hjm | rfl
      · exact hrest j hij hjm
      · exact hm
    unfold lastComma at h
    dsimp only at h
    split at h
    · rename_i hnone
      refine hlater h ?_
      rintro ⟨c, rest, hsome, -⟩
      rw [hnone] at hsome
      cases hsome
    rename_i c rest hsome
    split at h
    · rename_i hhash
      refine hlater h ?_
      rintro ⟨d, more, hd, hne⟩
      rw [hsome] at hd
      obtain ⟨rfl, -⟩ := List.cons.inj hd
      exact hne hhash
    rename_i hhash
    split at h
    · rename_i hcomma
      cases h
      exact ⟨Nat.lt_succ_self i, ⟨c, rest, hsome, hhash⟩, fun j hij hji => by omega, hcomma⟩
    · cases h

def Cut (out new : List Text) : Prop :=
  ∃ front x blanks tail, out = front ++ (x ++ ',' :: blanks) :: tail ∧ new = front ++ (x ++ blanks) :: tail ∧
    (x ++ [',']).head? ≠ some '#' ∧ (∀ c ∈ blanks, isBlank c = true) ∧ ∀ p ∈ tail, ¬ Counts p

def EndsInComma (out : Array Text) : Prop := ∃ i n, lastComma out out.size = .ok (i, n)

theorem Cut.lastComma {front tail : List Text} (hx : (x ++ [',']).head? ≠ some '#')
    (hblanks : ∀ c ∈ blanks, isBlank c = true) (htail : ∀ p ∈ tail, ¬ Counts p) {out : Array Text}
    (hout : out.toList = front ++ (x ++ ',' :: blanks) :: tail) :
    lastComma out out.size = .ok (front.length, x.length + 1) := by
  have hlast := lastComma_eq front hblanks hx htail
  rw [← hout] at hlast
  have hsize : out.size = front.length + 1 + tail.length := by
    rw [← Array.length_toList, hout]
    simp
    omega
  rwa [hsize]

theorem cut_of_endsInComma {out : Array Text} (h : EndsInComma out) : ∃ new, Cut out.toList new := by
  obtain ⟨i, n, h⟩ := h
  obtain ⟨hi, ⟨c, more, hcons, hc⟩, hrest, hcomma⟩ := lastComma_found h
  obtain ⟨blanks, hsplit, hblanks, -⟩ := Text.trimRight_append isBlank (out.getD i [])
  obtain ⟨x, hx⟩ : ∃ x, Text.trimRight isBlank (out.getD i []) = x ++ [','] :=
    ⟨_, (dropLast_append_getLast? _ hcomma).symm⟩
  refine ⟨_, out.toList.take i, x, blanks, out.toList.drop (i + 1), ?_, rfl, ?_, hblanks, fun p hp => ?_⟩
  · have hpiece : out.toList[i] = x ++ ',' :: blanks := by
      rw [hx] at hsplit
      simpa [Array.getD, hi] using hsplit
    rw [← hpiece, getElem_cons_drop, take_append_drop]
  · rw [← hx, hcons]
    simpa using hc
  · obtain ⟨k, hk, rfl⟩ := mem_iff_getElem.1 hp
    have hlt : i + 1 + k < out.size := by simp at hk; omega
    have hno := hrest (i + 1 + k) (by omega) hlt
    simpa [Array.getD, hlt] using hno

theorem deleteLastComma_of_cut {b : Builder} (h : Cut b.output.toList new) :
    deleteLastComma b = .ok () { b with output := new.toArray } := by
  obtain ⟨front, x, blanks, tail, hout, rfl, hx, hblanks, htail⟩ := h
  have hget : b.output.getD front.length [] = x ++ ',' :: blanks := by
    rw [Array.getD_eq_getD_getElem?, ← Array.getElem?_toList, hout]
    simp
  have hset : b.output.setIfInBounds front.length (x ++ blanks) = (front ++ (x ++ blanks) :: tail).toArray :=
    Array.ext' (by rw [Array.toList_setIfInBounds, hout]; simp)
  have hnew : (x ++ ',' :: blanks).take (x.length + 1 - 1) ++ (x ++ ',' :: blanks).drop (x.length + 1) =
      x ++ blanks := by
    simp [drop_append]
  unfold deleteLastComma
  rw [get_bind]
  dsimp only
  rw [Cut.lastComma hx hblanks htail hout]
  dsimp only
  rw [hget, hnew, ← hset]
  rfl

theorem deleteLastComma_yields (b : Builder) : Yields (fun _ => ¬ ∃ new, Cut b.output.toList new)
      (fun c => ∃ new, Cut b.output.toList new ∧ c = { b with output := new.toArray }) (deleteLastComma b) := by
  by_cases hcut : ∃ new, Cut b.output.toList new
  · obtain ⟨new, hnew⟩ := hcut
    rw [deleteLastComma_of_cut hnew]
    exact ⟨new, hnew, rfl⟩
  · cases hlast : lastComma b.output b.output.size with
    | ok found => exact absurd (cut_of_endsInComma ⟨_, _, hlast⟩) hcut
    | error f =>
      have herror : deleteLastComma b = .error f b := by
        unfold deleteLastComma
        rw [get_bind]
        dsimp only
        rw [hlast]
        rfl
      rw [herror]
      exact hcut

theorem Cut.length (h : Cut out new) : new.length = out.length := by
  obtain ⟨front, x, blanks, tail, rfl, rfl, -⟩ := h
  simp

/-- The output once it is clear that an `if` that has ended, if one has, gets no `else`. -/
inductive Resolved (out : List Text) (after : Bool) : List Text → Prop where
  | nothing (hafter : after = false) : Resolved out after out
  | added {new : List Text} (hafter : after = true) (h : Cut out new) :
      Resolved out after (new ++ [" else None, ".toList])

theorem Resolved.length {mid : List Text} {after : Bool} (h : Resolved out after mid) :
    out.length ≤ mid.length := by
  cases h with
  | nothing => exact le_rfl
  | added _ hcut => simp [hcut.length]

def Lacks (v : View) : Prop := v.afterIf = true ∧ ¬ ∃ new, Cut v.output new

theorem not_lacks {v : View} (h : v.afterIf = false) : ¬ Lacks v :=
  fun hb => absurd (h.symm.trans hb.1) Bool.false_ne_true

theorem closeIf_yields (b : Builder) :
    Yields (fun _ => Lacks b.view) (fun c => ∃ mid, Resolved b.output.toList b.afterIf mid ∧
      c = { b with output := mid.toArray, afterIf := false }) (closeIf b) := by
  unfold closeIf
  rw [get_bind]
  cases hafter : b.afterIf with
  | false => exact ⟨_, .nothing rfl, by simp [← hafter]⟩
  | true =>
    rw [if_pos rfl]
    refine .bind ((deleteLastComma_yields b).imp (fun _ h => ⟨hafter, h⟩) fun _ h => h) ?_
    rintro _ ⟨new, hnew, rfl⟩
    exact ⟨_, .added rfl hnew, by simp⟩

/-! ### Values -/

def codeText (tokens : List Token) : Text := (Layout.plain tokens).toOption.getD []

def codePart (tokens : List Token) : Piece := .code [] tokens (codeText tokens) []

def Lays : Part → Prop
  | .text _ => True
  | .code tokens => Layout.plain tokens = .ok (codeText tokens)

def partPieces (f : Text) : Part → List Piece
  | .text s => [.own (Text.quoted s), .own ", ".toList]
  | .code tokens => [.own (f ++ ['(']), codePart tokens, .own [')'], .own ", ".toList]

def valuePieces (f : Text) : List Part → List Piece
  | [.code tokens] => [codePart tokens]
  | [.text s] => [.own (Text.quoted s)]
  | parts => .own "u\"\".join((".toList :: (parts.flatMap (partPieces f) ++ [.own "))".toList])

def valueParts (value : Option (List Part)) : List Part := normalizeParts false (value.getD [])

def ValueLays (value : Option (List Part)) : Prop := value.isSome = true ∧ ∀ p ∈ valueParts value, Lays p

def attributesPieces (f : Text) : Bool → List Attribute → List Piece
  | _, [] => []
  | more, a :: rest =>
    (if more then [.own ", ".toList] else []) ++ .own (argumentName (a.name.getD [])) :: .own ['='] ::
      (valuePieces f (valueParts a.value) ++ attributesPieces f true rest)

def AttributesLay (attributes : List Attribute) : Prop :=
  ∀ a ∈ attributes, a.name.isSome = true ∧ ValueLays a.value

def put (b : Builder) (ps : List Piece) : Builder :=
  { b with output := (b.output.toList ++ ps.map Piece.text).toArray }

def Adds (lays : Prop) (ps : Text → List Piece) (x : Build Unit) (g : Builder → Builder := id) : Prop :=
  ∀ b, Yields (fun f => ¬ f.OfComma ∧ ¬ lays) (fun c => lays ∧ c = g (b.put (ps b.textFunction))) (x b)

section

variable {p q : Prop} {ps qs : Text → List Piece} {x : Build Unit} {g : Builder → Builder}

variable {f : Fault} {tokens : List Token}

theorem Adds.bind {y : Build Unit} (hx : Adds p ps x) (hy : Adds q qs y g) :
    Adds (p ∧ q) (fun f => ps f ++ qs f) (x >>= fun _ => y) g := by
  intro b
  refine .bind ((hx b).imp (fun _ h => ⟨h.1, fun hpq => h.2 hpq.1⟩) fun _ h => h) ?_
  rintro _ ⟨hp, rfl⟩
  refine (hy (b.put (ps b.textFunction))).imp (fun _ h => ⟨h.1, fun hpq => h.2 hpq.2⟩) ?_
  rintro _ ⟨hq, rfl⟩
  refine ⟨⟨hp, hq⟩, ?_⟩
  simp [put]

theorem Adds.congr (h : Adds p ps x g) (hp : p ↔ q) (hps : ∀ f, (ps f).map Piece.text = (qs f).map Piece.text) :
    Adds q qs x g := by
  intro b
  rw [← hp, put, ← hps]
  exact h b

theorem adds_pure : Adds True (fun _ => []) (pure ()) := fun b => ⟨trivial, by simp [put]⟩

theorem adds_throw (hf : ¬ f.OfComma) (hp : ¬ p) : Adds p ps (throw f) g := fun _ => ⟨hf, hp⟩

theorem adds_push (s : Text) : Adds True (fun _ => [.own s]) (push s) :=
  fun b => ⟨trivial, congrArg (fun out => { b with output := out }) (push_eq b.output s)⟩

theorem adds_write (s : Text) (hx : Adds p ps x g) : Adds p (fun f => .own s :: ps f) (push s >>= fun _ => x) g :=
  ((adds_push s).bind hx).congr (iff_of_eq (true_and p)) fun _ => rfl

theorem text_fault {last : Option Pos} (h : Layout.text last tokens = .error f) : ¬ f.OfComma := by
  induction tokens generalizing last with
  | nil => cases h
  | cons t rest ih =>
    unfold Layout.text at h
    dsimp only at h
    split at h
    · cases h
      exact id
    · cases hrest : Layout.text (some (Layout.after t)) rest with
      | ok more =>
        rw [hrest] at h
        cases h
      | error fault =>
        rw [hrest] at h
        cases h
        exact ih hrest

theorem lays_of_plain {s : Text} (h : Layout.plain tokens = .ok s) : codeText tokens = s ∧ Lays (.code tokens) := by
  have hlaid : codeText tokens = s := by rw [codeText, h]; rfl
  refine ⟨hlaid, ?_⟩
  rw [Lays, hlaid, h]

theorem adds_layOut {k : Text → Build Unit} (hk : Adds p ps (k (codeText tokens)) g) :
    Adds (Lays (.code tokens) ∧ p) ps (layOut tokens >>= k) g := by
  unfold layOut
  cases hlaid : Layout.plain tokens with
  | ok s =>
    obtain ⟨rfl, hlays⟩ := lays_of_plain hlaid
    exact hk.congr (iff_and_self.2 fun _ => hlays) fun _ => rfl
  | error fault =>
    refine adds_throw (text_fault hlaid) fun h => ?_
    rw [Lays, hlaid] at h
    cases h.1

theorem adds_code (hx : Adds p ps x g) : Adds (Lays (.code tokens) ∧ p) (fun f => codePart tokens :: ps f) (do
      push (← layOut tokens)
      x) g :=
  adds_layOut ((adds_write (codeText tokens) hx).congr Iff.rfl fun f => by simp [codePart, Piece.text])

end

theorem adds_writePart (part : Part) : Adds (Lays part) (fun f => partPieces f part) (writePart part) := by
  have hcomma := adds_push ", ".toList
  cases part with
  | text s => exact adds_write _ hcomma
  | code tokens =>
    intro b
    exact ((adds_write (b.textFunction ++ ['(']) (adds_code (adds_write [')'] hcomma))).congr (by simp)
      fun _ => rfl) b

theorem adds_writeParts (parts : List Part) :
    Adds (∀ p ∈ parts, Lays p) (fun f => parts.flatMap (partPieces f)) (writeParts parts) := by
  induction parts with
  | nil => exact adds_pure.congr (by simp) fun _ => rfl
  | cons part rest ih => exact ((adds_writePart part).bind ih).congr (by simp) fun f => by simp

theorem adds_writeValue (value : Option (List Part)) :
    Adds (ValueLays value) (fun f => valuePieces f (valueParts value)) (writeValue value) := by
  cases value with
  | none => exact adds_throw id fun h => absurd h.1 (by simp)
  | some parts =>
    have hjoin (parts : List Part) : Adds (∀ p ∈ parts, Lays p) (fun f => .own "u\"\".join((".toList ::
        (parts.flatMap (partPieces f) ++ [.own "))".toList])) (do
          push "u\"\".join((".toList
          writeParts parts
          push "))".toList) :=
      adds_write _ (((adds_writeParts parts).bind (adds_push _)).congr (by simp) fun _ => rfl)
    have hvalue (parts : List Part) : Adds (∀ p ∈ parts, Lays p) (fun f => valuePieces f parts) (match parts with
        | [.code tokens] => do push (← layOut tokens)
        | [.text s] => push (Text.quoted s)
        | parts => do
          push "u\"\".join((".toList
          writeParts parts
          push "))".toList) := by
      match parts with
      | [] => exact hjoin []
      | [.code tokens] =>
        exact (adds_layOut ((adds_push (codeText tokens)).congr Iff.rfl fun _ => rfl)).congr
          (by simp) fun _ => by simp [valuePieces, codePart, Piece.text]
      | [.text s] => exact (adds_push _).congr (by simp [Lays]) fun _ => rfl
      | .code t :: p :: rest => exact hjoin (.code t :: p :: rest)
      | .text s :: p :: rest => exact hjoin (.text s :: p :: rest)
    exact (hvalue (normalizeParts false parts)).congr (by simp [ValueLays, valueParts]) fun _ => rfl

theorem adds_writeAttributes (more : Bool) (attributes : List Attribute) :
    Adds (AttributesLay attributes) (fun f => attributesPieces f more attributes)
    (writeAttributes more attributes) := by
  induction attributes generalizing more with
  | nil => exact adds_pure.congr (by simp [AttributesLay]) fun _ => rfl
  | cons a rest ih =>
    have hone : Adds (AttributesLay (a :: rest)) (fun f => .own (argumentName (a.name.getD [])) :: .own ['='] ::
        (valuePieces f (valueParts a.value) ++ attributesPieces f true rest)) (writeAttributes false (a :: rest)) := by
      unfold writeAttributes
      cases hname : a.name with
      | none => exact adds_throw id fun h => absurd (h a mem_cons_self).1 (by simp [hname])
      | some name =>
        exact (adds_write _ (adds_write _ ((adds_writeValue a.value).bind (ih true)))).congr
          (by simp [AttributesLay, hname]) fun _ => rfl
    cases more with
    | false => exact hone
    | true => exact adds_write _ hone

/-! ### Elements -/

def fragmentPiece : Text := "html.x_frag()(".toList

def classPieces (tag : Text) : List Text :=
  (if (className tag).2 then ["html.".toList] else []) ++ [(className tag).1 ++ ['(']]

def tagPieces (f tag : Text) (attributes : List Attribute) (call : Bool) : List Piece :=
  (classPieces tag).map .own ++ (attributesPieces f false attributes ++
    .own [')'] :: if call then [.own ['(']] else [])

def IsConditional (tag : Text) : Prop := tag = "if".toList ∨ tag = "else".toList

def enclosed (ps : List Piece) : List Piece :=
  if Text.occurs "else".toList ('(' :: (ps.map Piece.text).flatten) then .own ['('] :: (ps ++ [.own [')']])
  else .own [] :: ps

def conditionOf (t : OpenTag) : Option Attribute := t.attributes.find? (·.name == some "cond".toList)

def endPieces (f : Text) (t : OpenTag) : List Piece :=
  if t.tag = "if".toList then
    .own " if ".toList :: enclosed (valuePieces f (valueParts ((conditionOf t).bind Attribute.value)))
  else []

def ConditionLays (t : OpenTag) : Prop := t.tag = "if".toList → ∃ a, conditionOf t = some a ∧ ValueLays a.value

structure Sturdy (t : OpenTag) : Prop where
  condition : ConditionLays t
  opening : IsConditional t.tag → t.opening.isSome = true

def MayOpen (afterIf : Bool) (tag : Text) (attributes : List Attribute) : Prop :=
  (tag = "if".toList → attributes.map Attribute.name = [some "cond".toList]) ∧
    (tag = "else".toList → attributes = [] ∧ afterIf = true)

/-- What the beginning of an element makes of the output, and where it opens a fragment. -/
inductive Begins (f : Text) (call : Bool) (v : View) (tag : Text) (attributes : List Attribute) :
    Option Nat → List Text → Prop where
  | element {mid : List Text} (hif : tag ≠ "if".toList) (helse : tag ≠ "else".toList) (hmid : Resolved v.output v.afterIf mid)
      (hlay : AttributesLay attributes) :
      Begins f call v tag attributes none (mid ++ (tagPieces f tag attributes call).map Piece.text)
  | condition {mid : List Text} {a : Attribute} (hif : tag = "if".toList) (hone : attributes = [a])
      (hname : a.name = some "cond".toList) (hmid : Resolved v.output v.afterIf mid) :
      Begins f call v tag attributes (some mid.length) (mid ++ [fragmentPiece])
  | alternative {new : List Text} (helse : tag = "else".toList) (hnone : attributes = []) (hafter : v.afterIf = true)
      (hnew : Cut v.output new) :
      Begins f call v tag attributes (some (new.length + 1)) (new ++ ["else ".toList, fragmentPiece])

/-- What the end of an element makes of the output: its fragment is closed, or taken out around a single child,
and the condition follows. -/
inductive Ends (f : Text) (call : Bool) (t : OpenTag) (v : View) : List Text → Prop where
  | closed {mid : List Text} (hkeep : ¬ (IsConditional t.tag ∧ call = true ∧ t.children = 1)) (hmid : Resolved v.output v.afterIf mid)
      (hlay : ConditionLays t) : Ends f call t v (mid ++ (if call then [[')']] else []) ++ (endPieces f t).map Piece.text)
  | dropped {mid new : List Text} {i : Nat} (hcond : IsConditional t.tag) (hcall : call = true)
      (hone : t.children = 1) (hmid : Resolved v.output v.afterIf mid) (hnew : Cut (mid ++ [[]]) new) (hopening : t.opening = some i)
      (hlay : ConditionLays t) : Ends f call t v (new.set i [] ++ (endPieces f t).map Piece.text)

def LacksChild (call : Bool) (v : View) : Prop :=
  call = true ∧ ∃ t rest mid, v.tags = t :: rest ∧ IsConditional t.tag ∧ t.children = 1 ∧ Resolved v.output v.afterIf mid ∧
    ¬ ∃ new, Cut (mid ++ [[]]) new

theorem adds_tag (tag : Text) (attributes : List Attribute) (call : Bool) :
    Adds (AttributesLay attributes) (fun f => tagPieces f tag attributes call) (do
      let (name, hypertext) := className tag
      if hypertext then push "html.".toList
      push (name ++ ['('])
      writeAttributes false attributes
      push [')']
      if call then push ['(']
      forgetLast) fun b => { b with afterCode := false, afterIf := false } := by
  have hforget : Adds True (fun _ => []) forgetLast fun b => { b with afterCode := false, afterIf := false } :=
    fun b => ⟨trivial, by simp [put]⟩
  have hcall : Adds True (fun _ => if call then [.own ['(']] else []) (do
      if call then push ['(']
      forgetLast) fun b => { b with afterCode := false, afterIf := false } := by
    cases call with
    | false => exact hforget
    | true => exact adds_write _ hforget
  have hname : Adds (AttributesLay attributes) (fun f => .own ((className tag).1 ++ ['(']) ::
      (attributesPieces f false attributes ++ .own [')'] :: if call then [.own ['(']] else [])) (do
      push ((className tag).1 ++ ['('])
      writeAttributes false attributes
      push [')']
      if call then push ['(']
      forgetLast) fun b => { b with afterCode := false, afterIf := false } :=
    adds_write _ (((adds_writeAttributes false attributes).bind (adds_write _ hcall)).congr (by simp) fun _ => rfl)
  unfold tagPieces classPieces
  dsimp only
  cases (className tag).2 with
  | false => exact hname
  | true => exact adds_write _ hname

def entered (tag : Text) (attributes : List Attribute) (b : Builder) : Builder :=
  { b with openTags := { tag, row := b.stop.row, attributes } :: bump b.openTags }

theorem openFragment_entered (tag : Text) (attributes : List Attribute) (b : Builder) (out : Array Text)
    (afterIf : Bool) : openFragment { entered tag attributes b with output := out, afterIf } = .ok () { b with
      openTags := ⟨tag, b.stop.row, attributes, 0, some out.size⟩ :: bump b.openTags
      output := out.push fragmentPiece, afterCode := false, afterIf := false } := rfl

theorem beginElement_yields (b : Builder) (tag : Text) (attributes : List Attribute) (call : Bool) :
    Yields (Refused (Lacks b.view) (¬ MayOpen b.afterIf tag attributes) (¬ AttributesLay attributes))
      (fun c => ∃ opening out, Begins b.textFunction call b.view tag attributes opening out ∧ c = { b with
        openTags := ⟨tag, b.stop.row, attributes, 0, opening⟩ :: bump b.openTags
        output := out.toArray, afterCode := false, afterIf := false }) (beginElement tag attributes call b) := by
  have hlacks (f : Fault) (hf : Lacks b.view) :
      Refused (Lacks b.view) (¬ MayOpen b.afterIf tag attributes) (¬ AttributesLay attributes) f := .inl hf
  have hclose := (closeIf_yields (entered tag attributes b)).imp hlacks fun _ h => h
  unfold beginElement
  rw [bind_ok (countChild_eq b), modify_bind]
  by_cases hif : tag = "if".toList
  · rw [if_pos hif]
    refine .bind hclose ?_
    rintro _ ⟨mid, hmid, rfl⟩
    dsimp only
    split
    · rename_i hlength
      refine .inr (.inl ⟨trivial, fun hmay => hlength ?_⟩)
      rw [← length_map Attribute.name, hmay.1 hif]
      rfl
    rename_i hlength
    obtain ⟨a, rfl⟩ := length_eq_one_iff.1 (not_not.1 hlength)
    split
    · rename_i hname
      exact .inr (.inl ⟨trivial, fun hmay => by simp [singleton_inj.1 (hmay.1 hif)] at hname⟩)
    · rename_i hname
      rw [openFragment_entered]
      exact ⟨_, _, .condition hif rfl (by simpa using hname) hmid, by simp⟩
  rw [if_neg hif]
  by_cases helse : tag = "else".toList
  · rw [if_pos helse]
    dsimp only
    split
    · rename_i hlength
      exact .inr (.inl ⟨trivial, fun hmay => hlength (by rw [(hmay.2 helse).1]; rfl)⟩)
    rename_i hlength
    rw [get_bind]
    split
    · rename_i hafter
      refine .inr (.inl ⟨trivial, fun hmay => ?_⟩)
      simp [(hmay.2 helse).2] at hafter
    · rename_i hafter
      have hyes : b.afterIf = true := by simpa [entered] using hafter
      refine .bind ((deleteLastComma_yields (entered tag attributes b)).imp (fun _ h => .inl ⟨hyes, h⟩) fun _ h => h) ?_
      rintro _ ⟨new, hnew, rfl⟩
      rw [push_bind]
      exact (openFragment_entered _ attributes b (new.toArray.push "else ".toList) b.afterIf).symm ▸
        ⟨_, _, .alternative helse (by simpa using hlength) hyes hnew, by simp⟩
  · rw [if_neg helse]
    refine .bind hclose ?_
    rintro _ ⟨mid, hmid, rfl⟩
    refine (adds_tag tag attributes call { entered tag attributes b with output := mid.toArray, afterIf := false }).imp
      (fun _ h => .inr (.inr h)) ?_
    rintro _ ⟨hlay, rfl⟩
    exact ⟨_, _, .element hif helse hmid hlay, rfl⟩

variable {f : Text} {v : View} {out : List Text}

variable {t : OpenTag} {b : Builder} {tag : Text} {call : Bool} {attributes : List Attribute}
  {opening : Option Nat}

theorem adds_writeCondition (htag : t.tag = "if".toList) :
    Adds (∃ a, conditionOf t = some a ∧ ValueLays a.value) (fun f => endPieces f t) (writeCondition t) := by
  intro b
  cases hfind : conditionOf t with
  | none =>
    unfold writeCondition
    rw [push_bind, get_bind, push_bind, ← conditionOf, hfind]
    exact ⟨id, fun ⟨_, h, _⟩ => nomatch h⟩
  | some a =>
    have hpieces : endPieces b.textFunction t =
        .own " if ".toList :: enclosed (valuePieces b.textFunction (valueParts a.value)) := by
      rw [endPieces, if_pos htag, hfind]
      rfl
    dsimp only
    rw [hpieces]
    unfold writeCondition
    rw [push_bind, get_bind, push_bind, ← conditionOf, hfind]
    refine .bind ((adds_writeValue a.value _).imp (fun _ h => ⟨h.1, fun ⟨_, ha, hlays⟩ => h.2 ?_⟩) fun _ h => h) ?_
    · cases ha
      exact hlays
    rintro _ ⟨hlays, rfl⟩
    dsimp only [id, put]
    generalize valuePieces b.textFunction (valueParts a.value) = ps
    rw [get_bind]
    have hwritten : (((((b.output.push " if ".toList).push ['(']).toList ++ ps.map Piece.text).toArray.toList.drop
        (b.output.push " if ".toList).size).flatten) = '(' :: (ps.map Piece.text).flatten := by
      have hold : b.output.toList.drop (b.output.size + 1) = [] := drop_eq_nil_of_le (by simp)
      simp [drop_append, hold]
    dsimp only
    rw [hwritten, enclosed]
    split
    · exact ⟨⟨a, rfl, hlays⟩, by simp [Piece.text]⟩
    · exact ⟨⟨a, rfl, hlays⟩, by simp [Piece.text]⟩

def comma (tags : List OpenTag) : List Text := if tags.isEmpty then [] else [[',']]

theorem endTag_yields (b : Builder) (t : OpenTag) (rest : List OpenTag) :
    Yields (fun f => ¬ f.OfComma ∧ ¬ ConditionLays t)
      (fun c => ConditionLays t ∧ c = { b with
        output := (b.output.toList ++ (endPieces b.textFunction t).map Piece.text ++ comma rest).toArray
        afterIf := t.tag = "if".toList, afterCode := false })
      ((do
        if t.tag = "if".toList then writeCondition t
        modify fun b => { b with afterIf := t.tag = "if".toList }
        if !rest.isEmpty then push [',']
        modify fun b => { b with afterCode := false } : Build Unit) b) := by
  refine yields_optional (fun hif => ?_) fun hif => ?_
  · refine .bind ((adds_writeCondition hif b).imp (fun _ h => ⟨h.1, fun hlays => h.2 (hlays hif)⟩) fun _ h => h) ?_
    rintro _ ⟨hlays, rfl⟩
    cases rest <;> exact ⟨fun _ => hlays, by simp [comma, put]⟩
  · have hnone : endPieces b.textFunction t = [] := if_neg hif
    rw [hnone]
    cases rest <;> exact ⟨fun h => absurd h hif, by simp [comma, push_eq]⟩

theorem dropFragment_yields {mid : List Text} (hmid : b.output = mid.toArray.push [')']) (t : OpenTag) :
    Yields (Refused (¬ ∃ new, Cut (mid ++ [[]]) new) False (t.opening = none))
      (fun c => ∃ new i, Cut (mid ++ [[]]) new ∧ t.opening = some i ∧ c = { b with output := (new.set i []).toArray })
      (dropFragment t b) := by
  have hset : b.output.setIfInBounds (b.output.size - 1) [] = (mid ++ [[]]).toArray := by simp [hmid]
  have hblank : replacePiece (b.output.size - 1) [] b = .ok () { b with output := (mid ++ [[]]).toArray } := by
    rw [← hset]
    rfl
  unfold dropFragment
  rw [get_bind, bind_ok hblank]
  refine .bind ((deleteLastComma_yields _).imp (fun _ => .inl) fun _ h => h) ?_
  rintro _ ⟨new, hnew, rfl⟩
  cases hopening : t.opening with
  | none => exact .inr (.inr ⟨id, rfl⟩)
  | some i => exact ⟨new, i, hnew, rfl, by simp⟩

def left (call : Bool) (out : Array Text) (rest : List OpenTag) (b : Builder) : Builder :=
  { b with output := if call then out.push [')'] else out, afterIf := false, openTags := rest }

theorem endElement_leave {opened : OpenTag} {rest : List OpenTag} (hopen : b.openTags = opened :: rest)
    (tag : Text) (call : Bool) {out : Array Text} (h : closeIf b = .ok () { b with output := out, afterIf := false }) :
    endElement tag call b = (do
        if opened.tag ≠ tag then throw (Fault.mismatched opened.tag opened.row tag (← get).stop.row)
        let conditional := tag = "if".toList ∨ tag = "else".toList
        if conditional ∧ call ∧ opened.children = 1 then dropFragment opened
        if tag = "if".toList then writeCondition opened
        modify fun b => { b with afterIf := tag = "if".toList }
        if !rest.isEmpty then push [',']
        modify fun b => { b with afterCode := false } : Build Unit) (left call out rest b) := by
  unfold endElement
  rw [bind_ok h]
  obtain ⟨_, _, _, _, _, tags, _, _, _, _⟩ := b
  cases hopen
  cases call <;> rfl

theorem endElement_yields (b : Builder) (tag : Text) (call : Bool) :
    Yields (Refused (Lacks b.view ∨ LacksChild call b.view) (∀ t ∈ b.openTags.head?, t.tag ≠ tag)
        (∃ t ∈ b.openTags.head?, ¬ Sturdy t))
      (fun c => ∃ t rest out, b.openTags = t :: rest ∧ t.tag = tag ∧ Ends b.textFunction call t b.view out ∧ c =
    { b with
        openTags := rest, output := (out ++ comma rest).toArray
        afterIf := tag = "if".toList, afterCode := false }) (endElement tag call b) := by
  have hclose := closeIf_yields b
  cases hresult : closeIf b with
  | error f c =>
    rw [hresult] at hclose
    have herror : endElement tag call b = .error f c := by simp [endElement, bind, EStateM.bind, hresult]
    rw [herror]
    exact .inl (.inl hclose)
  | ok u c =>
    rw [hresult] at hclose
    obtain ⟨mid, hmid, rfl⟩ := hclose
    cases hopen : b.openTags with
    | nil =>
      have herror : ∃ c, endElement tag call b = .error (.nothingOpen tag) c := by
        unfold endElement
        rw [bind_ok hresult]
        obtain ⟨_, _, _, _, _, tags, _, _, _, _⟩ := b
        cases hopen
        cases call <;> exact ⟨_, rfl⟩
      obtain ⟨c, herror⟩ := herror
      rw [herror]
      exact .inr (.inl ⟨trivial, nofun⟩)
    | cons t rest =>
      rw [endElement_leave hopen tag call hresult]
      dsimp only
      split
      · rename_i htag
        exact .inr (.inl ⟨trivial, fun u hu => Option.some.inj hu ▸ htag⟩)
      rename_i htag
      obtain rfl : t.tag = tag := not_not.1 htag
      refine yields_optional (fun hdrop => ?_) fun hkeep => ?_
      · obtain ⟨hcond, rfl, hone⟩ := hdrop
        refine .bind ((dropFragment_yields rfl t).imp (R := fun c => ∃ new i, Cut (mid ++ [[]]) new ∧
          t.opening = some i ∧ c = { left true mid.toArray rest b with output := (new.set i []).toArray })
          (fun _ h => ?_) fun _ h => h) ?_
        · rcases h with h | ⟨-, h⟩ | ⟨hf, h⟩
          · exact .inl (.inr ⟨rfl, t, rest, mid, hopen, hcond, hone, hmid, h⟩)
          · exact h.elim
          · exact .inr (.inr ⟨hf, t, rfl, fun ht => by simpa [h] using ht.opening hcond⟩)
        rintro _ ⟨new, i, hnew, hopening, rfl⟩
        refine (endTag_yields { left true mid.toArray rest b with output := (new.set i []).toArray } t rest).imp
          (fun _ h => .inr (.inr ⟨h.1, t, rfl, fun ht => h.2 ht.condition⟩)) ?_
        rintro _ ⟨hlay, rfl⟩
        exact ⟨t, rest, _, rfl, rfl, .dropped hcond rfl hone hmid hnew hopening hlay, rfl⟩
      · refine (endTag_yields (left call mid.toArray rest b) t rest).imp
          (fun _ h => .inr (.inr ⟨h.1, t, rfl, fun ht => h.2 ht.condition⟩)) ?_
        rintro _ ⟨hlay, rfl⟩
        refine ⟨t, rest, _, rfl, rfl, .closed hkeep hmid hlay, ?_⟩
        cases call <;> simp [left]

theorem Begins.sturdy (h : Begins f call v tag attributes opening out) (hlay : AttributesLay attributes) (row : Int) :
    Sturdy ⟨tag, row, attributes, 0, opening⟩ := by
  cases h with
  | element hif helse => exact ⟨fun h => absurd h hif, fun h => absurd h (not_or.2 ⟨hif, helse⟩)⟩
  | @condition mid a hif hone hname =>
    subst hone
    exact ⟨fun _ => ⟨a, by simp [conditionOf, hname], (hlay a mem_cons_self).2⟩, fun _ => rfl⟩
  | alternative helse =>
    subst helse
    exact ⟨fun h => absurd h (by simp), fun _ => rfl⟩

/-! ### Children -/

def dataPiece (data : Text) : Text :=
  let data := Text.replaceChar '"' ['\\', '"'] data
  if data ≠ Text.escape data then "html.rawhtml(u\"".toList ++ data ++ "\"), ".toList
  else "u\"".toList ++ data ++ "\", ".toList

theorem writeData_yields (b : Builder) (data : Text) :
    Yields (fun _ => Lacks b.view) (fun c => normalize data b.afterCode b.beforeCode = [] ∧ c = b ∨
      normalize data b.afterCode b.beforeCode ≠ [] ∧ ∃ mid, Resolved b.output.toList b.afterIf mid ∧ c = { b with
        output := (mid ++ [dataPiece (normalize data b.afterCode b.beforeCode)]).toArray
        openTags := bump b.openTags, afterCode := false, afterIf := false }) (writeData data b) := by
  unfold writeData
  rw [get_bind]
  dsimp only
  by_cases hnothing : normalize data b.afterCode b.beforeCode = []
  · rw [if_neg (by simp [hnothing])]
    exact .inl ⟨hnothing, rfl⟩
  rw [if_pos (by simpa using hnothing), bind_ok (countChild_eq b)]
  refine .bind ((closeIf_yields { b with openTags := bump b.openTags }).imp (fun _ h => h) fun _ h => h) ?_
  rintro _ ⟨mid, hmid, rfl⟩
  refine (?_ : Yields _ (fun c => c = { b with
    output := (mid ++ [dataPiece (normalize data b.afterCode b.beforeCode)]).toArray
    openTags := bump b.openTags, afterCode := false, afterIf := false }) _).imp (fun _ h => h)
      fun _ h => .inr ⟨hnothing, mid, hmid, h⟩
  unfold dataPiece
  dsimp only
  split
  · rw [push_bind]
    change _ = _
    simp
  · rw [push_bind]
    change _ = _
    simp

theorem advanceTo_yields (b : Builder) (row : Int) :
    Yields (fun f => ¬ f.OfComma ∧ row < b.stop.row) (fun c => b.stop.row ≤ row ∧ c = b.put
      (if b.stop.row < row then [.own (Text.copies (row - b.stop.row) '\n')] else [])) (advanceTo row b) := by
  unfold advanceTo
  rw [get_bind]
  by_cases hback : row < b.stop.row
  · rw [if_pos hback]
    exact ⟨id, hback⟩
  rw [if_neg hback]
  dsimp only
  split
  · exact ⟨not_lt.1 hback, congrArg (fun out => { b with output := out }) (push_eq _ _)⟩
  · exact ⟨not_lt.1 hback, by simp [put]⟩

def codePiece (tokens : List Token) (code : Text) : Text :=
  if isBareGenerator tokens then ['('] ++ code ++ "), ".toList else code ++ ", ".toList

/-! ### Events -/

def wholeTag : Event → Option Text
  | .startEnd tag _ => tag
  | .comment _ => some "html_comment".toList
  | .doctype _ => some "html_decl".toList
  | .cdata _ => some "html_marked_decl".toList
  | _ => none

def wholeAttributes : Event → List Attribute
  | .startEnd _ attributes => attributes
  | .comment s => [⟨some "comment".toList, some [.text (Text.strip s)]⟩]
  | .doctype s => [⟨some "decl".toList, some [.text ("DOCTYPE ".toList ++ s)]⟩]
  | .cdata s => [⟨some "decl".toList, some [.text ("CDATA[".toList ++ s)]⟩]
  | _ => []

/-- What an event does. An element that begins and ends at once closes no call. -/
inductive Handled (f : Text) (v : View) : Event → View → Prop where
  | blank {s : Text} : Handled f v (.data s) v
  | data {s : Text} {mid : List Text} (hmid : Resolved v.output v.afterIf mid) (afterCode beforeCode : Bool) :
      Handled f v (.data s) ⟨mid ++ [dataPiece (normalize s afterCode beforeCode)], bump v.tags, false⟩
  | start {tag : Text} {attributes : List Attribute} {opening : Option Nat} {out : List Text} (row : Int)
      (hbegin : Begins f true v tag attributes opening out) :
      Handled f v (.start (some tag) attributes) ⟨out, ⟨tag, row, attributes, 0, opening⟩ :: bump v.tags, false⟩
  | finish {t : OpenTag} {rest : List OpenTag} {out : List Text} (htags : v.tags = t :: rest)
      (hend : Ends f true t v out) :
      Handled f v (.finish (some t.tag)) ⟨out ++ comma rest, rest, t.tag = "if".toList⟩
  | whole {e : Event} {tag : Text} {opening : Option Nat} {out : List Text} (row : Int) (he : wholeTag e = some tag)
      (hbegin : Begins f false v tag (wholeAttributes e) opening out)
      (hlay : ConditionLays ⟨tag, row, wholeAttributes e, 0, opening⟩) :
      Handled f v e ⟨out ++ (endPieces f ⟨tag, row, wholeAttributes e, 0, opening⟩).map Piece.text ++
        comma (bump v.tags), bump v.tags, tag = "if".toList⟩

theorem Begins.length (h : Begins f call v tag attributes opening out) : v.output.length < out.length := by
  cases h with
  | element _ _ hmid =>
    have hle := hmid.length
    simp only [tagPieces, classPieces, length_append, length_map, length_cons]
    omega
  | condition _ _ _ hmid => simpa [Nat.lt_succ_iff] using hmid.length
  | alternative _ _ _ hnew =>
    have hle := hnew.length
    simp only [length_append, length_cons]
    omega

theorem Ends.length (h : Ends f true t v out) : v.output.length < out.length := by
  cases h with
  | closed _ hmid =>
    have hle := hmid.length
    simp only [length_append, if_pos, length_singleton]
    omega
  | dropped _ _ _ hmid hnew =>
    have hle := hmid.length
    have hcut := hnew.length
    simp only [length_append, length_set, length_singleton] at hcut ⊢
    omega

theorem Handled.length {w : View} {e : Event} (h : Handled f v e w) :
    v.output.length ≤ w.output.length ∧ ((∀ s, e ≠ .data s) → v.output.length < w.output.length) := by
  have hless {n m : Nat} (h : n < m) : n ≤ m ∧ ((∀ s, e ≠ .data s) → n < m) := ⟨h.le, fun _ => h⟩
  cases h with
  | blank => exact ⟨le_rfl, fun hno => absurd rfl (hno _)⟩
  | data hmid => exact ⟨hmid.length.trans (by simp), fun hno => absurd rfl (hno _)⟩
  | start row hbegin => exact hless hbegin.length
  | finish htags hend => exact hless (hend.length.trans_le (by simp))
  | whole row he hbegin => exact hless (hbegin.length.trans_le (by simp))

structure Framed (b c : Builder) : Prop where
  machine : c.machine = b.machine
  start : c.start = b.start
  stop : c.stop = b.stop
  textFunction : c.textFunction = b.textFunction
  remainder : c.remainder = b.remainder
  beforeCode : c.beforeCode = b.beforeCode

section

variable (b : Builder)

theorem wholeElement_yields (tag : Text) (attributes : List Attribute) :
    Yields (Refused (Lacks b.view) (¬ MayOpen b.afterIf tag attributes) (¬ AttributesLay attributes))
      (fun c => ∃ opening out, Begins b.textFunction false b.view tag attributes opening out ∧
        ConditionLays ⟨tag, b.stop.row, attributes, 0, opening⟩ ∧ c = { b with
          openTags := bump b.openTags
          output := (out ++ (endPieces b.textFunction ⟨tag, b.stop.row, attributes, 0, opening⟩).map Piece.text ++
            comma (bump b.openTags)).toArray
          afterIf := tag = "if".toList, afterCode := false }) (wholeElement tag attributes b) := by
  unfold wholeElement
  refine .bind (beginElement_yields b tag attributes false) ?_
  rintro _ ⟨opening, out, hbegin, rfl⟩
  refine (endElement_yields { b with
    openTags := ⟨tag, b.stop.row, attributes, 0, opening⟩ :: bump b.openTags
    output := out.toArray, afterCode := false, afterIf := false } tag false).imp ?_ ?_
  · rintro f ((hlacks | hlacks) | ⟨-, hstray⟩ | ⟨hf, t, ht, hno⟩)
    · exact absurd hlacks (not_lacks rfl)
    · exact absurd hlacks.1 Bool.false_ne_true
    · exact absurd rfl (hstray _ rfl)
    · cases ht
      exact .inr (.inr ⟨hf, fun hlay => hno (hbegin.sturdy hlay _)⟩)
  · rintro _ ⟨t, rest, _, htags, -, hend, rfl⟩
    cases htags
    cases hend with
    | closed hkeep hmid hlay =>
      cases hmid with
      | nothing => exact ⟨opening, out, hbegin, hlay, by simp [view]⟩
      | added hafter => cases hafter
    | dropped _ hcall => cases hcall

theorem declare_yields {e : Event} (tag argument : String) {content : Text} (he : wholeTag e = some tag.toList)
    (hattributes : wholeAttributes e = [⟨some argument.toList, some [.text content]⟩])
    (hif : tag.toList ≠ "if".toList) :
    Yields (fun f => f.OfComma → Lacks b.view) (fun c => Handled b.textFunction b.view e c.view ∧ Framed b c)
      (declare tag argument content b) := by
  refine .bind ((wholeElement_yields b _ _).imp (fun _ h => h.comma) fun _ h => h) ?_
  rintro _ ⟨opening, out, hbegin, hlay, rfl⟩
  rw [← hattributes] at hbegin hlay ⊢
  have hwhole := Handled.whole (v := b.view) b.stop.row he hbegin hlay
  rw [decide_eq_false hif] at hwhole
  exact ⟨hwhole, rfl, rfl, rfl, rfl, rfl, rfl⟩

theorem handle_yields (e : Event) :
    Yields (fun f => f.OfComma → Lacks b.view ∨ (∃ tag, e = .finish (some tag)) ∧ LacksChild true b.view)
      (fun c => Handled b.textFunction b.view e c.view ∧ Framed b c) (handle e b) := by
  cases e with
  | data s =>
    refine (writeData_yields b s).imp (fun _ h _ => .inl h) ?_
    rintro c (⟨-, rfl⟩ | ⟨-, mid, hmid, rfl⟩)
    · exact ⟨.blank, rfl, rfl, rfl, rfl, rfl, rfl⟩
    · exact ⟨.data hmid _ _, rfl, rfl, rfl, rfl, rfl, rfl⟩
  | start tag attributes =>
    cases tag with
    | none => exact False.elim
    | some tag =>
      refine (beginElement_yields b tag attributes true).imp (fun _ h hf => .inl (h.comma hf)) ?_
      rintro _ ⟨opening, out, hbegin, rfl⟩
      exact ⟨.start b.stop.row hbegin, rfl, rfl, rfl, rfl, rfl, rfl⟩
  | startEnd tag attributes =>
    cases tag with
    | none => exact False.elim
    | some tag =>
      refine (wholeElement_yields b tag attributes).imp (fun _ h hf => .inl (h.comma hf)) ?_
      rintro _ ⟨opening, out, hbegin, hlay, rfl⟩
      exact ⟨.whole (e := .startEnd (some tag) attributes) b.stop.row rfl hbegin hlay, rfl, rfl, rfl, rfl, rfl, rfl⟩
  | finish tag =>
    cases tag with
    | none => exact False.elim
    | some tag =>
      refine (endElement_yields b tag true).imp (fun _ h hf => (h.comma hf).imp_right fun h => ⟨⟨tag, rfl⟩, h⟩) ?_
      rintro _ ⟨t, rest, out, hopen, rfl, hend, rfl⟩
      exact ⟨.finish hopen hend, rfl, rfl, rfl, rfl, rfl, rfl⟩
  | comment s =>
    exact (declare_yields b "html_comment" "comment" rfl rfl (by decide)).imp (fun _ h hf => .inl (h hf)) fun _ h => h
  | doctype s =>
    exact (declare_yields b "html_decl" "decl" rfl rfl (by decide)).imp (fun _ h hf => .inl (h hf)) fun _ h => h
  | cdata s =>
    exact (declare_yields b "html_marked_decl" "decl" rfl rfl (by decide)).imp (fun _ h hf => .inl (h hf)) fun _ h => h

end

end Builder

end Markup

end InlineMarkup

import InlineMarkup.Proofs.Builder

/-!
What the handlers of a builder do to its output. A view of a builder is its output, its open elements and
whether an `if` has just ended; the handlers take views to views.
-/
namespace InlineMarkup.Markup

def OpenTag.unrowed (t : OpenTag) : OpenTag := { t with row := 0 }

namespace Builder

structure Shows (b : Builder) (v : View) : Prop where
  output : b.output.toList = v.output
  tags : b.openTags.map OpenTag.unrowed = v.tags
  afterIf : b.afterIf = v.afterIf
  afterCode : b.afterCode = false
  beforeCode : b.beforeCode = false

def Does (x : Build Unit) (v w : View) : Prop :=
  ∀ b, Shows b v → ∃ c, x b = .ok () c ∧ Shows c w ∧ c.machine = b.machine ∧ c.stop = b.stop

section

variable {v : View}

theorem unrowed_bump (tags : List OpenTag) : (bump tags).map OpenTag.unrowed = bump (tags.map OpenTag.unrowed) := by
  cases tags <;> rfl

/-! ### Conditionals that wait for an alternative -/

def pending (out : List Text) (afterIf : Bool) : List Text := if afterIf then out ++ [[',']] else out

def settled (out : List Text) (afterIf : Bool) : List Text :=
  if afterIf then out ++ [[], " else None, ".toList] else out

theorem Cut.unique {out new other : List Text} (h : Cut out new) (hother : Cut out other) : new = other := by
  have hnew := deleteLastComma_of_cut (b := { Builder.begin ⟨0, 0⟩ [] with output := out.toArray }) h
  rw [deleteLastComma_of_cut hother] at hnew
  injection hnew with _ hsame
  simpa using (congrArg Builder.output hsame).symm

theorem cut_pending (out : List Text) : Cut (pending out true) (out ++ [[]]) :=
  ⟨out, [], [], [], rfl, rfl, by simp, nofun, nofun⟩

section

variable {b : Builder} {out mid : List Text} {tags : List OpenTag} {afterIf : Bool}

theorem Shows.not_lacks (h : Shows b ⟨pending out afterIf, tags, afterIf⟩) : ¬ Lacks b.view := by
  rintro ⟨hafter, hno⟩
  obtain rfl : afterIf = true := h.afterIf.symm.trans hafter
  have hout : b.output.toList = pending out true := h.output
  exact hno ⟨_, hout ▸ cut_pending out⟩

theorem Shows.settled (h : Shows b ⟨pending out afterIf, tags, afterIf⟩)
    (hmid : Resolved b.output.toList b.afterIf mid) : mid = settled out afterIf := by
  have hout : b.output.toList = pending out afterIf := h.output
  have hafter : b.afterIf = afterIf := h.afterIf
  rw [hout, hafter] at hmid
  cases hmid with
  | nothing hno => simp [pending, Builder.settled, hno]
  | added hyes hcut =>
    subst hyes
    simp [Builder.settled, hcut.unique (cut_pending out)]

end

theorem does_closeIf (out : List Text) (tags : List OpenTag) (afterIf : Bool) :
    Does closeIf ⟨pending out afterIf, tags, afterIf⟩ ⟨settled out afterIf, tags, false⟩ := by
  intro b hb
  refine ((closeIf_yields b).imp (fun _ => hb.not_lacks) ?_).exists_ok
  rintro _ ⟨mid, hmid, rfl⟩
  exact ⟨⟨hb.settled hmid, hb.tags, rfl, hb.afterCode, hb.beforeCode⟩, rfl, rfl⟩

/-! ### Data -/

variable {data tag code : Text} {out made : List Text} {afterIf : Bool} {tokens : List Token} {t : OpenTag}

theorem does_writeData_nothing (h : normalize data false false = []) : Does (writeData data) v v := by
  intro b hb
  refine ⟨b, ?_, hb, rfl, rfl⟩
  unfold writeData
  rw [get_bind, hb.afterCode, hb.beforeCode, h]
  rfl

theorem does_writeData (h : normalize data false false ≠ []) (out : List Text)
    (tags : List OpenTag) (afterIf : Bool) : Does (writeData data) ⟨pending out afterIf, tags, afterIf⟩
      ⟨settled out afterIf ++ [dataPiece (normalize data false false)], bump tags, false⟩ := by
  intro b hb
  refine ((writeData_yields b data).imp (fun _ => hb.not_lacks) ?_).exists_ok
  rw [hb.afterCode, hb.beforeCode]
  rintro _ (⟨hno, -⟩ | ⟨-, mid, hmid, rfl⟩)
  · exact absurd hno h
  · rw [hb.settled hmid]
    exact ⟨⟨rfl, (unrowed_bump _).trans (congrArg bump hb.tags), rfl, rfl, rfl⟩, rfl, rfl⟩

/-! ### Elements -/

theorem does_begin {attributes : List Attribute} {tags : List OpenTag} {opening : Option Nat}
    (hmay : MayOpen afterIf tag attributes) (hlay : AttributesLay attributes)
    (hbegins : ∀ b, Shows b ⟨pending out afterIf, tags, afterIf⟩ → ∀ f i new,
      Begins f true b.view tag attributes i new → i = opening ∧ new = made) :
    Does (beginElement tag attributes true) ⟨pending out afterIf, tags, afterIf⟩
      ⟨made, { tag, row := 0, attributes, opening } :: bump tags, false⟩ := by
  intro b hb
  refine ((beginElement_yields b tag attributes true).imp (fun _ h => ?_) ?_).exists_ok
  · rcases h with h | ⟨-, h⟩ | ⟨-, h⟩
    · exact hb.not_lacks h
    · exact h (by rwa [hb.afterIf])
    · exact h hlay
  · rintro _ ⟨i, new, hnew, rfl⟩
    obtain ⟨rfl, rfl⟩ := hbegins b hb _ i new hnew
    exact ⟨⟨rfl, congrArg (_ :: ·) ((unrowed_bump _).trans (congrArg bump hb.tags)), rfl, rfl, hb.beforeCode⟩, rfl, rfl⟩

theorem does_beginElement (hif : tag ≠ "if".toList) (helse : tag ≠ "else".toList)
    (out : List Text) (tags : List OpenTag) (afterIf : Bool) :
    Does (beginElement tag [] true) ⟨pending out afterIf, tags, afterIf⟩
      ⟨settled out afterIf ++ classPieces tag ++ [[')'], ['(']],
        { tag, row := 0, attributes := [] } :: bump tags, false⟩ := by
  refine does_begin ⟨fun h => absurd h hif, fun h => absurd h helse⟩ nofun fun b hb f i new hnew => ?_
  cases hnew with
  | element _ _ hmid => simp [hb.settled hmid, tagPieces, attributesPieces, Piece.text, Function.comp_def]
  | condition h => exact absurd h hif
  | alternative h => exact absurd h helse

def condition (tokens : List Token) : List Attribute := [⟨some "cond".toList, some [.code tokens]⟩]

theorem lays_condition (hcode : Layout.plain tokens = .ok code) : ValueLays (some [.code tokens]) :=
  ⟨rfl, List.forall_mem_singleton.2 (lays_of_plain hcode).2⟩

theorem does_beginIf (hcode : Layout.plain tokens = .ok code) (out : List Text)
    (tags : List OpenTag) (afterIf : Bool) :
    Does (beginElement "if".toList (condition tokens) true) ⟨pending out afterIf, tags, afterIf⟩
      ⟨settled out afterIf ++ [fragmentPiece],
        { tag := "if".toList, row := 0, attributes := condition tokens,
          opening := some (settled out afterIf).length } :: bump tags, false⟩ := by
  refine does_begin ⟨fun _ => rfl, nofun⟩ (List.forall_mem_singleton.2 ⟨rfl, lays_condition hcode⟩)
    fun b hb f i new hnew => ?_
  cases hnew with
  | element h => exact absurd rfl h
  | condition _ _ _ hmid => exact hb.settled hmid ▸ ⟨rfl, rfl⟩
  | alternative h => exact absurd h (by decide)

theorem does_beginElse (out : List Text) (tags : List OpenTag) :
    Does (beginElement "else".toList [] true) ⟨pending out true, tags, true⟩
      ⟨out ++ [[], "else ".toList, fragmentPiece],
        { tag := "else".toList, row := 0, attributes := [], opening := some (out.length + 2) } ::
          bump tags, false⟩ := by
  refine does_begin ⟨nofun, fun _ => ⟨rfl, rfl⟩⟩ nofun fun b hb f i new hnew => ?_
  cases hnew with
  | element _ h => exact absurd rfl h
  | condition h => exact absurd h (by decide)
  | alternative _ _ _ hcut =>
    have hout : b.output.toList = pending out true := hb.output
    rw [Cut.unique hcut (hout ▸ cut_pending out)]
    simp

theorem does_end {ts : List OpenTag} (ht : Sturdy t) (hkeep : ¬ (IsConditional t.tag ∧ t.children = 1) → ∀ f,
      settled out afterIf ++ [[')']] ++ (endPieces f t).map Piece.text = made)
    (hdrop : IsConditional t.tag ∧ t.children = 1 → ∃ new i, Cut (settled out afterIf ++ [[]]) new ∧
      t.opening = some i ∧ ∀ f, new.set i [] ++ (endPieces f t).map Piece.text = made) :
    Does (endElement t.tag true) ⟨pending out afterIf, t :: ts, afterIf⟩
      ⟨made ++ comma ts, ts, t.tag = "if".toList⟩ := by
  intro b hb
  obtain ⟨o, rest, hopen, ho, hrest⟩ := List.map_eq_cons_iff.1 hb.tags
  obtain ⟨tag, row, attributes, children, opening⟩ := o
  subst ho
  refine ((endElement_yields b tag true).imp (fun _ h => ?_) ?_).exists_ok
  · rw [hopen] at h
    rcases h with (h | ⟨-, u, us, mid, htags, hcond, hone, hmid, hno⟩) | ⟨-, h⟩ | ⟨-, u, hu, h⟩
    · exact hb.not_lacks h
    · cases hopen.symm.trans htags
      obtain ⟨new, -, hnew, -⟩ := hdrop ⟨hcond, hone⟩
      exact hno ⟨new, hb.settled hmid ▸ hnew⟩
    · exact h _ rfl rfl
    · cases hu
      exact h ⟨ht.condition, ht.opening⟩
  · rintro _ ⟨u, us, new, htags, -, hends, rfl⟩
    cases hopen.symm.trans htags
    have hcomma : comma rest = comma ts := by simp [comma, ← hrest]
    refine ⟨⟨?_, hrest, rfl, rfl, hb.beforeCode⟩, rfl, rfl⟩
    rw [hcomma]
    refine congrArg (· ++ comma ts) ?_
    cases hends with
    | closed hno hmid =>
      rw [hb.settled hmid]
      exact hkeep (fun h => hno ⟨h.1, rfl, h.2⟩) _
    | dropped hcond _ hone hmid hnew hopening =>
      obtain ⟨cut, i, hcut, hi, hmade⟩ := hdrop ⟨hcond, hone⟩
      rw [hb.settled hmid] at hnew
      cases hopening.symm.trans hi
      rw [hnew.unique hcut]
      exact hmade _

theorem does_endElement (hif : t.tag ≠ "if".toList) (helse : t.tag ≠ "else".toList)
    (ts : List OpenTag) (out : List Text) (afterIf : Bool) :
    Does (endElement t.tag true) ⟨pending out afterIf, t :: ts, afterIf⟩
      ⟨settled out afterIf ++ [[')']] ++ comma ts, ts, false⟩ := by
  have hno : ¬ IsConditional t.tag := not_or.2 ⟨hif, helse⟩
  rw [← decide_eq_false hif]
  exact does_end ⟨fun h => absurd h hif, fun h => absurd h hno⟩ (fun _ f => by rw [endPieces, if_neg hif]; simp)
    fun h => absurd h.1 hno

/-- What the pieces of the children of a conditional become with its end: a single child stands
without the comma after it, and any other number of children in a fragment. -/
inductive Closes (children : Nat) (pieces : List Text) : List Text → Prop where
  | single {front : List Text} {x blanks : Text} (hone : children = 1)
      (hpieces : pieces = front ++ [x ++ ',' :: blanks]) (hblanks : ∀ c ∈ blanks, isBlank c = true)
      (hx : (x ++ [',']).head? ≠ some '#') :
      Closes children pieces ([] :: (front ++ [x ++ blanks, []]))
  | several (hmany : children ≠ 1) : Closes children pieces (fragmentPiece :: (pieces ++ [[')']]))

def conditionPieces (code : Text) : List Text :=
  if Text.occurs "else".toList ('(' :: code) then [" if ".toList, ['('], code, [')']]
  else [" if ".toList, [], code]

theorem does_endBranch (u : OpenTag) (us : List OpenTag) (ht : Sturdy t) (hcond : IsConditional t.tag)
    {base pieces closed ended out : List Text} {afterIf : Bool}
    (hended : ∀ f, (endPieces f t).map Piece.text = ended) (hopening : t.opening = some base.length)
    (hout : settled out afterIf = base ++ fragmentPiece :: pieces) (hclosed : Closes t.children pieces closed) :
    Does (endElement t.tag true) ⟨pending out afterIf, t :: u :: us, afterIf⟩
      ⟨base ++ closed ++ ended ++ [[',']], u :: us, t.tag = "if".toList⟩ := by
  refine does_end ht (fun hno f => ?_) fun h => ?_
  · cases hclosed with
    | single hone => exact absurd ⟨hcond, hone⟩ hno
    | several => simp [hout, hended]
  · cases hclosed with
    | @single front x blanks _ hpieces hblanks hx =>
      refine ⟨base ++ fragmentPiece :: front ++ (x ++ blanks) :: [[]], base.length,
        ⟨_, x, blanks, [[]], by simp [hout, hpieces], rfl, hx, hblanks, List.forall_mem_singleton.2 not_counts_nil⟩,
        hopening, fun f => ?_⟩
      simp [hended]
    | several hmany => exact absurd h.2 hmany

section

variable {t u : OpenTag} {us : List OpenTag} {base pieces closed out : List Text} {afterIf : Bool}

theorem does_endIf {tokens : List Token} {code : Text} (ht : t.tag = "if".toList)
    (hattributes : t.attributes = condition tokens) (hcode : Layout.plain tokens = .ok code)
    (hopening : t.opening = some base.length) (hout : settled out afterIf = base ++ fragmentPiece :: pieces)
    (hclosed : Closes t.children pieces closed) :
    Does (endElement "if".toList true) ⟨pending out afterIf, t :: u :: us, afterIf⟩
      ⟨pending (base ++ closed ++ conditionPieces code) true, u :: us, true⟩ := by
  have hfind : conditionOf t = some ⟨some "cond".toList, some [.code tokens]⟩ := by rw [conditionOf, hattributes]; rfl
  have hended (f : Text) : (endPieces f t).map Piece.text = conditionPieces code := by
    have hvalue : valuePieces f (valueParts ((conditionOf t).bind Attribute.value)) = [codePart tokens] := by
      rw [hfind]
      rfl
    have htext : (codePart tokens).text = code := by simp [codePart, Piece.text, (lays_of_plain hcode).1]
    rw [endPieces, if_pos ht, hvalue, enclosed, conditionPieces]
    simp only [List.map_cons, htext, List.map_nil, List.flatten_singleton]
    split <;> simp only [List.map_cons, List.map_append, List.map_nil, htext] <;> rfl
  have hend := does_endBranch u us ⟨fun _ => ⟨_, hfind, lays_condition hcode⟩, fun _ => by rw [hopening]; rfl⟩ (.inl ht)
    hended hopening hout hclosed
  rwa [ht, decide_eq_true rfl] at hend

theorem does_endElse (ht : t.tag = "else".toList) (hopening : t.opening = some base.length)
    (hout : settled out afterIf = base ++ fragmentPiece :: pieces) (hclosed : Closes t.children pieces closed) :
    Does (endElement "else".toList true) ⟨pending out afterIf, t :: u :: us, afterIf⟩
      ⟨base ++ closed ++ [[',']], u :: us, false⟩ := by
  have hif : t.tag ≠ "if".toList := by rw [ht]; decide
  have hended (f : Text) : (endPieces f t).map Piece.text = [] := by rw [endPieces, if_neg hif]; rfl
  have hend := does_endBranch u us ⟨fun h => absurd h hif, fun _ => by rw [hopening]; rfl⟩ (.inr ht) hended hopening
    hout hclosed
  rwa [ht, decide_eq_false (by decide), List.append_nil] at hend

end

end

end Builder

end InlineMarkup.Markup

import InlineMarkup.Proofs.Emitting
import InlineMarkup.Proofs.Tags

/-!
What the handlers of a builder write where there are no conditionals: elements, data on one line, and values
that are text on one line, each as the text it adds to the expression.
-/
namespace InlineMarkup.Markup.Builder

open List

def Spells (x : Build Unit) (u : List Text) (s : Text) (v : List Text) : Prop :=
  ∀ b : Builder, b.openTags.map OpenTag.tag = u → b.afterIf = false →
    ∃ c, x b = .ok () c ∧ c.openTags.map OpenTag.tag = v ∧ c.afterIf = false ∧ c.machine = b.machine ∧
      c.stop = b.stop ∧ c.output.toList.flatten = b.output.toList.flatten ++ s

section

variable {x : Build Unit} {f : Unit → Build Unit} {u v w : List Text} {s t : Text}

theorem Spells.bind (hx : Spells x u s v) (hf : Spells (f ()) v t w) : Spells (x >>= f) u (s ++ t) w := by
  intro b htags hif
  obtain ⟨c, hc, htags', hif', hmachine, hstop, hout⟩ := hx b htags hif
  obtain ⟨d, hd, htags'', hif'', hmachine', hstop', hout'⟩ := hf c htags' hif'
  refine ⟨d, (bind_ok hc).trans hd, htags'', hif'', hmachine'.trans hmachine, hstop'.trans hstop, ?_⟩
  rw [hout', hout, append_assoc]

theorem tag_bump (tags : List OpenTag) : (bump tags).map OpenTag.tag = tags.map OpenTag.tag := by
  cases tags <;> rfl

variable {as : List (Text × Text)} {tag : Text}

theorem Resolved.eq {out mid : List Text} {after : Bool} (h : Resolved out after mid) (hafter : after = false) :
    mid = out := by
  cases h with
  | nothing => rfl
  | added hyes => cases hyes.symm.trans hafter

theorem spells_countChild (u : List Text) : Spells countChild u [] u :=
  fun b htags hif => ⟨_, countChild_eq b, (tag_bump _).trans htags, hif, rfl, rfl, by simp⟩

theorem spells_closeIf (u : List Text) : Spells closeIf u [] u := by
  intro b htags hif
  refine ((closeIf_yields b).imp (fun _ => not_lacks hif) ?_).exists_ok
  rintro _ ⟨mid, hmid, rfl⟩
  exact ⟨htags, rfl, rfl, rfl, by simp [hmid.eq hif]⟩

/-! ### Data -/

def OneLine (s : Text) : Prop := ∀ c ∈ s, c ≠ '\n' ∧ c ≠ '\r'

theorem OneLine.append (hs : OneLine s) (ht : OneLine t) : OneLine (s ++ t) := fun c hc =>
  (mem_append.mp hc).elim (hs c) (ht c)

theorem trim_of_not_mem {p : Char → Bool} (h : ∀ c ∈ s, p c = false) : Text.trim p s = s := by
  have hleft : s.dropWhile p = s := by
    cases s with
    | nil => rfl
    | cons c rest => simp [h c mem_cons_self]
  have hright : s.reverse.dropWhile p = s.reverse := by
    have hrev : ∀ c ∈ s.reverse, p c = false := fun c hc => h c (mem_reverse.mp hc)
    cases hs : s.reverse with
    | nil => rfl
    | cons c rest =>
      rw [hs] at hrev
      simp [hrev c mem_cons_self]
  simp [Text.trim, Text.trimLeft, Text.trimRight, hleft, hright]

theorem normalize_oneLine (h : OneLine s) (afterCode beforeCode : Bool) : normalize s afterCode beforeCode = s := by
  cases s with
  | nil => rfl
  | cons c rest =>
    have hcontains : (c :: rest).contains '\n' = false := by
      simpa using fun hmem => (h '\n' hmem).1 rfl
    have hhead : ((c :: rest).head? == some '\n') = false := by
      simpa using (h c mem_cons_self).1
    have hlast : ((c :: rest).getLast? == some '\n') = false := by
      have hne : (c :: rest).getLast? ≠ some '\n' := fun heq => (h '\n' (mem_of_getLast? heq)).1 rfl
      simpa using hne
    have htrim : Text.trim (· == '\n') (c :: rest) = c :: rest :=
      trim_of_not_mem fun d hd => by simpa using (h d hd).1
    have hmap : (c :: rest).map (fun d => if d = '\r' ∨ d = '\n' then ' ' else d) = c :: rest := by
      refine (map_congr_left fun d hd => ?_).trans (map_id _)
      rw [if_neg (not_or.mpr ⟨(h d hd).2, (h d hd).1⟩)]
      rfl
    simp only [normalize, hcontains, hhead, hlast, htrim, Bool.false_and, Bool.and_false, isEmpty_cons,
      Bool.false_eq_true, if_false, hmap]

def dataText (s : Text) : Text := if s = [] then [] else dataPiece s

theorem spells_writeData (h : OneLine s) (u : List Text) : Spells (writeData s) u (dataText s) u := by
  intro b htags hif
  refine ((writeData_yields b s).imp (fun _ => not_lacks hif) fun c hc => ?_).exists_ok
  rw [normalize_oneLine h] at hc
  rcases hc with ⟨rfl, rfl⟩ | ⟨hs, mid, hmid, rfl⟩
  · exact ⟨htags, hif, rfl, rfl, by simp [dataText]⟩
  · exact ⟨(tag_bump _).trans htags, rfl, rfl, rfl, by simp [hmid.eq hif, dataText, hs]⟩

/-! ### Attributes -/

def valueText (s : Text) : Text := if s = [] then "u\"\".join(())".toList else Text.quoted s

def argumentText (a : Text × Text) : Text := argumentName a.1 ++ ['='] ++ valueText a.2

def argumentsText (as : List (Text × Text)) : Text := Text.join [',', ' '] (as.map argumentText)

def textAttribute (a : Text × Text) : Attribute := ⟨some a.1, some (textParts a.2)⟩

theorem normalizeParts_textParts (h : OneLine s) : normalizeParts false (textParts s) = textParts s := by
  unfold textParts
  split
  · rfl
  · simp [normalizeParts, normalize_oneLine h, ‹s ≠ []›]

theorem flatten_valuePieces (h : OneLine s) (f : Text) :
    ((valuePieces f (valueParts (some (textParts s)))).map Piece.text).flatten = valueText s := by
  rw [valueParts, Option.getD_some, normalizeParts_textParts h]
  by_cases hs : s = []
  · subst hs
    rfl
  · simp [textParts, hs, valuePieces, valueText, Piece.text]

theorem lays_textAttribute (h : ∀ a ∈ as, OneLine a.2) : AttributesLay (as.map textAttribute) := by
  intro a ha
  obtain ⟨b, hb, rfl⟩ := mem_map.1 ha
  refine ⟨rfl, rfl, ?_⟩
  rw [textAttribute, valueParts, Option.getD_some, normalizeParts_textParts (h b hb), textParts]
  split <;> simp [Lays]

theorem flatten_attributesPieces_more (h : ∀ a ∈ as, OneLine a.2) (f : Text) :
    ((attributesPieces f true (as.map textAttribute)).map Piece.text).flatten =
      as.flatMap fun a => [',', ' '] ++ argumentText a := by
  induction as with
  | nil => rfl
  | cons a as ih =>
    simp [attributesPieces, textAttribute, Piece.text, argumentText, flatten_valuePieces (h a mem_cons_self),
      ih fun b hb => h b (mem_cons_of_mem _ hb)]

theorem join_cons (sep p : Text) (ps : List Text) : Text.join sep (p :: ps) = p ++ ps.flatMap (sep ++ ·) := by
  induction ps generalizing p with
  | nil => simp [Text.join]
  | cons q ps ih =>
    have hrest := ih q
    simp only [Text.join] at hrest ⊢
    rw [intersperse_cons_cons, flatten_cons, flatten_cons, hrest, flatMap_cons]
    simp

theorem flatten_attributesPieces (h : ∀ a ∈ as, OneLine a.2) (f : Text) :
    ((attributesPieces f false (as.map textAttribute)).map Piece.text).flatten = argumentsText as := by
  cases as with
  | nil => rfl
  | cons a as =>
    have hmore := flatten_attributesPieces_more (fun b hb => h b (mem_cons_of_mem _ hb)) f
    rw [argumentsText, map_cons (f := argumentText), join_cons]
    simp [attributesPieces, textAttribute, Piece.text, argumentText, flatten_valuePieces (h a mem_cons_self),
      hmore, flatMap_map]

/-! ### Elements -/

def callText (tag : Text) (as : List (Text × Text)) : Text :=
  (classPieces tag).flatten ++ argumentsText as ++ [')']

theorem spells_beginElement (hif : tag ≠ "if".toList) (helse : tag ≠ "else".toList)
    {as : List (Text × Text)} (h : ∀ a ∈ as, OneLine a.2) (call : Bool) (u : List Text) :
    Spells (beginElement tag (as.map textAttribute) call) u (callText tag as ++ if call then ['('] else [])
      (tag :: u) := by
  intro b htags hafter
  refine ((beginElement_yields b tag _ call).imp (fun _ hf => ?_) ?_).exists_ok
  · rcases hf with hf | ⟨-, hf⟩ | ⟨-, hf⟩
    · exact not_lacks hafter hf
    · exact hf ⟨fun h => absurd h hif, fun h => absurd h helse⟩
    · exact hf (lays_textAttribute h)
  · rintro _ ⟨opening, out, hbegins, rfl⟩
    refine ⟨congrArg (tag :: ·) ((tag_bump _).trans htags), rfl, rfl, rfl, ?_⟩
    cases hbegins with
    | element _ _ hmid =>
      rw [hmid.eq hafter]
      cases call <;> simp [tagPieces, callText, flatten_attributesPieces h, Piece.text, view, Function.comp_def]
    | condition hno => exact absurd hno hif
    | alternative hno => exact absurd hno helse

theorem spells_endElement (hif : tag ≠ "if".toList) (helse : tag ≠ "else".toList) (call : Bool) (u : List Text) :
    Spells (endElement tag call) (tag :: u) ((if call then [')'] else []) ++ if u = [] then [] else [',']) u := by
  intro b htags hafter
  obtain ⟨o, rest, hopen, rfl, hrest⟩ := map_eq_cons_iff.1 htags
  have hno : ¬ IsConditional o.tag := not_or.2 ⟨hif, helse⟩
  refine ((endElement_yields b o.tag call).imp (fun _ hf => ?_) ?_).exists_ok
  · rw [hopen] at hf
    rcases hf with (hf | ⟨-, o', rest', -, hopen', hcond, -⟩) | ⟨-, hf⟩ | ⟨-, o', ho, hf⟩
    · exact not_lacks hafter hf
    · cases hopen.symm.trans hopen'
      exact hno hcond
    · exact hf o rfl rfl
    · cases ho
      exact hf ⟨fun h => absurd h hif, fun h => absurd h hno⟩
  · rintro _ ⟨o', rest', out, hopen', -, hends, rfl⟩
    cases hopen.symm.trans hopen'
    refine ⟨hrest, decide_eq_false hif, rfl, rfl, ?_⟩
    cases hends with
    | closed _ hmid =>
      have hcomma : comma rest = if u = [] then [] else [[',']] := by simp [comma, ← hrest]
      rw [hmid.eq hafter, hcomma, endPieces, if_neg hif]
      cases call <;> by_cases hu : u = [] <;> simp [hu, view]
    | dropped hcond => exact absurd hcond hno

end

end InlineMarkup.Markup.Builder

import InlineMarkup.Proofs.Replacement
import InlineMarkup.Proofs.Rewind
import InlineMarkup.Proofs.Stepping

/-!
Where a run of the translator stands. The text before the stream is code as it was laid out, with markup
replaced, and the text after it is what is still to come.
-/
namespace InlineMarkup.Translate

open Markup Layout List

/-! ### What is forgotten -/

structure Kept (source kept lost : Text) : Prop where
  sublist : kept.Sublist source
  length : source.length = kept.length + lost.length

theorem Kept.drop {source a b c lost : Text} (h : Kept source (a ++ (b ++ c)) lost) :
    Kept source (a ++ c) (lost ++ b) := by
  refine ⟨?_, ?_⟩
  · exact ((sublist_append_right b c).append_left a).trans h.sublist
  · have hlength := h.length
    simp only [length_append] at hlength ⊢
    omega

theorem Kept.eq_iff {source kept rest lost : Text} (h : Kept source (kept ++ rest) lost) :
    kept = source ↔ lost = [] ∧ rest = [] := by
  have hlength := h.length
  rw [length_append] at hlength
  constructor
  · rintro rfl
    exact ⟨eq_nil_of_length_eq_zero (by omega), eq_nil_of_length_eq_zero (by omega)⟩
  · rintro ⟨rfl, rfl⟩
    have hsublist := h.sublist
    rw [append_nil] at hsublist
    exact hsublist.eq_of_length (by simpa using hlength.symm)

/-! ### What the outermost code has made -/

def Whole (made : Array Token) : Prop :=
  ∀ t ∈ made.toList, t.kind = .error → t.text.getLast? ≠ some '\n'

instance (made : Array Token) : Decidable (Whole made) :=
  inferInstanceAs (Decidable (∀ t ∈ made.toList, t.kind = .error → t.text.getLast? ≠ some '\n'))

theorem Whole.of_push {made : Array Token} {t : Token} (h : Whole (made.push t)) :
    Whole made ∧ (t.kind = .error → t.text.getLast? ≠ some '\n') := by
  simp only [Whole, Array.toList_push, mem_append, mem_singleton] at h
  exact ⟨fun u hu => h u (Or.inl hu), h t (Or.inr rfl)⟩

/-- The tokens made are laid out from the start of the source to `q` as the text `s`, which ends at
`p`, with the markup of the literals replaced. -/
structure Written (mode : Mode) (made : Array Token) (literals : List Token) (s : Text)
    (p q : Pos) : Prop where
  place : Pos.advance ⟨1, 0⟩ s = p
  row : q.row = p.row
  laid : Whole made → ∃ out, Replaces mode.reversible ⟨1, 0⟩ (literals.map Token.trimNewline) s out ∧
    LaysOut ⟨1, 0⟩ (made.toList.map Token.trimNewline) out q

theorem written_nil (mode : Mode) : Written mode #[] [] [] ⟨1, 0⟩ ⟨1, 0⟩ :=
  ⟨rfl, rfl, fun _ => ⟨[], .rest _ _, .nil _⟩⟩

section

variable {mode : Mode} {made : Array Token} {literals : List Token} {s : Text} {p q : Pos} {k : Nat}
  {t : Token}

theorem trimNewline_of_placed (ht : Placed p k t)
    (hwhole : t.kind = .error → t.text.getLast? ≠ some '\n') : t.trimNewline = t := by
  unfold Token.trimNewline
  split
  · rename_i h
    simp only [Bool.and_eq_true, beq_iff_eq, Bool.not_eq_true'] at h
    rcases ht.newline h.1 with hend | herror
    · rw [h.2] at hend
      cases hend
    · exact absurd h.1 (hwhole herror)
  · rfl

theorem gap_of_lineEnd (ht : Placed p k t) (hend : t.kind.isLineEnd = true) (hrow : q.row = p.row) :
    gap (origin (some q) t) t.start = List.replicate k ' ' := by
  rw [← ht.gap]
  simp [gap, origin, hend, hrow]

theorem Written.add_code (h : Written mode made literals s p q) (ht : Placed p k t)
    (hq : q = p ∨ t.kind.isLineEnd = true) :
    Written mode (made.push t) literals (s ++ (List.replicate k ' ' ++ t.text)) (after t) (after t) := by
  refine ⟨?_, rfl, fun hwhole => ?_⟩
  · rw [Pos.advance_append, h.place, ht.advance]
  obtain ⟨hmade, hlast⟩ := hwhole.of_push
  obtain ⟨out, hreplaces, hlaid⟩ := h.laid hmade
  refine ⟨_, hreplaces.append_code _, ?_⟩
  rw [Array.toList_push, map_append, map_singleton, trimNewline_of_placed ht hlast]
  refine hlaid.append ?_
  have hgap : gap (origin (some q) t) t.start = List.replicate k ' ' := by
    rcases hq with rfl | hend
    · exact ht.gap
    · exact gap_of_lineEnd ht hend h.row
  have hrow : (origin (some q) t).row ≤ t.start.row := by
    rw [origin_row, h.row, ht.start]
  have hcons := LaysOut.cons hrow (.nil (after t))
  rwa [hgap, append_nil] at hcons

theorem Written.add_literal (h : Written mode made literals s p p) {markup trailing : Text}
    (hkind : t.kind = .string) (hstart : t.start = ⟨p.row, p.col + k⟩)
    (hstop : t.start.advance markup = t.stop) (hopen : markup.head? = some '<')
    (hclose : markup.getLast? = some '>')
    (htrailing : trailing = [] ∨ mode.reversible = true ∧ IsTrailing trailing) :
    Written mode (made.push t) (literals ++ [t])
      (s ++ (List.replicate k ' ' ++ (markup ++ trailing))) (t.stop.advance trailing) t.stop := by
  have hplace : Pos.advance ⟨1, 0⟩ (s ++ List.replicate k ' ') = t.start := by
    rw [Pos.advance_append, h.place, Pos.advance_replicate, hstart]
  refine ⟨?_, ?_, fun hwhole => ?_⟩
  · rw [← append_assoc, Pos.advance_append, hplace, Pos.advance_append, hstop]
  · rcases htrailing with rfl | ⟨-, htrailing⟩
    · rfl
    · exact (htrailing.advance_row _).symm
  obtain ⟨out, hreplaces, hlaid⟩ := h.laid hwhole.of_push.1
  have htrim : t.trimNewline.kind = t.kind ∧ t.trimNewline.start = t.start ∧ t.trimNewline.stop = t.stop := by
    unfold Token.trimNewline
    split <;> exact ⟨rfl, rfl, rfl⟩
  have hat : Pos.advance ⟨1, 0⟩ (s ++ List.replicate k ' ') = t.trimNewline.start := by
    rw [hplace, htrim.2.1]
  have hnew := hreplaces.append_literal hat (by rw [htrim.2.1, htrim.2.2, hstop]) hopen hclose htrailing
  refine ⟨_, by simpa using hnew, ?_⟩
  rw [Array.toList_push, map_append, map_singleton]
  refine hlaid.append ?_
  have hone := LaysOut.one (t := t.trimNewline) (p := p) (by rw [htrim.1, hkind]; rfl)
    (by rw [htrim.2.1, hstart])
  rw [htrim.2.1, htrim.2.2, hstart] at hone
  simpa [gap, Text.copies] using hone

end

/-! ### Where a run stands -/

section

variable (mode : Mode) (source : Text) (made : Array Token) (literals : List Token) (lost : Text)

/-- The stream stands at `p` in the outermost code. -/
structure Outside (s : Stream) (p : Pos) (held : Text) : Prop where
  stands : s.Stands p held
  text : ∃ before q, Written mode made literals before p q ∧ (q = p ∨ EndsFirst (s.unshifted ++ s.ready)) ∧
    Kept source (before ++ (held ++ s.unread.flatten)) lost

/-- The stream stands at `p`, and the text `m` before it, which starts at `place`, is the beginning
of markup in the outermost code. -/
structure Inside (place : Pos) (m : Text) (s : Stream) (p : Pos) (held : Text) : Prop where
  stands : s.Stands p held
  opens : m.head? = some '<'
  stop : place.advance m = p
  text : ∃ before q k, Written mode made literals before q q ∧ place = ⟨q.row, q.col + (k : Nat)⟩ ∧
    Kept source (before ++ (List.replicate k ' ' ++ (m ++ (held ++ s.unread.flatten)))) lost

end

section

variable {mode : Mode} {source : Text} {made : Array Token} {literals : List Token} {lost : Text}
  {place p : Pos} {m held : Text} {s : Stream}

theorem Inside.move (h : Inside mode source made literals lost place m s p held) {lost' m' : Text}
    {s' : Stream} {p' : Pos} {held' : Text} (hstands : s'.Stands p' held')
    (hopens : m'.head? = some '<') (hstop : place.advance m' = p')
    (hkept : ∀ front, Kept source (front ++ (m ++ (held ++ s.unread.flatten))) lost →
      Kept source (front ++ (m' ++ (held' ++ s'.unread.flatten))) lost') :
    Inside mode source made literals lost' place m' s' p' held' := by
  obtain ⟨before, q, k, hwritten, hplace, htext⟩ := h.text
  refine ⟨hstands, hopens, hstop, before, q, k, hwritten, hplace, ?_⟩
  rw [← append_assoc] at htext ⊢
  exact hkept _ htext

theorem head?_append_of_opens (h : m.head? = some '<') (x : Text) : (m ++ x).head? = some '<' := by
  rw [head?_append, h]
  rfl

theorem Inside.next (h : Inside mode source made literals lost place m s p held) {t : Token}
    {s' : Stream} (hnext : s.next = (some t, s')) :
    ∃ k held', Placed p k t ∧ Neat (List.replicate k ' ' ++ (t.text ++ held')) ∧
      Inside mode source made literals lost place (m ++ (List.replicate k ' ' ++ t.text)) s' (after t) held' := by
  have htook := Stream.next_took h.stands
  rw [hnext] at htook
  obtain ⟨k, held', hplaced, hstands, hneat, htext, -⟩ := htook
  refine ⟨k, held', hplaced, hneat, h.move hstands (head?_append_of_opens h.opens _) ?_ ?_⟩
  · rw [Pos.advance_append, h.stop, hplaced.advance]
  · intro front hkept
    rw [htext] at hkept
    simpa using hkept

theorem Inside.unshift {t : Token} {k : Nat} (hm : m.head? = some '<')
    (h : Inside mode source made literals lost place (m ++ (List.replicate k ' ' ++ t.text)) s p held)
    (ht : Placed (place.advance m) k t) (hkind : t.kind ≠ .comment)
    (hneat : Neat (List.replicate k ' ' ++ (t.text ++ held))) :
    Inside mode source made literals lost place m (s.unshift t) (place.advance m)
      (List.replicate k ' ' ++ (t.text ++ held)) := by
  have hafter : after t = p := by rw [← ht.advance, ← Pos.advance_append, h.stop]
  refine h.move (Stream.unshift_stands (hafter ▸ h.stands) ht hkind hneat) hm rfl ?_
  intro front hkept
  have hunread : (s.unshift t).unread = s.unread := rfl
  simpa [hunread] using hkept

theorem Inside.rewind {t : Token} (hm : m.head? = some '<')
    (h : Inside mode source made literals lost place (m ++ t.text) s p held)
    (hkind : t.kind.isLineEnd = false) (hafter : after t = p) (hneat : Neat (t.text ++ held))
    (hstart : t.start = place.advance m) : ∃ s', (Stream.rewind t).run s = .ok () s' ∧
      Inside mode source made literals (lost ++ (s.rewound.getD []).flatten) place m s' t.start [] := by
  obtain ⟨s', hrun, hstands, hunread⟩ := Stream.rewind_stands h.stands hkind hafter hneat
  refine ⟨s', hrun, h.move hstands hm hstart.symm ?_⟩
  intro front hkept
  have hall : Kept source ((front ++ (m ++ (t.text ++ held))) ++
      ((s.rewound.getD []).flatten ++ s.source.flatten)) lost := by
    simpa [Stream.unread] using hkept
  have hdrop := hall.drop
  simpa [hunread, Text.flatten_lines] using hdrop

theorem takeComment_stands (h : s.Stands p held) (l : Literal) :
    ∃ x p' held', (takeComment s l).1.Stands p' held' ∧ p.advance x = p' ∧
      held ++ s.unread.flatten = x ++ (held' ++ (takeComment s l).1.unread.flatten) ∧
      (x = [] ∨ IsTrailing x ∧ EndsFirst ((takeComment s l).1.unshifted ++ (takeComment s l).1.ready)) := by
  have htook := Stream.next_took h
  unfold takeComment
  split
  · rename_i s' hnext
    rw [hnext] at htook
    obtain ⟨htext, hunread, hstands⟩ := htook
    exact ⟨[], p, [], hstands, rfl, by simp [htext, hunread], Or.inl rfl⟩
  · rename_i t s' hnext
    rw [hnext] at htook
    obtain ⟨k, held', hplaced, hstands, hneat, htext, hends⟩ := htook
    split
    · rename_i hkind
      obtain ⟨hhead, hrow⟩ := hplaced.comment hkind
      refine ⟨List.replicate k ' ' ++ t.text, after t, held', hstands, hplaced.advance, ?_,
        Or.inr ⟨⟨k, t.text, rfl, hhead, hrow⟩, hends hkind⟩⟩
      rw [htext]
      simp
    · rename_i hkind
      refine ⟨[], p, _, Stream.unshift_stands hstands hplaced hkind hneat, rfl, ?_, Or.inl rfl⟩
      have hunread : (s'.unshift t).unread = s'.unread := rfl
      rw [htext, hunread]
      simp

theorem closeLiteral_stands {l : Literal} {r t : Token} {s₁ s₂ : Stream}
    (hr : l.builder.remainder = some r) (hrun : (Stream.rewind r).run s = .ok () s₁)
    (hstands : s₁.Stands p held) (h : closeLiteral mode s l = .ok (s₂, t)) :
    t.kind = .string ∧ t.start = l.builder.start ∧ t.stop = l.builder.stop ∧
      ∃ x p' held', s₂.Stands p' held' ∧ p.advance x = p' ∧
        held ++ s₁.unread.flatten = x ++ (held' ++ s₂.unread.flatten) ∧
        (x = [] ∨ (mode.reversible = true ∧ IsTrailing x) ∧ EndsFirst (s₂.unshifted ++ s₂.ready)) := by
  obtain ⟨s', l', hputs, hend⟩ := closeLiteral_ok h
  obtain rfl : s' = s₁ := by
    cases hputs with
    | nothing hnone => rw [hnone] at hr; cases hr
    | kept hr' hrun' | trimmed hr' hrun' =>
      rw [hr] at hr'
      cases hr'
      rw [hrun] at hrun'
      cases hrun'
      rfl
  rcases hend with ⟨-, rfl, rfl⟩ | ⟨hmode, rfl, form, -, rfl⟩
  · exact ⟨rfl, rfl, rfl, [], p, held, hstands, rfl, rfl, Or.inl rfl⟩
  · obtain ⟨x, p', held', hstands', hplace, htext, hx⟩ := takeComment_stands hstands l'
    refine ⟨rfl, rfl, rfl, x, p', held', hstands', hplace, htext, ?_⟩
    exact hx.imp id fun ⟨htrailing, hends⟩ => ⟨⟨hmode, htrailing⟩, hends⟩

end

/-- The frames above the outermost code, in which markup started at `place`: markup that is open,
and code, in turn. -/
inductive Stack (made : Array Token) (place : Pos) : List Frame → Prop where
  | outermost {l : Literal} {c : Code} (hopen : Builder.Open place l.builder) (hc : c.made = made) :
      Stack made place [.literal l, .code c]
  | code {c : Code} {l : Literal} {rest : List Frame} (h : Stack made place (.literal l :: rest)) :
      Stack made place (.code c :: .literal l :: rest)
  | literal {l : Literal} {c : Code} {rest : List Frame} {start : Pos}
      (hopen : Builder.Open start l.builder) (h : Stack made place (.code c :: rest)) :
      Stack made place (.literal l :: .code c :: rest)

variable {made : Array Token} {place : Pos} {l : Literal} {outer below : List Frame} {s s' : Stream}
  {t : Token} {final : Config}

theorem Stack.open (h : Stack made place (.literal l :: outer)) : ∃ start, Builder.Open start l.builder := by
  cases h with
  | outermost hopen _ => exact ⟨_, hopen⟩
  | literal hopen _ => exact ⟨_, hopen⟩

theorem Stack.replace {l' : Literal} (h : Stack made place (.literal l :: outer))
    (hopen : ∀ start, Builder.Open start l.builder → Builder.Open start l'.builder) :
    Stack made place (.literal l' :: outer) := by
  cases h with
  | outermost hl hc => exact .outermost (hopen _ hl) hc
  | literal hl hrest => exact .literal (hopen _ hl) hrest

/-- A run has come to the configuration: the literals are made, and text is lost. -/
inductive Reached (mode : Mode) (source : Text) (literals : List Token) (lost : Text) : Config → Prop where
  | outside {c : Code} {s : Stream} {p : Pos} {held : Text}
      (h : Outside mode source c.made literals lost s p held) :
      Reached mode source literals lost ⟨s, [.code c]⟩
  | inside {made : Array Token} {place p : Pos} {m held : Text} {s : Stream} {frames : List Frame}
      (hstack : Stack made place frames)
      (h : Inside mode source made literals lost place m s p held) :
      Reached mode source literals lost ⟨s, frames⟩

def literalMade : List Frame → List Frame → List Token
  | [.literal _, .code _], [.code c] => c.made.back?.toList
  | _, _ => []

def rewinds (before after : Config) : Bool :=
  match before.frames with
  | .literal _ :: _ =>
    before.frames.length != after.frames.length ||
      before.stream.next.1.any fun t => t.kind != .comment && t.text.head? == some '#'
  | _ => false

def forgotten (before after : Config) : Text :=
  if rewinds before after then (before.stream.next.2.rewound.getD []).flatten else []

theorem forgotten_of_stays (hnext : s.next = (some t, s')) (hhash : t.kind = .comment ∨ t.text.head? ≠ some '#')
    (hlength : final.frames.length = below.length + 1) : forgotten ⟨s, .literal l :: below⟩ final = [] := by
  have hkeep : rewinds ⟨s, .literal l :: below⟩ final = false := by
    simp [rewinds, hlength, hnext]
    tauto
  rw [forgotten, hkeep, if_neg Bool.false_ne_true]

theorem forgotten_of_rewinds (hnext : s.next = (some t, s'))
    (h : final.frames.length ≠ below.length + 1 ∨ t.kind ≠ .comment ∧ t.text.head? = some '#') :
    forgotten ⟨s, .literal l :: below⟩ final = (s'.rewound.getD []).flatten := by
  have hback : rewinds ⟨s, .literal l :: below⟩ final = true := by
    simp [rewinds, hnext]
    tauto
  rw [forgotten, if_pos hback, hnext]

theorem literalMade_of_length (before : List Frame) {frames : List Frame} (h : frames.length ≠ 1) :
    literalMade before frames = [] := by
  unfold literalMade
  split
  · exact absurd rfl h
  · rfl

section

variable {mode : Mode} {source : Text} {made : Array Token} {literals : List Token} {lost : Text}
  {place p : Pos} {m held : Text} {s : Stream}

theorem closeLiteral_reached {l l' : Literal} {c : Code} {rest : List Frame} {r t : Token} {s₁ s₂ : Stream}
    (hstack : Stack made place (.literal l' :: .code c :: rest)) (hstart : l.builder.start = l'.builder.start)
    (hr : l.builder.remainder = some r) (hrun : (Stream.rewind r).run s = .ok () s₁)
    (hin : Inside mode source made literals lost place m s₁ l.builder.stop held)
    (hlast : m.getLast? = some '>') (h : closeLiteral mode s l = .ok (s₂, t)) : Reached mode source
      (literals ++ literalMade (.literal l' :: .code c :: rest) (.code (c.add t true) :: rest)) lost
      ⟨s₂, .code (c.add t true) :: rest⟩ := by
  obtain ⟨hkind, hts, htp, x, p', held', hstands, hplace, htext, hx⟩ :=
    closeLiteral_stands hr hrun hin.stands h
  cases hstack with
  | outermost hopen hc =>
    refine .outside ⟨hstands, ?_⟩
    obtain ⟨before, q, k, hwritten, hq, hkept⟩ := hin.text
    have htplace : t.start = place := hts.trans (hstart.trans hopen.start)
    have hstop : t.start.advance m = t.stop := by rw [htplace, hin.stop, htp]
    have htrailing : x = [] ∨ mode.reversible = true ∧ IsTrailing x := hx.imp id And.left
    have hnew := hwritten.add_literal hkind (htplace.trans hq) hstop hin.opens hlast htrailing
    rw [htp, hplace] at hnew
    refine ⟨before ++ (List.replicate k ' ' ++ (m ++ x)), l.builder.stop, ?_, ?_, ?_⟩
    · rw [← hc] at hnew
      simpa [Code.add, literalMade] using hnew
    · rcases hx with rfl | ⟨-, hends⟩
      · exact Or.inl hplace
      · exact Or.inr hends
    · rw [htext] at hkept
      simpa using hkept
  | literal _ hrest =>
    cases hrest with
    | code hrest =>
      rw [literalMade_of_length _ (by simp), append_nil]
      refine .inside (.code hrest) (hin.move hstands (head?_append_of_opens hin.opens x) ?_ ?_)
      · rw [Pos.advance_append, hin.stop, hplace]
      · intro front hkept
        rw [htext] at hkept
        simpa using hkept

theorem Inside.split {t : Token} {k : Nat} (n : Nat) (kind : Kind) (hm : m.head? = some '<')
    (hin : Inside mode source made literals lost place (m ++ (List.replicate k ' ' ++ t.text)) s (after t) held)
    (hstart : place.advance (m ++ List.replicate k ' ') = t.start) (ht : Placed p k t)
    (hkind : t.kind.isLineEnd = false) (hneat : Neat (t.text ++ held))
    (hrkind : kind ≠ .comment ∧ kind.isLineEnd = false) (hrnewline : t.text.getLast? = some '\n' → kind = .error) :
    Inside mode source made literals lost place (m ++ (List.replicate k ' ' ++ (splitToken t n).1.text))
        (s.unshift { (splitToken t n).2 with kind }) (after (splitToken t n).1) (t.text.drop n ++ held) ∧
      Neat ((splitToken t n).1.text ++ (t.text.drop n ++ held)) := by
  have hdivision : t.start.advance (t.text.take n) =
      place.advance (m ++ (List.replicate k ' ' ++ t.text.take n)) := by
    rw [← append_assoc, Pos.advance_append, hstart]
  have hplaced : Placed (place.advance (m ++ (List.replicate k ' ' ++ t.text.take n))) 0
      { (splitToken t n).2 with kind } := by
    refine ⟨?_, ?_, fun hend => ?_, fun hlast => ?_, fun hcomment => absurd hcomment hrkind.1⟩
    · rw [← hdivision]
      simp [splitToken]
    · rw [after_of_not_lineEnd hrkind.2]
      simp only [splitToken]
      rw [← Pos.advance_append, take_append_drop, ht.stop, after_of_not_lineEnd hkind]
    · exact absurd (hrkind.2.symm.trans hend) Bool.false_ne_true
    · refine Or.inr (hrnewline ?_)
      simp only [splitToken] at hlast
      rw [← take_append_drop n t.text, getLast?_append, hlast]
      rfl
  have hall : m ++ (List.replicate k ' ' ++ t.text) =
      (m ++ (List.replicate k ' ' ++ t.text.take n)) ++ (List.replicate 0 ' ' ++ t.text.drop n) := by simp
  have hwhole : t.text.take n ++ (t.text.drop n ++ held) = t.text ++ held := by simp [← append_assoc]
  rw [← hwhole] at hneat
  rw [hall] at hin
  have hback := hin.unshift (head?_append_of_opens hm _) hplaced hrkind.1 hneat.of_append
  have hstop : after (splitToken t n).1 = t.start.advance (t.text.take n) := after_of_not_lineEnd hkind
  rw [hstop, hdivision]
  exact ⟨hback, hneat⟩

theorem Inside.fed (h : Inside mode source made literals lost place m s p held) {t u : Token} {s' s₁ : Stream}
    {b : Builder} (hnext : s.next = (some t, s')) (hmove : moveOf s' b t = .feed s₁ u) :
    s₁.rewound = s'.rewound ∧ (t.kind = .comment ∨ t.text.head? ≠ some '#') ∧
      (u.kind.isLineEnd = true → u.text = ['\n']) ∧ ∃ g held', place.advance (m ++ g) = u.start ∧
        Inside mode source made literals lost place (m ++ (g ++ u.text)) s₁ (after u) held' ∧
        Neat (u.text ++ held') := by
  obtain ⟨k, held', hplaced, hneat, hin⟩ := h.next hnext
  have hstart : place.advance (m ++ List.replicate k ' ') = t.start := by
    rw [Pos.advance_append, h.stop, Pos.advance_replicate, ← hplaced.start]
  have hend : t.kind.isLineEnd = true → t.text = ['\n'] := fun hkind => (hplaced.lineEnd hkind).2.1
  cases moveOf_feed hmove with
  | whole hhash => exact ⟨rfl, hhash, hend, _, held', hstart, hin, hneat.of_append⟩
  | mark _ hkind =>
    have hword : t.kind.isLineEnd = false := by rw [hkind]; rfl
    obtain ⟨hin', hneat'⟩ := hin.split 1 .error h.opens hstart hplaced hword hneat.of_append ⟨by simp, rfl⟩
      fun _ => rfl
    exact ⟨rfl, .inl hkind, fun hline => absurd (hword.symm.trans hline) Bool.false_ne_true, _, _, hstart, hin', hneat'⟩
  | @part n d rest hkind hhash hn hrest hd =>
    have hword : t.kind.isLineEnd = false := by
      by_contra hline
      have hmem : d ∈ t.text := mem_of_mem_drop (hrest ▸ mem_cons_self)
      rw [hend (by simpa using hline), mem_singleton] at hmem
      rcases hd with rfl | rfl <;> exact absurd hmem (by decide)
    obtain ⟨hin', hneat'⟩ := hin.split n t.kind h.opens hstart hplaced hword hneat.of_append ⟨hkind, hword⟩
      fun hlast => (hplaced.newline hlast).resolve_left fun hline => absurd (hword.symm.trans hline) Bool.false_ne_true
    exact ⟨rfl, .inr hhash, fun hline => absurd (hword.symm.trans hline) Bool.false_ne_true, _, _, hstart, hin', hneat'⟩

end

/-! ### Steps -/

section

variable {mode : Mode} {source : Text} {literals : List Token} {lost : Text}

variable {s : Stream} {p : Pos} {held : Text} {final : Config}

theorem Outside.steps {c : Code}
    (hout : Outside mode source c.made literals lost s p held) (h : Steps mode ⟨s, [.code c]⟩ final) :
    Reached mode source literals lost final := by
  have hread {t : Token} {s' : Stream} (hnext : s.next = (some t, s')) :
      ∃ k held' before q, Placed p k t ∧ s'.Stands (after t) held' ∧ Written mode c.made literals before p q ∧
        (q = p ∨ t.kind.isLineEnd = true) ∧
        Kept source (before ++ (List.replicate k ' ' ++ (t.text ++ held') ++ s'.unread.flatten)) lost := by
    have htook := Stream.next_took hout.stands
    rw [hnext] at htook
    obtain ⟨k, held', hplaced, hstands, -, htext, -⟩ := htook
    obtain ⟨before, q, hwritten, hq, hkept⟩ := hout.text
    rw [htext] at hkept
    exact ⟨k, held', before, q, hplaced, hstands, hwritten, hq.imp id (Stream.next_endsFirst hnext), by simpa using hkept⟩
  cases h with
  | take depth significant hnext =>
    obtain ⟨k, held', before, q, hplaced, hstands, hwritten, hends, hkept⟩ := hread hnext
    exact .outside ⟨hstands, _, _, hwritten.add_code hplaced hends, Or.inl rfl, by simpa using hkept⟩
  | begin depth hnext hop _ hbegun =>
    obtain ⟨k, held', before, q, hplaced, hstands, hwritten, hends, hkept⟩ := hread hnext
    have hopen := Builder.read_begin hop hbegun
    simp only [Token.isOp_iff] at hop
    obtain rfl : q = p := hends.resolve_right (by rw [hop.1]; exact Bool.false_ne_true)
    refine .inside (.outermost hopen rfl) (m := ['<']) ⟨hstands, rfl, ?_, before, q, k, hwritten, hplaced.start, ?_⟩
    · rw [← hop.2, hplaced.stop]
    · rw [hop.2] at hkept
      simpa using hkept

theorem Stack.steps {made : Array Token} {place : Pos} {m : Text} {frames : List Frame}
    (hstack : Stack made place frames)
    (hin : Inside mode source made literals lost place m s p held) (h : Steps mode ⟨s, frames⟩ final) :
    Reached mode source (literals ++ literalMade frames final.frames) (lost ++ forgotten ⟨s, frames⟩ final) final := by
  -- a step that stays in markup makes no literal, and forgets nothing unless it rewinds
  have hstays {l l' : Literal} {outer : List Frame} {t : Token} {s' s₁ : Stream} {m' held' : Text} {p' : Pos}
      (hframes : frames = .literal l :: outer) (hnext : s.next = (some t, s'))
      (hhash : t.kind = .comment ∨ t.text.head? ≠ some '#') (hstack : Stack made place (.literal l' :: outer))
      (hin : Inside mode source made literals lost place m' s₁ p' held') :
      Reached mode source (literals ++ literalMade frames (.literal l' :: outer))
        (lost ++ forgotten ⟨s, frames⟩ ⟨s₁, .literal l' :: outer⟩) ⟨s₁, .literal l' :: outer⟩ := by
    have hlength : (Frame.literal l' :: outer).length ≠ 1 := by cases hstack <;> simp
    rw [literalMade_of_length _ hlength, hframes, forgotten_of_stays hnext hhash rfl, append_nil, append_nil]
    exact .inside hstack hin
  cases h with
  | take depth significant hnext =>
    obtain ⟨k, held', -, -, hin'⟩ := hin.next hnext
    cases hstack with
    | code hstack => simpa [literalMade, forgotten, rewinds] using Reached.inside (.code hstack) hin'
  | begin depth hnext hop _ hbegun =>
    obtain ⟨k, held', -, -, hin'⟩ := hin.next hnext
    cases hstack with
    | code hstack =>
      have hopen := Builder.read_begin hop hbegun
      simpa [literalMade, forgotten, rewinds] using Reached.inside (.literal hopen (.code hstack)) hin'
  | @leave _ s' c l t outer b hnext hop hread =>
    obtain ⟨k, held', -, -, hin'⟩ := hin.next hnext
    cases hstack with
    | code hstack =>
      have hfilled : Stack made place (.literal (l.filled mode b c t) :: outer) := hstack.replace fun start hopen =>
        (l.filled_builder mode b c t).symm ▸ Builder.leavesOpen_readCode _ start _ _ _ hopen hread
      simpa [literalMade, forgotten, rewinds] using Reached.inside hfilled hin'
  | feed hnext hmove hread hopen =>
    obtain ⟨-, hhash, -, g, held', -, hin', -⟩ := hin.fed hnext hmove
    refine hstays rfl hnext hhash (hstack.replace fun start hl => ?_) hin'
    obtain ⟨hbs, hbb, -⟩ := Builder.read_ok hread hl.begun hl.notDone
    exact ⟨hbs.trans hl.start, hbb, hopen⟩
  | @close _ s' s₁ s₂ l c t u v outer b hnext hmove hread hdone hclose =>
    obtain ⟨hrewound, -, hend, g, held', hstart, hin', hneat⟩ := hin.fed hnext hmove
    obtain ⟨start, hopen⟩ := hstack.open
    obtain ⟨hbstart, -, hrest⟩ := Builder.read_ok hread hopen.begun hopen.notDone
    obtain ⟨front, rest, htext, hlast, hstop, hrem⟩ := hrest hdone
    have hkind : u.kind.isLineEnd = false := by
      by_contra hkind
      have hmem : '>' ∈ u.text := htext ▸ mem_append_left rest (mem_of_getLast? hlast)
      rw [hend (by simpa using hkind), mem_singleton] at hmem
      exact absurd hmem (by decide)
    have hplace : b.stop = place.advance (m ++ (g ++ front)) := by
      rw [hstop, ← hstart, ← Pos.advance_append, append_assoc]
    have hsplit : m ++ (g ++ u.text) = (m ++ (g ++ front)) ++ rest := by simp [htext]
    rw [hsplit] at hin'
    rw [htext, append_assoc] at hneat
    obtain ⟨s₃, hrun, hin₃⟩ := hin'.rewind (t := { u with text := rest, start := b.stop })
      (head?_append_of_opens hin.opens _) hkind rfl hneat.of_append hplace
    have hreached := closeLiteral_reached (l := l.fed mode b u) hstack hbstart hrem hrun hin₃
      (by simp [getLast?_append, hlast]) hclose
    rw [forgotten_of_rewinds hnext (.inl (by simp)), ← hrewound]
    exact hreached
  | @enter _ s' s₁ l t outer b hnext hmove hpass hrun =>
    obtain ⟨k, held', hplaced, hneat, hin'⟩ := hin.next hnext
    obtain ⟨more, htext⟩ := moveOf_enter hmove
    have hkind := hplaced.not_lineEnd htext (by decide)
    have hdivision : (splitToken t 1).2.start = place.advance (m ++ (List.replicate k ' ' ++ t.text.take 1)) := by
      rw [← append_assoc, Pos.advance_append, Pos.advance_append, hin.stop, Pos.advance_replicate,
        ← hplaced.start]
      rfl
    have hall : m ++ (List.replicate k ' ' ++ t.text) =
        (m ++ (List.replicate k ' ' ++ t.text.take 1)) ++ (splitToken t 1).2.text := by
      simp [splitToken, htext]
    have hneat' : Neat ((splitToken t 1).2.text ++ held') := by
      have htail := hneat.of_append
      rw [← take_append_drop 1 t.text, append_assoc] at htail
      exact htail.of_append
    rw [hall] at hin'
    obtain ⟨s₂, hrun₂, hin₂⟩ := hin'.rewind (head?_append_of_opens hin.opens _) hkind rfl hneat' hdivision
    cases hrun.symm.trans hrun₂
    rw [literalMade_of_length _ (by simp), append_nil, forgotten_of_rewinds hnext (.inl (by simp))]
    exact .inside (.code (hstack.replace fun start hl => Builder.leavesOpen_passOver _ start _ _ _ hl hpass)) hin₂
  | @keep _ s' l t outer _ hnext hmove =>
    obtain ⟨k, held', -, -, hin'⟩ := hin.next hnext
    exact hstays rfl hnext (.inl (moveOf_remark hmove).1) (hstack.replace fun _ => id) hin'
  | @remark _ s' l t outer b _ hnext hmove hread =>
    obtain ⟨k, held', -, -, hin'⟩ := hin.next hnext
    exact hstays rfl hnext (.inl (moveOf_remark hmove).1)
      (hstack.replace fun start hl => Builder.leavesOpen_readComment t start _ _ _ hl hread) hin'
  | @again _ s' s₁ l t outer hnext hmove hrun =>
    obtain ⟨k, held', hplaced, hneat, hin'⟩ := hin.next hnext
    obtain ⟨more, htext, hcomment⟩ := moveOf_again hmove
    have hkind := hplaced.not_lineEnd htext (by decide)
    rw [← append_assoc] at hin'
    obtain ⟨s₂, hrun₂, hin₂⟩ := hin'.rewind (head?_append_of_opens hin.opens _) hkind rfl hneat.of_append
      (by rw [Pos.advance_append, hin.stop, Pos.advance_replicate, ← hplaced.start])
    cases hrun.symm.trans hrun₂
    have hlength : (Frame.literal l :: outer).length ≠ 1 := by
      cases hstack <;> simp
    rw [literalMade_of_length _ hlength, append_nil, forgotten_of_rewinds hnext (.inr ⟨hcomment, by simp [htext]⟩)]
    exact .inside hstack hin₂
  | stop _ hdone =>
    obtain ⟨start, hopen⟩ := hstack.open
    rw [hopen.notDone] at hdone
    cases hdone

theorem step_reached {before after : Config} (hbefore : Reached mode source literals lost before)
    (h : step mode before = .ok after) : Reached mode source (literals ++ literalMade before.frames after.frames)
      (lost ++ forgotten before after) after := by
  cases hbefore with
  | @outside c s p held hout =>
    have hmade : literalMade [.code c] after.frames = [] := rfl
    have hkeep : forgotten ⟨s, [.code c]⟩ after = [] := rfl
    rw [hmade, hkeep, append_nil, append_nil]
    exact hout.steps (step_steps h)
  | inside hstack hin => exact hstack.steps hin (step_steps h)

end

end InlineMarkup.Translate

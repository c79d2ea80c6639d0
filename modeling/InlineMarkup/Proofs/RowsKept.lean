import InlineMarkup.Proofs.Carrying
import InlineMarkup.Proofs.SourceKept

/-!
Rows that a translation keeps. The expression made for markup holds a newline for each row that the markup
spans, but for those that it swallows: the rows within a token that is read as text of the markup, and those
of code that stands where the markup has no place for it.
-/
namespace InlineMarkup.Translate

open Markup Layout List

/-! ### Rows that are swallowed -/

def fed (b : Builder) (t : Token) : Option Token :=
  match t.text with
  | [] => some t
  | c :: _ =>
    if c = '\x7b' then if b.codeAllowed then none else some t
    else if t.kind = .comment then if b.commentAllowed then none else some (splitToken t 1).1
    else if c = '#' then none
    else
      let n := (t.text.takeWhile fun c => c != '#' && c != '\x7b').length
      some (if n < t.text.length then (splitToken t n).1 else t)

def rowRead : List Frame → Int
  | .literal l :: _ => l.builder.stop.row
  | .code c :: _ => (c.made.back?.map fun t => t.stop.row).getD 0
  | [] => 0

def closedCode (c : Code) (t : Token) : List Token := c.made.toList ++ [{ t with text := [], start := t.stop }]

def droppedRows (c : Code) (t : Token) : List Frame → Int
  | .literal l :: _ => if l.builder.keepsCode then 0 else codeRows (closedCode c t)
  | _ => 0

def swallowed (before after : Config) : Int :=
  match before.stream.next.1, before.frames with
  | some t, .literal l :: _ =>
    match fed l.builder t with
    | some u => if Builder.skips u then 0 else rowRead after.frames - u.start.row
    | none => if t.kind = .comment ∧ t.text.head? ≠ some '\x7b' then slack t else 0
  | some t, .code c :: outer =>
    if outer.length + 1 < after.frames.length then rowRead after.frames - t.start.row
    else if after.frames.length ≤ outer.length then droppedRows c t outer
    else if outer.isEmpty then 0 else slack t
  | _, _ => 0

/-! ### Rows of open frames -/

def Frame.lag : Frame → Int
  | .code c => (c.made.toList.map slack).sum
  | .literal l => l.builder.lag

def innerLag : List Frame → Int
  | [] => 0
  | [.code _] => 0
  | f :: rest => f.lag + innerLag rest

theorem innerLag_literal (l : Literal) (outer : List Frame) :
    innerLag (.literal l :: outer) = l.builder.lag + innerLag outer := by
  cases outer <;> rfl

theorem innerLag_code (c : Code) (f : Frame) (outer : List Frame) :
    innerLag (.code c :: f :: outer) = (c.made.toList.map slack).sum + innerLag (f :: outer) := rfl

theorem innerLag_add (c : Code) (t : Token) (significant : Bool) (f : Frame) (outer : List Frame) :
    innerLag (.code (c.add t significant) :: f :: outer) = innerLag (.code c :: f :: outer) + slack t := by
  rw [innerLag_code, innerLag_code]
  simp only [Code.add, Array.toList_push, map_append, map_cons, map_nil, sum_append,
    sum_singleton]
  omega

def SteadyFrames (frames : List Frame) : Prop := ∀ l, Frame.literal l ∈ frames → l.builder.Steady

theorem SteadyFrames.tail {f : Frame} {outer : List Frame} (h : SteadyFrames (f :: outer)) : SteadyFrames outer :=
  fun l hl => h l (mem_cons_of_mem f hl)

theorem SteadyFrames.literal {l : Literal} {outer : List Frame} (hl : l.builder.Steady) (h : SteadyFrames outer) :
    SteadyFrames (.literal l :: outer) := by
  intro k hk
  rcases mem_cons.mp hk with hk | hk
  · cases hk
    exact hl
  · exact h k hk

theorem SteadyFrames.code {outer : List Frame} (h : SteadyFrames outer) (c : Code) : SteadyFrames
    (.code c :: outer) := by
  intro k hk
  rcases mem_cons.mp hk with hk | hk
  · cases hk
  · exact h k hk

def tokenTaken : List Frame → List Frame → List Token
  | [.code _], [.code c] => c.made.back?.toList
  | _, _ => []

theorem produced_literal (l : Literal) (outer : List Frame) : produced (.literal l :: outer) = produced outer := by
  cases outer <;> rfl

theorem produced_code (c : Code) (f : Frame) (outer : List Frame) :
    produced (.code c :: f :: outer) = produced (f :: outer) := rfl

/-- `n` rows more are owed, by frames that are open or by the literal that is made. -/
structure Balanced (before after : List Frame) (n : Int) : Prop where
  steady : SteadyFrames after
  made : (produced after).toList = (produced before).toList ++ tokenTaken before after ++ literalMade before after
  rows : innerLag after + ((literalMade before after).map slack).sum = innerLag before + n

theorem Balanced.of_open {before after : List Frame} {n : Int} (hsteady : SteadyFrames after)
    (hopen : ∀ c, after ≠ [.code c]) (hmade : produced after = produced before)
    (hrows : innerLag after = innerLag before + n) : Balanced before after n := by
  have htaken : tokenTaken before after = [] := by
    unfold tokenTaken
    split
    · exact absurd rfl (hopen _)
    · rfl
  have hliteral : literalMade before after = [] := by
    unfold literalMade
    split
    · exact absurd rfl (hopen _)
    · rfl
  exact ⟨hsteady, by simp [htaken, hliteral, hmade], by simpa [hliteral] using hrows⟩

/-! ### Steps -/

section

variable {s : Stream} {l : Literal} {c : Code} {t : Token} {outer : List Frame} {final : Config}

theorem slack_token {b : Builder} (hdone : b.isDone = true) : slack b.token = b.lag := by
  simp only [Builder.isDone, Bool.and_eq_true, List.isEmpty_iff, beq_iff_eq] at hdone
  obtain ⟨⟨htags, hstate⟩, -⟩ := hdone
  have hheld : b.machine.heldCodes = [] := Machine.heldCodes_of_not_isTag (hstate ▸ rfl)
  have hlaid : b.laid = newlines b.token.text := by simp [Builder.laid, Builder.token, htags, hheld, rowsOf]
  have hafter : after b.token = b.stop := after_of_not_lineEnd rfl
  rw [slack, Builder.lag, hlaid, hafter]
  rfl

theorem closeLiteral_token {mode : Mode} (hmode : mode.reversible = false) {s' : Stream}
    (h : closeLiteral mode s l = .ok (s', t)) : t = l.builder.token := by
  obtain ⟨s₁, l₁, -, ⟨-, -, htoken⟩ | ⟨hkept, -⟩⟩ := closeLiteral_ok h
  · exact htoken
  · exact absurd (hmode.symm.trans hkept) Bool.false_ne_true

theorem closeLiteral_balanced {k : Literal} {rest : List Frame} {n : Int} (hsteady : SteadyFrames (.code c :: rest))
    (hdone : l.builder.isDone = true) (hlag : l.builder.lag = k.builder.lag + n) :
    Balanced (.literal k :: .code c :: rest) (.code (c.add l.builder.token true) :: rest) n := by
  have hslack := slack_token hdone
  cases rest with
  | nil =>
    have hmade : literalMade [.literal k, .code c] [.code (c.add l.builder.token true)] = [l.builder.token] := by
      simp [literalMade, Code.add]
    refine ⟨hsteady.tail.code _, ?_, ?_⟩
    · rw [hmade]
      simp [produced, tokenTaken, Code.add]
    rw [hmade, innerLag_literal, map_singleton, sum_singleton, hslack]
    change 0 + l.builder.lag = k.builder.lag + 0 + n
    omega
  | cons f rest =>
    refine .of_open (hsteady.tail.code _) (by simp) rfl ?_
    rw [innerLag_add, innerLag_literal, hslack, hlag]
    omega

theorem balanced_literal {k : Literal} {n : Int} (hsteady : SteadyFrames outer) (hk : k.builder.Steady)
    (hlag : k.builder.lag = l.builder.lag + n) : Balanced (.literal l :: outer) (.literal k :: outer) n := by
  refine .of_open (hsteady.literal hk) nofun ?_ ?_
  · rw [produced_literal, produced_literal]
  · rw [innerLag_literal, innerLag_literal, hlag]
    omega

theorem fed_eq (b : Builder) : fed b t = match moveOf s b t with
    | .feed _ u => some u
    | _ => none := by
  unfold fed moveOf
  rcases t.text with _ | ⟨c, more⟩
  · rfl
  · dsimp only
    split_ifs <;> rfl

theorem innerLag_depth (c : Code) (depth : Int) (outer : List Frame) :
    innerLag (.code { c with depth } :: outer) = innerLag (.code c :: outer) := by
  cases outer <;> rfl

theorem codeRows_closed (c : Code) (hend : t.kind.isLineEnd = false) :
    ∃ first, (closedCode c t).head? = some first ∧
      codeRows (closedCode c t) = t.stop.row - first.start.row - (c.made.toList.map slack).sum := by
  have hafter : after { t with text := [], start := t.stop } = t.stop := after_of_not_lineEnd hend
  have hclosing : slack { t with text := [], start := t.stop } = 0 := by
    rw [slack, hafter]
    simp
  have hrow (p : Pos) : rowAfter p (closedCode c t) = t.stop.row := by
    simp [rowAfter, closedCode, hafter]
  have hsum : ((closedCode c t).map slack).sum = (c.made.toList.map slack).sum := by
    simp [closedCode, hclosing]
  cases hcode : closedCode c t with
  | nil => simp [closedCode] at hcode
  | cons first more =>
    refine ⟨first, rfl, ?_⟩
    rw [codeRows, ← hcode, hrow, hsum]

theorem isLineEnd_of_isOp {symbol : Text} (h : t.isOp symbol = true) : t.kind.isLineEnd = false := by
  simp only [Token.isOp_iff] at h
  rw [h.1]
  rfl

theorem step_balanced {before after : Config} (hsteady : SteadyFrames before.frames)
    (h : step {} before = .ok after) : Balanced before.frames after.frames (swallowed before after) := by
  -- what a token in markup swallows is told by what is done with it
  have hswallowed {s s' : Stream} {l : Literal} {t : Token} {outer : List Frame} (hnext : s.next = (some t, s'))
      (final : Config) : swallowed ⟨s, .literal l :: outer⟩ final =
        ((fed l.builder t).map fun u => if Builder.skips u then 0 else rowRead final.frames - u.start.row).getD
          (if t.kind = .comment ∧ t.text.head? ≠ some '\x7b' then slack t else 0) := by
    rw [swallowed, hnext]
    dsimp only
    cases fed l.builder t <;> rfl
  cases step_steps h with
  | @take s s' c t outer depth significant hnext =>
    cases outer with
    | nil =>
      refine ⟨hsteady.tail.code _, ?_, ?_⟩
      · simp [produced, tokenTaken, literalMade, Code.add]
      · simp [swallowed, hnext, innerLag, literalMade]
    | cons f rest =>
      refine .of_open (hsteady.tail.code _) (by simp) rfl ?_
      rw [innerLag_add, innerLag_depth]
      simp [swallowed, hnext]
  | @begin s s' c t outer b depth hnext hop _ hread =>
    obtain ⟨hb, hlag⟩ := Builder.steady_begin hop hread
    have hmade : produced (.code { c with depth } :: outer) = produced (.code c :: outer) := by
      cases outer <;> rfl
    refine .of_open ((hsteady.tail.code _).literal hb) (by simp) (by rw [produced_literal, hmade]) ?_
    rw [innerLag_literal, innerLag_depth, hlag]
    simp [swallowed, hnext, rowRead]
    omega
  | @leave s s' c l t outer b hnext hop hread =>
    obtain ⟨first, hfirst, hrows⟩ := codeRows_closed c (isLineEnd_of_isOp hop)
    have hlast : (closedCode c t).getLast? = some { t with text := [], start := t.stop } := by simp [closedCode]
    obtain ⟨hb, hlag⟩ := Builder.readCode_lag hfirst hlast hread (hsteady l (by simp))
    refine .of_open (hsteady.tail.tail.literal hb) (by simp) ?_ ?_
    · rw [produced_literal, produced_code, produced_literal]
    rw [innerLag_code, innerLag_literal, innerLag_literal, Literal.filled_builder, hlag]
    simp only [swallowed, hnext, droppedRows, length_cons]
    split_ifs <;> simp at * <;> omega
  | @feed s s' s₁ l t u outer b hnext hmove hread hopen =>
    obtain ⟨hb, hlag⟩ := Builder.read_lag hread (hsteady l (by simp))
    rw [hswallowed hnext, fed_eq (s := s'), hmove]
    exact balanced_literal hsteady.tail (hb hopen) hlag
  | @close s s' s₁ s₂ l c t u v outer b hnext hmove hread hdone hclose =>
    obtain ⟨-, hlag⟩ := Builder.read_lag hread (hsteady l (by simp))
    obtain rfl := closeLiteral_token rfl hclose
    rw [hswallowed hnext, fed_eq (s := s'), hmove]
    have hrow : rowRead (.code (c.add b.token true) :: outer) = b.stop.row := by simp [rowRead, Code.add, Builder.token]
    have hbalanced := closeLiteral_balanced (l := l.fed {} b u) hsteady.tail hdone hlag
    rw [← hrow] at hbalanced
    exact hbalanced
  | @enter s s' s₁ l t outer b hnext hmove hpass hrun =>
    obtain ⟨more, htext⟩ := moveOf_enter hmove
    obtain ⟨hb, hlag⟩ := Builder.passOver_lag hpass (hsteady l (by simp))
    have hrow : (splitToken t 1).1.stop.row = t.start.row := by simp [splitToken, htext, Pos.advance, Pos.step]
    rw [hswallowed hnext, fed_eq (s := s'), hmove]
    refine .of_open ((hsteady.tail.literal hb).code _) (by simp) ?_ ?_
    · rw [produced_code, produced_literal, produced_literal]
    rw [innerLag_code, innerLag_literal, innerLag_literal, hlag, hrow]
    simp [htext, splitToken]
  | keep hmode => cases hmode
  | @remark s s' l t outer b _ hnext hmove hread =>
    obtain ⟨hcomment, -, -, hbrace⟩ := moveOf_remark hmove
    obtain ⟨hb, hlag⟩ := Builder.readComment_lag hread (hsteady l (by simp))
    have hslack : slack t = t.stop.row - t.start.row - newlines t.text := by
      rw [slack, after_of_not_lineEnd (by rw [hcomment]; rfl)]
    rw [hswallowed hnext, fed_eq (s := s'), hmove]
    dsimp only [Option.map_none, Option.getD_none]
    rw [if_pos ⟨hcomment, hbrace⟩, hslack]
    exact balanced_literal hsteady.tail hb hlag
  | @again s s' s₁ l t outer hnext hmove hrun =>
    obtain ⟨-, -, hcomment⟩ := moveOf_again hmove
    rw [hswallowed hnext, fed_eq (s := s'), hmove]
    dsimp only [Option.map_none, Option.getD_none]
    rw [if_neg fun h => hcomment h.1]
    exact balanced_literal hsteady.tail (hsteady l (by simp)) (add_zero _).symm
  | @stop s s' s₂ l c v outer hnext hdone hclose =>
    obtain rfl := closeLiteral_token rfl hclose
    have hnone (final : Config) : swallowed ⟨s, .literal l :: .code c :: outer⟩ final = 0 := by simp [swallowed, hnext]
    rw [hnone]
    exact closeLiteral_balanced hsteady.tail hdone (add_zero _).symm

end

/-! ### Runs -/

def literalRows : Int → List (Config × Config) → List (Token × Int)
  | _, [] => []
  | owed, s :: rest =>
    match literalMade s.1.frames s.2.frames with
    | [] => literalRows (owed + swallowed s.1 s.2) rest
    | t :: _ => (t, owed + swallowed s.1 s.2) :: literalRows 0 rest

theorem literalMade_cases (before after : List Frame) :
    literalMade before after = [] ∨ ∃ t, literalMade before after = [t] ∧ innerLag after = 0 := by
  unfold literalMade
  split
  · rename_i c
    cases c.made.back? with
    | none => exact Or.inl rfl
    | some t => exact Or.inr ⟨t, rfl, rfl⟩
  · exact Or.inl rfl

theorem literalRows_fst (owed : Int) (steps : List (Config × Config)) :
    (literalRows owed steps).map Prod.fst = literalsOf steps := by
  induction steps generalizing owed with
  | nil => rfl
  | cons s rest ih =>
    have hcons : literalsOf (s :: rest) = literalMade s.1.frames s.2.frames ++ literalsOf rest := by
      simp [literalsOf]
    rw [hcons, literalRows]
    rcases literalMade_cases s.1.frames s.2.frames with hnone | ⟨t, hone, -⟩
    · simp only [hnone, nil_append]
      exact ih _
    · simp only [hone, map_cons, singleton_append]
      rw [ih]

variable {before final : Config} {steps : List (Config × Config)} {t : Token} {source : Text}

theorem Run.literalRows_slack (hrun : Run {} before steps final) (hsteady : SteadyFrames before.frames) :
    ∀ p ∈ literalRows (innerLag before.frames) steps, slack p.1 = p.2 := by
  induction hrun with
  | refl => simp [literalRows]
  | @next before mid final steps hstep _ ih =>
    have hbalanced := step_balanced hsteady hstep
    have hrest := ih hbalanced.steady
    have hrows := hbalanced.rows
    intro p hp
    rw [literalRows] at hp
    rcases literalMade_cases before.frames mid.frames with hnone | ⟨t, hone, hzero⟩
    · simp only [hnone, map_nil, sum_nil, add_zero] at hp hrows
      rw [← hrows] at hp
      exact hrest p hp
    · simp only [hone, map_singleton, sum_singleton, hzero, zero_add] at hp hrows
      rw [hzero] at hrest
      rcases mem_cons.mp hp with rfl | hp
      · exact hrows
      · exact hrest p hp

theorem Run.made (hrun : Run {} before steps final) (hsteady : SteadyFrames before.frames) :
    ∀ t ∈ (produced final.frames).toList, t ∈ (produced before.frames).toList ∨ t ∈ literalsOf steps ∨
      ∃ s ∈ steps, t ∈ tokenTaken s.1.frames s.2.frames := by
  induction hrun with
  | refl => exact fun t ht => Or.inl ht
  | @next before mid final steps hstep _ ih =>
    have hbalanced := step_balanced hsteady hstep
    intro t ht
    rcases ih hbalanced.steady t ht with hmid | hliteral | ⟨s, hs, htaken⟩
    · rw [hbalanced.made, mem_append, mem_append] at hmid
      rcases hmid with (hbefore | htaken) | hliteral
      · exact Or.inl hbefore
      · exact Or.inr (Or.inr ⟨_, mem_cons_self, htaken⟩)
      · exact Or.inr (Or.inl (by simp [literalsOf, hliteral]))
    · refine Or.inr (Or.inl ?_)
      simp only [literalsOf, flatMap_cons, mem_append]
      exact Or.inr hliteral
    · exact Or.inr (Or.inr ⟨s, mem_cons_of_mem _ hs, htaken⟩)

/-! ### Where tokens stand in the result -/

variable {p : Pos} {lost : Text} {literals : List Token}

theorem text_row {front back : List Token} {out : Text} (h : Layout.text (some p) (front ++ t :: back) = .ok out) :
    ∃ x y, out = x ++ t.text ++ y ∧ (newlines x : Int) + (front.map slack).sum = t.start.row - p.row := by
  induction front generalizing p out with
  | nil =>
    obtain ⟨between, more, rfl, hgap, -⟩ := text_cons_ok h
    exact ⟨between, more, rfl, by simpa using hgap⟩
  | cons u front ih =>
    obtain ⟨between, more, rfl, hgap, hmore⟩ := text_cons_ok h
    obtain ⟨x, y, rfl, hrows⟩ := ih hmore
    refine ⟨between ++ u.text ++ x, y, by simp, ?_⟩
    simp only [newlines_append, map_cons, sum_cons, slack, Nat.cast_add]
    omega

theorem slack_of_placed {k : Nat} (h : Placed p k t) : slack t = 0 := by
  have hrow := congrArg Pos.row h.stop
  rw [Pos.advance_row] at hrow
  rw [slack]
  omega

theorem Reached.taken_placed (hbefore : Reached {} source literals lost before) (hstep : step {} before = .ok final)
    (ht : t ∈ tokenTaken before.frames final.frames) : ∃ p k, Placed p k t := by
  cases hbefore with
  | @outside c s p held hout =>
    cases step_steps hstep with
    | take depth significant hnext =>
      have htook := Stream.next_took hout.stands
      rw [hnext] at htook
      obtain ⟨k, held', hplaced, -⟩ := htook
      rw [show t = _ by simpa [tokenTaken, Code.add] using ht]
      exact ⟨p, k, hplaced⟩
    | begin => simp [tokenTaken] at ht
  | @inside made place p m held s frames hstack hin =>
    cases hstack <;> simp [tokenTaken] at ht

theorem Reached.made_of_stop {config : Config} {made : Array Token}
    (h : Reached {} source literals lost config) (hstop : step {} config = .error (made, none)) :
    made = produced config.frames := by
  have hstops := step_stops hstop
  cases h with
  | outside =>
    cases hstops with
    | atEnd | brace => rfl
  | inside hstack => exact absurd hstops hstack.not_stops

theorem Run.reached_mem (hrun : Run {} before steps final) {literals : List Token} {lost : Text}
    (h : Reached {} source literals lost before) :
    ∀ s ∈ steps, step {} s.1 = .ok s.2 ∧ ∃ literals lost, Reached {} source literals lost s.1 := by
  induction hrun generalizing literals lost with
  | refl => simp
  | next hstep _ ih =>
    intro s hs
    rcases mem_cons.mp hs with rfl | hs
    · exact ⟨hstep, literals, lost, h⟩
    · exact ih (step_reached h hstep) s hs

theorem steady_start (source : Text) : SteadyFrames (start source).frames := by
  intro l hl
  simp [start] at hl

theorem literalRows_eq_zero (h : ∀ s ∈ steps, swallowed s.1 s.2 = 0) : ∀ p ∈ literalRows 0 steps, p.2 = 0 := by
  induction steps with
  | nil => simp [literalRows]
  | cons s rest ih =>
    have hrest := ih fun u hu => h u (mem_cons_of_mem s hu)
    have hzero : 0 + swallowed s.1 s.2 = 0 := by rw [h s mem_cons_self, add_zero]
    intro p hp
    rw [literalRows, hzero] at hp
    split at hp
    · exact hrest p hp
    · rcases mem_cons.mp hp with rfl | hp
      · rfl
      · exact hrest p hp

/-- A translation that succeeds is a run. In it the token made for a piece of markup lacks a newline for each
row that the markup swallowed, and each token made stands in the result on its own row, less the rows that the
tokens before it lack. In a neat source no other token lacks any; so where markup swallows none, and no token
loses the newline at its end, all tokens stand on their rows. -/
theorem rows_of_tokens {source out : Text} (h : translate {} source = .ok out) :
    ∃ steps final, Run {} (start source) steps final ∧ step {} final = .error (madeOf {} source, none) ∧
      (literalRows 0 steps).map Prod.fst = literalsOf steps ∧ (∀ p ∈ literalRows 0 steps, slack p.1 = p.2) ∧
      (∀ front t back, (madeOf {} source).toList = front ++ t :: back → ∃ x y, out = x ++ t.trimNewline.text ++ y ∧
        1 + (newlines x : Int) + (front.map fun u => slack u.trimNewline).sum = t.start.row) ∧
      (Neat source → ∀ t ∈ (madeOf {} source).toList, t ∈ literalsOf steps ∨ slack t = 0) ∧
      (Neat source → (∀ t ∈ (madeOf {} source).toList, t.trimNewline = t) →
        (∀ s ∈ steps, swallowed s.1 s.2 = 0) → ∀ front t back, (madeOf {} source).toList = front ++ t :: back →
          ∃ x y, out = x ++ t.text ++ y ∧ 1 + (newlines x : Int) = t.start.row) := by
  obtain ⟨made, hrun, hfile⟩ := translate_ok h
  have hmade : madeOf {} source = made := by rw [madeOf, hrun]
  rw [hmade]
  obtain ⟨steps, final, hsteps, hstop⟩ := exists_run hrun
  have hliterals := hsteps.literalRows_slack (steady_start source)
  have hrows (front : List Token) (t : Token) (back : List Token) (hsplit : made.toList = front ++ t :: back) :
      ∃ x y, out = x ++ t.trimNewline.text ++ y ∧
        1 + (newlines x : Int) + (front.map fun u => slack u.trimNewline).sum = t.start.row := by
    rw [hsplit, map_append, map_cons] at hfile
    obtain ⟨x, y, hout, hrow⟩ := text_row hfile
    have hstart : t.trimNewline.start = t.start := by
      unfold Token.trimNewline
      split <;> rfl
    rw [hstart, map_map] at hrow
    refine ⟨x, y, hout, ?_⟩
    dsimp only [Function.comp_def] at hrow
    omega
  have hcode (hneat : Neat source) (t : Token) (ht : t ∈ made.toList) : t ∈ literalsOf steps ∨ slack t = 0 := by
    have hstart := reached_start {} hneat
    rw [(hsteps.reached hstart).made_of_stop hstop] at ht
    rcases hsteps.made (steady_start source) t ht with hnone | hliteral | ⟨s, hs, htaken⟩
    · simp [start, produced] at hnone
    · exact Or.inl hliteral
    · obtain ⟨hstep, literals, lost, hreached⟩ := hsteps.reached_mem hstart s hs
      obtain ⟨p, k, hplaced⟩ := hreached.taken_placed hstep htaken
      exact Or.inr (slack_of_placed hplaced)
  refine ⟨steps, final, hsteps, hstop, literalRows_fst 0 steps, hliterals, hrows, hcode, ?_⟩
  intro hneat huntrimmed hnone front t back hsplit
  have hslack (u : Token) (hu : u ∈ made.toList) : slack u = 0 := by
    rcases hcode hneat u hu with hliteral | hzero
    · rw [← literalRows_fst 0 steps] at hliteral
      obtain ⟨p, hp, rfl⟩ := mem_map.mp hliteral
      rw [hliterals p hp, literalRows_eq_zero hnone p hp]
    · exact hzero
  obtain ⟨x, y, hout, hrow⟩ := hrows front t back hsplit
  have hfront : (front.map fun u => slack u.trimNewline).sum = 0 := by
    refine sum_eq_zero fun n hn => ?_
    obtain ⟨u, hu, rfl⟩ := mem_map.mp hn
    have hmem : u ∈ made.toList := by simp [hsplit, hu]
    rw [huntrimmed u hmem, hslack u hmem]
  rw [huntrimmed t (by simp [hsplit])] at hout
  exact ⟨x, y, hout, by rwa [hfront, add_zero] at hrow⟩

def spanningString : Text := "x = <a>'''\n'''</a>\ny = 1\n".toList

def spanningStringMade : Text := "x = html.x_a()(u\"''' '''\", )\ny = 1\n".toList

/-- The code after it moves up by a row. -/
theorem translate_spanningString : (translate {} spanningString).toOption = some spanningStringMade ∧
      newlines spanningString = newlines spanningStringMade + 1 := by
  decide +kernel

theorem rows_of_tokens_spanningString : ∃ steps final, Run {} (start spanningString) steps final ∧
      step {} final = .error (madeOf {} spanningString, none) ∧
      (literalRows 0 steps).map Prod.fst = literalsOf steps ∧ (∀ p ∈ literalRows 0 steps, slack p.1 = p.2) ∧
      (∀ front t back, (madeOf {} spanningString).toList = front ++ t :: back →
        ∃ x y, spanningStringMade = x ++ t.trimNewline.text ++ y ∧
          1 + (newlines x : Int) + (front.map fun u => slack u.trimNewline).sum = t.start.row) ∧
      (Neat spanningString → ∀ t ∈ (madeOf {} spanningString).toList, t ∈ literalsOf steps ∨ slack t = 0) ∧
      (Neat spanningString → (∀ t ∈ (madeOf {} spanningString).toList, t.trimNewline = t) →
        (∀ s ∈ steps, swallowed s.1 s.2 = 0) → ∀ front t back, (madeOf {} spanningString).toList = front ++ t :: back →
          ∃ x y, spanningStringMade = x ++ t.text ++ y ∧ 1 + (newlines x : Int) = t.start.row) := by
  have hok : translate {} spanningString = .ok spanningStringMade := by
    have hmade : (translate {} spanningString).toOption = some spanningStringMade := by
      decide +kernel
    cases htranslate : translate {} spanningString with
    | error f =>
      rw [htranslate] at hmade
      cases hmade
    | ok out =>
      rw [htranslate] at hmade
      cases hmade
      rfl
  exact rows_of_tokens hok

end InlineMarkup.Translate

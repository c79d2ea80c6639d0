import InlineMarkup.Proofs.RowsKept

/-!
Code that markup keeps. Each piece of code that stands as a child, or in a value of a start tag, is written
once into the expression that the markup becomes; the rest of the expression is made of the text of the
markup.
-/
open List

namespace InlineMarkup.Markup.Builder

def Carrying (P : Char → Prop) (kept : List (List Token)) (b : Builder) : Prop := ∃ n, Carries P P P kept n b

theorem Carrying.token {P : Char → Prop} {kept : List (List Token)} {b : Builder} (h : Carrying P kept b)
    (hdone : b.isDone = true) :
    ∃ pieces : List Piece, b.token.text = (pieces.map Piece.text).flatten ∧ (∀ p ∈ pieces, p.Over P) ∧
      (pieces.flatMap Piece.codes).Perm kept := by
  obtain ⟨n, -, -, codes, pieces, hwoven, hkept, -⟩ := h
  simp only [isDone, Bool.and_eq_true, List.isEmpty_iff, beq_iff_eq] at hdone
  obtain ⟨⟨htags, hstate⟩, -⟩ := hdone
  have hcodes := hwoven.codes
  rw [htags, flatMap_nil, append_nil] at hcodes
  rw [Machine.heldCodes_of_not_isTag (hstate ▸ rfl), append_nil] at hkept
  exact ⟨pieces, congrArg List.flatten hwoven.output, hwoven.clean, hcodes.trans hkept⟩

end InlineMarkup.Markup.Builder

namespace InlineMarkup.Translate

open Markup

/-! ### Steps in markup -/

section

variable {mode : Mode} {s : Stream} {l : Literal} {outer : List Frame} {final : Config}

def textTaken (b : Builder) (t : Token) : Text :=
  match fed b t with
  | some u => u.text
  | none => if t.kind = .comment ∧ t.text.head? ≠ some '\x7b' then t.text else []

def textRead (depth : Nat) (s : Config × Config) : Text :=
  match s.1.stream.next.1, s.1.frames with
  | some t, .literal l :: outer => if outer.length = depth then textTaken l.builder t else []
  | _, _ => []

def fragmentRead (depth : Nat) (s : Config × Config) : List (List Token × Bool) :=
  match s.1.stream.next.1, s.1.frames with
  | some t, .code c :: .literal l :: outer =>
    if outer.length = depth ∧ s.2.frames.length = depth + 1 then [(closedCode c t, l.builder.keepsCode)] else []
  | _, _ => []

def keptCodes (fragments : List (List Token × Bool)) : List (List Token) := (fragments.filter Prod.snd).map Prod.fst

variable {before after : Config}

variable {past : List (Config × Config)}

theorem step_above {top : List Frame} (htop : top ≠ []) (h : Steps mode ⟨s, top ++ .literal l :: outer⟩ final) :
    (∃ more, more ≠ [] ∧ final.frames = more ++ .literal l :: outer) ∨
      ∃ c t s' b, top = [.code c] ∧ s.next = (some t, s') ∧
        (Builder.readCode (shownCode mode c t)).run l.builder = .ok () b ∧
        final = ⟨s', .literal (l.filled mode b c t) :: outer⟩ := by
  obtain ⟨f, rest, rfl⟩ := exists_cons_of_ne_nil htop
  rw [cons_append] at h
  generalize hbelow : rest ++ .literal l :: outer = below at h
  cases h with
  | take | feed | keep | remark | again => exact .inl ⟨_ :: rest, cons_ne_nil _ _, by rw [cons_append, hbelow]⟩
  | begin | enter => exact .inl ⟨_ :: _ :: rest, cons_ne_nil _ _, by rw [cons_append, cons_append, hbelow]⟩
  | leave hnext _ hread =>
    cases rest with
    | nil =>
      cases hbelow
      exact .inr ⟨_, _, _, _, rfl, hnext, hread, rfl⟩
    | cons g rest =>
      cases hbelow
      exact .inl ⟨_ :: rest, cons_ne_nil _ _, rfl⟩
  | close | stop =>
    cases rest with
    | nil => cases hbelow
    | cons g rest =>
      cases hbelow
      exact .inl ⟨_ :: rest, cons_ne_nil _ _, rfl⟩

def Within (P : Char → Prop) (kept : List (List Token)) (outer : List Frame) (frames : List Frame) : Prop :=
  ∃ top l start, frames = top ++ .literal l :: outer ∧ Builder.Open start l.builder ∧ Builder.Carrying P kept l.builder

theorem literal_within (hmode : mode.reversible = false) {P : Char → Prop} (hP : Alphabet P) {kept : List (List Token)}
    {start : Pos} (hopen : Builder.Open start l.builder) (hl : Builder.Carrying P kept l.builder)
    (htext : Over P (textRead outer.length (⟨s, .literal l :: outer⟩, final)))
    (h : Steps mode ⟨s, .literal l :: outer⟩ final) :
    Within P kept outer final.frames ∨ ∃ c rest b, outer = .code c :: rest ∧
      final.frames = .code (c.add b.token true) :: rest ∧ b.isDone = true ∧ Builder.Carrying P kept b := by
  obtain ⟨n, hn⟩ := hl
  have htaken {t : Token} {s' : Stream} (hnext : s.next = (some t, s')) : Over P (textTaken l.builder t) := by
    simpa [textRead, hnext] using htext
  have hfed {t u : Token} {s' s₁ : Stream} (hnext : s.next = (some t, s')) (hmove : moveOf s' l.builder t = .feed s₁ u) :
      Over P u.text := by
    simpa [textTaken, fed_eq (s := s'), hmove] using htaken hnext
  cases h with
  | feed hnext hmove hread hmore =>
    obtain ⟨hstart, hbegun, -⟩ := Builder.read_ok hread hopen.begun hopen.notDone
    have hcarries := Builder.read_carries hP.alphabets (hfed hnext hmove).legible hread hn hopen
    exact Or.inl ⟨[], _, start, rfl, ⟨hstart.trans hopen.start, hbegun, hmore⟩, _, hcarries⟩
  | close hnext hmove hread hdone hclose =>
    have hcarries := Builder.read_carries hP.alphabets (hfed hnext hmove).legible hread hn hopen
    rw [closeLiteral_token hmode hclose]
    exact Or.inr ⟨_, _, _, rfl, rfl, hdone, _, hcarries⟩
  | enter _ _ hpass =>
    have hstill := Builder.leavesOpen_passOver _ _ _ _ _ hopen hpass
    exact Or.inl ⟨[_], _, start, rfl, hstill, _, (Builder.passOver_carries hP.alphabets hpass hn hopen).1⟩
  | keep hkept => exact absurd (hmode.symm.trans hkept) Bool.false_ne_true
  | @remark _ s' _ t _ _ _ hnext hmove hread =>
    obtain ⟨hkind, -, -, hbrace⟩ := moveOf_remark hmove
    have hall : Over P t.text := by
      simpa [textTaken, fed_eq (s := s'), hmove, hkind, hbrace] using htaken hnext
    have hstill := Builder.leavesOpen_readComment _ _ _ _ _ hopen hread
    exact Or.inl ⟨[], _, start, rfl, hstill, _, (Builder.readComment_carries hP.alphabets hall hread hn hopen).1⟩
  | again => exact Or.inl ⟨[], l, start, rfl, hopen, n, hn⟩
  | stop _ hdone => exact absurd (hopen.notDone.symm.trans hdone) Bool.false_ne_true

theorem step_within (hmode : mode.reversible = false) {P : Char → Prop} (hP : Alphabet P)
    {kept : List (List Token)} {before after : Config} (hbefore : Within P kept outer before.frames)
    (htext : Over P (textRead outer.length (before, after))) (h : step mode before = .ok after) :
    Within P (kept ++ keptCodes (fragmentRead outer.length (before, after))) outer after.frames ∨
      ∃ c rest b, outer = .code c :: rest ∧ after.frames = .code (c.add b.token true) :: rest ∧
        b.isDone = true ∧ Builder.Carrying P kept b := by
  obtain ⟨s, frames⟩ := before
  obtain ⟨top, l, start, hframes, hopen, hl⟩ := hbefore
  dsimp only at hframes
  subst hframes
  by_cases htop : top = []
  · subst htop
    have hnone : fragmentRead outer.length (⟨s, .literal l :: outer⟩, after) = [] := by
      unfold fragmentRead
      dsimp only
      split
      · rename_i hframes
        cases hframes
      · rfl
    rw [nil_append, hnone] at *
    rw [keptCodes, filter_nil, map_nil, append_nil]
    exact literal_within hmode hP hopen hl htext (step_steps h)
  · left
    rcases step_above htop (step_steps h) with ⟨more, hmore, hafter⟩ | ⟨c, t, s', b, rfl, hnext, hread, rfl⟩
    · have hlong : after.frames.length ≠ outer.length + 1 := by
        have hpos := length_pos_iff.2 hmore
        rw [hafter, length_append, length_cons]
        omega
      have hnone : fragmentRead outer.length (⟨s, top ++ .literal l :: outer⟩, after) = [] := by
        unfold fragmentRead
        dsimp only
        split
        · exact if_neg fun hboth => hlong hboth.2
        · rfl
      rw [hnone, keptCodes, filter_nil, map_nil, append_nil]
      exact ⟨more, l, start, hafter, hopen, hl⟩
    · have hfragment : keptCodes (fragmentRead outer.length (⟨s, [.code c] ++ .literal l :: outer⟩,
          ⟨s', .literal (l.filled mode b c t) :: outer⟩)) = if l.builder.keepsCode then [closedCode c t] else [] := by
        cases hkeeps : l.builder.keepsCode <;> simp [fragmentRead, hnext, keptCodes, hkeeps]
      rw [hfragment]
      have hstill := Builder.leavesOpen_readCode _ _ _ _ _ hopen hread
      obtain ⟨n, hn⟩ := hl
      rw [shownCode, hmode] at hread
      obtain ⟨_, _, -, -, -, hcarries⟩ := Builder.readCode_carries hP.alphabets hread hn hopen
      rw [← l.filled_builder mode b c t] at hstill hcarries
      exact ⟨[], _, start, rfl, hstill, _, hcarries⟩

def textOf (depth : Nat) (steps : List (Config × Config)) : Text := steps.flatMap (textRead depth)

def fragmentsOf (depth : Nat) (steps : List (Config × Config)) : List (List Token × Bool) :=
  steps.flatMap (fragmentRead depth)

theorem keptCodes_append (xs ys : List (List Token × Bool)) : keptCodes (xs ++ ys) = keptCodes xs ++ keptCodes ys := by
  simp [keptCodes]

theorem Run.within (hmode : mode.reversible = false) {P : Char → Prop} (hP : Alphabet P)
    {kept : List (List Token)} {before after : Config} {steps : List (Config × Config)}
    (hrun : Run mode before steps after) (hbefore : Within P kept outer before.frames)
    (hstay : ∀ s ∈ steps, outer.length < s.2.frames.length) (htext : Over P (textOf outer.length steps)) :
    Within P (kept ++ keptCodes (fragmentsOf outer.length steps)) outer after.frames := by
  induction hrun generalizing kept with
  | refl =>
    simpa [fragmentsOf, keptCodes] using hbefore
  | @next before mid after steps hstep hrest ih =>
    obtain ⟨hfirst, hlater⟩ := forall_mem_cons.1 hstay
    have hsplit : textOf outer.length ((before, mid) :: steps) =
        textRead outer.length (before, mid) ++ textOf outer.length steps := rfl
    rw [hsplit, over_append] at htext
    rcases step_within hmode hP hbefore htext.1 hstep with hmid | ⟨c, rest, b, houter, hframes, -⟩
    · have hall := ih hmid hlater htext.2
      rwa [append_assoc, ← keptCodes_append] at hall
    · rw [hframes, houter] at hfirst
      exact absurd hfirst (lt_irrefl _)

/-! ### Pieces of markup -/

/-- Steps that read a piece of markup above so many frames: the first begins it in the code on top of them,
and it stays open up to the last, which completes it. -/
structure ReadsMarkup (depth : Nat) (first : Config × Config) (middle : List (Config × Config))
    (last : Config × Config) : Prop where
  begins : ∃ c below, first.1.frames = .code c :: below ∧ below.length + 1 = depth
  stays : ∀ s ∈ first :: middle, depth < s.2.frames.length
  ends : last.2.frames.length = depth

def Completes (s : Config × Config) : Prop := ∃ l outer, s.1.frames = .literal l :: outer ∧ s.2.frames.length = outer.length

def Begun (past : List (Config × Config)) (frames : List Frame) : Prop :=
  ∀ top l outer, frames = top ++ .literal l :: outer → ∃ earlier first middle c c' below,
    past = earlier ++ first :: middle ∧ first.1.frames = .code c :: below ∧ outer = .code c' :: below ∧
      ∀ s ∈ first :: middle, outer.length < s.2.frames.length

theorem step_begins (h : step mode before = .ok after)
    {top : List Frame} (hafter : after.frames = top ++ .literal l :: outer) :
    (∃ more k, before.frames = more ++ .literal k :: outer) ∨
      ∃ c c' below, before.frames = .code c :: below ∧ outer = .code c' :: below := by
  -- Below the code on top, or with other markup on top, all is as it was.
  have hcode (front : List Frame) {c : Code} {below top : List Frame}
      (hafter : .code c :: below = top ++ .literal l :: outer) :
      ∃ more k, front ++ below = more ++ .literal k :: outer := by
    obtain ⟨rfl, hno⟩ | ⟨top, rfl, rfl⟩ := cons_eq_append_iff.1 hafter
    · cases hno
    · exact ⟨front ++ top, l, (append_assoc _ _ _).symm⟩
  have hliteral (front : List Frame) {k k' : Literal} {below top : List Frame}
      (hafter : .literal k' :: below = top ++ .literal l :: outer) :
      ∃ more j, front ++ .literal k :: below = more ++ .literal j :: outer := by
    obtain ⟨rfl, hsame⟩ | ⟨top, rfl, rfl⟩ := cons_eq_append_iff.1 hafter
    · cases hsame
      exact ⟨front, k, rfl⟩
    · exact ⟨front ++ .literal k :: top, l, by simp⟩
  cases step_steps h with
  | @take _ _ c => exact Or.inl (hcode [.code c] hafter)
  | @begin _ _ c _ rest =>
    obtain ⟨rfl, hsame⟩ | ⟨top, rfl, htop⟩ := cons_eq_append_iff.1 hafter
    · cases hsame
      exact Or.inr ⟨c, _, rest, rfl, rfl⟩
    · exact Or.inl (hcode [.code c] htop)
  | @leave _ _ c => exact Or.inl (hliteral [.code c] hafter)
  | feed | keep | remark | again => exact Or.inl (hliteral [] hafter)
  | enter =>
    obtain ⟨rfl, hno⟩ | ⟨top, rfl, htop⟩ := cons_eq_append_iff.1 hafter
    · cases hno
    · exact Or.inl (hliteral [] htop)
  | @close _ _ _ _ k c | @stop _ _ _ k c => exact Or.inl (hcode [.literal k, .code c] hafter)

theorem Begun.step (hbegun : Begun past before.frames) (h : step mode before = .ok after) :
    Begun (past ++ [(before, after)]) after.frames := by
  intro top l outer hafter
  have hlong : outer.length < after.frames.length := by
    rw [hafter, length_append, length_cons]
    omega
  rcases step_begins h hafter with ⟨more, k, hbefore⟩ | ⟨c, c', below, hbefore, rfl⟩
  · obtain ⟨earlier, first, middle, c, c', below, rfl, hfirst, houter, hstays⟩ := hbegun more k outer hbefore
    refine ⟨earlier, first, middle ++ [(before, after)], c, c', below, by simp, hfirst, houter, ?_⟩
    rw [← cons_append]
    exact forall_mem_append.2 ⟨hstays, forall_mem_singleton.2 hlong⟩
  · exact ⟨past, (before, after), [], c, c', below, rfl, hbefore, rfl, forall_mem_singleton.2 hlong⟩

theorem Run.split {xs ys : List (Config × Config)} (hrun : Run mode before (xs ++ ys) after) :
    ∃ mid, Run mode before xs mid ∧ Run mode mid ys after := by
  induction xs generalizing before with
  | nil => exact ⟨before, .refl before, hrun⟩
  | cons s xs ih =>
    cases hrun with
    | next hstep hrest =>
      obtain ⟨mid, hxs, hys⟩ := ih hrest
      exact ⟨mid, .next hstep hxs, hys⟩

theorem Run.begun {steps : List (Config × Config)}
    (hrun : Run mode before steps after) (hbegun : Begun past before.frames) :
    Begun (past ++ steps) after.frames := by
  induction hrun generalizing past with
  | refl => rwa [append_nil]
  | next hstep _ ih =>
    have hall := ih (hbegun.step hstep)
    rwa [append_assoc] at hall

theorem Run.exists_markup {source : Text} {front back : List (Config × Config)} {last : Config × Config}
    (hrun : Run mode (start source) (front ++ last :: back) final) (hlast : Completes last) :
    ∃ earlier depth first middle, front = earlier ++ first :: middle ∧ ReadsMarkup depth first middle last := by
  obtain ⟨mid, hfront, hrest⟩ := hrun.split
  obtain ⟨l, outer, hliteral, hends⟩ := hlast
  have hbegun : Begun [] (start source).frames := by
    intro top k below hframes
    obtain ⟨rfl, hno⟩ | ⟨_, -, hno⟩ := cons_eq_append_iff.1 hframes
    · cases hno
    · simp at hno
  cases hrest with
  | next hstep _ =>
    obtain ⟨earlier, first, middle, c, c', below, hsplit, hfirst, rfl, hstays⟩ :=
      hfront.begun hbegun [] l outer hliteral
    rw [nil_append] at hsplit
    exact ⟨earlier, _, first, middle, hsplit, ⟨c, below, hfirst, rfl⟩, hstays, hends⟩

theorem step_opens {P : Char → Prop} (hfunction : Over P mode.textFunction) {before after : Config}
    {c : Code} {below : List Frame} (h : step mode before = .ok after) (hframes : before.frames = .code c :: below)
    (hlong : below.length + 1 < after.frames.length) : ∃ c', Within P [] (.code c' :: below) after.frames := by
  obtain ⟨s, frames⟩ := before
  dsimp only at hframes
  subst hframes
  cases step_steps h with
  | take | leave => simp at hlong
  | begin _ _ hop _ hread =>
    exact ⟨_, [], _, _, rfl, Builder.read_begin hop hread, 0, Builder.carries_begin hop hfunction hread⟩

theorem ReadsMarkup.exists_pieces (hmode : mode.reversible = false) {before after : Config} {depth : Nat}
    {first last : Config × Config} {middle : List (Config × Config)} (h : ReadsMarkup depth first middle last)
    (hrun : Run mode before (first :: (middle ++ [last])) after) :
    ∃ c rest t, last.2.frames = .code c :: rest ∧ c.made.back? = some t ∧
      ∀ P, Alphabet P → Over P mode.textFunction → Over P (textOf depth (middle ++ [last])) →
        ∃ pieces : List Piece, t.text = (pieces.map Piece.text).flatten ∧ (∀ p ∈ pieces, p.Over P) ∧
          (pieces.flatMap Piece.codes).Perm (keptCodes (fragmentsOf depth middle)) := by
  have hclosed (P : Char → Prop) (hP : Alphabet P) (hfunction : Over P mode.textFunction)
      (htext : Over P (textOf depth (middle ++ [last]))) :
      ∃ (c : Code) (rest : List Frame) (b : Builder),
        last.2.frames = .code (c.add b.token true) :: rest ∧ b.isDone = true ∧
        Builder.Carrying P (keptCodes (fragmentsOf depth middle)) b := by
    obtain ⟨c, below, hfirst, hdepth⟩ := h.begins
    obtain ⟨hopened, hmiddle⟩ := forall_mem_cons.1 h.stays
    cases hrun with
    | next hstep hrest =>
      obtain ⟨mid, hrun, hend⟩ := hrest.split
      cases hend with
      | next hlast _ =>
        obtain ⟨c', hwithin⟩ := step_opens hfunction hstep hfirst (hdepth ▸ hopened)
        have hlength : depth = (Frame.code c' :: below).length := hdepth.symm
        have hsplit (s : Config × Config) : textOf depth (middle ++ [s]) = textOf depth middle ++ textRead depth s := by
          simp [textOf]
        rw [hsplit, over_append, hlength] at htext
        rw [hlength] at hmiddle
        have hwithin := hrun.within hmode hP hwithin hmiddle htext.1
        rw [nil_append, ← hlength] at hwithin
        rcases step_within hmode hP hwithin htext.2 hlast with ⟨top, l, start, hframes, -⟩ | ⟨c₂, rest, b, -, hdone⟩
        · have hends := h.ends
          rw [hframes, length_append, length_cons, ← hlength] at hends
          omega
        · exact ⟨c₂, rest, b, hdone⟩
  obtain ⟨c, rest, b, hframes, -⟩ := hclosed (fun _ => True) ⟨fun _ _ _ _ => trivial, fun _ _ _ _ => trivial⟩
    (fun _ _ => trivial) fun _ _ => trivial
  refine ⟨_, rest, b.token, hframes, by simp [Code.add], fun P hP hfunction htext => ?_⟩
  obtain ⟨c₂, rest₂, b₂, hframes₂, hdone, hcarrying⟩ := hclosed P hP hfunction htext
  have hsame : b.token = b₂.token := by
    rw [hframes] at hframes₂
    injection hframes₂ with hcode
    injection hcode with hcode
    have hback := congrArg (fun c => c.made.back?) hcode
    simpa [Code.add] using hback
  rw [hsame]
  exact hcarrying.token hdone

/-- A translation that succeeds is a run. Each step of it that completes a piece of markup is the last of those
that read the markup, and makes one token for it. Whatever characters the markup and the function that turns
code into text are made of, besides those of plain text: the token is woven from pieces that are made of these
characters, and of the pieces of code that ended where the markup has a place for them, each once. Code that
ended in any other place is in none of them. -/
theorem code_written_once {source out : Text} (hmode : mode.reversible = false) (h : translate mode source = .ok out) :
    ∃ steps final, Run mode (start source) steps final ∧ step mode final = .error (madeOf mode source, none) ∧
      (∀ front last back, steps = front ++ last :: back → Completes last →
        ∃ earlier depth first middle, front = earlier ++ first :: middle ∧ ReadsMarkup depth first middle last) ∧
      ∀ earlier depth first middle last back, steps = earlier ++ first :: middle ++ last :: back →
        ReadsMarkup depth first middle last → ∃ c rest t, last.2.frames = .code c :: rest ∧ c.made.back? = some t ∧
          ∀ P, Alphabet P → Over P mode.textFunction → Over P (textOf depth (middle ++ [last])) →
            ∃ pieces : List Piece, t.text = (pieces.map Piece.text).flatten ∧ (∀ p ∈ pieces, p.Over P) ∧
              (pieces.flatMap Piece.codes).Perm (keptCodes (fragmentsOf depth middle)) := by
  obtain ⟨made, hrun, -⟩ := translate_ok h
  have hmade : madeOf mode source = made := by rw [madeOf, hrun]
  rw [hmade]
  obtain ⟨steps, final, hsteps, hstop⟩ := exists_run hrun
  refine ⟨steps, final, hsteps, hstop, ?_, ?_⟩
  · rintro front last back rfl hlast
    exact hsteps.exists_markup hlast
  · rintro earlier depth first middle last back rfl hmarkup
    rw [append_assoc] at hsteps
    obtain ⟨mid, -, hrest⟩ := hsteps.split
    have hregroup : first :: middle ++ last :: back = first :: (middle ++ [last]) ++ back := by simp
    rw [hregroup] at hrest
    obtain ⟨after, hmiddle, -⟩ := hrest.split
    exact hmarkup.exists_pieces hmode hmiddle

def attributeCode : Text := "x = <a \x7bb\x7d></a>\n".toList

def attributeCodeMade : Text := "x = html.x_a()()\n".toList

/-- It is read and left out, without a fault. -/
theorem translate_attributeCode :
    (translate {} attributeCode).toOption = some attributeCodeMade ∧ 'b' ∉ attributeCodeMade := by
  decide +kernel

theorem code_written_once_attributeCode :
    ∃ steps final, Run {} (start attributeCode) steps final ∧ step {} final = .error (madeOf {} attributeCode, none) ∧
      (∀ front last back, steps = front ++ last :: back → Completes last →
        ∃ earlier depth first middle, front = earlier ++ first :: middle ∧ ReadsMarkup depth first middle last) ∧
      ∀ earlier depth first middle last back, steps = earlier ++ first :: middle ++ last :: back →
        ReadsMarkup depth first middle last → ∃ c rest t, last.2.frames = .code c :: rest ∧ c.made.back? = some t ∧
          ∀ P, Alphabet P → Over P "str".toList → Over P (textOf depth (middle ++ [last])) →
            ∃ pieces : List Piece, t.text = (pieces.map Piece.text).flatten ∧ (∀ p ∈ pieces, p.Over P) ∧
              (pieces.flatMap Piece.codes).Perm (keptCodes (fragmentsOf depth middle)) := by
  have hok : translate {} attributeCode = .ok attributeCodeMade := by
    have hmade : (translate {} attributeCode).toOption = some attributeCodeMade := by
      decide +kernel
    cases htranslate : translate {} attributeCode with
    | error f =>
      rw [htranslate] at hmade
      cases hmade
    | ok out =>
      rw [htranslate] at hmade
      cases hmade
      rfl
  exact code_written_once rfl hok

end

end InlineMarkup.Translate

import InlineMarkup.Proofs.Weaving

/-!
What a builder carries as it reads. The code that it has kept is in the output, in the conditions of open
elements, or in the tag that is being read.
-/
namespace InlineMarkup.Markup

open List

/-! ### Rows of code -/

def codeRows : List Token → Int
  | [] => 0
  | t :: rest => Layout.rowAfter t.start (t :: rest) - t.start.row - ((t :: rest).map Layout.slack).sum

theorem newlines_of_plain {tokens : List Token} {s : Text} (h : Layout.plain tokens = .ok s) :
    (newlines s : Int) = codeRows tokens := by
  cases tokens with
  | nil =>
    cases h
    rfl
  | cons t rest =>
    have hrows := Layout.newlines_plain h
    rw [codeRows]
    omega

def rowsOf (codes : List (List Token)) : Int := (codes.map codeRows).sum

theorem rowsOf_append (xs ys : List (List Token)) : rowsOf (xs ++ ys) = rowsOf xs + rowsOf ys := by simp [rowsOf]

theorem rowsOf_perm {xs ys : List (List Token)} (h : xs.Perm ys) : rowsOf xs = rowsOf ys := (h.map codeRows).sum_eq

theorem newlines_pieces {A : Char → Prop} {ps : List Piece} (h : ∀ p ∈ ps, p.Over A) :
    (newlines (ps.map Piece.text).flatten : Int) = ownLines ps + rowsOf (ps.flatMap Piece.codes) := by
  induction ps with
  | nil => rfl
  | cons p ps ih =>
    obtain ⟨hp, hps⟩ := forall_mem_cons.1 h
    have hone : (newlines p.text : Int) = p.lines + rowsOf p.codes := by
      cases p with
      | own s => simp [Piece.text, Piece.lines, Piece.codes, rowsOf]
      | code before tokens text after =>
        have hcode := newlines_of_plain hp.2.2
        simp only [Piece.text, Piece.lines, Piece.codes, rowsOf, newlines_append, map_singleton,
          sum_singleton, ← hcode, Nat.cast_add]
        omega
    have hcons : ownLines (p :: ps) = p.lines + ownLines ps := by simp [ownLines]
    rw [map_cons, flatten_cons, newlines_append, Nat.cast_add, ih hps, hone, hcons, flatMap_cons,
      rowsOf_append]
    omega

/-! ### Characters -/

/-- Names, and all that the builder writes of its own but for newlines to go down, are made of the characters `N`,
texts of the characters `P`, and the output of the characters `A`. -/
structure Alphabets (A N P : Char → Prop) : Prop where
  words : Words N
  own : ∀ c, N c → A c
  newline : A '\n'
  texts : Wording P
  normal : ∀ s, Over P s → ∀ afterCode beforeCode, Over N (Builder.normalize s afterCode beforeCode)
  lower : ∀ c, N c → ∀ d ∈ lowercase c, N d

theorem Alphabet.alphabets {P : Char → Prop} (hP : Alphabet P) : Alphabets P P P where
  words := hP.words
  own _ := id
  newline := hP.own "\n" (by decide) _ (by decide)
  texts := hP.words.wording
  normal _ hs := hs.normalize hP.words.wording
  lower := hP.lower

theorem alphabets_rows : Alphabets (fun _ => True) (· ≠ '\n') fun _ => True where
  words := by
    have hwords : (ownWords.filter (· ≠ "\n")).all fun w => !w.toList.contains '\n' := by decide
    intro w hw hne c hc
    simp only [all_eq_true, mem_filter, decide_eq_true_eq, Bool.not_eq_true'] at hwords
    rintro rfl
    exact absurd (contains_iff_mem.2 hc) (by rw [hwords w ⟨hw, hne⟩]; exact Bool.false_ne_true)
  own _ _ := trivial
  newline := trivial
  texts _ _ _ _ _ := trivial
  normal s _ afterCode beforeCode _ hc heq := Builder.newline_not_mem_normalize s afterCode beforeCode (heq ▸ hc)
  lower _ hc _ hd heq := newline_not_mem_lowercase hc (heq ▸ hd)

def Legible (N P : Char → Prop) (c : Char) : Prop := P c ∧ (¬ Machine.isSpace c = true → N c)

theorem Over.legible {P : Char → Prop} {s : Text} (h : Over P s) : Over (Legible P P) s :=
  fun c hc => ⟨h c hc, fun _ => h c hc⟩

theorem over_legible_rows (s : Text) : Over (Legible (· ≠ '\n') fun _ => True) s := by
  refine fun c _ => ⟨trivial, fun hspace => ?_⟩
  rintro rfl
  exact hspace rfl

namespace Builder

/-- The pieces of code that have found a place, and the newlines that were written to go down. -/
structure Carries (A N P : Char → Prop) (kept : List (List Token)) (n : Int) (b : Builder) : Prop where
  function : Markup.Over N b.textFunction
  machine : b.machine.Made N P
  woven : ∃ codes pieces, Woven A N codes n pieces b.output.toList b.openTags ∧
    (codes ++ b.machine.heldCodes).Perm kept ∧ (b.isDone = false → EndGuarded pieces)

def laid (b : Builder) : Int :=
  newlines b.output.toList.flatten + rowsOf (b.openTags.flatMap OpenTag.codes ++ b.machine.heldCodes)

def lag (b : Builder) : Int := b.stop.row - b.start.row - b.laid

def keepsCode (b : Builder) : Bool :=
  let m := b.machine
  m.state == .data || m.state == .cdataSection ||
    ((m.state == .beforeAttributeValue || m.inValue) && m.takesCode)

section

variable {A N P : Char → Prop} {kept : List (List Token)} {n : Int} {b c : Builder} {a : Unit}

theorem Carries.lag_eq (h : Carries A N P kept n b) (hN : ¬ N '\n') :
    b.lag = b.stop.row - b.start.row - n - rowsOf kept := by
  obtain ⟨codes, pieces, hwoven, hkept, -⟩ := h.woven
  have hlines := newlines_pieces hwoven.clean
  rw [← hwoven.output, hwoven.lines hN] at hlines
  have hcodes := rowsOf_perm hwoven.codes
  have hall := rowsOf_perm hkept
  rw [rowsOf_append] at hcodes hall
  rw [lag, laid, rowsOf_append]
  omega

theorem Carries.stop (h : Carries A N P kept n b) (p : Pos) : Carries A N P kept n { b with stop := p } :=
  ⟨h.function, h.machine, h.woven⟩

theorem Carries.quiet (h : Carries A N P kept n b) (hopen : b.isDone = false) {m : Machine} (hm : m.Made N P)
    (hcodes : m.heldCodes = b.machine.heldCodes) : Carries A N P kept n { b with machine := m } := by
  obtain ⟨codes, pieces, hwoven, hkept, hend⟩ := h.woven
  exact ⟨h.function, hm, codes, pieces, hwoven, hcodes ▸ hkept, fun _ => hend hopen⟩

theorem Carries.write (h : Carries A N P kept n b) (hopen : b.isDone = false) {s : Text} (hs : Markup.Over A s) :
    Carries A N P kept (n + newlines s) { b with output := b.output.push s } := by
  obtain ⟨codes, pieces, hwoven, hkept, hend⟩ := h.woven
  have hwrite := hwoven.write (p := .own s) hs
  exact ⟨h.function, h.machine, codes, _, by simpa [Piece.codes, Piece.text, Piece.lines] using hwrite, hkept,
    fun _ => (hend hopen).push s⟩

variable {t : Token} {tokens : List Token}

theorem carries_begin (ht : t.isOp ['<'] = true) {function : Text} (hfunction : Markup.Over N function)
    (h : read t (begin t.start function) = .ok a c) : Carries A N P [] 0 c := by
  rw [read_begin_eq ht h]
  exact ⟨hfunction, Machine.made_empty N P _, [], [], ⟨rfl, nofun, nofun, nofun, .refl _, fun _ => rfl⟩, .refl _,
    fun _ => endGuarded_nil⟩

variable (habc : Alphabets A N P)

include habc

theorem readChar_carries {ch : Char} (hch : Legible N P ch) {blame : Pos → Fault → Fault}
    (h : readChar ch blame b = .ok a c) (hb : Carries A N P kept n b) (hopen : b.isDone = false) :
    Carries A N P kept n c := by
  have hdash : P '-' := habc.texts "-" (by decide) (by decide) _ (by decide)
  have hkeeps := Machine.step_made habc.lower hdash hb.machine hch.1 hch.2
  cases readsChar_of_ok h with
  | quiet hstep =>
    rw [hstep] at hkeeps
    exact hb.quiet hopen hkeeps.1 hkeeps.2
  | @event during after e d hstep hhandle =>
    rw [hstep] at hkeeps
    obtain ⟨hafter, he, hheld, hcodes, hreturn⟩ := hkeeps
    obtain ⟨codes, pieces, hwoven, hkept, hend⟩ := hb.woven
    obtain ⟨hhandled, hframed⟩ := (handle_yields { b with machine := during } e).of_ok hhandle
    obtain ⟨more, hmore, hguard⟩ := Woven.handled habc.own habc.words hb.function hwoven (hend hopen)
      (he.written habc.texts habc.words.wording habc.normal) hhandled
    refine ⟨hframed.textFunction ▸ hb.function, hafter, _, more, hmore, ?_, fun hnot => hguard ?_⟩
    · rw [hcodes, hheld, append_nil]
      exact hkept
    · rcases Classical.em (∃ s, e = .data s) with hdata | hdata
      · exact Or.inl hdata
      -- Anything but data leads back to data, so an element is open or the markup is complete.
      refine Or.inr fun htags => ?_
      have hemits : d.output ≠ #[] := Array.size_pos_iff.1 (emits_handle (fun s hs => hdata ⟨s, hs⟩) hhandle)
      have hnone : d.openTags = [] := htags
      simp [isDone, hnone, hreturn.resolve_right hdata, hemits] at hnot

theorem readText_carries {s rest : Text} (hs : Markup.Over (Legible N P) s) (h : readText s b = .ok rest c)
    (hb : Carries A N P kept n b) : Carries A N P kept n c := by
  induction s generalizing b with
  | nil =>
    cases h
    exact hb
  | cons ch more ih =>
    obtain ⟨hch, hmore⟩ := over_cons.1 hs
    obtain ⟨-, -, rfl⟩ | ⟨hopen, d, hd, h⟩ := readText_cons_ok h
    · exact hb
    · exact ih hmore h (readChar_carries habc hch hd (hb.stop _) hopen)

theorem advanceTo_carries {row : Int} (h : advanceTo row b = .ok a c) (hb : Carries A N P kept n b)
    (hopen : b.isDone = false) : Carries A N P kept (n + (row - b.stop.row)) c := by
  obtain ⟨hrow, rfl⟩ := (advanceTo_yields b row).of_ok h
  split
  · have hwrite := hb.write hopen (s := Text.copies (row - b.stop.row) '\n') (over_replicate habc.newline _)
    rw [newlines_copies_newline (by omega), push_eq] at hwrite
    exact hwrite
  · have hnone : row - b.stop.row = 0 := by omega
    rw [hnone, add_zero]
    simpa [put] using hb

theorem read_carries (ht : Markup.Over (Legible N P) t.text) (h : read t b = .ok a c)
    (hb : Carries A N P kept n b) {start : Pos} (hopen : Open start b) :
    Carries A N P kept (n + if skips t then 0 else t.start.row - b.stop.row) c := by
  have hspace : Legible N P ' ' :=
    ⟨habc.texts " " (by decide) (by decide) _ (by decide), fun hno => absurd rfl hno⟩
  cases readsToken_of_ok h with
  | passed hskips => rwa [hskips, if_pos rfl, add_zero]
  | @taken e f rest hskips harrive htext =>
    obtain ⟨d, k, hdown, hgap, rfl⟩ := arrive_ok harrive
    rw [hskips, if_neg Bool.false_ne_true]
    have hd := advanceTo_carries habc hdown hb hopen.notDone
    have hdopen := ((writes_advanceTo True _ b _ d hdown).open hopen.begun hopen.notDone).2
    have hk : Carries A N P kept (n + (t.start.row - b.stop.row)) k := by
      rcases hgap with rfl | hgap
      · exact hd
      · exact readChar_carries habc hspace hgap hd hdopen
    have hf : Carries A N P kept (n + (t.start.row - b.stop.row)) f := by
      split at htext
      · cases htext
        exact hk.stop t.start
      · exact readText_carries habc ht htext (hk.stop t.start)
    unfold leave
    split
    · exact ⟨hf.function, hf.machine, hf.woven⟩
    · exact hf.stop t.stop

theorem read_empty_carries (h : read { t with text := [], stop := t.start } b = .ok a c)
    (hb : Carries A N P kept n b) {start : Pos} (hopen : Open start b) :
    Carries A N P kept (n + (t.start.row - b.stop.row)) c := by
  have hskips : skips { t with text := [], stop := t.start } = false := by simp [skips, Token.isOp]
  have hread := read_carries habc over_nil h hb hopen
  rwa [hskips] at hread

theorem passOver_carries (h : passOver t b = .ok a c) (hb : Carries A N P kept n b) {start : Pos}
    (hopen : Open start b) : Carries A N P kept (n + (t.start.row - b.stop.row)) c ∧ c.stop = t.stop := by
  unfold passOver at h
  obtain ⟨_, d, hd, h⟩ := bind_eq_ok h
  cases h
  exact ⟨(read_empty_carries habc hd hb hopen).stop t.stop, rfl⟩

theorem readComment_carries (ht : Markup.Over A t.text) (h : readComment t b = .ok a c)
    (hb : Carries A N P kept n b) {start : Pos} (hopen : Open start b) :
    Carries A N P kept (n + (t.start.row - b.stop.row) + newlines t.text) c ∧ c.stop = t.stop := by
  unfold readComment at h
  obtain ⟨_, d, hd, h⟩ := bind_eq_ok h
  have hdopen := leavesOpen_read_empty rfl start b _ d hopen hd
  obtain ⟨_, e, he, h⟩ := bind_eq_ok h
  cases he
  cases h
  exact ⟨((read_empty_carries habc hd hb hopen).write hdopen.notDone ht).stop t.stop, rfl⟩

theorem closeIf_carries (h : closeIf b = .ok a c) (hb : Carries A N P kept n b) (hopen : b.isDone = false) :
    Carries A N P kept n c := by
  obtain ⟨mid, hmid, rfl⟩ := (closeIf_yields b).of_ok h
  obtain ⟨codes, pieces, hwoven, hkept, hend⟩ := hb.woven
  obtain ⟨more, hmore, hguard⟩ := hwoven.resolved habc.own habc.words (hend hopen) hmid
  exact ⟨hb.function, hb.machine, codes, more, hmore, hkept, fun _ => hguard⟩

theorem PlacesCode.carries (h : PlacesCode tokens b c) (hb : Carries A N P kept n b)
    (hopen : b.isDone = false) : Carries A N P (kept ++ if b.keepsCode then [tokens] else []) n c := by
  obtain ⟨codes, pieces, hwoven, hkept, hend⟩ := hb.woven
  cases h with
  | @child d hdata hwrite hlays =>
    have hkeeps : b.keepsCode = true := by rcases hdata with hdata | hdata <;> simp [keepsCode, hdata]
    have hnone : b.machine.heldCodes = [] :=
      Machine.heldCodes_of_not_isTag (by rcases hdata with hdata | hdata <;> rw [hdata] <;> rfl)
    obtain ⟨hhandled, hframed⟩ := (handle_yields { b with beforeCode := true } (.data b.machine.data)).of_ok hwrite
    obtain ⟨before, hbefore, hguard⟩ := Woven.handled habc.own habc.words hb.function hwoven (hend hopen)
      (show (Event.data b.machine.data).Written N from habc.normal _ hb.machine.data) hhandled
    simp only [Event.codes, append_nil] at hbefore
    obtain ⟨more, hmore, hmoreend⟩ := hbefore.code habc.own habc.words hlays (hguard (.inl ⟨_, rfl⟩))
    have hmachine : d.machine = b.machine := hframed.machine
    refine ⟨hframed.textFunction ▸ hb.function, ?_, codes ++ [tokens], more, ?_, ?_, fun _ => hmoreend⟩
    · rw [hmachine]
      exact ⟨hb.machine.value, over_nil, hb.machine.tag, hb.machine.attributeName, hb.machine.parts,
        hb.machine.sectionEnd⟩
    · simpa [view] using hmore.bump
    · have hheld : ({ d.machine with data := [] } : Machine).heldCodes = [] := hmachine ▸ hnone
      rw [hnone, append_nil] at hkept
      rw [hkeeps, if_pos rfl, hheld, append_nil]
      exact hkept.append_right _
  | @value m hdata hvalue hcode =>
    have hkeeps : b.keepsCode = b.machine.takesCode := by
      rw [not_or] at hdata
      rcases hvalue with hvalue | hvalue <;> simp [keepsCode, hdata, hvalue]
    obtain ⟨hmade, hheld⟩ := Machine.readCode_keeps hb.machine hcode
    refine ⟨hb.function, hmade, codes, pieces, hwoven, ?_, fun _ => hend hopen⟩
    rw [hheld, ← append_assoc, hkeeps]
    exact hkept.append_right _
  | nowhere hdata hvalue =>
    have hkeeps : b.keepsCode = false := by
      rw [not_or] at hdata hvalue
      simp [keepsCode, hdata, hvalue]
    rw [hkeeps, if_neg Bool.false_ne_true, append_nil]
    exact ⟨hb.function, hb.machine, codes, pieces, hwoven.bump, hkept, fun _ => hend hopen⟩

omit habc in
theorem PlacesCode.stop (h : PlacesCode tokens b c) : c.stop = b.stop := by
  cases h with
  | child _ hwrite =>
    have hwrote : Wrote True _ _ := writes_writeData _ _ _ _ hwrite
    exact hwrote.stop
  | value => rfl
  | nowhere => rfl

theorem readCode_carries (h : readCode tokens b = .ok a c) (hb : Carries A N P kept n b)
    {start : Pos} (hopen : Open start b) :
    ∃ first last, tokens.head? = some first ∧ tokens.getLast? = some last ∧ c.stop = last.stop ∧
      Carries A N P (kept ++ if b.keepsCode then [tokens] else []) (n + (first.start.row - b.stop.row)) c := by
  obtain ⟨first, last, d, e, hfirst, hlast, hclose, hdown, hplace⟩ := (readCode_yields tokens b).of_ok h
  have hwrote : Wrote True b d := writes_closeIf b _ d hclose
  have hd := closeIf_carries habc hclose hb hopen.notDone
  have hdopen := writes_closeIf.leavesOpen start b _ d hopen hclose
  have he := advanceTo_carries habc hdown hd hdopen.notDone
  have heopen := (writes_advanceTo True _).leavesOpen start d _ e hdopen hdown
  have hmachine : e.machine = b.machine := (writes_advanceTo True _ d _ e hdown).machine.trans hwrote.machine
  have hplaced := hplace.carries habc (he.stop _) heopen.notDone
  have hkeeps (p : Pos) : ({ e with stop := p } : Builder).keepsCode = b.keepsCode := by simp only [keepsCode, hmachine]
  rw [hkeeps, hwrote.stop] at hplaced
  exact ⟨first, last, hfirst, hlast, hplace.stop, hplaced⟩

end

/-! ### Rows that are not written -/

def Steady (b : Builder) : Prop :=
  Open b.start b ∧ ∃ kept n, Carries (fun _ => True) (· ≠ '\n') (fun _ => True) kept n b

section

variable {b c : Builder} {t : Token} {a : Unit}

theorem steady_begin (ht : t.isOp ['<'] = true) (h : read t (begin t.start "str".toList) = .ok a c) :
    c.Steady ∧ c.lag = c.stop.row - t.start.row := by
  obtain ⟨hstart, hbegun, hnot⟩ := read_begin ht h
  have hfunction : '\n' ∉ "str".toList := by decide
  have hcarries : Carries (fun _ => True) (· ≠ '\n') (fun _ => True) [] 0 c :=
    carries_begin ht (fun d hd heq => hfunction (heq ▸ hd)) h
  refine ⟨⟨⟨rfl, hbegun, hnot⟩, [], 0, hcarries⟩, ?_⟩
  rw [hcarries.lag_eq fun hno => hno rfl, hstart]
  simp [rowsOf]

theorem read_lag (h : read t b = .ok a c) (hb : b.Steady) :
    (c.isDone = false → c.Steady) ∧ c.lag = b.lag + if skips t then 0 else c.stop.row - t.start.row := by
  obtain ⟨hopen, kept, n, hcarries⟩ := hb
  obtain ⟨hstart, hbegun, -⟩ := read_ok h hopen.begun hopen.notDone
  have hread := read_carries alphabets_rows (over_legible_rows t.text) h hcarries hopen
  refine ⟨fun hnot => ⟨⟨rfl, hbegun, hnot⟩, kept, _, hread⟩, ?_⟩
  rw [hcarries.lag_eq fun hno => hno rfl, hread.lag_eq fun hno => hno rfl, hstart]
  cases readsToken_of_ok h with
  | passed hskips => simp [hskips]
  | taken hskips =>
    rw [hskips, if_neg Bool.false_ne_true, if_neg Bool.false_ne_true]
    omega

theorem passOver_lag (h : passOver t b = .ok a c) (hb : b.Steady) :
    c.Steady ∧ c.lag = b.lag + (t.stop.row - t.start.row) := by
  obtain ⟨hopen, kept, n, hcarries⟩ := hb
  obtain ⟨hpass, hstop⟩ := passOver_carries alphabets_rows h hcarries hopen
  obtain ⟨hstart, hbegun, hnot⟩ := leavesOpen_passOver t _ b a c hopen h
  refine ⟨⟨⟨rfl, hbegun, hnot⟩, kept, _, hpass⟩, ?_⟩
  rw [hcarries.lag_eq fun hno => hno rfl, hpass.lag_eq fun hno => hno rfl, hstart, hstop]
  omega

theorem readComment_lag (h : readComment t b = .ok a c) (hb : b.Steady) :
    c.Steady ∧ c.lag = b.lag + (t.stop.row - t.start.row - newlines t.text) := by
  obtain ⟨hopen, kept, n, hcarries⟩ := hb
  obtain ⟨hread, hstop⟩ := readComment_carries alphabets_rows (fun _ _ => trivial) h hcarries hopen
  obtain ⟨hstart, hbegun, hnot⟩ := leavesOpen_readComment t _ b a c hopen h
  refine ⟨⟨⟨rfl, hbegun, hnot⟩, kept, _, hread⟩, ?_⟩
  rw [hcarries.lag_eq fun hno => hno rfl, hread.lag_eq fun hno => hno rfl, hstart, hstop]
  omega

theorem readCode_lag {tokens : List Token} {first last : Token} (hfirst : tokens.head? = some first)
    (hlast : tokens.getLast? = some last) (h : readCode tokens b = .ok a c) (hb : b.Steady) :
    c.Steady ∧ c.lag = b.lag + (last.stop.row - first.start.row) - if b.keepsCode then codeRows tokens else 0 := by
  obtain ⟨hopen, kept, n, hcarries⟩ := hb
  obtain ⟨_, _, hhead, hend, hstop, hread⟩ := readCode_carries alphabets_rows h hcarries hopen
  obtain rfl := Option.some.inj (hhead.symm.trans hfirst)
  obtain rfl := Option.some.inj (hend.symm.trans hlast)
  obtain ⟨hstart, hbegun, hnot⟩ := leavesOpen_readCode tokens _ b a c hopen h
  refine ⟨⟨⟨rfl, hbegun, hnot⟩, _, _, hread⟩, ?_⟩
  have hrows : rowsOf (if b.keepsCode then [tokens] else []) = if b.keepsCode then codeRows tokens else 0 := by
    split <;> simp [rowsOf]
  rw [hcarries.lag_eq fun hno => hno rfl, hread.lag_eq fun hno => hno rfl, hstart, hstop, rowsOf_append, hrows]
  omega

end

end Builder

end InlineMarkup.Markup

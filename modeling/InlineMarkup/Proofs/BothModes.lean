import InlineMarkup.Proofs.MarkupCalls
import InlineMarkup.Proofs.RowOrder

/-!
The two modes compile the same code. Main statement: for markup without comments, and without markup in its
code, the reversible mode makes a call that holds the expression of the other mode, and the tokens that follow
are the same.
-/
namespace InlineMarkup.Translate

open List hiding after

open Markup Layout

/-! ### What the reversible mode keeps -/

/-- The pieces of the markup and those of each fragment are in the order of their rows. -/
structure InOrder (l : Literal) (p : Int) : Prop where
  pieces : ∃ t ts, l.pieces.toList = t :: ts ∧ Ascends t.start.row (t :: ts) p
  fragments : ∀ f ∈ l.fragments.toList, ∃ t ts q, f = t :: ts ∧ Ascends t.start.row f q

section

variable {l k : Literal} {p : Int}

theorem InOrder.mono (h : InOrder l p) {q : Int} (hq : p ≤ q) : InOrder l q := by
  obtain ⟨t, ts, hts, hrows⟩ := h.pieces
  have hend : Ascends p [] q := hq
  have hall := ascends_append.2 ⟨p, hrows, hend⟩
  rw [append_nil] at hall
  exact ⟨⟨t, ts, hts, hall⟩, h.fragments⟩

theorem InOrder.push (h : InOrder l p) {u : Token} (hu : p ≤ u.start.row) (hpieces : k.pieces = l.pieces.push u)
    (hfragments : k.fragments = l.fragments) : InOrder k (after u).row := by
  obtain ⟨t, ts, hts, hrows⟩ := h.pieces
  refine ⟨⟨t, ts ++ [u], by simp [hpieces, hts], ?_⟩, by rw [hfragments]; exact h.fragments⟩
  have hlast : Ascends p [u] (after u).row := ⟨hu, le_refl _⟩
  exact ascends_append.2 ⟨p, hrows, hlast⟩

theorem mapM_ok {α β : Type} {g : α → Except Fault β} {xs : List α} (h : ∀ x ∈ xs, ∃ y, g x = .ok y) :
    ∃ ys, xs.mapM g = .ok ys := by
  induction xs with
  | nil => exact ⟨[], rfl⟩
  | cons x xs ih =>
    obtain ⟨⟨y, hy⟩, hxs⟩ := forall_mem_cons.1 h
    obtain ⟨ys, hys⟩ := ih hxs
    exact ⟨y :: ys, by rw [mapM_cons, hy, Restore.ok_bind, hys]; rfl⟩

theorem InOrder.form (h : InOrder l p) : ∃ form, reversibleForm l = .ok form := by
  obtain ⟨t, ts, hts, hrows⟩ := h.pieces
  obtain ⟨s, hs⟩ := hrows.laidOut_first
  have hmarkup : stripped l.pieces.toList = .ok (bared s) := by
    rw [hts, stripped, hs]
    rfl
  obtain ⟨texts, htexts⟩ : ∃ texts, l.fragments.toList.mapM inColumn = .ok texts := by
    refine mapM_ok fun f hf => ?_
    obtain ⟨u, us, q, rfl, hu⟩ := h.fragments f hf
    exact Ascends.laidOut (p := ⟨u.start.row - 1, 0⟩) (hu.mono (Int.sub_le_self _ (by decide)))
  obtain ⟨columns, -, hform⟩ := reversibleForm_eq hmarkup htexts
  exact ⟨_, hform⟩

theorem InOrder.trimLast (h : InOrder l p) (rest : Token) : ∃ q, InOrder (Translate.trimLast l rest) q := by
  unfold Translate.trimLast
  split
  · exact ⟨p, h⟩
  rename_i last hlast
  obtain ⟨t, ts, hts, hrows⟩ := h.pieces
  rw [← Array.getLast?_toList] at hlast
  obtain ⟨front, hfront⟩ := getLast?_eq_some_iff.1 hlast
  have hpieces (u : Token) : (l.pieces.pop.push u).toList = front ++ [u] := by simp [hfront]
  rw [← hts, hfront] at hrows
  obtain ⟨q, hq, hend⟩ := ascends_append.1 hrows
  refine ⟨rest.start.row + 1, ⟨?_, h.fragments⟩⟩
  have hlast' : Ascends q [{ last with
      text := last.text.take (last.text.length - rest.text.length), stop := rest.start }] (rest.start.row + 1) := by
    refine ⟨hend.1, ?_⟩
    unfold Layout.after
    split
    · exact le_refl (rest.start.row + 1)
    · exact (lt_add_one rest.start.row).le
  cases front with
  | nil => exact ⟨_, [], hpieces _, le_refl _, hlast'.2⟩
  | cons u us =>
    obtain ⟨rfl, -⟩ := List.cons.inj (hts.symm.trans hfront)
    have hall := ascends_append.2 ⟨q, hq, hlast'⟩
    exact ⟨t, _, hpieces _, hall⟩

theorem reversibleForm_ok {form : Text} (h : reversibleForm l = .ok form) : ∃ markup columns fragments,
    form = callWith markup (bared l.builder.token.text) l.builder.start.col columns fragments := by
  cases hmarkup : stripped l.pieces.toList with
  | error f =>
    simp [reversibleForm, hmarkup, bind, Except.bind] at h
  | ok markup =>
    cases hfragments : l.fragments.toList.mapM inColumn with
    | error f => simp [reversibleForm, hmarkup, stripped_token, hfragments, bind, Except.bind] at h
    | ok texts =>
      obtain ⟨columns, -, hform⟩ := reversibleForm_eq hmarkup hfragments
      cases h.symm.trans hform
      exact ⟨markup, columns, texts, rfl⟩

end

/-! ### The end of markup -/

def Unbraced (left : Option Token) : Prop := ∀ r, left = some r → ∀ c ∈ r.text, c ≠ '\x7b' ∧ c ≠ '\x7d'

def CommentNext (s : Stream) : Prop := ∃ t s', s.next = (some t, s') ∧ t.kind = .comment

/-- A token made in the reversible mode, and the stream after it, beside those of the other mode: the token
is a call that holds the expression, in the same place, and the same tokens follow, but for a comment. -/
structure Agrees (s : Stream) (t : Token) (s' : Stream) (t' : Token) : Prop where
  start : t'.start = t.start
  stop : t'.stop = t.stop
  text : ∃ markup columns fragments, t'.text = callWith markup (bared t.text) t.start.col columns fragments
  comment : ∀ u after, s.next = (some u, after) → u.kind = .comment → s' = after
  next : ¬ CommentNext s → s'.next = s.next

theorem takeComment_cases {s : Stream} {r : Int} (hs : s.From r) (l : Literal) :
    (∃ u after, s.next = (some u, after) ∧ u.kind = .comment ∧
        takeComment s l = (after, { l with pieces := l.pieces.push u })) ∨
      ¬ CommentNext s ∧ ∃ s', takeComment s l = (s', l) ∧ s'.next = s.next := by
  have hnext := hs.next
  unfold takeComment CommentNext
  split
  · rename_i s' hs'
    rw [hs'] at hnext ⊢
    exact .inr ⟨by simp, s', rfl, hnext.2⟩
  · rename_i t s' hs'
    rw [hs']
    split
    · rename_i hkind
      exact .inl ⟨t, s', rfl, hkind, rfl⟩
    · rename_i hkind
      exact .inr ⟨by simp [hkind], _, rfl, rfl⟩

section

variable {plain kept : Mode} {s s₁ s₂ : Stream} {l k : Literal} {t₁ t₂ : Token} {p r : Int}

theorem closeLiteral_plain (hplain : plain.reversible = false) : closeLiteral plain s l =
    match l.builder.remainder with
    | none => .ok (s, l.builder.token)
    | some rest =>
      match (Stream.rewind rest).run s with
      | .error f _ => .error f
      | .ok _ s' => .ok (s', l.builder.token) := by
  unfold closeLiteral putBack
  cases l.builder.remainder with
  | none => simp [bind, Except.bind, hplain, pure, Except.pure]
  | some rest =>
    dsimp only
    cases (Stream.rewind rest).run s with
    | error f _ => rfl
    | ok _ s' => simp [bind, Except.bind, hplain, pure, Except.pure]

theorem putBack_kept (hplain : plain.reversible = false) (hkept : kept.reversible = true)
    (hbuilder : k.builder = l.builder) (hk : InOrder k p) (hs : s.From r) :
    (∃ f g, closeLiteral plain s l = .error f ∧ closeLiteral kept s k = .error g) ∨
      ∃ s₁, closeLiteral plain s l = .ok (s₁, l.builder.token) ∧ (∃ q, s₁.From q) ∧ (Unbraced l.builder.remainder ∧
            (∃ k' q, putBack kept s k = .ok (s₁, k') ∧ k'.builder = l.builder ∧ InOrder k' q) ∨
          ¬ Unbraced l.builder.remainder ∧ ∃ g, closeLiteral kept s k = .error g) := by
  rw [closeLiteral_plain hplain]
  have hput : putBack kept s k = match l.builder.remainder with
    | none => .ok (s, k)
    | some rest =>
      match (Stream.rewind rest).run s with
      | .error f _ => .error f
      | .ok _ s =>
        if !rest.text.isEmpty then
          if rest.text.contains '\x7b' || rest.text.contains '\x7d' then .error .bracesAfterMarkup
          else .ok (s, trimLast k rest)
        else .ok (s, k) := by
    unfold putBack
    rw [hbuilder, hkept]
    rfl
  unfold closeLiteral
  rw [hput]
  cases hrem : l.builder.remainder with
  | none => exact .inr ⟨s, rfl, ⟨r, hs⟩, .inl ⟨nofun, k, p, rfl, hbuilder, hk⟩⟩
  | some rest =>
    dsimp only
    cases hrun : (Stream.rewind rest).run s with
    | error f _ => exact .inl ⟨f, f, rfl, rfl⟩
    | ok _ s₁ =>
      refine .inr ⟨s₁, rfl, ⟨_, hs.rewind hrun⟩, ?_⟩
      have hunbraced : Unbraced (some rest) ↔ ¬ (rest.text.contains '\x7b' || rest.text.contains '\x7d') = true := by
        simp only [Unbraced, Option.some.injEq, forall_eq', Bool.or_eq_true, contains_iff_mem, not_or]
        exact ⟨fun h => ⟨fun hc => (h _ hc).1 rfl, fun hc => (h _ hc).2 rfl⟩,
          fun h c hc => ⟨fun he => h.1 (he ▸ hc), fun he => h.2 (he ▸ hc)⟩⟩
      dsimp only
      split_ifs with hempty hbraces
      · exact .inr ⟨fun h => hunbraced.1 h hbraces, _, rfl⟩
      · obtain ⟨q, hq⟩ := hk.trimLast rest
        refine .inl ⟨hunbraced.2 hbraces, _, q, rfl, ?_, hq⟩
        unfold trimLast
        split <;> exact hbuilder
      · refine .inl ⟨hunbraced.2 ?_, k, p, rfl, hbuilder, hk⟩
        have hnil : rest.text = [] := by simpa using hempty
        simp [hnil]

theorem closeLiteral_agrees (plain kept : Mode) (hplain : plain.reversible = false) (hkept : kept.reversible = true)
    (hbuilder : k.builder = l.builder) (hk : InOrder k p) (hs : s.From r) :
    (∀ s₂ t₂, closeLiteral kept s k = .ok (s₂, t₂) → Unbraced l.builder.remainder ∧
      ∃ s₁ t₁, closeLiteral plain s l = .ok (s₁, t₁) ∧ Agrees s₁ t₁ s₂ t₂) ∧
    ∀ s₁ t₁, closeLiteral plain s l = .ok (s₁, t₁) → Unbraced l.builder.remainder → ¬ CommentNext s₁ →
      ∃ s₂ t₂, closeLiteral kept s k = .ok (s₂, t₂) ∧ Agrees s₁ t₁ s₂ t₂ := by
  rcases putBack_kept hplain hkept hbuilder hk hs with ⟨f, g, hf, hg⟩ | ⟨s₁, hs₁, ⟨q, hq⟩, hput⟩
  · simp [hf, hg]
  rcases hput with ⟨hun, k', p', hput, hb, hk'⟩ | ⟨hbraced, g, hg⟩
  swap
  · exact ⟨by simp [hg], fun _ _ _ hun => absurd hun hbraced⟩
  have hclose : closeLiteral kept s k = (reversibleForm (takeComment s₁ k').2).map fun form =>
      ((takeComment s₁ k').1, { (takeComment s₁ k').2.builder.token with text := form }) := by
    unfold closeLiteral
    rw [hput]
    simp only [bind, Except.bind, hkept, if_true]
    cases reversibleForm (takeComment s₁ k').2 <;> rfl
  have hsame : (takeComment s₁ k').2.builder = l.builder := by
    rcases takeComment_cases hq k' with ⟨_, _, _, _, h⟩ | ⟨_, _, h, _⟩ <;> rw [h] <;> exact hb
  have hagrees {form : Text} (hform : reversibleForm (takeComment s₁ k').2 = .ok form) :
      Agrees s₁ l.builder.token (takeComment s₁ k').1 { l.builder.token with text := form } := by
    obtain ⟨markup, columns, fragments, rfl⟩ := reversibleForm_ok hform
    refine ⟨rfl, rfl, ⟨markup, columns, fragments, by rw [hsame]; rfl⟩, fun u after hu hkind => ?_, fun hno => ?_⟩
    · rcases takeComment_cases hq k' with ⟨u', after', hu', hkind', h⟩ | ⟨hno, -⟩
      · rw [h]
        cases hu.symm.trans hu'
        rfl
      · exact absurd ⟨u, after, hu, hkind⟩ hno
    · rcases takeComment_cases hq k' with ⟨u, after, hu, hkind, -⟩ | ⟨-, s', h, hnext⟩
      · exact absurd ⟨u, after, hu, hkind⟩ hno
      · rw [h]
        exact hnext
  rw [hclose, hs₁, hsame]
  refine ⟨fun s₂ t₂ h => ⟨hun, s₁, _, rfl, ?_⟩, fun s₁' t₁ h _ hno => ?_⟩
  · cases hform : reversibleForm (takeComment s₁ k').2 with
    | error f =>
      rw [hform] at h
      cases h
    | ok form =>
      rw [hform] at h
      cases h
      exact hagrees hform
  · cases h
    rcases takeComment_cases hq k' with ⟨u, after, hu, hkind, -⟩ | ⟨-, s', h, -⟩
    · exact absurd ⟨u, after, hu, hkind⟩ hno
    · have hform : ∃ form, reversibleForm (takeComment s₁ k').2 = .ok form := by
        rw [h]
        exact hk'.form
      obtain ⟨form, hform⟩ := hform
      rw [hform]
      exact ⟨_, _, rfl, hagrees hform⟩

end

/-! ### Lockstep -/

def isBare (config : Config) : Bool :=
  match config.frames with
  | .literal l :: _ => config.stream.next.1.all fun t => (t.kind != .comment || !l.builder.commentAllowed) &&
    (!t.kind.isLineEnd || t.text.all fun c => c == '\r' || c == '\n')
  | _ => config.stream.next.1.all (·.kind != .comment)

def leftAfter (config : Config) : Option Token :=
  match config.frames with
  | .literal l :: _ =>
    match config.stream.next with
    | (some t, s) =>
      match moveOf s l.builder t with
      | .feed _ u =>
        match (Builder.read u).run l.builder with
        | .ok _ b => b.remainder
        | .error _ _ => none
      | _ => none
    | _ => none
  | _ => none

/-- The modes are at the same place in the markup in the code `c`, or in code in that markup. -/
inductive Paired (c : Code) (outer : List Frame) : Config → Config → Prop where
  | markup {s : Stream} {l k : Literal} {p : Int} (hopen : Builder.Open l.builder.start l.builder)
      (hbuilder : k.builder = l.builder) (hk : InOrder k p) (hs : s.From p) :
      Paired c outer ⟨s, .literal l :: .code c :: outer⟩ ⟨s, .literal k :: .code c :: outer⟩
  | code {s : Stream} {i : Code} {l k : Literal} {p q : Int} (hopen : Builder.Open l.builder.start l.builder)
      (hbuilder : k.builder = l.builder) (hk : InOrder k p) (hp : p ≤ k.brace.1.row)
      (hrows : Ascends k.brace.2.row i.made.toList q) (hs : s.From q) (hbare : ∀ t ∈ i.made.toList, t.kind ≠ .comment) :
      Paired c outer ⟨s, .code i :: .literal l :: .code c :: outer⟩ ⟨s, .code i :: .literal k :: .code c :: outer⟩

/-- What a step does in the two modes: both fail, both go on, both begin markup in code, or both end the
markup. -/
inductive Together (plain kept : Mode) (c : Code) (outer : List Frame) (left : Option Token) : Next → Next → Prop where
  | fails (e e' : Result) : Together plain kept c outer left (.error e) (.error e')
  | goesOn {a b : Config} (h : Paired c outer a b) : Together plain kept c outer left (.ok a) (.ok b)
  | nests {a b : Config} (ha : a.frames.length = outer.length + 4) (hb : b.frames.length = outer.length + 4) :
      Together plain kept c outer left (.ok a) (.ok b)
  | ends {s : Stream} {l k : Literal} {p r : Int} (hbuilder : k.builder = l.builder) (hk : InOrder k p) (hs : s.From r)
      (hleft : l.builder.remainder = left) :
      Together plain kept c outer left (leaveLiteral plain s l (.code c :: outer)) (leaveLiteral kept s k (.code c :: outer))

section

variable {plain kept : Mode} {c : Code} {outer : List Frame} {left : Option Token}

theorem feedLiteral_together (hplain : plain.reversible = false) (hkept : kept.reversible = true) {s : Stream}
    {u : Token}
    {l k : Literal} {p : Int} (hopen : Builder.Open l.builder.start l.builder) (hbuilder : k.builder = l.builder)
    (hk : InOrder k p) (hu : p ≤ u.start.row) (hs : s.From (after u).row)
    (hleft : ∀ b, (Builder.read u).run l.builder = .ok () b → b.remainder = left) :
    Together plain kept c outer left (feedLiteral plain s l u (.code c :: outer))
      (feedLiteral kept s k u (.code c :: outer)) := by
  unfold feedLiteral
  rw [hbuilder]
  cases hread : (Builder.read u).run l.builder with
  | error f _ => exact .fails _ _
  | ok a b =>
    obtain ⟨hstart, hbegun, -⟩ := Builder.read_ok hread hopen.begun hopen.notDone
    have hpushed : InOrder { k with builder := b, pieces := k.pieces.push (sanitize u) } (after u).row :=
      hk.push (u := sanitize u) hu rfl rfl
    simp only [hplain, hkept, if_true, if_false, Bool.false_eq_true]
    split_ifs with hdone
    · exact .ends rfl hpushed hs (hleft b hread)
    · exact .goesOn (.markup ⟨rfl, hbegun, by simpa using hdone⟩ rfl hpushed hs)

theorem literalToken_together (hplain : plain.reversible = false) (hkept : kept.reversible = true) {s : Stream}
    {t : Token} {l k : Literal} {p : Int} (hopen : Builder.Open l.builder.start l.builder)
    (hbuilder : k.builder = l.builder) (hk : InOrder k p) (ht : p ≤ t.start.row) (hs : s.From (after t).row)
    (hkeep : t.KeepsRow) (hcomment : t.kind = .comment → l.builder.commentAllowed = false)
    (hends : t.kind.isLineEnd = true → ∀ c ∈ t.text, c = '\r' ∨ c = '\n')
    (hleft : ∀ s' u b, moveOf s l.builder t = .feed s' u → (Builder.read u).run l.builder = .ok () b →
      b.remainder = left) : Together plain kept c outer left (literalToken plain s l t (.code c :: outer))
      (literalToken kept s k t (.code c :: outer)) := by
  rw [literalToken_eq, literalToken_eq, hbuilder]
  cases hmove : moveOf s l.builder t with
  | feed s' u =>
    obtain ⟨hstart, hkind, hfed⟩ := moveOf_rows hmove
    refine feedLiteral_together hplain hkept hopen hbuilder hk (by rwa [hstart]) ?_ (hleft s' u · hmove)
    rcases hfed with ⟨rfl, rfl⟩ | ⟨rest, rfl, hrest, hafter, hsplit, hlevel, -⟩
    · exact hs
    · have hword : u.kind.isLineEnd = false := by
        rw [hkind]
        by_contra hline
        obtain ⟨d, hd, hr, hn⟩ := hsplit (by simpa using hline)
        exact (hends (by simpa using hline) d hd).elim hr hn
      rw [after, hword, if_neg Bool.false_ne_true, ← hrest]
      exact hs.unshift hafter.le (hlevel hkeep)
  | enter =>
    dsimp only
    unfold enterCode
    rw [hbuilder]
    dsimp only
    split
    · exact .fails _ _
    rename_i b hpass
    split
    · exact .fails _ _
    rename_i s' hrun
    have hopen' := Builder.leavesOpen_passOver _ _ _ _ _ hopen hpass
    exact .goesOn (.code ⟨rfl, hopen'.begun, hopen'.notDone⟩ rfl ⟨hk.pieces, hk.fragments⟩ ht (le_refl _)
      (hs.rewind hrun) (by simp))
  | remark =>
    obtain ⟨hkind, hallowed, -⟩ := moveOf_remark hmove
    cases (hcomment hkind).symm.trans hallowed
  | again =>
    dsimp only
    split
    · exact .fails _ _
    rename_i s' hrun
    exact .goesOn (.markup hopen hbuilder (hk.mono ht) (hs.rewind hrun))

theorem leaveCode_together (hplain : plain.reversible = false) (hkept : kept.reversible = true) {s : Stream} {i : Code}
    {t : Token} {l k : Literal} {p q : Int} (hopen : Builder.Open l.builder.start l.builder)
    (hbuilder : k.builder = l.builder) (hk : InOrder k p) (hp : p ≤ k.brace.1.row)
    (hrows : Ascends k.brace.2.row i.made.toList q) (hbare : ∀ t ∈ i.made.toList, t.kind ≠ .comment)
    (hop : t.isOp ['\x7d'] = true) (ht : q ≤ t.start.row) (hs : s.From (after t).row) :
    Together plain kept c outer left (leaveCode plain s i l t (.code c :: outer))
      (leaveCode kept s i k t (.code c :: outer)) := by
  have hdrop : Token.dropComments i.made.toList = i.made.toList :=
    filter_eq_self.2 fun u hu => by simpa using hbare u hu
  have hword : t.kind.isLineEnd = false := by
    simp only [Token.isOp_iff] at hop
    rw [hop.1]
    rfl
  unfold leaveCode
  simp only [hplain, hkept, if_true, if_false, Bool.false_eq_true, hdrop, hbuilder]
  split
  · exact .fails _ _
  rename_i b hread
  have hb := Builder.leavesOpen_readCode _ _ _ _ _ hopen hread
  refine .goesOn (.markup ⟨rfl, hb.begun, hb.notDone⟩ rfl ?_ hs)
  obtain ⟨hpieces, -⟩ := hk.push (k := { k with
    pieces := k.pieces.push { t with text := ['\x7b', '\x7d'], start := k.brace.1, line := [] } }) hp rfl rfl
  refine ⟨hpieces, fun f hf => ?_⟩
  rw [Array.toList_push, mem_append, mem_singleton] at hf
  rcases hf with hf | rfl
  · exact hk.fragments f hf
  · have hlast : Ascends q [t] (after t).row := ⟨ht, le_refl _⟩
    refine ⟨_, _, (after t).row, rfl, le_refl _, ?_⟩
    simp only [after, hword, if_neg Bool.false_ne_true]
    rw [append_eq, append_eq, nil_append]
    exact ascends_append.2 ⟨q, hrows, by simpa [after, hword] using hlast⟩

theorem codeToken_together (hplain : plain.reversible = false) (hkept : kept.reversible = true)
    (hfunction : kept.textFunction = plain.textFunction) {s : Stream} {i : Code} {t : Token} {l k : Literal} {p q : Int}
    (hopen : Builder.Open l.builder.start l.builder) (hbuilder : k.builder = l.builder) (hk : InOrder k p)
    (hp : p ≤ k.brace.1.row) (hrows : Ascends k.brace.2.row i.made.toList q)
    (hbare : ∀ t ∈ i.made.toList, t.kind ≠ .comment) (hcomment : t.kind ≠ .comment) (ht : q ≤ t.start.row)
    (hs : s.From (after t).row) :
    Together plain kept c outer left (codeToken plain s i t (.literal l :: .code c :: outer))
      (codeToken kept s i t (.literal k :: .code c :: outer)) := by
  unfold codeToken
  dsimp only
  generalize (if t.isOp ['\x7b'] = true then i.depth + 1
    else if t.isOp ['\x7d'] = true then i.depth - 1 else i.depth) = depth
  split
  · rename_i hbrace
    exact leaveCode_together hplain hkept hopen hbuilder hk hp hrows hbare (Bool.and_eq_true_iff.1 hbrace).1 ht hs
  split
  · unfold enterLiteral
    rw [hfunction]
    split
    · exact .fails _ _
    · exact .nests rfl rfl
  · have hlast : Ascends q [t] (after t).row := ⟨ht, le_refl _⟩
    refine .goesOn (.code hopen hbuilder hk hp (q := (after t).row) ?_ hs ?_)
    · simpa [Code.add] using ascends_append.2 ⟨q, hrows, hlast⟩
    · simpa [Code.add, or_imp, forall_and] using And.intro (by simpa using hbare) hcomment

theorem step_together (plain kept : Mode) (hplain : plain.reversible = false) (hkept : kept.reversible = true)
    (hfunction : kept.textFunction = plain.textFunction) {a b : Config} (h : Paired c outer a b)
    (hbare : isBare a = true) : Together plain kept c outer (leftAfter a) (step plain a) (step kept b) := by
  cases h with
  | @markup s l k p hopen hbuilder hk hs =>
    have hnext := hs.next
    unfold step
    dsimp only
    cases hs' : s.next with
    | mk taken s' =>
      rw [hs'] at hnext
      cases taken with
      | none =>
        unfold endInLiteral
        rw [hbuilder, hopen.notDone]
        exact .fails _ _
      | some t =>
        simp only [isBare, hs', Option.all_some, Bool.and_eq_true, Bool.or_eq_true, bne_iff_ne, Bool.not_eq_true', all_eq_true,
          beq_iff_eq] at hbare
        refine literalToken_together hplain hkept hopen hbuilder hk hnext.1 hnext.2.1 hnext.2.2
          (fun hkind => hbare.1.resolve_left (not_not.2 hkind)) (fun hline => hbare.2.resolve_left (by simp [hline]))
          fun s'' u b hmove hread => ?_
        simp only [leftAfter, hs', hmove, hread]
  | @code s i l k p q hopen hbuilder hk hp hrows hs hcomments =>
    have hnext := hs.next
    unfold step
    dsimp only
    cases hs' : s.next with
    | mk taken s' =>
      rw [hs'] at hnext
      cases taken with
      | none => exact .fails _ _
      | some t =>
        have hcomment : t.kind ≠ .comment := by simpa [isBare, hs'] using hbare
        exact codeToken_together hplain hkept hfunction hopen hbuilder hk hp hrows hcomments hcomment hnext.1 hnext.2.1

variable {a b : Config} {mode : Mode} {x y : Next}

theorem Paired.length (h : Paired c outer a b) :
    b.frames.length = a.frames.length ∧ outer.length + 1 < a.frames.length := by
  cases h <;> simp

theorem Paired.isBare_eq (h : Paired c outer a b) : isBare b = isBare a := by
  cases h with
  | markup _ hbuilder =>
    unfold isBare
    simp only [hbuilder]
  | code => rfl

theorem Paired.leftAfter_eq (h : Paired c outer a b) : leftAfter b = leftAfter a := by
  cases h with
  | markup _ hbuilder =>
    unfold leftAfter
    simp only [hbuilder]
  | code => rfl

theorem leaveLiteral_eq {s : Stream} {l : Literal} {final : Config}
    (h : leaveLiteral mode s l (.code c :: outer) = .ok final) :
    ∃ s' t, closeLiteral mode s l = .ok (s', t) ∧ final = ⟨s', .code (c.add t true) :: outer⟩ := by
  obtain ⟨_, _, s', t, ⟨⟩, hclose, rfl⟩ := leaveLiteral_ok h
  exact ⟨s', t, hclose, rfl⟩

theorem Together.goesOn_iff (h : Together plain kept c outer left x y) :
    (∀ a, x = .ok a → outer.length + 1 < a.frames.length → a.frames.length < outer.length + 4 →
      ∃ b, y = .ok b ∧ Paired c outer a b) ∧
    ∀ b, y = .ok b → outer.length + 1 < b.frames.length → b.frames.length < outer.length + 4 →
      ∃ a, x = .ok a ∧ Paired c outer a b := by
  cases h with
  | fails => exact ⟨nofun, nofun⟩
  | @goesOn a b h =>
    refine ⟨fun a' ha _ _ => ?_, fun b' hb _ _ => ?_⟩
    · cases ha
      exact ⟨b, rfl, h⟩
    · cases hb
      exact ⟨a, rfl, h⟩
  | nests ha hb =>
    refine ⟨fun a' h _ hlt => ?_, fun b' h _ hlt => ?_⟩ <;> cases h
    · exact absurd ha hlt.ne
    · exact absurd hb hlt.ne
  | ends =>
    refine ⟨fun a' h hlt _ => ?_, fun b' h hlt _ => ?_⟩ <;> obtain ⟨_, _, -, rfl⟩ := leaveLiteral_eq h <;>
      exact absurd hlt (lt_irrefl _)

theorem Together.ends_both (h : Together plain kept c outer left x y) {final : Config}
    (hlength : final.frames.length = outer.length + 1) (hend : x = .ok final ∨ y = .ok final) :
    ∃ (s : Stream) (l k : Literal) (p r : Int), k.builder = l.builder ∧ InOrder k p ∧ s.From r ∧
      l.builder.remainder = left ∧ x = leaveLiteral plain s l (.code c :: outer) ∧
      y = leaveLiteral kept s k (.code c :: outer) := by
  cases h with
  | fails => simp at hend
  | goesOn h =>
    obtain ⟨hsame, hlt⟩ := h.length
    rcases hend with h | h <;> cases h
    · exact absurd hlength hlt.ne'
    · exact absurd (hsame.symm.trans hlength) hlt.ne'
  | nests ha hb => rcases hend with h | h <;> cases h <;> omega
  | ends hbuilder hk hs hleft => exact ⟨_, _, _, _, _, hbuilder, hk, hs, hleft, rfl, rfl⟩

/-! ### Runs in both modes -/

def BareSteps (outer : List Frame) (steps : List (Config × Config)) : Prop :=
  ∀ x ∈ steps, outer.length + 1 < x.2.frames.length ∧ x.2.frames.length < outer.length + 4 ∧ isBare x.1 = true

theorem Run.followed {other : Mode} (Follows : Config → Config → Prop)
    (hlike : ∀ a b, Follows a b → b.frames.length = a.frames.length ∧ isBare b = isBare a)
    (hstep : ∀ a b a', Follows a b → isBare a = true → step mode a = .ok a' → outer.length + 1 < a'.frames.length →
      a'.frames.length < outer.length + 4 → ∃ b', step other b = .ok b' ∧ Follows a' b')
    {a b a' : Config} {steps : List (Config × Config)} (hrun : Run mode a steps a') (h : Follows a b)
    (hsteps : BareSteps outer steps) :
    ∃ steps' b', Run other b steps' b' ∧ Follows a' b' ∧ BareSteps outer steps' := by
  induction hrun generalizing b with
  | refl => exact ⟨[], b, .refl b, h, forall_mem_nil _⟩
  | @next before mid after steps hfirst hrest ih =>
    obtain ⟨⟨hlow, hhigh, hbare⟩, hlater⟩ := forall_mem_cons.1 hsteps
    obtain ⟨mid', hmid, hfollows⟩ := hstep _ _ _ h hbare hfirst hlow hhigh
    obtain ⟨steps', b', hrun, hlast, hbares⟩ := ih hfollows hlater
    refine ⟨(b, mid') :: steps', b', .next hmid hrun, hlast, forall_mem_cons.2 ⟨⟨?_, ?_, ?_⟩, hbares⟩⟩
    · rw [(hlike _ _ hfollows).1]
      exact hlow
    · rw [(hlike _ _ hfollows).1]
      exact hhigh
    · rw [(hlike _ _ h).2]
      exact hbare

theorem step_begins_together (hplain : plain.reversible = false) (hkept : kept.reversible = true)
    (hfunction : kept.textFunction = plain.textFunction) {config a : Config} {mode : Mode}
    (hmode : mode = plain ∨ mode = kept) {r : Int} (hs : config.stream.From r)
    (hframes : config.frames = .code c :: outer) (h : step mode config = .ok a)
    (hlength : outer.length + 1 < a.frames.length) :
    ∃ c' a b, c'.made = c.made ∧ step plain config = .ok a ∧ step kept config = .ok b ∧ Paired c' outer a b := by
  obtain ⟨s, frames⟩ := config
  dsimp only at hframes hs
  subst hframes
  have hnext := hs.next
  unfold step at h ⊢
  dsimp only at h ⊢
  cases hs' : s.next with
  | mk taken s' =>
    rw [hs'] at h hnext
    cases taken with
    | none =>
      dsimp only at h
      split_ifs at h
      cases h
    | some t =>
      dsimp only at h ⊢
      unfold codeToken at h ⊢
      dsimp only at h ⊢
      generalize (if t.isOp ['\x7b'] = true then c.depth + 1
        else if t.isOp ['\x7d'] = true then c.depth - 1 else c.depth) = depth at h ⊢
      split_ifs at h ⊢ with hbrace hmarkup
      · split at h
        · unfold leaveCode at h
          dsimp only at h
          split at h <;> cases h
          simp at hlength
        · cases h
      · have hop := (Bool.and_eq_true_iff.1 hmarkup).1
        have hfunction' : mode.textFunction = plain.textFunction := by
          rcases hmode with rfl | rfl
          · rfl
          · exact hfunction
        unfold enterLiteral at h ⊢
        rw [hfunction, ← hfunction']
        split at h
        · cases h
        rename_i b hread
        have hopen := Builder.read_begin hop hread
        simp only [hplain, hkept, if_true, if_false, Bool.false_eq_true]
        refine ⟨{ c with depth }, _, _, rfl, rfl, rfl, ?_⟩
        exact .markup (l := { builder := b }) (k := { builder := b, pieces := #[t] })
          ⟨rfl, hopen.begun, hopen.notDone⟩ rfl
          ⟨⟨t, [], rfl, le_refl _, le_refl _⟩, forall_mem_nil _⟩ hnext.2.1
      · cases h
        simp at hlength

end

def Compiles (mode : Mode) (config : Config) (s : Stream) (t : Token) (left : Option Token) : Prop :=
  ∃ c c' outer first middle last, config.frames = .code c :: outer ∧ c'.made = c.made.push t ∧
    Run mode config (first :: (middle ++ [last])) ⟨s, .code c' :: outer⟩ ∧ outer.length + 1 < first.2.frames.length ∧
    BareSteps outer middle ∧ isBare last.1 = true ∧ leftAfter last.1 = left

section

variable {plain kept : Mode} {config : Config} {c : Code} {outer : List Frame} {left : Option Token}

def Reads (mode : Mode) (config : Config) (c : Code) (outer : List Frame) (a : Config) : Prop :=
  ∃ c₀ first middle, config.frames = .code c₀ :: outer ∧ c.made = c₀.made ∧ Run mode config (first :: middle) a ∧
    outer.length + 1 < first.2.frames.length ∧ BareSteps outer middle

theorem Reads.compiles {mode : Mode} {a : Config} (h : Reads mode config c outer a) (hbare : isBare a = true)
    {s : Stream} {t : Token} (hstep : step mode a = .ok ⟨s, .code (c.add t true) :: outer⟩) :
    Compiles mode config s t (leftAfter a) := by
  obtain ⟨c₀, first, middle, hframes, hmade, hrun, hfirst, hmiddle⟩ := h
  exact ⟨c₀, _, outer, first, middle, (a, _), hframes, by simp [Code.add, hmade], hrun.append (.next hstep (.refl _)), hfirst, hmiddle,
    hbare, rfl⟩

theorem Run.reads (plain kept : Mode) (hplain : plain.reversible = false) (hkept : kept.reversible = true)
    (hfunction : kept.textFunction = plain.textFunction) {mode : Mode} (hmode : mode = plain ∨ mode = kept)
    (hfrom : ∃ r, config.stream.From r) {c₀ : Code} (hframes : config.frames = .code c₀ :: outer)
    {first last : Config × Config} {middle : List (Config × Config)} {final : Config}
    (hrun : Run mode config (first :: (middle ++ [last])) final) (hfirst : outer.length + 1 < first.2.frames.length)
    (hmiddle : BareSteps outer middle) (hbare : isBare last.1 = true) :
    ∃ c a b, c.made = c₀.made ∧ Reads plain config c outer a ∧ Reads kept config c outer b ∧ Paired c outer a b ∧
      isBare a = true ∧ leftAfter a = leftAfter last.1 ∧ (mode = plain → step plain a = .ok final) ∧
      (mode = kept → step kept b = .ok final) := by
  obtain ⟨r, hr⟩ := hfrom
  cases hrun with
  | @next _ opened _ _ hopen hrest =>
    obtain ⟨c, a, b, hc, ha, hb, hpair⟩ :=
      step_begins_together hplain hkept hfunction hmode hr hframes hopen hfirst
    obtain ⟨mid, hmid, hend⟩ := hrest.split
    cases hend with
    | @next _ closed _ _ hlast hdone =>
    cases hdone
    have hlower : outer.length + 1 < a.frames.length := hpair.length.2
    refine ⟨c, ?_⟩
    rcases hmode with rfl | rfl
    · cases hopen.symm.trans ha
      obtain ⟨steps, b', hrun, hpair', hsteps⟩ := hmid.followed (Paired c outer)
        (fun _ _ h => ⟨h.length.1, h.isBare_eq⟩)
        (fun _ _ _ h hbare => (step_together _ _ hplain hkept hfunction h hbare).goesOn_iff.1 _) hpair hmiddle
      exact ⟨mid, b', hc, ⟨c₀, _, _, hframes, hc, .next ha hmid, hlower, hmiddle⟩,
        ⟨c₀, _, _, hframes, hc, .next hb hrun, hpair.length.1 ▸ hlower, hsteps⟩, hpair', hbare, rfl,
        fun _ => hlast, by rintro rfl; simp [hplain] at hkept⟩
    · cases hopen.symm.trans hb
      obtain ⟨steps, a', hrun, hpair', hsteps⟩ := hmid.followed (fun b a => Paired c outer a b)
        (fun _ _ h => ⟨h.length.1.symm, h.isBare_eq.symm⟩)
        (fun _ _ _ h hbare => (step_together _ _ hplain hkept hfunction h (h.isBare_eq ▸ hbare)).goesOn_iff.2 _) hpair
        hmiddle
      exact ⟨a', mid, hc, ⟨c₀, _, _, hframes, hc, .next ha hrun, hlower, hsteps⟩,
        ⟨c₀, _, _, hframes, hc, .next hb hmid, hpair.length.1 ▸ hlower, hmiddle⟩, hpair', hpair'.isBare_eq ▸ hbare,
        hpair'.leftAfter_eq.symm, by rintro rfl; simp [hplain] at hkept, fun _ => hlast⟩

theorem Run.compiles (textFunction : Text) (hfrom : ∃ r, config.stream.From r) {c₀ : Code}
    (hframes : config.frames = .code c₀ :: outer) {first last : Config × Config} {middle : List (Config × Config)}
    {final : Config} (hrun : Run { textFunction } config (first :: (middle ++ [last])) final)
    (hfirst : outer.length + 1 < first.2.frames.length) (hmiddle : BareSteps outer middle)
    (hbare : isBare last.1 = true) (hlast : final.frames.length = outer.length + 1) :
    ∃ t, Compiles { textFunction } config final.stream t (leftAfter last.1) := by
  obtain ⟨c, a, b, -, hplain, -, hpair, hbare', hleft, hstep, -⟩ := hrun.reads { textFunction }
    { reversible := true, textFunction } rfl rfl rfl (.inl rfl) hfrom hframes hfirst hmiddle hbare
  obtain ⟨s, l, k, p, r, -, -, -, -, hx, -⟩ := (step_together { textFunction } { reversible := true, textFunction }
    rfl rfl rfl hpair hbare').ends_both hlast (.inl (hstep rfl))
  obtain ⟨s', t, -, rfl⟩ := leaveLiteral_eq (hx.symm.trans (hstep rfl))
  exact ⟨t, hleft ▸ hplain.compiles hbare' (hstep rfl)⟩

end

def codedMarkup : Text := "x = <a b=\"\x7bc\x7d\">\x7bd\x7d\n</a>\n".toList

def isUnmarked (x : Config × Config) : Bool :=
  isBare x.1 && ((leftAfter x.1).all fun r => r.text.all fun c => c != '\x7b' && c != '\x7d') &&
    x.2.stream.next.1.all (·.kind != .comment)

def trailedMarkup : Text := "x = <a></a> # c\n".toList
def bracedRest : Text := "x = [\x7b'a': <b>don't</b>\x7d, \x7b'c': 2\x7d]\n".toList
def returnedRow : Text := "x = <a>\n\r\x7b1\x7d</a>\n".toList

end InlineMarkup.Translate

import InlineMarkup.Proofs.PlainCode

/-!
Runs of restoring. Main statement: a run that stops without a fault has read all tokens but the front of a
call at their end, or stops at a bracket that closes nothing.
-/
namespace InlineMarkup.Restore

open List

/-! ### Depth -/

def turn (t : Token) : Int :=
  (if isBracket t "\x7b([".toList then 1 else 0) - (if isBracket t "\x7d)]".toList then 1 else 0)

theorem depthAfter_concat (read : List Token) (t : Token) :
    depthAfter (read ++ [t]) = depthAfter read + turn t := by
  rw [depthAfter_append, turn]
  omega

theorem depthAfter_nil : depthAfter [] = 0 := rfl

theorem depthAfter_both (xs ys : List Token) : depthAfter (xs ++ ys) = depthAfter xs + depthAfter ys := by
  simp only [depthAfter, countP_append]
  push_cast
  omega

variable {saved : List Token} {t : Token}

theorem turn_of_goesOn (h : goesOn saved t = true) : turn t = 0 := by
  obtain ⟨hclose, hopen⟩ := isBracket_of_goesOn h
  rw [turn, hclose, hopen]
  rfl

theorem turn_nonneg (h : isBracket t "\x7d)]".toList = false) : 0 ≤ turn t := by
  rw [turn, h]
  split <;> decide

theorem neg_one_le_turn (t : Token) : -1 ≤ turn t := by
  unfold turn
  split <;> split <;> decide

theorem turn_of_isOp {symbol : Text} (h : t.isOp symbol = true) :
    turn t = (if Text.occurs symbol "\x7b([".toList then 1 else 0) -
      (if Text.occurs symbol "\x7d)]".toList then 1 else 0) := by
  simp only [Token.isOp_iff] at h
  simp [turn, isBracket, h.1, h.2]

theorem Front.depthAfter (h : Front saved) : depthAfter saved = 0 := by
  have hname {t : Token} {word : Text} (ht : t.isName word = true) : turn t = 0 := by
    simp only [Token.isName, Bool.and_eq_true, beq_iff_eq] at ht
    simp [turn, isBracket, ht.1]
  have hpoint {t : Token} (ht : t.isOp ['.'] = true) : turn t = 0 := by
    rw [turn_of_isOp ht]
    decide
  have hone (t : Token) : Restore.depthAfter [t] = turn t := by
    rw [← nil_append [t], depthAfter_concat, depthAfter_nil, Int.zero_add]
  cases h with
  | none => rfl
  | name ha => rw [hone, hname ha]
  | @point a b ha hb =>
    rw [show [a, b] = [a] ++ [b] from rfl, depthAfter_concat, hone, hname ha, hpoint hb]
    rfl
  | @whole a b c ha hb hc =>
    rw [show [a, b, c] = [a] ++ [b] ++ [c] from rfl, depthAfter_concat, depthAfter_concat, hone, hname ha,
      hpoint hb, hname hc]
    rfl

/-! ### Many tokens -/

def steps : State → List Token → Next
  | s, [] => .ok s
  | s, t :: rest =>
    match step s t with
    | .error result => .error result
    | .ok s => steps s rest

theorem steps_append (s : State) (ts us : List Token) : steps s (ts ++ us) = match steps s ts with
      | .ok mid => steps mid us
      | .error result => .error result := by
  induction ts generalizing s with
  | nil => rfl
  | cons t rest ih =>
    rw [cons_append, steps, steps]
    cases step s t with
    | error result => rfl
    | ok mid => exact ih mid

theorem run_append (s : State) (ts us : List Token) : run s (ts ++ us) = match steps s ts with
      | .ok mid => run mid us
      | .error result => result := by
  induction ts generalizing s with
  | nil => rfl
  | cons t rest ih =>
    rw [cons_append, run, steps]
    cases step s t with
    | error result => rfl
    | ok mid => exact ih mid

/-! ### Adding tokens -/

def Call.place (call : Call) : Pos × Int := (call.start, call.depth)

section

variable (s : State) (xs : List Token)

theorem add_nil : s.add [] = s := by
  unfold State.add
  split
  · rename_i call rest h
    simp [← h]
  · simp

theorem add_saved : (s.add xs).saved = s.saved := by
  unfold State.add
  split <;> rfl

theorem add_depth : (s.add xs).depth = s.depth := by
  unfold State.add
  split <;> rfl

theorem add_calls_depth : (s.add xs).calls.map Call.depth = s.calls.map Call.depth := by
  unfold State.add
  cases s.calls <;> simp

theorem add_calls_place : (s.add xs).calls.map Call.place = s.calls.map Call.place := by
  unfold State.add
  cases s.calls <;> simp [Call.place]

theorem add_made (h : s.calls = []) : (s.add xs).made.toList = s.made.toList ++ xs := by
  simp [State.add, h]

theorem add_made_inside (h : s.calls ≠ []) : (s.add xs).made = s.made := by
  unfold State.add
  cases hcalls : s.calls with
  | nil => exact absurd hcalls h
  | cons call rest => rfl

theorem add_calls_eq_nil : (s.add xs).calls = [] ↔ s.calls = [] := by
  unfold State.add
  cases s.calls <;> simp

end

/-! ### One token -/

def State.flush (s : State) : State := { s with saved := [] }.add s.saved

def Call.collected (call : Call) : List (List Token) :=
  (if call.current.isEmpty then call.arguments else call.arguments.push call.current.toList).toList

def Call.separated (call : Call) : Call :=
  { call with arguments := call.arguments.push call.current.toList, current := #[] }

inductive Takes (s : State) (t : Token) : Next → Prop where
  | saves (hgo : goesOn s.saved t = true) : Takes s t (.ok ⟨s.saved ++ [t], s.depth, s.calls, s.made⟩)
  | opens {a b c : Token} (hsaved : s.saved = [a, b, c]) (hopen : t.isOp ['('] = true) :
      Takes s t (.ok ⟨[], s.depth + 1, { start := a.start, depth := s.depth } :: s.calls, s.made⟩)
  /-- It is added, where it ends neither a call nor the reading. -/
  | adds (hgo : goesOn s.saved t = false)
      (hclose : isBracket t "\x7d)]".toList = true →
        0 ≤ s.depth + turn t ∧ ∀ call ∈ s.flush.calls.head?, s.depth + turn t ≠ call.depth) :
      Takes s t (.ok (State.add ⟨[], s.depth + turn t, s.flush.calls, s.flush.made⟩ [t]))
  | separates {call : Call} {rest : List Call} (hcalls : s.flush.calls = call :: rest)
      (hcomma : t.isOp [','] = true) :
      Takes s t (.ok ⟨[], s.depth, call.separated :: rest, s.flush.made⟩)
  | closes {call : Call} {rest : List Call} {tokens : List Token}
      (hcalls : s.flush.calls = call :: rest) (hclose : isBracket t "\x7d)]".toList = true)
      (hdepth : s.depth + turn t = call.depth)
      (htokens : callTokens call.start call.depth t call.collected = .ok tokens) :
      Takes s t (.ok (State.add ⟨[], call.depth, rest, s.flush.made⟩ tokens))
  | fails {call : Call} {rest : List Call} {f : Fault}
      (hcalls : s.flush.calls = call :: rest) (hclose : isBracket t "\x7d)]".toList = true)
      (hdepth : s.depth + turn t = call.depth)
      (hfault : callTokens call.start call.depth t call.collected = .error f) :
      Takes s t (.error (s.flush.made, some f))
  /-- It closes what is not open, and reading is over. -/
  | stops (hclose : isBracket t "\x7d)]".toList = true) (hdepth : s.depth + turn t < 0) :
      Takes s t (.error (s.flush.made, none))

section

variable (s : State)

theorem flush_saved : s.flush.saved = [] := add_saved _ _

theorem flush_depth : s.flush.depth = s.depth := add_depth _ _

theorem flush_calls : s.flush.calls.map Call.place = s.calls.map Call.place := add_calls_place _ _

theorem flush_calls_depth : s.flush.calls.map Call.depth = s.calls.map Call.depth := add_calls_depth _ _

theorem flush_calls_eq_nil : s.flush.calls = [] ↔ s.calls = [] := add_calls_eq_nil _ _

theorem flush_made (h : s.calls = []) : s.flush.made.toList = s.made.toList ++ s.saved := add_made _ _ h

theorem flush_made_inside (h : s.calls ≠ []) : s.flush.made = s.made := add_made_inside _ _ h

end

theorem turned (s : State) (t : Token) : (if isBracket t "\x7d)]".toList then
      { (if isBracket t "\x7b([".toList then { s with depth := s.depth + 1 } else s) with
        depth := (if isBracket t "\x7b([".toList then { s with depth := s.depth + 1 } else s).depth - 1 }
      else if isBracket t "\x7b([".toList then { s with depth := s.depth + 1 } else s) =
      { s with depth := s.depth + turn t } := by
  unfold turn
  split <;> split <;> simp [sub_eq_add_neg]

variable {s s' : State} {t : Token} {read : List Token}

theorem plainToken_eq (hsaved : s.saved = []) (t : Token) : plainToken s t =
      match s.calls with
      | call :: rest =>
        if isBracket t "\x7d)]".toList ∧ s.depth + turn t = call.depth then
          match callTokens call.start (s.depth + turn t) t call.collected with
          | .error f => .error (s.made, some f)
          | .ok tokens => .ok (State.add ⟨[], s.depth + turn t, rest, s.made⟩ tokens)
        else if isBracket t "\x7d)]".toList ∧ s.depth + turn t < 0 then .error (s.made, none)
        else if t.isOp [','] ∧ s.depth + turn t = call.depth + 1 then
          .ok ⟨[], s.depth + turn t, call.separated :: rest, s.made⟩
        else .ok (State.add ⟨[], s.depth + turn t, s.calls, s.made⟩ [t])
      | [] =>
        if isBracket t "\x7d)]".toList ∧ s.depth + turn t < 0 then .error (s.made, none)
        else .ok (State.add ⟨[], s.depth + turn t, s.calls, s.made⟩ [t]) := by
  unfold plainToken
  dsimp only
  rw [turned, hsaved]
  rfl

theorem takes_plainToken (hgo : goesOn s.saved t = false) : Takes s t (plainToken s.flush t) := by
  rw [plainToken_eq (flush_saved s), flush_depth]
  split
  · rename_i call rest hcalls
    split
    · rename_i h
      rw [h.2]
      cases htokens : callTokens call.start call.depth t call.collected with
      | error f => exact .fails hcalls h.1 h.2 htokens
      | ok tokens => exact .closes hcalls h.1 h.2 htokens
    · rename_i hends
      split
      · rename_i h
        exact .stops h.1 h.2
      · rename_i hstays
        split
        · rename_i h
          have hturn : turn t = 0 := by
            rw [turn_of_isOp h.1]
            decide
          rw [hturn, Int.add_zero]
          exact .separates hcalls h.1
        · refine .adds hgo fun hclose => ⟨not_lt.1 fun hneg => hstays ⟨hclose, hneg⟩, ?_⟩
          rw [hcalls]
          rintro c hc heq
          cases hc
          exact hends ⟨hclose, heq⟩
  · rename_i hcalls
    split
    · rename_i h
      exact .stops h.1 h.2
    · rename_i h
      exact .adds hgo fun hclose => ⟨not_lt.1 fun hneg => h ⟨hclose, hneg⟩, by simp [hcalls]⟩

theorem takes (s : State) (t : Token) : Takes s t (step s t) := by
  unfold step
  split
  · rename_i hgo
    exact .saves hgo
  · rename_i hgo
    rw [Bool.not_eq_true] at hgo
    have hplain := takes_plainToken hgo
    split
    · rename_i a b c hsaved
      split
      · rename_i hopen
        exact .opens hsaved hopen
      · exact hplain
    · exact hplain

theorem Takes.outside (h : Takes s t (.ok s')) (hcalls : s.calls = []) :
    s' = ⟨s.saved ++ [t], s.depth, [], s.made⟩ ∨ (∃ a b c, s.saved = [a, b, c] ∧ t.isOp ['('] = true ∧
        s' = ⟨[], s.depth + 1, [{ start := a.start, depth := s.depth }], s.made⟩) ∨
      s'.calls = [] ∧ s'.saved = [] ∧ s'.made.toList = s.made.toList ++ s.saved ++ [t] := by
  have hflush : s.flush.calls = [] := (flush_calls_eq_nil s).2 hcalls
  cases h with
  | saves => exact .inl (by rw [hcalls])
  | @opens a b c hsaved hopen => exact .inr (.inl ⟨a, b, c, hsaved, hopen, by rw [hcalls]⟩)
  | adds =>
    refine .inr (.inr ⟨(add_calls_eq_nil _ _).2 hflush, add_saved _ _, ?_⟩)
    rw [add_made ⟨[], _, _, _⟩ [t] hflush, flush_made s hcalls]
  | separates heq | closes heq =>
    rw [hflush] at heq
    cases heq

theorem Takes.inside (h : Takes s t (.ok s')) (hcalls : s.calls ≠ []) :
    (s'.made = s.made ∧ (s'.calls.map Call.place).getLast? = (s.calls.map Call.place).getLast? ∧ s'.calls ≠ []) ∨
      ∃ (call : Call) (tokens : List Token), s.calls.map Call.place = [call.place] ∧ isBracket t "\x7d)]".toList
    = true ∧ s.depth + turn t = call.depth ∧ callTokens call.start call.depth t call.collected = .ok tokens ∧
        s' = State.add ⟨[], call.depth, [], s.made⟩ tokens := by
  have hflush : s.flush.calls ≠ [] := fun hnil => hcalls ((flush_calls_eq_nil s).1 hnil)
  have hmade := flush_made_inside s hcalls
  cases h with
  | saves => exact .inl ⟨rfl, rfl, hcalls⟩
  | opens =>
    refine .inl ⟨rfl, ?_, by simp⟩
    rw [map_cons, getLast?_cons_of_ne_nil (by simpa using hcalls)]
  | adds =>
    refine .inl ⟨?_, ?_, fun hnil => hflush ((add_calls_eq_nil ⟨[], _, _, _⟩ _).1 hnil)⟩
    · rw [add_made_inside ⟨[], _, _, _⟩ [t] hflush]
      exact hmade
    · rw [add_calls_place]
      exact congrArg List.getLast? (flush_calls s)
  | separates heq =>
    refine .inl ⟨hmade, ?_, by simp⟩
    rw [← flush_calls s, heq]
    rfl
  | @closes call rest tokens heq hclose hdepth htokens =>
    have hplaces : s.calls.map Call.place = call.place :: rest.map Call.place := by
      rw [← flush_calls, heq, map_cons]
    rw [hmade]
    by_cases hrest : rest = []
    · subst hrest
      exact .inr ⟨call, tokens, hplaces, hclose, hdepth, htokens, rfl⟩
    · refine .inl ⟨add_made_inside _ _ hrest, ?_, fun hnil => hrest ((add_calls_eq_nil _ _).1 hnil)⟩
      rw [add_calls_place, hplaces, getLast?_cons_of_ne_nil (by simpa using hrest)]

/-! ### How calls nest -/

/-- Each call stands deeper than the one around it, and reading stands deeper than all of them. -/
structure Nested (s : State) : Prop where
  front : Front s.saved
  depths : (s.depth :: s.calls.map Call.depth).Pairwise (· > ·)
  nonneg : ∀ d ∈ s.depth :: s.calls.map Call.depth, 0 ≤ d

theorem map_depth (calls : List Call) : calls.map Call.depth = (calls.map Call.place).map Prod.snd := by
  rw [map_map]
  rfl

theorem Nested.start : Nested {} := ⟨.none, by simp, by simp⟩

theorem Nested.turned {d : Int} {ds : List Int} (h : Nested s) (hsaved : Front s'.saved)
    (hdepth : s'.depth = d) (hcalls : s'.calls.map Call.depth = ds)
    (hds : ds <:+ s.calls.map Call.depth) (hlow : 0 ≤ d) (hhigh : ∀ e ∈ ds.head?, e < d) : Nested s' := by
  have hpairs := (pairwise_cons.1 h.depths).2.sublist hds.sublist
  refine ⟨hsaved, ?_, ?_⟩
  · rw [hdepth, hcalls, pairwise_cons]
    refine ⟨fun e he => ?_, hpairs⟩
    cases ds with
    | nil => cases he
    | cons f more =>
      have hf : f < d := hhigh f rfl
      rcases mem_cons.1 he with rfl | he
      · exact hf
      · exact lt_trans ((pairwise_cons.1 hpairs).1 e he) hf
  · rw [hdepth, hcalls]
    intro e he
    rcases mem_cons.1 he with rfl | he
    · exact hlow
    · exact h.nonneg e (mem_cons_of_mem _ (hds.subset he))

theorem step_nested (h : Nested s) (hstep : step s t = .ok s') : Nested s' ∧ s'.depth = s.depth + turn t := by
  have htakes := takes s t
  rw [hstep] at htakes
  have hlow : 0 ≤ s.depth := h.nonneg _ mem_cons_self
  have hhigh : ∀ d ∈ s.calls.map Call.depth, d < s.depth := (pairwise_cons.1 h.depths).1
  have hhead : ∀ e ∈ (s.calls.map Call.depth).head?, e < s.depth := fun e he =>
    hhigh e (mem_of_mem_head? he)
  cases htakes with
  | saves hgo =>
    refine ⟨⟨h.front.append hgo, h.depths, h.nonneg⟩, ?_⟩
    rw [turn_of_goesOn hgo, Int.add_zero]
  | opens hsaved hopen =>
    have hturn : turn t = 1 := by
      rw [turn_of_isOp hopen]
      decide
    refine ⟨⟨.none, ?_, ?_⟩, by rw [hturn]⟩
    · rw [map_cons, pairwise_cons]
      refine ⟨fun d hd => ?_, h.depths⟩
      rcases mem_cons.1 hd with rfl | hd
      · exact Int.lt_succ s.depth
      · exact lt_trans (hhigh d hd) (Int.lt_succ _)
    · intro d hd
      rcases mem_cons.1 hd with rfl | hd
      · exact Int.add_nonneg hlow (by decide)
      · exact h.nonneg d hd
  | adds hgo hclose =>
    have hcalls := (add_calls_depth ⟨[], s.depth + turn t, s.flush.calls, s.flush.made⟩ [t]).trans
      (flush_calls_depth s)
    have hdepth := add_depth ⟨[], s.depth + turn t, s.flush.calls, s.flush.made⟩ [t]
    refine ⟨h.turned ?_ hdepth hcalls suffix_rfl ?_ ?_, hdepth⟩
    · rw [add_saved]
      exact .none
    · dsimp only
      cases hbracket : isBracket t "\x7d)]".toList with
      | false => exact Int.add_nonneg hlow (turn_nonneg hbracket)
      | true => exact (hclose hbracket).1
    · intro e he
      dsimp only
      have hle := hhead e he
      cases hbracket : isBracket t "\x7d)]".toList with
      | false =>
        have := turn_nonneg hbracket
        omega
      | true =>
        have hturn := neg_one_le_turn t
        have hne : s.depth + turn t ≠ e := by
          rw [← flush_calls_depth, head?_map, Option.mem_map] at he
          obtain ⟨call, hcall, rfl⟩ := he
          exact (hclose hbracket).2 call hcall
        omega
  | @separates call rest hcalls hcomma =>
    have hturn : turn t = 0 := by
      rw [turn_of_isOp hcomma]
      decide
    have hsame : call.depth :: rest.map Call.depth = s.calls.map Call.depth := by
      rw [← flush_calls_depth, hcalls, map_cons]
    refine ⟨h.turned .none rfl hsame suffix_rfl hlow hhead, ?_⟩
    rw [hturn, Int.add_zero]
  | @closes call rest tokens hcalls hclose hdepth htokens =>
    have hsame : s.calls.map Call.depth = call.depth :: rest.map Call.depth := by
      rw [← flush_calls_depth, hcalls, map_cons]
    have hrest := add_calls_depth ⟨[], call.depth, rest, s.flush.made⟩ tokens
    have hpairs := (pairwise_cons.1 h.depths).2
    rw [hsame, pairwise_cons] at hpairs
    refine ⟨h.turned ?_ (add_depth _ _) hrest (hsame ▸ suffix_cons _ _) ?_ ?_, ?_⟩
    · rw [add_saved]
      exact .none
    · exact h.nonneg _ (mem_cons_of_mem _ (hsame ▸ mem_cons_self))
    · exact fun e he => hpairs.1 e (mem_of_mem_head? he)
    · rw [add_depth, hdepth]

/-! ### What a run has made -/

/-- What is made of tokens outside all calls: a token is passed on, and a whole call, with brackets that
match, is replaced by the tokens that take its place. -/
inductive Passed : List Token → List Token → Prop where
  | none : Passed [] []
  | token {read made : List Token} (t : Token) (h : Passed read made) : Passed (read ++ [t]) (made ++ [t])
  | call {read made inner tokens : List Token} {a b c opening close : Token}
      (arguments : List (List Token)) (h : Passed read made) (hfront : Front [a, b, c])
      (hopening : opening.isOp ['('] = true) (hclose : isBracket close "\x7d)]".toList = true)
      (hinner : ∀ front, front <+: inner → 0 ≤ depthAfter front) (hmatch : depthAfter inner = 0)
      (htokens : callTokens a.start (depthAfter read) close arguments = .ok tokens) :
      Passed (read ++ (a :: b :: c :: opening :: inner ++ [close])) (made ++ tokens)

theorem Passed.tokens {made : List Token} (h : Passed read made) (ts : List Token) :
    Passed (read ++ ts) (made ++ ts) := by
  induction ts generalizing read made with
  | nil => simpa using h
  | cons t rest ih => simpa using ih (h.token t)

/-- What is kept back: the front of a call, or the tokens of the outermost call that is open. -/
inductive Keeps (s : State) (read : List Token) : List Token → Prop where
  | outside (hcalls : s.calls = []) : Keeps s read s.saved
  | inside {a b c opening : Token} {inner : List Token}
      (hcalls : (s.calls.map Call.place).getLast? = some (a.start, depthAfter read))
      (hfront : Front [a, b, c]) (hopening : opening.isOp ['('] = true)
      (hinner : ∀ front, front <+: inner → 0 ≤ depthAfter front) :
      Keeps s read (a :: b :: c :: opening :: inner)

structure Reached (s : State) (read : List Token) : Prop where
  nested : Nested s
  depth : s.depth = depthAfter read
  made : ∃ passed kept, read = passed ++ kept ∧ Passed passed s.made.toList ∧ Keeps s passed kept

theorem Reached.start : Reached {} [] := ⟨.start, rfl, [], [], rfl, .none, .outside rfl⟩

theorem depthAfter_call {a b c opening : Token} {inner : List Token} (hfront : Front [a, b, c])
    (hopening : opening.isOp ['('] = true) :
    depthAfter (a :: b :: c :: opening :: inner) = 1 + depthAfter inner := by
  have hone : depthAfter [opening] = 1 := by
    rw [← nil_append [opening], depthAfter_concat, depthAfter_nil, turn_of_isOp hopening]
    decide
  have hsplit : a :: b :: c :: opening :: inner = [a, b, c] ++ ([opening] ++ inner) := rfl
  rw [hsplit, depthAfter_both, depthAfter_both, hfront.depthAfter, hone, Int.zero_add]

theorem Keeps.more {kept : List Token} (h : Keeps s read kept) (hopen : s.calls ≠ [])
    (hcalls : (s'.calls.map Call.place).getLast? = (s.calls.map Call.place).getLast?)
    (hnested : Nested s') (hdepth : s'.depth = depthAfter (read ++ kept ++ [t])) : Keeps s' read (kept ++ [t]) := by
  cases h with
  | outside hnone => exact absurd hnone hopen
  | @inside a b c opening inner hplace hfront hopening hinner =>
    rw [← hcalls] at hplace
    refine .inside hplace hfront hopening fun front hprefix => ?_
    rcases prefix_concat_iff.1 hprefix with rfl | hprefix
    · -- the whole of it: reading stands deeper than the call
      have hmem : depthAfter read ∈ s'.calls.map Call.depth := by
        rw [map_depth]
        exact mem_map_of_mem (mem_of_getLast? hplace)
      have hdeeper : depthAfter read < s'.depth := (pairwise_cons.1 hnested.depths).1 _ hmem
      rw [hdepth, append_assoc, depthAfter_both, cons_append, cons_append,
        cons_append, cons_append, depthAfter_call hfront hopening] at hdeeper
      omega
    · exact hinner front hprefix

theorem Reached.step (h : Reached s read) (hstep : step s t = .ok s') : Reached s' (read ++ [t]) := by
  obtain ⟨hnested, hdepth⟩ := step_nested h.nested hstep
  have hdepth' : s'.depth = depthAfter (read ++ [t]) := by rw [hdepth, depthAfter_concat, h.depth]
  refine ⟨hnested, hdepth', ?_⟩
  obtain ⟨passed, kept, rfl, hpassed, hkeeps⟩ := h.made
  have htakes := takes s t
  rw [hstep] at htakes
  by_cases hcalls : s.calls = []
  · cases hkeeps with
    | inside hplace => simp [hcalls] at hplace
    | outside =>
      obtain rfl | ⟨a, b, c, hsaved, hopen, rfl⟩ | ⟨hnil, hnone, hmade⟩ := htakes.outside hcalls
      · exact ⟨passed, s.saved ++ [t], append_assoc _ _ _, hpassed,
          .outside (s := ⟨s.saved ++ [t], s.depth, [], s.made⟩) rfl⟩
      · have hfront : Front [a, b, c] := hsaved ▸ h.nested.front
        have hplace : s.depth = depthAfter passed := by
          rw [h.depth, depthAfter_both, h.nested.front.depthAfter, Int.add_zero]
        refine ⟨passed, [a, b, c, t], by simp [hsaved], hpassed, .inside ?_ hfront hopen ?_⟩
        · simp [Call.place, hplace]
        · intro front hprefix
          rw [prefix_nil.1 hprefix]
          exact le_rfl
      · refine ⟨passed ++ s.saved ++ [t], [], by simp, ?_, ?_⟩
        · rw [hmade]
          exact (hpassed.tokens s.saved).token t
        · rw [← hnone]
          exact .outside hnil
  · obtain ⟨hmade, hplaces, -⟩ | ⟨call, tokens, hplaces, hclose, hdepth, htokens, rfl⟩ := htakes.inside hcalls
    · -- in a call that stays open, the token is kept with the others
      exact ⟨passed, kept ++ [t], append_assoc _ _ _, hmade ▸ hpassed,
        hkeeps.more hcalls hplaces hnested hdepth'⟩
    · cases hkeeps with
      | outside hnil => exact absurd hnil hcalls
      | @inside a b c opening inner hplace hfront hopening hinner =>
        rw [hplaces, getLast?_singleton, Option.some_inj, Call.place, Prod.mk.injEq] at hplace
        have hmatch : depthAfter inner = 0 := by
          have hlow := hinner inner (prefix_refl _)
          have hturn := neg_one_le_turn t
          have hread := h.depth
          rw [depthAfter_both, depthAfter_call hfront hopening] at hread
          omega
        rw [hplace.1, hplace.2] at htokens
        refine ⟨passed ++ (a :: b :: c :: opening :: inner ++ [t]), [], by simp, ?_, ?_⟩
        · rw [add_made _ _ rfl]
          exact hpassed.call _ hfront hopening hclose hinner hmatch htokens
        · have hkeeps' := @Keeps.outside (State.add ⟨[], call.depth, [], s.made⟩ tokens)
            (passed ++ (a :: b :: c :: opening :: inner ++ [t])) ((add_calls_eq_nil _ _).2 rfl)
          rwa [add_saved] at hkeeps'

/-! ### Where a run ends -/

theorem Nested.calls_eq_nil (h : Nested s) (hdepth : s.depth ≤ 0) : s.calls = [] := by
  cases hcalls : s.calls with
  | nil => rfl
  | cons call rest =>
    have hmem : call.depth ∈ s.calls.map Call.depth := by simp [hcalls]
    have hlow := h.nonneg _ (mem_cons_of_mem _ hmem)
    have hhigh := (pairwise_cons.1 h.depths).1 _ hmem
    omega

theorem Nested.stop {made : Array Token} (h : Nested s) (hstep : step s t = .error (made, none)) :
    isBracket t "\x7d)]".toList = true ∧ s.depth = 0 ∧ s.calls = [] ∧ made = s.flush.made := by
  have htakes := takes s t
  rw [hstep] at htakes
  cases htakes with
  | stops hclose hneg =>
    have hlow : 0 ≤ s.depth := h.nonneg _ mem_cons_self
    have hturn := neg_one_le_turn t
    have hdepth : s.depth = 0 := by omega
    exact ⟨hclose, hdepth, h.calls_eq_nil hdepth.le, rfl⟩

theorem run_passed {rest : List Token} {made : Array Token} (h : Reached s read)
    (hrun : run s rest = (made, none)) :
    ∃ passed kept left, read ++ rest = passed ++ (kept ++ left) ∧ Passed passed made.toList ∧
      ((Front kept ∧ left = []) ∨ (kept = [] ∧ depthAfter passed = 0 ∧
        ∃ t more, left = t :: more ∧ isBracket t "\x7d)]".toList = true)) := by
  induction rest generalizing s read with
  | nil =>
    obtain ⟨passed, kept, hread, hpassed, hkeeps⟩ := h.made
    cases hcalls : s.calls with
    | nil =>
      rw [run, hcalls] at hrun
      cases hrun
      cases hkeeps with
      | outside => exact ⟨passed, s.saved, [], by simpa using hread, hpassed, .inl ⟨h.nested.front, rfl⟩⟩
      | inside hplace => simp [hcalls] at hplace
    | cons call rest =>
      rw [run, hcalls] at hrun
      cases hrun
  | cons t rest ih =>
    rw [run] at hrun
    split at hrun
    · rename_i result hstep
      subst hrun
      obtain ⟨hclose, hdepth, hcalls, rfl⟩ := h.nested.stop hstep
      obtain ⟨passed, kept, hread, hpassed, hkeeps⟩ := h.made
      cases hkeeps with
      | outside =>
        refine ⟨read, [], t :: rest, rfl, ?_, .inr ⟨rfl, h.depth ▸ hdepth, t, rest, rfl, hclose⟩⟩
        rw [flush_made s hcalls, hread]
        exact hpassed.tokens s.saved
      | inside hplace => simp [hcalls] at hplace
    · rename_i s' hstep
      have hnext := ih (h.step hstep) hrun
      rwa [append_assoc, singleton_append] at hnext

end InlineMarkup.Restore

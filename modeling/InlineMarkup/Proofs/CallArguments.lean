import InlineMarkup.Proofs.Calls
import InlineMarkup.Proofs.Restoring

/-!
The arguments of a call. Main statement: calls nest strictly, a whole call is replaced by what its arguments
say, and a comma after the last argument changes nothing where the arguments come in pairs.
-/
namespace InlineMarkup.Restore

open List

/-! ### Reading in a call -/

def State.within (s : State) (call : Call) (rest : List Call) (made : Array Token) : State :=
  { s with calls := s.calls ++ { call with current := call.current ++ s.made } :: rest, made }

section

variable {s s' : State} {t : Token} (call : Call) (rest : List Call) (made : Array Token)

theorem add_within (s : State) (ts : List Token) :
    (s.within call rest made).add ts = (s.add ts).within call rest made := by
  obtain ⟨saved, depth, calls, out⟩ := s
  cases calls <;> simp [State.within, State.add, Array.append_assoc]

theorem flush_within (s : State) : (s.within call rest made).flush = s.flush.within call rest made :=
  add_within call rest made { s with saved := [] } s.saved

theorem plainToken_outside (depth : Int) (t : Token) : plainToken ⟨[], depth, [], made⟩ t =
      if isBracket t "\x7d)]".toList ∧ depth + turn t < 0 then .error (made, none)
      else .ok (State.add ⟨[], depth + turn t, [], made⟩ [t]) :=
  plainToken_eq rfl t

theorem plainToken_inside (depth : Int) (t : Token) : plainToken ⟨[], depth, call :: rest, made⟩ t =
      if isBracket t "\x7d)]".toList ∧ depth + turn t = call.depth then
        match callTokens call.start (depth + turn t) t call.collected with
        | .error f => .error (made, some f)
        | .ok tokens => .ok (State.add ⟨[], depth + turn t, rest, made⟩ tokens)
      else if isBracket t "\x7d)]".toList ∧ depth + turn t < 0 then .error (made, none)
      else if t.isOp [','] ∧ depth + turn t = call.depth + 1 then
        .ok ⟨[], depth + turn t, call.separated :: rest, made⟩
      else .ok (State.add ⟨[], depth + turn t, call :: rest, made⟩ [t]) :=
  plainToken_eq rfl t

theorem plainToken_within (hsaved : s.saved = []) (hplain : plainToken s t = .ok s')
    (hcomma : s.calls = [] → t.isOp [','] = true → s.depth + turn t ≠ call.depth + 1)
    (hdeep : s.calls = [] → s.depth + turn t ≠ call.depth) :
    plainToken (s.within call rest made) t = .ok (s'.within call rest made) := by
  obtain ⟨saved, depth, calls, out⟩ := s
  obtain rfl : saved = [] := hsaved
  cases calls with
  | nil =>
    rw [plainToken_outside] at hplain
    split at hplain
    · cases hplain
    · rename_i hstays
      cases hplain
      rw [State.within, nil_append, plainToken_inside, if_neg fun h => hdeep rfl h.2, if_neg hstays,
        if_neg fun h => hcomma rfl h.1 h.2]
      exact congrArg Except.ok (add_within call rest made ⟨[], depth + turn t, [], out⟩ [t])
  | cons inner more =>
    rw [plainToken_inside] at hplain
    rw [State.within, cons_append, plainToken_inside]
    split at hplain
    · rename_i hends
      rw [if_pos hends]
      cases htokens : callTokens inner.start (depth + turn t) t inner.collected with
      | error f =>
        rw [htokens] at hplain
        cases hplain
      | ok tokens =>
        rw [htokens] at hplain
        cases hplain
        exact congrArg Except.ok (add_within call rest made ⟨[], depth + turn t, more, out⟩ tokens)
    · rename_i hends
      rw [if_neg hends]
      split at hplain
      · cases hplain
      · rename_i hstays
        rw [if_neg hstays]
        split at hplain
        · rename_i hcomma
          cases hplain
          rw [if_pos hcomma]
          rfl
        · rename_i hcomma
          cases hplain
          rw [if_neg hcomma]
          exact congrArg Except.ok (add_within call rest made ⟨[], depth + turn t, inner :: more, out⟩ [t])

theorem step_within (hstep : step s t = .ok s')
    (hcomma : s.calls = [] → t.isOp [','] = true → s.depth + turn t ≠ call.depth + 1)
    (hdeep : s.calls = [] → s.depth + turn t ≠ call.depth) :
    step (s.within call rest made) t = .ok (s'.within call rest made) := by
  have hplain (h : plainToken s.flush t = .ok s') :
      plainToken (s.within call rest made).flush t = .ok (s'.within call rest made) := by
    rw [flush_within]
    refine plainToken_within call rest made (flush_saved s) h ?_ ?_
    · rw [flush_calls_eq_nil, flush_depth]
      exact hcomma
    · rw [flush_calls_eq_nil, flush_depth]
      exact hdeep
  unfold step at hstep ⊢
  have hsame : (s.within call rest made).saved = s.saved := rfl
  rw [hsame]
  split at hstep
  · rename_i hgo
    cases hstep
    rw [if_pos hgo]
    rfl
  · rename_i hgo
    rw [if_neg hgo]
    split at hstep
    · split at hstep
      · rename_i hopen
        cases hstep
        rw [if_pos hopen]
        rfl
      · rename_i hopen
        rw [if_neg hopen]
        exact hplain hstep
    · exact hplain hstep

end

/-! ### Arguments -/

def IsArgument (ts : List Token) : Prop :=
  (∀ n < ts.length, 0 ≤ depthAfter (ts.take n)) ∧ depthAfter ts = 0 ∧
    ∀ n (h : n < ts.length), ts[n].isOp [','] = true → depthAfter (ts.take n) ≠ 0

instance : DecidablePred IsArgument := fun _ => inferInstanceAs (Decidable (_ ∧ _ ∧ _))

variable {t : Token} {s : State} {ts : List Token} {call : Call}

variable {front more : List Token}

theorem IsArgument.nonneg (h : IsArgument (front ++ t :: more)) : 0 ≤ depthAfter (front ++ [t]) := by
  have hsplit : front ++ t :: more = (front ++ [t]) ++ more := by simp
  cases more with
  | nil => exact h.2.1.ge
  | cons u more =>
    have hinside := h.1 (front ++ [t]).length (by simp)
    rwa [hsplit, take_left] at hinside

theorem IsArgument.ne_zero (h : IsArgument (front ++ t :: more)) (ht : t.isOp [','] = true) : depthAfter front ≠ 0 := by
  have hcomma := h.2.2 front.length (by simp)
  rw [take_left] at hcomma
  exact hcomma (by simpa using ht)

def ComesTo (depth : Int) (ts given : List Token) : Prop :=
  ∃ s, steps { depth } ts = .ok s ∧ s.calls = [] ∧ s.flush.made.toList = given

instance (depth : Int) (ts given : List Token) : Decidable (ComesTo depth ts given) :=
  match h : steps { depth } ts with
  | .ok s =>
    if hs : s.calls.isEmpty ∧ s.flush.made.toList = given then
      isTrue ⟨s, h, isEmpty_iff.1 hs.1, hs.2⟩
    else
      isFalse fun ⟨s', hs', hcalls, hgiven⟩ => by
        rw [h] at hs'
        cases hs'
        exact hs ⟨isEmpty_iff.2 hcalls, hgiven⟩
  | .error _ => isFalse fun ⟨_, hs, _⟩ => by
    rw [h] at hs
    cases hs

/-- What stands between the parentheses of a call, which are at a depth in brackets: arguments with commas
between them, and what each comes to. -/
inductive Listed (depth : Int) : List Token → List (List Token) → Prop where
  | last {ts given : List Token} (hts : IsArgument ts) (hgiven : ComesTo depth ts given) : Listed depth ts [given]
  | more {ts given rest : List Token} {comma : Token} {args : List (List Token)} (hts : IsArgument ts)
      (hgiven : ComesTo depth ts given) (hcomma : comma.isOp [','] = true) (hrest : Listed depth rest args) :
      Listed depth (ts ++ comma :: rest) (given :: args)

theorem steps_nested {s' : State} (h : Nested s) (hsteps : steps s ts = .ok s') :
    Nested s' ∧ s'.depth = s.depth + depthAfter ts := by
  induction ts generalizing s with
  | nil =>
    cases hsteps
    exact ⟨h, by simp [depthAfter_nil]⟩
  | cons t ts ih =>
    rw [steps] at hsteps
    cases hstep : step s t with
    | error result =>
      rw [hstep] at hsteps
      cases hsteps
    | ok mid =>
      rw [hstep] at hsteps
      obtain ⟨hmid, hturn⟩ := step_nested h hstep
      obtain ⟨hnested, hdepth⟩ := ih hmid hsteps
      refine ⟨hnested, ?_⟩
      rw [hdepth, hturn, ← singleton_append, depthAfter_both, ← nil_append [t], depthAfter_concat,
        depthAfter_nil]
      omega

theorem steps_within {s' : State} {read : List Token} (call : Call) (rest : List Call) (made : Array Token)
    (hnested : Nested s) (hdepth : s.depth = call.depth + 1 + depthAfter read) (h : IsArgument (read ++ ts))
    (hsteps : steps s ts = .ok s') : steps (s.within call rest made) ts = .ok (s'.within call rest made) := by
  induction ts generalizing s read with
  | nil =>
    cases hsteps
    rfl
  | cons t ts ih =>
    rw [steps] at hsteps ⊢
    cases hstep : step s t with
    | error result =>
      rw [hstep] at hsteps
      cases hsteps
    | ok mid =>
      rw [hstep] at hsteps
      obtain ⟨hmid, hturn⟩ := step_nested hnested hstep
      have hread : mid.depth = call.depth + 1 + depthAfter (read ++ [t]) := by
        rw [hturn, hdepth, depthAfter_concat]
        omega
      have hinside := h.nonneg
      have hwithin := step_within call rest made hstep (fun _ hcomma heq => ?_) (fun _ heq => ?_)
      · rw [hwithin]
        exact ih hmid hread (by simpa using h) hsteps
      · -- a comma leaves the depth as it is, and stands in brackets of the argument
        have hzero : turn t = 0 := by
          rw [turn_of_isOp hcomma]
          decide
        exact h.ne_zero hcomma (by omega)
      · omega

theorem steps_argument {given : List Token} (rest : List Call) (made : Array Token)
    (hlow : 0 ≤ call.depth) (hts : IsArgument ts) (hgiven : ComesTo (call.depth + 1) ts given) :
    ∃ s, steps ⟨[], call.depth + 1, call :: rest, made⟩ ts = .ok s ∧
      s.flush = ⟨[], call.depth + 1, { call with current := call.current ++ given.toArray } :: rest, made⟩ := by
  obtain ⟨s, hsteps, hcalls, rfl⟩ := hgiven
  have hstart : Nested { depth := call.depth + 1 } := by
    refine ⟨.none, by simp, fun d hd => ?_⟩
    rw [mem_singleton.1 hd]
    exact Int.add_nonneg hlow (by decide)
  have hwithin := @steps_within _ _ _ [] call rest made hstart (by simp [depthAfter_nil]) hts hsteps
  obtain ⟨-, hdepth⟩ := steps_nested hstart hsteps
  have hempty : State.within { depth := call.depth + 1 } call rest made =
      ⟨[], call.depth + 1, call :: rest, made⟩ := by simp [State.within]
  rw [hempty] at hwithin
  refine ⟨_, hwithin, ?_⟩
  have hflush := flush_saved s
  have hdeep := flush_depth s
  have hnone := (flush_calls_eq_nil s).2 hcalls
  rw [hdepth, hts.2.1] at hdeep
  rw [flush_within]
  simp [State.within, hflush, hdeep, hnone]

/-! ### A whole call -/

theorem goesOn_of_isOp {saved : List Token} {symbol : Text} (h : t.isOp symbol = true)
    (hpoint : symbol ≠ ['.']) : goesOn saved t = false := by
  simp only [Token.isOp_iff] at h
  unfold goesOn
  split <;> simp [Token.isName, Token.isOp, h.1, h.2, hpoint]

theorem step_plain (hgo : goesOn s.saved t = false) (hopen : t.isOp ['('] = false) :
    step s t = plainToken s.flush t := by
  unfold step
  rw [if_neg (by simp [hgo])]
  split
  · rw [if_neg (by simp [hopen])]
    rfl
  · rfl

theorem steps_arguments {inner : List Token} {args : List (List Token)} (rest : List Call)
    (made : Array Token) (hlow : 0 ≤ call.depth) (hcurrent : call.current = #[])
    (h : Listed (call.depth + 1) inner args) :
    ∃ s last, steps ⟨[], call.depth + 1, call :: rest, made⟩ inner = .ok s ∧ args.getLast? = some last ∧
      s.flush = ⟨[], call.depth + 1,
        { call with arguments := call.arguments ++ args.dropLast.toArray, current := last.toArray } :: rest, made⟩ := by
  generalize hd : call.depth + 1 = d at h
  induction h generalizing call with
  | @last ts given hts hgiven =>
    subst hd
    obtain ⟨s, hsteps, hflush⟩ := steps_argument rest made hlow hts hgiven
    refine ⟨s, given, hsteps, rfl, ?_⟩
    simpa [hcurrent] using hflush
  | @more ts given later comma args hts hgiven hcomma _ ih =>
    subst hd
    obtain ⟨s, hsteps, hflush⟩ := steps_argument rest made hlow hts hgiven
    have hturn : turn comma = 0 := by
      rw [turn_of_isOp hcomma]
      decide
    have hbracket : isBracket comma "\x7d)]".toList = false := by
      simp only [Token.isOp_iff] at hcomma
      simp only [isBracket, hcomma.1, hcomma.2]
      decide
    have hopen : comma.isOp ['('] = false := by
      simp only [Token.isOp_iff] at hcomma
      simp [Token.isOp, hcomma.2]
    have hstep : step s comma = .ok ⟨[], call.depth + 1,
        { call with arguments := call.arguments.push given, current := #[] } :: rest, made⟩ := by
      rw [step_plain (goesOn_of_isOp hcomma (by decide)) hopen, hflush, plainToken_inside, hbracket,
        if_neg fun h => Bool.false_ne_true h.1, if_neg fun h => Bool.false_ne_true h.1, hturn, Int.add_zero,
        if_pos ⟨hcomma, rfl⟩]
      simp [Call.separated, hcurrent]
    obtain ⟨s', last, hlater, hlast, hflush'⟩ :=
      @ih { call with arguments := call.arguments.push given, current := #[] } hlow rfl rfl
    refine ⟨s', last, ?_, ?_, ?_⟩
    · rw [steps_append, hsteps]
      dsimp only
      rw [steps, hstep]
      exact hlater
    · cases args with
      | nil => cases hlast
      | cons x xs => rwa [getLast?_cons_cons]
    · cases args with
      | nil => cases hlast
      | cons x xs => simpa [Array.push_append, Array.append_assoc] using hflush'

def kept (args : List (List Token)) : List (List Token) := if args.getLast? = some [] then args.dropLast else args

theorem collected_eq {args : List (List Token)} {last : List Token}
    (hlast : args.getLast? = some last) (hargs : call.arguments.toList = args.dropLast)
    (hcurrent : call.current = last.toArray) : call.collected = kept args := by
  have hwhole : args.dropLast ++ [last] = args := dropLast_append_getLast? last hlast
  unfold Call.collected kept
  rw [hlast, hcurrent]
  by_cases hnone : last = []
  · simp [hnone, hargs]
  · simp [hnone, hargs, hwhole]

section

variable {s : State} {a b c opening close : Token} {inner : List Token} {args : List (List Token)}

theorem steps_opened (hnested : Nested s) (hsaved : s.saved = []) (hfront : Front [a, b, c])
    (hopening : opening.isOp ['('] = true) (h : Listed (s.depth + 1) inner args) :
    ∃ s' call, steps s (a :: b :: c :: opening :: inner) = .ok s' ∧
      s'.flush = ⟨[], s.depth + 1, call :: s.calls, s.made⟩ ∧ call.start = a.start ∧ call.depth = s.depth ∧
      call.collected = kept args := by
  obtain ⟨saved, depth, calls, made⟩ := s
  obtain rfl : saved = [] := hsaved
  have hlow : 0 ≤ depth := hnested.nonneg _ mem_cons_self
  obtain ⟨ha, hb, hc⟩ : a.isName "html".toList = true ∧ b.isOp ['.'] = true ∧ c.isName "PYXL".toList = true := by
    cases hfront with
    | whole ha hb hc => exact ⟨ha, hb, hc⟩
  have hopens : steps ⟨[], depth, calls, made⟩ [a, b, c, opening] =
      .ok ⟨[], depth + 1, { start := a.start, depth } :: calls, made⟩ := by
    have hfirst : step ⟨[], depth, calls, made⟩ a = .ok ⟨[a], depth, calls, made⟩ := if_pos ha
    have hsecond : step ⟨[a], depth, calls, made⟩ b = .ok ⟨[a, b], depth, calls, made⟩ := if_pos hb
    have hthird : step ⟨[a, b], depth, calls, made⟩ c = .ok ⟨[a, b, c], depth, calls, made⟩ := if_pos hc
    have hfourth : step ⟨[a, b, c], depth, calls, made⟩ opening =
        .ok ⟨[], depth + 1, { start := a.start, depth } :: calls, made⟩ :=
      (if_neg Bool.false_ne_true).trans (if_pos hopening)
    simp only [steps, hfirst, hsecond, hthird, hfourth]
  obtain ⟨s, last, hsteps, hlast, hflush⟩ :=
    @steps_arguments { start := a.start, depth } inner args calls made hlow rfl h
  refine ⟨s, _, ?_, hflush, rfl, rfl, collected_eq hlast (by simp) rfl⟩
  have hsplit : a :: b :: c :: opening :: inner = [a, b, c, opening] ++ inner := rfl
  rw [hsplit, steps_append, hopens]
  exact hsteps

theorem steps_call (hnested : Nested s) (hsaved : s.saved = []) (hfront : Front [a, b, c])
    (hopening : opening.isOp ['('] = true) (hclose : close.isOp [')'] = true)
    (h : Listed (s.depth + 1) inner args) :
    steps s (a :: b :: c :: opening :: inner ++ [close]) =
      match callTokens a.start s.depth close (kept args) with
      | .ok tokens => .ok (s.add tokens)
      | .error f => .error (s.made, some f) := by
  obtain ⟨s', call, hsteps, hflush, hstart, hdepth, hcollected⟩ := steps_opened hnested hsaved hfront hopening h
  have hturn : turn close = -1 := by
    rw [turn_of_isOp hclose]
    decide
  have hbracket : isBracket close "\x7d)]".toList = true := by
    simp only [Token.isOp_iff] at hclose
    simp only [isBracket, hclose.1, hclose.2]
    decide
  have hopen : close.isOp ['('] = false := by
    simp only [Token.isOp_iff] at hclose
    simp [Token.isOp, hclose.2]
  have hadd (tokens : List Token) : State.add ⟨[], s.depth, s.calls, s.made⟩ tokens = s.add tokens := by
    rw [← hsaved]
  have hstep : step s' close = match callTokens a.start s.depth close (kept args) with
      | .ok tokens => .ok (s.add tokens)
      | .error f => .error (s.made, some f) := by
    rw [step_plain (goesOn_of_isOp hclose (by decide)) hopen, hflush, plainToken_inside, hturn,
      Int.add_neg_cancel_right, if_pos ⟨hbracket, hdepth.symm⟩, hstart, hcollected]
    cases callTokens a.start s.depth close (kept args) with
    | error f => rfl
    | ok tokens => exact congrArg Except.ok (hadd tokens)
  rw [steps_append, hsteps]
  dsimp only
  rw [steps, hstep]
  cases callTokens a.start s.depth close (kept args) <;> rfl

end

/-! ### A comma after the last argument -/

def Paired (args : List (List Token)) : Prop :=
  4 ≤ args.length ∧ args.length % 2 = 0 ∧ ∀ last ∈ args.getLast?, Token.dropComments last ≠ []

theorem ofList_sorted (format made column last : List Token) (args : List (List Token)) :
    Arguments.ofList (format :: made :: column :: (args ++ [last])) =
      .ok ⟨format, column, args.take (args.length / 2), args.drop (args.length / 2)⟩ := by
  have hdrop : (args ++ [last]).dropLast = args := dropLast_concat
  cases args with
  | nil => rfl
  | cons first args =>
    simp only [cons_append] at hdrop ⊢
    simp only [Arguments.ofList, hdrop]

variable {args : List (List Token)} {ts : List Token}

/-- One more argument after the last makes the last a piece of code without a column, if the others come in
pairs, and a piece of code a column, if they do not. -/
theorem ofList_concat (more : List Token) (h : 4 ≤ args.length) :
    ∃ x y : Arguments, Arguments.ofList args = .ok x ∧ Arguments.ofList (args ++ [more]) = .ok y ∧
      y.format = x.format ∧ y.column = x.column ∧
      (args.length % 2 = 0 → y.columns = x.columns ∧ x.fragments.length = x.columns.length ∧
        y.fragments = x.fragments ++ args.getLast?.toList) ∧ (args.length % 2 = 1 → y.columns ≠ x.columns) := by
  obtain ⟨format, made, column, rest, last, rfl⟩ :
      ∃ format made column rest last, args = format :: made :: column :: (rest ++ [last]) := by
    match args, h with
    | format :: made :: column :: more, h =>
      obtain ⟨rest, last, rfl⟩ := (eq_nil_or_concat' more).resolve_left (by rintro rfl; simp at h)
      exact ⟨format, made, column, rest, last, rfl⟩
  have hlonger := ofList_sorted format made column more (rest ++ [last])
  rw [length_append, length_singleton] at hlonger
  refine ⟨_, _, ofList_sorted format made column last rest, hlonger, rfl, rfl, ?_, ?_⟩
  · intro heven
    obtain ⟨n, hn⟩ : ∃ n, rest.length = 2 * n := ⟨rest.length / 2, by simp at heven; omega⟩
    have hhalf : (2 * n + 1) / 2 = n := by omega
    have hsame : 2 * n / 2 = n := by omega
    simp only [hn, hhalf, hsame]
    refine ⟨take_append_of_le_length (by omega), ?_, ?_⟩
    · simp [hn]
      omega
    · rw [drop_append_of_le_length (by omega), ← cons_append, ← cons_append, ← cons_append,
        getLast?_concat, Option.toList_some]
  · intro hodd
    obtain ⟨n, hn⟩ : ∃ n, rest.length = 2 * n + 1 := ⟨rest.length / 2, by simp at hodd; omega⟩
    intro hsame
    have hlength := congrArg List.length hsame
    simp [hn] at hlength
    omega

theorem fragments_concat {fs : List (List Token)} {was is : List Int} (f : List Token) (n : Int)
    (hwas : was.length = fs.length) (his : is.length = fs.length) :
    fragments (fs ++ [f]) was (is ++ [n]) = fragments fs was is := by
  induction fs generalizing was is with
  | nil =>
    rw [length_eq_zero_iff.1 hwas]
    rfl
  | cons g fs ih =>
    match was, is, hwas, his with
    | w :: was, i :: is, hwas, his =>
      simp only [cons_append, fragments]
      rw [ih (by simpa using hwas) (by simpa using his)]

theorem callTokens_concat (start : Pos) (depth : Int) (close : Token) {args : List (List Token)}
    (more : List Token) (h : Paired args) :
    callTokens start depth close (args ++ [more]) = callTokens start depth close args := by
  obtain ⟨hfour, heven, hsome⟩ := h
  obtain ⟨x, ⟨format, column, columns, fragments'⟩, hx, hy, rfl, rfl, hpairs, -⟩ := ofList_concat more hfour
  obtain ⟨hcolumns, hlength, hfragments⟩ := hpairs heven
  obtain ⟨last, hlast⟩ : ∃ last, args.getLast? = some last := by
    cases hget : args.getLast? with
    | none => simp [getLast?_eq_none_iff.1 hget] at hfour
    | some last => exact ⟨last, rfl⟩
  have hlast' := hsome last hlast
  rw [hlast, Option.toList_some] at hfragments
  dsimp only at hcolumns hfragments
  subst hcolumns hfragments
  obtain ⟨t, ht⟩ : ∃ t, leading (Token.dropComments last) = .ok t := by
    unfold leading Token.leading?
    cases hfind : (Token.dropComments last).find? fun t => !t.kind.isLayout with
    | some t => exact ⟨t, rfl⟩
    | none =>
      cases hdrop : Token.dropComments last with
      | nil => exact absurd hdrop hlast'
      | cons t rest => exact ⟨t, rfl⟩
  unfold callTokens
  rw [hx, hy]
  simp only [ok_bind]
  cases hwas : x.columns.mapM integer with
  | error f => rfl
  | ok was =>
    rw [mapM_append]
    cases his : x.fragments.mapM fun f => do pure (← leading (Token.dropComments f)).start.col with
    | error f => rfl
    | ok is =>
      have hlong : fragments (x.fragments ++ [last]) was (is ++ [t.start.col]) = fragments x.fragments was is :=
        fragments_concat last _ ((mapM_length hwas).trans hlength.symm) (mapM_length his)
      have hcol : ([last].mapM fun f => do pure (← leading (Token.dropComments f)).start.col) =
          (.ok [t.start.col] : Except Fault (List Int)) := by
        simp only [mapM_cons, mapM_nil, ht]
        rfl
      rw [hcol]
      simp only [ok_bind, pure_bind, hlong]

theorem depthAfter_lines (h : ∀ t ∈ ts, t.kind = .nl) : depthAfter ts = 0 := by
  have hnone (t : Token) (ht : t ∈ ts) (brackets : Text) : isBracket t brackets = false := by
    simp [isBracket, h t ht]
  simp +contextual [depthAfter, countP_eq_zero.2, hnone]

theorem IsArgument.lines (h : ∀ t ∈ ts, t.kind = .nl) : IsArgument ts := by
  have htake (n : Nat) : depthAfter (ts.take n) = 0 := depthAfter_lines fun t ht => h t (mem_of_mem_take ht)
  refine ⟨fun n _ => (htake n).ge, depthAfter_lines h, fun n hn hcomma => ?_⟩
  simp [Token.isOp, h _ (List.getElem_mem hn)] at hcomma

theorem steps_lines {depth : Int} {made : Array Token} (h : ∀ t ∈ ts, t.kind = .nl) :
    steps ⟨[], depth, [], made⟩ ts = .ok ⟨[], depth, [], made ++ ts.toArray⟩ := by
  induction ts generalizing made with
  | nil => simp [steps]
  | cons t ts ih =>
    have ht := h t mem_cons_self
    have hbracket (brackets : Text) : isBracket t brackets = false := by simp [isBracket, ht]
    have hstep : step ⟨[], depth, [], made⟩ t = .ok ⟨[], depth, [], made.push t⟩ := by
      rw [step_plain (by simp [goesOn, Token.isName, ht]) (by simp [Token.isOp, ht])]
      refine (plainToken_outside made depth t).trans ?_
      rw [hbracket, if_neg fun h => Bool.false_ne_true h.1]
      simp [turn, hbracket, State.add]
    rw [steps, hstep]
    dsimp only
    rw [ih fun u hu => h u (mem_cons_of_mem t hu)]
    simp

theorem Listed.concat {depth : Int} {inner lines : List Token} {comma : Token}
    (h : Listed depth inner args) (hcomma : comma.isOp [','] = true) (hlines : ∀ t ∈ lines, t.kind = .nl) :
    Listed depth (inner ++ comma :: lines) (args ++ [lines]) := by
  have hlast : Listed depth lines [lines] := .last (.lines hlines) ⟨_, steps_lines hlines, rfl, by simp [State.flush, State.add]⟩
  induction h with
  | last hts hgiven => exact .more hts hgiven hcomma hlast
  | more hts hgiven hfirst _ ih =>
    rw [append_assoc, cons_append, cons_append]
    exact .more hts hgiven hfirst ih

theorem kept_of_ne {last : List Token} (h : last ≠ []) : kept (args ++ [last]) = args ++ [last] := by
  simp [kept, h]

theorem kept_of_paired (h : Paired args) : kept args = args := by
  refine if_neg fun hlast => ?_
  exact h.2.2 [] hlast rfl

theorem callTokens_kept (start : Pos) (depth : Int) (close : Token) {args : List (List Token)}
    (lines : List Token) (h : Paired args) :
    callTokens start depth close (kept (args ++ [lines])) = callTokens start depth close (kept args) := by
  rw [kept_of_paired h]
  by_cases hnone : lines = []
  · simp [kept, hnone]
  · rw [kept_of_ne hnone, callTokens_concat start depth close lines h]

def tokenAt (kind : Kind) (text : String) (col : Int) : Token :=
  ⟨kind, text.toList, ⟨1, col⟩, ⟨1, col + text.length⟩, []⟩

def smallCall : List Token :=
  [tokenAt .name "html" 37, tokenAt .op "." 41, tokenAt .name "PYXL" 42, tokenAt .op "(" 46,
    tokenAt .string "'''<a/>'''" 47, tokenAt .op "," 57, tokenAt .number "0" 59, tokenAt .op "," 60,
    tokenAt .number "37" 62, tokenAt .op "," 64, tokenAt .number "0" 66, tokenAt .op ")" 67]

def outerCall : List Token :=
  [tokenAt .string "'''\x7b\x7d'''" 14] ++ tokenAt .op "," 22 :: ([tokenAt .number "0" 24] ++
    tokenAt .op "," 25 :: ([tokenAt .number "4" 27] ++ tokenAt .op "," 28 :: ([tokenAt .number "37" 30] ++
    tokenAt .op "," 32 :: (smallCall ++ tokenAt .op "," 68 :: [tokenAt .number "0" 70]))))

end InlineMarkup.Restore

import InlineMarkup.Proofs.Dents

/-!
Restoring without changes of indentation. A run keeps step with the run that is not given them: both
hold the same calls, and what they have made is laid out the same, but for the spaces before a token
that is still to be made.
-/
namespace InlineMarkup

open List hiding after


namespace Layout

/-! ### Laying out -/

def shown (p : Pos) (ts : List Token) : Except Fault Text := text (some p) (ts.map Token.trimNewline)

def stopOf (p : Pos) (ts : List Token) : Pos := (ts.getLast?.map after).getD p

theorem trimNewline_start (t : Token) : t.trimNewline.start = t.start := by
  unfold Token.trimNewline
  split <;> rfl

theorem trimNewline_after (t : Token) : after t.trimNewline = after t := by
  unfold Token.trimNewline
  split <;> rfl

theorem trimNewline_origin (last : Option Pos) (t : Token) : origin last t.trimNewline = origin last t := by
  unfold Token.trimNewline
  split <;> rfl

theorem stopOf_append (p : Pos) (xs ys : List Token) : stopOf p (xs ++ ys) = stopOf (stopOf p xs) ys := by
  unfold stopOf
  rw [getLast?_append]
  cases ys.getLast? <;> rfl

theorem shown_cons (p : Pos) (t : Token) (ts : List Token) :
    shown p (t :: ts) = if t.start.row < (origin (some p) t).row then
        .error (.rowsReversed t.start.row (origin (some p) t).row)
      else (shown (after t) ts).map fun more => gap (origin (some p) t) t.start ++ t.trimNewline.text ++ more := by
  unfold shown
  rw [map_cons, text, trimNewline_origin, trimNewline_start, trimNewline_after]

theorem shown_append (p : Pos) (xs ys : List Token) :
    shown p (xs ++ ys) = (shown p xs).bind fun a => (shown (stopOf p xs) ys).map (a ++ ·) := by
  induction xs generalizing p with
  | nil =>
    change shown p ys = (shown p ys).map id
    cases shown p ys <;> rfl
  | cons t rest ih =>
    have hstop : stopOf p (t :: rest) = stopOf (after t) rest := by
      rw [← singleton_append, stopOf_append]
      rfl
    rw [cons_append, shown_cons, shown_cons, ih, hstop]
    split
    · rfl
    · cases shown (after t) rest with
      | error f => rfl
      | ok a =>
        cases shown (stopOf (after t) rest) ys with
        | error f => rfl
        | ok b => simp [Except.map, Except.bind]

def Above (p q : Pos) : Prop := p.row < q.row ∨ p = ⟨q.row, 0⟩

theorem gap_self (p : Pos) : gap p p = [] := by
  simp [gap, Text.copies]

variable {p q : Pos} {spacing : Text} {x : Token} {ds : List Token}

theorem gap_indent (h : Above p q) (hspacing : ∀ c ∈ spacing, c = ' ')
    (hcol : q.col = spacing.length) : gap p ⟨q.row, 0⟩ ++ spacing = gap p q := by
  have hspaces : spacing = Text.copies q.col ' ' := by
    rw [hcol, Text.copies, Int.toNat_natCast]
    exact eq_replicate_iff.2 ⟨rfl, hspacing⟩
  rcases h with h | rfl
  · have hne : q.row ≠ p.row := by omega
    simp [gap, hne, hspaces, Text.copies]
  · simp [gap, hspaces, Text.copies]

theorem shown_of_not_lineEnd {t : Token} (hend : t.kind.isLineEnd = false)
    (hrow : p.row ≤ t.start.row) (ts : List Token) :
    shown p (t :: ts) = (shown t.stop ts).map fun more => gap p t.start ++ t.trimNewline.text ++ more := by
  rw [shown_cons, origin_of_not_lineEnd hend, after_of_not_lineEnd hend, if_neg (not_lt.2 hrow)]

theorem shown_gap (hend : x.kind.isLineEnd = false) (hrow : p.row ≤ x.start.row)
    (rest : List Token) : shown p (x :: rest) = (shown x.start (x :: rest)).map (gap p x.start ++ ·) := by
  rw [shown_of_not_lineEnd hend hrow, shown_of_not_lineEnd hend le_rfl, gap_self]
  cases shown x.stop rest <;> simp [Except.map]

theorem shown_dents (habove : Above p x.start)
    (hds : Dents x.start spacing ds) (hspacing : ∀ c ∈ spacing, c = ' ') (hcol : x.start.col = spacing.length)
    (hend : x.kind.isLineEnd = false) (rest : List Token) : shown p (ds ++ x :: rest) = shown p (x :: rest) := by
  have htrim {d : Token} (htext : '\n' ∉ d.text) : d.trimNewline.text = d.text := by
    unfold Token.trimNewline
    rw [if_neg]
    rw [Bool.and_eq_true, beq_iff_eq]
    exact fun h => htext (mem_of_getLast? h.1)
  obtain ⟨ins, outs, rfl, hins, houts⟩ := hds
  -- the ones to outer indentations hold nothing
  have hdedents {p : Pos} (hrow : p.row ≤ x.start.row) : shown p (outs ++ x :: rest) = shown p (x :: rest) := by
    clear hins habove
    induction outs generalizing p with
    | nil => rfl
    | cons d more ih =>
      obtain ⟨hkind, htext, hstart, hstop⟩ := houts d mem_cons_self
      rw [cons_append, shown_of_not_lineEnd (by rw [hkind]; rfl) (by rw [hstart]; exact hrow), hstop, hstart,
        ih (fun e he => houts e (mem_cons_of_mem _ he)) le_rfl, htrim (by simp [htext]), htext,
        shown_gap hend hrow]
      simp
  have hle : p.row ≤ x.start.row := by
    rcases habove with h | rfl
    · exact h.le
    · exact le_rfl
  rcases hins with rfl | ⟨t, rfl, hkind, htext, hstart, hstop⟩
  · exact hdedents hle
  · have hnewline : '\n' ∉ t.text := by
      rw [htext]
      exact fun h => absurd (hspacing _ h) (by decide)
    rw [append_assoc, singleton_append, shown_of_not_lineEnd (by rw [hkind]; rfl) (by rw [hstart]; exact hle),
      hstop, hdedents le_rfl, hstart, htrim hnewline, htext, gap_indent habove hspacing hcol, shown_gap hend hle]

theorem stopOf_dents (hne : ds ≠ []) (hds : Dents q spacing ds) (p : Pos) : stopOf p ds = q := by
  obtain ⟨d, hlast⟩ := Option.isSome_iff_exists.1 (getLast?_isSome.2 hne)
  have hd := mem_of_getLast? hlast
  have hend : d.kind.isLineEnd = false := by
    have := hds.isDent d hd
    cases hkind : d.kind <;> simp_all [Kind.isDent, Kind.isLineEnd]
  obtain ⟨ins, outs, heq, hins, houts⟩ := hds
  rw [stopOf, hlast, Option.map_some, Option.getD_some, after_of_not_lineEnd hend]
  rw [heq] at hd
  rcases mem_append.1 hd with hd | hd
  · rcases hins with rfl | ⟨t, rfl, -, -, -, hstop⟩
    · cases hd
    · rw [mem_singleton.1 hd, hstop]
  · exact (houts d hd).2.2.2

end Layout

namespace Restore

open Layout

/-! ### What a step adds -/

variable {s s' : State} {t : Token} {p : Pos}

variable {start : Pos} {close : Token} {tokens : List Token} {row : Int}

theorem exists_of_bind {α β : Type} {x : Except Fault α} {f : α → Except Fault β} {b : β}
    (h : x >>= f = .ok b) : ∃ a, x = .ok a ∧ f a = .ok b := by
  cases x with
  | error _ => cases h
  | ok a => exact ⟨a, rfl, h⟩

def InPlaceOf (start : Pos) (close : Token) (tokens : List Token) : Prop :=
  (∃ x more, tokens = x :: more ∧ x.start = start ∧ x.kind.isLineEnd = false) ∧ ∀ p, stopOf p tokens = after close

theorem replacement_inPlace {literalStart : Pos} {args : Arguments} {was is : List Int} {literal : Literal}
    {column : Int} {apart : Bool}
    (h : replacement start literalStart close args was is literal column apart = .ok tokens)
    (hclose : close.kind.isLineEnd = false) : InPlaceOf start close tokens := by
  unfold replacement at h
  obtain ⟨texts, -, h⟩ := exists_of_bind h
  obtain ⟨format, -, h⟩ := exists_of_bind h
  obtain ⟨markup, -, h⟩ := exists_of_bind h
  obtain ⟨firstLine, -, h⟩ := exists_of_bind h
  obtain ⟨moved, -, h⟩ := exists_of_bind h
  cases apart with
  | false =>
    cases h
    exact ⟨⟨_, [], rfl, rfl, rfl⟩, fun p => (after_of_not_lineEnd hclose).symm⟩
  | true =>
    cases h
    exact ⟨⟨_, _, rfl, rfl, rfl⟩, fun p => rfl⟩

theorem callTokens_inPlace {depth : Int} {arguments : List (List Token)}
    (h : callTokens start depth close arguments = .ok tokens)
    (hclose : close.kind.isLineEnd = false) : InPlaceOf start close tokens := by
  rw [callTokens_eq] at h
  obtain ⟨args, -, h⟩ := exists_of_bind h
  obtain ⟨was, -, h⟩ := exists_of_bind h
  obtain ⟨is, -, h⟩ := exists_of_bind h
  obtain ⟨text, -, h⟩ := exists_of_bind h
  obtain ⟨literal, -, h⟩ := exists_of_bind h
  obtain ⟨column, -, h⟩ := exists_of_bind h
  obtain ⟨first, -, h⟩ := exists_of_bind h
  dsimp only at h
  split at h
  · obtain ⟨apart, -, h⟩ := exists_of_bind h
    exact replacement_inPlace h hclose
  · exact replacement_inPlace h hclose

theorem Front.not_lineEnd {saved : List Token} (h : Front saved) : ∀ u ∈ saved, u.kind.isLineEnd = false := by
  have hname {u : Token} {word : Text} (hu : u.isName word = true) : u.kind.isLineEnd = false := by
    simp only [Token.isName, Bool.and_eq_true, beq_iff_eq] at hu
    rw [hu.1]
    rfl
  have hop {u : Token} {symbol : Text} (hu : u.isOp symbol = true) : u.kind.isLineEnd = false := by
    simp only [Token.isOp_iff] at hu
    rw [hu.1]
    rfl
  cases h with
  | none => simp
  | name ha => simpa using hname ha
  | point ha hb => simpa using ⟨hname ha, hop hb⟩
  | whole ha hb hc => simpa using ⟨hname ha, hop hb, hname hc⟩

def owed (s : State) : Option Pos :=
  ((s.calls.map Call.place).getLast?.map Prod.fst).or (s.saved.head?.map (·.start))

theorem owed_of_calls (hne : s.calls ≠ [])
    (h : (s'.calls.map Call.place).getLast? = (s.calls.map Call.place).getLast?) :
    ∃ q, owed s = some q ∧ owed s' = some q := by
  have hsome : ((s.calls.map Call.place).getLast?).isSome := by simpa using hne
  obtain ⟨place, hplace⟩ := Option.isSome_iff_exists.1 hsome
  rw [owed, owed, h, hplace]
  exact ⟨place.1, rfl, rfl⟩

theorem step_owed (hnested : Nested s) (hmade : s.made = #[]) (h : step s t = .ok s') :
    (s'.made = #[] ∧ owed s' = some ((owed s).getD t.start) ∧ (s'.calls = [] → s.calls = [] ∧ s'.depth = s.depth)) ∨
    (owed s' = none ∧ (∀ p, stopOf p s'.made.toList = after t) ∧
      ∃ x more, s'.made.toList = x :: more ∧ x.start = (owed s).getD t.start ∧
        ((owed s = none → t.kind.isLineEnd = false) → x.kind.isLineEnd = false)) := by
  have htakes := takes s t
  rw [h] at htakes
  by_cases hcalls : s.calls = []
  · have howed : owed s = s.saved.head?.map (·.start) := by
      rw [owed, hcalls]
      rfl
    obtain rfl | ⟨a, b, c, hsaved, hopen, rfl⟩ | ⟨hnil, hnone, hmade'⟩ := htakes.outside hcalls
    · refine .inl ⟨hmade, ?_, fun _ => ⟨hcalls, rfl⟩⟩
      rw [howed]
      unfold owed
      cases s.saved <;> rfl
    · refine .inl ⟨hmade, ?_, fun hnil => by cases hnil⟩
      rw [howed, hsaved]
      rfl
    · have hadded : s'.made.toList = s.saved ++ [t] := by
        rw [hmade', hmade]
        rfl
      refine .inr ⟨?_, fun p => by rw [hadded, stopOf, getLast?_concat]; rfl, ?_⟩
      · rw [owed, hnil, hnone]
        rfl
      · rw [hadded, howed]
        cases hsaved : s.saved with
        | nil => exact ⟨t, [], rfl, rfl, fun hnone => hnone rfl⟩
        | cons a more =>
          exact ⟨a, more ++ [t], rfl, rfl, fun _ => hnested.front.not_lineEnd a (by simp [hsaved])⟩
  · obtain ⟨hsame, hplaces, hopen⟩ | ⟨call, tokens, hplaces, hclose, -, htokens, rfl⟩ := htakes.inside hcalls
    · obtain ⟨q, hq, hq'⟩ := owed_of_calls hcalls hplaces
      exact .inl ⟨hsame.trans hmade, by rw [hq', hq]; rfl, fun hnil => absurd hnil hopen⟩
    · have hkind : t.kind.isLineEnd = false := by
        simp only [isBracket, Bool.and_eq_true, beq_iff_eq] at hclose
        rw [hclose.1]
        rfl
      obtain ⟨⟨x, more, htokensEq, hstart, hend⟩, hstop⟩ := callTokens_inPlace htokens hkind
      have hadded : (State.add ⟨[], call.depth, [], s.made⟩ tokens).made.toList = tokens := by
        rw [add_made _ _ rfl, hmade]
        rfl
      refine .inr ⟨?_, fun p => by rw [hadded, hstop], x, more, hadded.trans htokensEq, ?_, fun _ => hend⟩
      · rw [owed, add_calls_place, add_saved]
        rfl
      · rw [hstart, owed, hplaces]
        rfl

theorem saved_of_step (h : step s t = .ok s') : s'.saved = [] ∨ s'.saved = s.saved ++ [t] ∧ isFront t = true := by
  have htakes := takes s t
  rw [h] at htakes
  cases htakes with
  | saves hgo =>
    refine .inr ⟨rfl, ?_⟩
    unfold goesOn at hgo
    split at hgo <;> simp_all [isFront]
  | opens => exact .inl rfl
  | adds => exact .inl (add_saved _ _)
  | separates => exact .inl rfl
  | closes => exact .inl (add_saved _ _)

theorem error_of_step {made : Array Token} {fault : Option Fault} (hmade : s.made = #[])
    (h : step s t = .error (made, fault)) :
    (made = #[] ∨ s.calls = [] ∧ made.toList = s.saved) ∧ (fault = none → s.depth + turn t < 0) := by
  have hflush : s.flush.made = #[] ∨ s.calls = [] ∧ s.flush.made.toList = s.saved := by
    by_cases hcalls : s.calls = []
    · exact .inr ⟨hcalls, by rw [flush_made s hcalls, hmade]; rfl⟩
    · exact .inl ((flush_made_inside s hcalls).trans hmade)
  have htakes := takes s t
  rw [h] at htakes
  cases htakes with
  | fails => exact ⟨hflush, nofun⟩
  | stops _ hneg => exact ⟨hflush, fun _ => hneg⟩

def State.base (s : State) : State := ⟨s.saved, s.depth, s.calls, #[]⟩

theorem step_base (s : State) (t : Token) : step s t = match step s.base t with
      | .ok b => .ok ⟨b.saved, b.depth, b.calls, s.made ++ b.made⟩
      | .error (made, fault) => .error (s.made ++ made, fault) := by
  have hpos (p : Pos) : p.down 0 = p := by simp [Pos.down]
  have htoken (u : Token) : u.down 0 = u := by simp [Token.down, hpos]
  have hlist (ts : List Token) : ts.map (Token.down 0) = ts := (map_congr_left fun u _ => htoken u).trans (map_id _)
  have harray (ts : Array Token) : ts.map (Token.down 0) = ts := by
    apply Array.ext'
    rw [Array.toList_map, hlist]
  have hcall (c : Call) : c.down 0 = c := by
    obtain ⟨start, depth, arguments, current⟩ := c
    simp only [Call.down, hpos, harray, Call.mk.injEq, true_and, and_true]
    apply Array.ext'
    rw [Array.toList_map]
    exact (map_congr_left fun ts _ => hlist ts).trans (map_id _)
  have hcalls (cs : List Call) : cs.map (Call.down 0) = cs := (map_congr_left fun c _ => hcall c).trans (map_id _)
  have hfault (f g : Fault) (h : g = f ∨ g = f.down 0) : g = f := by
    rcases h with h | h
    · exact h
    · cases f <;> simpa [Fault.down] using h
  have hdown (b : State) : b.down 0 s.made = ⟨b.saved, b.depth, b.calls, s.made ++ b.made⟩ := by
    simp [State.down, hlist, hcalls, harray]
  have hstep := step_down 0 s.made s.base t
  have hself : s.base.down 0 s.made = s := by
    rw [hdown]
    simp [State.base]
  rw [hself, htoken] at hstep
  generalize step s.base t = x at hstep ⊢
  generalize step s t = y at hstep ⊢
  cases hstep with
  | ok b => rw [hdown]
  | stop made => simp only [harray]
  | fault made h => simp only [harray, hfault _ _ h]

/-! ### Keeping step -/

def Begins : Option Pos → List Token → Prop
  | none, _ => True
  | some _, [] => False
  | some q, x :: _ => x.start = q ∧ x.kind.isLineEnd = false

/-- What one run and the other have made is laid out the same, before more that begins at `ahead`. -/
structure Alike (p : Pos) (made other : List Token) (ahead : Option Pos) : Prop where
  shown : ∀ more, Begins ahead more → shown p (made ++ more) = shown p (other ++ more)
  isOk : (Layout.shown p made).isOk = (Layout.shown p other).isOk

theorem Alike.append {made other xs : List Token} {ahead : Option Pos} (h : Alike p made other ahead)
    (hxs : ∀ more, Begins ahead (xs ++ more)) : Alike p (made ++ xs) (other ++ xs) none := by
  have hall (more : List Token) : Layout.shown p (made ++ xs ++ more) = Layout.shown p (other ++ xs ++ more) := by
    rw [append_assoc, append_assoc, h.shown _ (hxs more)]
  refine ⟨fun more _ => hall more, ?_⟩
  have hnil := hall []
  rw [append_nil, append_nil] at hnil
  rw [hnil]

theorem isOk_shown_concat {ts : List Token} {x : Token} (hend : x.kind.isLineEnd = false)
    (hrow : (stopOf p ts).row ≤ x.start.row) : (shown p (ts ++ [x])).isOk = (shown p ts).isOk := by
  rw [shown_append, shown_of_not_lineEnd hend hrow]
  cases shown p ts <;> rfl

theorem Alike.dents {made other ds : List Token} {x : Token} {spacing : Text} (h : Alike p made other none)
    (habove : Above (stopOf p other) x.start) (hne : ds ≠ []) (hds : Dents x.start spacing ds)
    (hspacing : ∀ c ∈ spacing, c = ' ') (hcol : x.start.col = spacing.length) (hend : x.kind.isLineEnd = false) :
    Alike p (made ++ ds) other (some x.start) := by
  have hshown (y : Token) (rest : List Token) (hstart : y.start = x.start) (hy : y.kind.isLineEnd = false) :
      Layout.shown p (made ++ ds ++ y :: rest) = Layout.shown p (other ++ y :: rest) := by
    rw [append_assoc, h.shown _ trivial, shown_append p other (ds ++ y :: rest), shown_append p other (y :: rest),
      shown_dents (hstart ▸ habove) (hstart ▸ hds) hspacing (hstart ▸ hcol) hy]
  refine ⟨fun more hmore => ?_, ?_⟩
  · cases more with
    | nil => cases hmore
    | cons y rest => exact hshown y rest hmore.1 hmore.2
  · have hstop : stopOf p (made ++ ds) = x.start := by
      rw [stopOf_append, stopOf_dents hne hds]
    have hle : (stopOf p other).row ≤ x.start.row := by
      rcases habove with h | h
      · exact h.le
      · rw [h]
    rw [← isOk_shown_concat hend (by rw [hstop]), hshown x [] rfl hend, isOk_shown_concat hend hle]

def UpTo (row : Int) (p : Pos) : Prop := p.row ≤ row ∨ p = ⟨row + 1, 0⟩

theorem UpTo.mono {row' : Int} (h : UpTo row p) (hrow : row ≤ row') : UpTo row' p := by
  rcases h with h | rfl
  · exact .inl (h.trans hrow)
  · rcases hrow.lt_or_eq with h | rfl
    · exact .inl (by dsimp only; omega)
    · exact .inr rfl

theorem upTo_after (t : Token) : UpTo t.stop.row (after t) := by
  unfold after
  split
  · exact .inr rfl
  · exact .inl le_rfl

theorem UpTo.above {q : Pos} (h : UpTo row p) (hrow : row < q.row) : Above p q := by
  rcases h with h | rfl
  · exact .inl (by omega)
  · rcases (Int.add_one_le_iff.2 hrow).lt_or_eq with h | h
    · exact .inl h
    · exact .inr (by rw [h])

/-- Two runs that keep step: they hold the same, and what they have made is laid out the same, before
more that begins at `ahead`. -/
structure Lock (p : Pos) (row : Int) (clear : Bool) (ahead : Option Pos) (s s' : State) : Prop where
  base : s.base = s'.base
  nested : Nested s
  clear : clear = true → s.saved = []
  rows : ∀ u ∈ s.saved, u.stop.row ≤ row
  alike : Alike p s.made.toList s'.made.toList ahead
  upTo : UpTo row (stopOf p s'.made.toList)
  outside : ahead.isSome → s.calls = [] → s.depth = 0

structure Agree (p : Pos) (whole : Prop) (r r' : Array Token × Option Fault) : Prop where
  fault : r.2 = r'.2
  isOk : (shown p r.1.toList).isOk = (shown p r'.1.toList).isOk
  shown : whole → r.2 = none → Layout.shown p r.1.toList = Layout.shown p r'.1.toList

section

variable {p : Pos} {row : Int} {clear : Bool} {ahead : Option Pos} {s s' : State}

theorem Lock.saved (h : Lock p row clear ahead s s') : s.saved = s'.saved := by
  have hsaved := congrArg State.saved h.base
  exact hsaved

theorem Lock.calls (h : Lock p row clear ahead s s') : s.calls = s'.calls := by
  have hcalls := congrArg State.calls h.base
  exact hcalls

theorem Lock.step {t : Token} {b : State} (h : Lock p row clear ahead s s')
    (hnext : ∀ q ∈ ahead, owed s = some q ∨ owed s = none ∧ t.start = q ∧ t.kind.isLineEnd = false)
    (hrow : row ≤ t.stop.row) (hstep : Restore.step s.base t = .ok b) :
    ∃ ahead', Lock p t.stop.row (!isFront t) ahead' ⟨b.saved, b.depth, b.calls, s.made ++ b.made⟩
      ⟨b.saved, b.depth, b.calls, s'.made ++ b.made⟩ ∧
      ∀ q ∈ ahead', owed ⟨b.saved, b.depth, b.calls, s.made ++ b.made⟩ = some q := by
  have hbase : Nested s.base := ⟨h.nested.front, h.nested.depths, h.nested.nonneg⟩
  have hnested := (step_nested hbase hstep).1
  have howed (made : Array Token) : owed ⟨b.saved, b.depth, b.calls, made⟩ = owed b := rfl
  have hsame : owed s.base = owed s := rfl
  have hsaved : (!isFront t) = true → b.saved = [] := by
    intro hfront
    rcases saved_of_step hstep with hsaved | ⟨-, hsaved⟩
    · exact hsaved
    · simp [hsaved] at hfront
  have hrows : ∀ u ∈ b.saved, u.stop.row ≤ t.stop.row := by
    intro u hu
    rcases saved_of_step hstep with hsaved | ⟨hsaved, -⟩
    · simp [hsaved] at hu
    · rw [hsaved] at hu
      rcases mem_append.1 hu with hu | hu
      · exact (h.rows u hu).trans hrow
      · rw [mem_singleton.1 hu]
  rcases step_owed hbase rfl hstep with ⟨hmade, howes, houtside⟩ | ⟨howes, hstop, x, more, hmade, hstart, hend⟩
  · -- nothing is added
    refine ⟨ahead, ⟨rfl, ⟨hnested.front, hnested.depths, hnested.nonneg⟩, hsaved, hrows, ?_, ?_, ?_⟩, fun q hq => ?_⟩
    · simpa [hmade] using h.alike
    · simpa [hmade] using h.upTo.mono hrow
    · intro hsome hnil
      obtain ⟨hcalls, hdepth⟩ := houtside hnil
      exact hdepth.trans (h.outside hsome hcalls)
    · rw [howed, howes, hsame]
      rcases hnext q hq with howed | ⟨howed, hstart, -⟩
      · rw [howed]
        rfl
      · rw [howed, hstart]
        rfl
  · -- all that was kept back is added
    refine ⟨none, ⟨rfl, ⟨hnested.front, hnested.depths, hnested.nonneg⟩, hsaved, hrows, ?_, ?_, by simp⟩, by simp⟩
    · simp only [Array.toList_append]
      refine h.alike.append fun rest => ?_
      rw [hmade]
      cases ahead with
      | none => trivial
      | some q =>
        rw [hsame] at hstart hend
        rcases hnext q rfl with howed | ⟨howed, hplace, hkind⟩
        · exact ⟨by rw [hstart, howed]; rfl, hend (by simp [howed])⟩
        · exact ⟨by rw [hstart, howed]; exact hplace, hend fun _ => hkind⟩
    · simp only [Array.toList_append]
      rw [stopOf_append, hstop]
      exact upTo_after t

theorem Lock.flush (h : Lock p row clear ahead s s') (hcalls : s.calls = [])
    (hnext : ∀ q ∈ ahead, owed s = some q) : Lock p row true none s.flush s'.flush := by
  have hcalls' : s'.calls = [] := h.calls ▸ hcalls
  have hmade := flush_made s hcalls
  have hmade' := flush_made s' hcalls'
  have hnil := (flush_calls_eq_nil s).2 hcalls
  have hnil' := (flush_calls_eq_nil s').2 hcalls'
  have hdepth : s.depth = s'.depth := by
    have hdepth := congrArg State.depth h.base
    exact hdepth
  refine ⟨?_, ⟨flush_saved s ▸ .none, ?_, ?_⟩, fun _ => flush_saved s, by simp [flush_saved], ?_, ?_, by simp⟩
  · rw [State.base, State.base, flush_saved, flush_saved, flush_depth, flush_depth, hnil, hnil', hdepth]
  · simp [hnil]
  · simpa [hnil, flush_depth] using h.nested.nonneg s.depth mem_cons_self
  · rw [hmade, hmade', ← h.saved]
    refine h.alike.append fun more => ?_
    cases ahead with
    | none => trivial
    | some q =>
      have howed := hnext q rfl
      rw [owed, hcalls] at howed
      cases hsaved : s.saved with
      | nil => simp [hsaved] at howed
      | cons a rest =>
        rw [hsaved] at howed
        exact ⟨Option.some.inj howed, h.nested.front.not_lineEnd a (by simp [hsaved])⟩
  · rw [hmade', ← h.saved, stopOf_append]
    cases hlast : s.saved.getLast? with
    | none =>
      rw [getLast?_eq_none_iff.1 hlast]
      exact h.upTo
    | some u =>
      have hu := mem_of_getLast? hlast
      rw [stopOf, hlast]
      exact (upTo_after u).mono (h.rows u hu)

end

theorem step_idle {t : Token} (hname : t.kind ≠ .name) (hop : t.kind ≠ .op) (s : State) :
    step s t = .ok (State.add ⟨[], s.depth, s.flush.calls, s.flush.made⟩ [t]) := by
  have hturn : turn t = 0 := by simp [turn, isBracket, hop]
  have hgo : goesOn s.saved t = false := by
    unfold goesOn
    split <;> simp [Token.isName, Token.isOp, hname, hop]
  have htakes := takes s t
  generalize hnext : step s t = next at htakes
  cases htakes with
  | saves h => simp [hgo] at h
  | adds => rw [hturn, Int.add_zero]
  | opens _ h => simp [Token.isOp, hop] at h
  | separates _ h => simp [Token.isOp, hop] at h
  | closes _ h => simp [isBracket, hop] at h
  | fails _ h => simp [isBracket, hop] at h
  | stops h => simp [isBracket, hop] at h

theorem step_flush {t : Token} (hname : t.kind ≠ .name) (hop : t.kind ≠ .op) (s : State) :
    step s.flush t = step s t := by
  have hflush : s.flush.flush = s.flush := by
    have hsaved := flush_saved s
    rw [State.flush, hsaved]
    exact (add_nil _).trans (by rw [← hsaved])
  rw [step_idle hname hop, step_idle hname hop, hflush, flush_depth]

theorem run_dents {ds : List Token} (hds : ∀ d ∈ ds, d.kind.isDent = true) {s : State} (hsaved : s.saved = [])
    (hcalls : s.calls = []) (rest : List Token) :
    run s (ds ++ rest) = run ⟨[], s.depth, [], s.made ++ ds.toArray⟩ rest := by
  induction ds generalizing s with
  | nil =>
    obtain ⟨saved, depth, calls, made⟩ := s
    cases hsaved
    cases hcalls
    simp
  | cons d more ih =>
    have hkind := hds d mem_cons_self
    have hmade : s.flush.made = s.made := by
      apply Array.ext'
      rw [flush_made s hcalls, hsaved, append_nil]
    rw [cons_append, run, step_idle (by rintro h; simp [h, Kind.isDent] at hkind)
      (by rintro h; simp [h, Kind.isDent] at hkind), (flush_calls_eq_nil s).2 hcalls, hmade]
    dsimp only [State.add]
    rw [ih (fun e he => hds e (mem_cons_of_mem _ he)) rfl rfl]
    simp

theorem run_bare {p : Pos} {row depth : Int} {clear : Bool} {ts : List Token} (h : Dented row clear depth ts)
    {ahead : Option Pos} {s s' : State} (hdepth : s.depth = depth) (hlock : Lock p row clear ahead s s')
    (hnext : ∀ q ∈ ahead, owed s = some q ∨ owed s = none ∧ ∃ x rest, ts = x :: rest ∧ x.kind.isDent = false ∧
      x.start = q ∧ x.kind.isLineEnd = false) :
    Agree p (∀ front, front <+: ts → 0 ≤ depth + depthAfter front) (run s ts) (run s' (bare ts)) := by
  induction h generalizing ahead s s' with
  | @nil row depth clear hclear =>
    refine ⟨by rw [bare, filter_nil, run, run, hlock.calls], hlock.alike.isOk, fun _ hnone => ?_⟩
    have hcalls : s.calls = [] := by
      by_contra hcalls
      simp [run, hcalls] at hnone
    have hahead : ahead = none := by
      cases ahead with
      | none => rfl
      | some q =>
        -- the front of a call outside all brackets would be kept back
        have hzero := hdepth.symm.trans (hlock.outside rfl hcalls)
        rcases hnext q rfl with howed | ⟨-, x, rest, hnil, -⟩
        · simp [owed, hcalls, hlock.clear (hclear hzero)] at howed
        · cases hnil
    subst hahead
    simpa [run, bare] using hlock.alike.shown [] trivial
  | @token row depth clear t ts hkind hrow h ih =>
    have hbare : bare (t :: ts) = t :: bare ts := by simp [bare, hkind]
    have hnext' : ∀ q ∈ ahead, owed s = some q ∨ owed s = none ∧ t.start = q ∧ t.kind.isLineEnd = false := by
      intro q hq
      refine (hnext q hq).imp_right fun h => ?_
      obtain ⟨hnone, x, rest, hx, -, hstart, hend⟩ := h
      cases hx
      exact ⟨hnone, hstart, hend⟩
    have hbase := step_base s t
    have hbase' := step_base s' t
    rw [← hlock.base] at hbase'
    rw [hbare, run, run]
    cases hstep : step s.base t with
    | error result =>
      obtain ⟨made, fault⟩ := result
      rw [hstep] at hbase hbase'
      rw [hbase, hbase']
      obtain ⟨hmade, hstop⟩ := error_of_step rfl hstep
      refine ⟨rfl, ?_, fun hwhole hnone => ?_⟩
      · rcases hmade with rfl | ⟨hcalls, hmade⟩
        · simpa using hlock.alike.isOk
        · by_cases hsaved : s.saved = []
          · have hnil : made.toList = [] := hmade.trans hsaved
            simpa [hnil] using hlock.alike.isOk
          · have hflush := hlock.flush hcalls fun q hq => (hnext' q hq).resolve_right fun hnone => by
              simp [owed, show s.calls = [] from hcalls, hsaved] at hnone
            have hok := hflush.alike.isOk
            rw [flush_made s hcalls, flush_made s' (hlock.calls ▸ hcalls), ← hlock.saved, ← show made.toList = s.saved from hmade] at hok
            simpa using hok
      · have hone := hwhole [t] (by simp)
        rw [← nil_append [t], depthAfter_concat, depthAfter_nil] at hone
        have hneg : s.depth + turn t < 0 := hstop hnone
        omega
    | ok b =>
      rw [hstep] at hbase hbase'
      rw [hbase, hbase']
      obtain ⟨ahead', hlock', hnext''⟩ := hlock.step hnext' hrow hstep
      have hturn := (step_nested hlock.nested hbase).2
      have hagree := ih (hturn.trans (by rw [hdepth])) hlock' fun q hq => .inl (hnext'' q hq)
      refine ⟨hagree.fault, hagree.isOk, fun hwhole => hagree.shown fun front hfront => ?_⟩
      have hone := hwhole (t :: front) ((prefix_cons_inj t).2 hfront)
      rw [← singleton_append, depthAfter_both, ← nil_append [t], depthAfter_concat, depthAfter_nil] at hone
      omega
  | @dents row clear spacing ds x ts hne hds hspacing hcol hrow hkind hend hclear h ih =>
    have hcalls : s.calls = [] := hlock.nested.calls_eq_nil hdepth.le
    have hidle {d : Token} (hd : d.kind.isDent = true) : d.kind ≠ .name ∧ d.kind ≠ .op := by
      constructor <;> rintro h <;> simp [h, Kind.isDent] at hd
    have hflush := hlock.flush hcalls fun q hq => (hnext q hq).resolve_right fun h => by
      obtain ⟨-, y, rest, hy, hykind, -⟩ := h
      obtain ⟨d, more, rfl⟩ := exists_cons_of_ne_nil hne
      rw [(List.cons.inj hy).1.symm, hds.isDent d mem_cons_self] at hykind
      cases hykind
    have hrun : run s (ds ++ x :: ts) = run ⟨[], s.depth, [], s.flush.made ++ ds.toArray⟩ (x :: ts) := by
      have hfirst : run s (ds ++ x :: ts) = run s.flush (ds ++ x :: ts) := by
        obtain ⟨d, more, rfl⟩ := exists_cons_of_ne_nil hne
        obtain ⟨hname, hop⟩ := hidle (hds.isDent d mem_cons_self)
        rw [cons_append, run, run, step_flush hname hop]
      rw [hfirst, run_dents hds.isDent (flush_saved s) ((flush_calls_eq_nil s).2 hcalls), flush_depth]
    have hrun' : run s' (bare (ds ++ x :: ts)) = run s'.flush (bare (x :: ts)) := by
      have hbare : bare (x :: ts) = x :: bare ts := by simp [bare, hkind]
      rw [bare_append, bare_of_dents hds.isDent, nil_append, hbare]
      rcases hclear with hclear | hmarker
      · have hsaved : s'.saved = [] := hlock.saved ▸ hlock.clear hclear
        rw [State.flush, hsaved, add_nil, ← hsaved]
      · rw [run, run, step_flush (by simp [hmarker]) (by simp [hmarker])]
    have hbase : (⟨[], s.depth, [], #[]⟩ : State) = s'.flush.base := by
      rw [← hflush.base, State.base, flush_saved, flush_depth, (flush_calls_eq_nil s).2 hcalls]
    rw [hrun, hrun']
    have hagree := @ih (some x.start) ⟨[], s.depth, [], s.flush.made ++ ds.toArray⟩ s'.flush hdepth
      ⟨hbase, ⟨.none, by simp, by simp [hdepth]⟩, fun _ => rfl, by simp, ?_, hflush.upTo, fun _ _ => hdepth⟩ ?_
    · refine ⟨hagree.fault, hagree.isOk, fun hwhole => hagree.shown fun front hfront => ?_⟩
      have hall := hwhole (ds ++ front) ((prefix_append_right_inj ds).2 hfront)
      rwa [depthAfter_both, depthAfter_dents hds.isDent, Int.zero_add] at hall
    · rw [Array.toList_append]
      exact hflush.alike.dents (hflush.upTo.above hrow) hne hds hspacing hcol hend
    · rintro q hq
      cases hq
      exact .inr ⟨rfl, x, ts, rfl, hkind, rfl, hend⟩

end Restore

end InlineMarkup

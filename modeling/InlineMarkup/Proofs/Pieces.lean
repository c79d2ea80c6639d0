import InlineMarkup.Codec
import InlineMarkup.Proofs.BareRuns
import InlineMarkup.Proofs.Replacement

/-!
Encoding piece by piece. Where a source is cut between statements, its two parts are restored each by
itself. Main statement: pieces that are cut there, or inside a call, are encoded to the bytes of the
whole.
-/
namespace InlineMarkup

open List hiding after

open Text Layout

/-! ### Some lines, and then others -/

namespace Scan

def through (scan : Scan) : List Text → List Token × Option Scan
  | [] => ([], some scan)
  | l :: rest =>
    match scan.line l with
    | (ts, none) => (ts, none)
    | (ts, some after) => (ts ++ (after.through rest).1, (after.through rest).2)

theorem all_append {scan after : Scan} {ls : List Text} (h : (scan.through ls).2 = some after)
    (more : List Text) : scan.all (ls ++ more) = (scan.through ls).1 ++ after.all more := by
  induction ls generalizing scan with
  | nil =>
    cases h
    rfl
  | cons l rest ih =>
    rw [cons_append, all]
    rw [through] at h ⊢
    cases hline : scan.line l with
    | mk ts next =>
      rw [hline] at h
      cases next with
      | none => cases h
      | some mid =>
        dsimp only at h ⊢
        rw [ih h, append_assoc]

theorem fit_start : ({} : Scan).Fit := fun _ h => by cases h

theorem through_reads {ls : List Text} (hls : ∀ l ∈ ls, IsLine l) {scan after : Scan} (hfit : scan.Fit)
    (h : (scan.through ls).2 = some after) : after.depth = scan.depth + Restore.depthAfter (scan.through ls).1 ∧
      (ls ≠ [] → after.Ready → after.strict = false → ∃ init t, (scan.through ls).1 = init ++ [t] ∧
        t.kind.isLineEnd = true ∧ t.stop.row = (after.row : Int)) := by
  induction ls generalizing scan with
  | nil =>
    cases h
    exact ⟨by simp [through, Restore.depthAfter_nil], by simp⟩
  | cons l rest ih =>
    have hl := hls l mem_cons_self
    rw [through] at h ⊢
    rcases line_cases hfit hl.1 hl.ne_nil with ⟨ts, mid, hlined, hmid⟩ | ⟨-, hover⟩
    · obtain ⟨ds, more, hrow, hds⟩ := hlined.line scan.indents
      have hline : scan.line l = (ds ++ ts, some (mid.within more)) := hrow
      have hdents : Restore.depthAfter ds = 0 := by
        rcases hds with rfl | ⟨-, hds, -⟩
        · rfl
        · exact depthAfter_dents hds.isDent
      have hfits : (mid.within more).Fit := hmid
      rw [hline] at h ⊢
      obtain ⟨hdepth, hlast⟩ := ih (fun k hk => hls k (mem_cons_of_mem _ hk)) hfits h
      dsimp only at h ⊢
      refine ⟨?_, fun _ hready hstrict => ?_⟩
      · have hreads : mid.depth = scan.depth + Restore.depthAfter ts := hlined.reads.depth
        have hsame : (mid.within more).depth = mid.depth := rfl
        rw [hdepth, hsame, hreads, Restore.depthAfter_both, Restore.depthAfter_both, hdents]
        omega
      · by_cases hrest : rest = []
        · subst hrest
          cases h
          obtain ⟨init, t, hts, ht⟩ := hlined.reads.last hl.2 hready.1
          have hstop : t.stop.row = (mid.row : Int) := by
            rw [hlined.reads.row]
            exact (hlined.reads.tokens t (by simp [hts])).2
          refine ⟨ds ++ init, t, by simp [hts, through], ?_, hstop⟩
          rcases ht with hend | ⟨-, hjoined⟩ | ⟨-, hspoilt⟩
          · exact hend
          · cases hjoined.symm.trans hready.2.2
          · cases hspoilt.symm.trans hstrict
        · obtain ⟨init, t, hts, ht⟩ := hlast hrest hready hstrict
          exact ⟨ds ++ ts ++ init, t, by rw [hts, ← append_assoc], ht⟩
    · have hline : scan.line l = ((scan.nextRow.within scan.indents).finish, none) := hover scan.indents
      rw [hline] at h
      cases h

end Scan

/-- A text after which a source can be cut: it ends with a line, and no string, bracket or statement is
open there. -/
structure AtRest (s : Text) (after : Scan) : Prop where
  ended : s = [] ∨ s.getLast? = some '\n'
  through : (({} : Scan).through (lines s)).2 = some after
  ready : after.Ready
  strict : after.strict = false

def tokensOf (s : Text) : List Token := (({} : Scan).through (lines s)).1

namespace AtRest

variable {s : Text} {after : Scan}

theorem nil : AtRest [] {} := ⟨.inl rfl, rfl, ⟨rfl, rfl, rfl⟩, rfl⟩

theorem tokens_append (h : AtRest s after) (more : Text) :
    tokenize (lines (s ++ more)) = tokensOf s ++ after.all (lines more) := by
  rw [lines_ended_append h.ended]
  exact Scan.all_append h.through (lines more)

theorem depthAfter_tokensOf (h : AtRest s after) : Restore.depthAfter (tokensOf s) = 0 := by
  have hdepth := (Scan.through_reads (isLine_of_mem_lines h.ended) Scan.fit_start h.through).1
  rw [h.ready.2.1] at hdepth
  exact (Int.zero_add _).symm.trans hdepth.symm

theorem last (h : AtRest s after) (hne : s ≠ []) :
    ∃ init t, tokensOf s = init ++ [t] ∧ t.kind.isLineEnd = true ∧ t.stop.row = (after.row : Int) := by
  refine (Scan.through_reads (isLine_of_mem_lines h.ended) Scan.fit_start h.through).2 (fun hlines => hne ?_) h.ready h.strict
  rw [← flatten_lines s, hlines]
  rfl

end AtRest

/-! ### Indentation by spaces -/

def Spaced (s : Text) : Prop := ∀ l ∈ lines s, ∀ c ∈ l.takeWhile Lexeme.isSpacing, c = ' '

instance (s : Text) : Decidable (Spaced s) :=
  decidable_of_iff (((lines s).all fun l => (l.takeWhile Lexeme.isSpacing).all (· == ' ')) = true) <| by
    simp only [Spaced, all_eq_true, beq_iff_eq]

theorem lines_front (u v : Text) :
    ∃ ks more, lines (u ++ v) = ks ++ more ∧ List.Forall₂ (· <+: ·) (lines u) ks := by
  induction u with
  | nil => exact ⟨[], lines v, rfl, .nil⟩
  | cons c u ih =>
    obtain ⟨ks, more, hlines, hfronts⟩ := ih
    rw [cons_append, lines, lines, hlines]
    by_cases hc : c = '\n'
    · rw [if_pos hc, if_pos hc]
      exact ⟨['\n'] :: ks, more, rfl, .cons prefix_rfl hfronts⟩
    rw [if_neg hc, if_neg hc]
    generalize lines u = ls at hfronts ⊢
    cases hfronts with
    | nil =>
      cases more with
      | nil => exact ⟨[[c]], [], rfl, .cons prefix_rfl .nil⟩
      | cons l more => exact ⟨[c :: l], more, rfl, .cons (by simp) .nil⟩
    | @cons l k ls ks hl hls => exact ⟨(c :: k) :: ks, more, rfl, .cons (by simpa using hl) hls⟩

theorem Spaced.front {u v : Text} (h : Spaced (u ++ v)) : Spaced u := by
  obtain ⟨ks, more, hlines, hfronts⟩ := lines_front u v
  intro l hl c hc
  obtain ⟨k, hk, hlk⟩ : ∃ k ∈ ks, l <+: k := by
    clear hlines
    generalize lines u = ls at hfronts hl
    induction hfronts with
    | nil => cases hl
    | cons hfirst _ ih =>
      rcases mem_cons.1 hl with rfl | hl
      · exact ⟨_, mem_cons_self, hfirst⟩
      · obtain ⟨k, hk, hlk⟩ := ih hl
        exact ⟨k, mem_cons_of_mem _ hk, hlk⟩
  obtain ⟨w, rfl⟩ := hlk
  refine h (l ++ w) (by rw [hlines]; exact mem_append_left _ hk) c ?_
  rw [takeWhile_append]
  split
  · exact mem_append_left _ (takeWhile_subset _ hc)
  · exact hc

theorem AtRest.spaced {s more : Text} {after : Scan} (h : AtRest s after) (hspaced : Spaced (s ++ more)) :
    Spaced more := by
  intro l hl
  refine hspaced l ?_
  rw [lines_ended_append h.ended]
  exact mem_append_right _ hl

/-! ### Some tokens, and then others -/

namespace Restore

variable {s : Text} {ts xs ys : List Token} {x : Except Fault Text}

variable {read : List Token} {after : Scan} {p : Pos}

theorem Reached.steps {s s' : State} (h : Reached s read) (hsteps : steps s ts = .ok s') :
    Reached s' (read ++ ts) := by
  induction ts generalizing s read with
  | nil =>
    cases hsteps
    rwa [append_nil]
  | cons t rest ih =>
    rw [Restore.steps] at hsteps
    cases hstep : Restore.step s t with
    | error result =>
      rw [hstep] at hsteps
      cases hsteps
    | ok mid =>
      rw [hstep] at hsteps
      rw [← singleton_append, ← append_assoc]
      exact ih (h.step hstep) hsteps

theorem run_base (s : State) (ts : List Token) : run s ts = (s.made ++ (run s.base ts).1, (run s.base ts).2) := by
  induction ts generalizing s with
  | nil => simp [run, State.base]
  | cons t rest ih =>
    rw [run, run, step_base s t]
    cases step s.base t with
    | error result => rfl
    | ok mid =>
      dsimp only
      rw [ih ⟨mid.saved, mid.depth, mid.calls, s.made ++ mid.made⟩, ih mid, Array.append_assoc]
      rfl

theorem steps_fault {s : State} (h : Reached s read) {made : Array Token} {fault : Option Fault}
    (hsteps : steps s ts = .error (made, fault)) (hclose : BracketsClose (read ++ ts)) : ∃ f, fault = some f := by
  induction ts generalizing s read with
  | nil => cases hsteps
  | cons t rest ih =>
    rw [← singleton_append, ← append_assoc] at hclose
    rw [steps] at hsteps
    cases hstep : step s t with
    | ok mid =>
      rw [hstep] at hsteps
      exact ih (h.step hstep) hsteps hclose
    | error result =>
      rw [hstep] at hsteps
      cases hsteps
      cases fault with
      | some f => exact ⟨f, rfl⟩
      | none =>
        have hnonneg := depthAfter_nonneg hclose (prefix_append _ _)
        rw [depthAfter_concat, ← h.depth] at hnonneg
        have htakes := takes s t
        rw [hstep] at htakes
        cases htakes with
        | stops _ hdepth => omega

theorem depthAfter_bare (ts : List Token) : depthAfter (bare ts) = depthAfter ts := by
  have hcount (some : Text) : (bare ts).countP (isBracket · some) = ts.countP (isBracket · some) := by
    rw [bare, countP_filter]
    refine countP_congr fun t _ => ?_
    cases hkind : t.kind <;> simp [isBracket, hkind, Kind.isDent]
  rw [depthAfter, depthAfter, hcount, hcount]

theorem BracketsClose.of_bare (h : BracketsClose xs) (hsame : bare xs = bare ys) : BracketsClose ys := by
  intro front hfront
  have hbare : bare front <+: bare xs := hsame ▸ hfront.filter _
  obtain ⟨other, hother, heq⟩ := prefix_filter_iff.1 hbare
  have hnonneg := depthAfter_nonneg h hother
  have hdepth : depthAfter front = depthAfter other := by
    rw [← depthAfter_bare front, ← depthAfter_bare other]
    exact congrArg depthAfter heq
  unfold depthAfter at hdepth hnonneg
  omega

theorem steps_atRest (h : AtRest s after) {mid : State} (hsteps : steps {} (tokensOf s) = .ok mid) :
    mid.base = {} ∧ stopOf ⟨1, 0⟩ mid.made.toList = ⟨after.row + 1, 0⟩ := by
  have hreached := Reached.start.steps hsteps
  have hdepth : mid.depth = 0 := hreached.depth.trans h.depthAfter_tokensOf
  have hcalls : mid.calls = [] := hreached.nested.calls_eq_nil hdepth.le
  by_cases hne : s = []
  · subst hne
    cases hsteps
    cases h.through
    exact ⟨rfl, rfl⟩
  obtain ⟨init, t, htokens, hend, hrow⟩ := h.last hne
  -- The last token is a line end, which is no part of a call's front.
  have hidle : t.kind ≠ .name ∧ t.kind ≠ .op := by
    constructor <;> intro hkind <;> simp [hkind, Kind.isLineEnd] at hend
  rw [htokens, steps_append] at hsteps
  cases hbefore : steps {} init with
  | error result =>
    rw [hbefore] at hsteps
    cases hsteps
  | ok before =>
    rw [hbefore] at hsteps
    simp only [steps, step_idle hidle.1 hidle.2] at hsteps
    cases hsteps
    have hnone := (add_calls_eq_nil _ _).1 hcalls
    refine ⟨?_, ?_⟩
    · rw [State.base, hdepth, hcalls, add_saved]
    · rw [add_made _ _ hnone, stopOf_append]
      simp [stopOf, Layout.after, hend, hrow]

/-! ### Laying out what was made -/

def rendered (p : Pos) (result : Array Token × Option Fault) : Except Fault Text :=
  (shown p result.1.toList).bind fun s =>
    match result.2 with
    | some f => .error f
    | none => .ok s

theorem restore_eq (s : Text) : restore s = rendered ⟨1, 0⟩ (run {} (tokenize (lines s))) := rfl

theorem rendered_append (p : Pos) (xs ys : Array Token) (fault : Option Fault) : rendered p (xs ++ ys, fault) =
      (shown p xs.toList).bind fun a => (rendered (stopOf p xs.toList) (ys, fault)).map (a ++ ·) := by
  unfold rendered
  rw [Array.toList_append, shown_append]
  cases shown p xs.toList with
  | error f => rfl
  | ok a =>
    change ((shown _ ys.toList).map (a ++ ·)).bind _ = ((shown _ ys.toList).bind _).map _
    cases shown (stopOf p xs.toList) ys.toList with
    | error f => rfl
    | ok b => cases fault <;> rfl

def outcome : Except Fault Text → Option (Option Text)
  | .ok s => some (some s)
  | .error .unfinished => some none
  | .error _ => none

theorem outcome_eq_text : outcome x = some (some s) ↔ x = .ok s := by
  cases x with
  | ok s => simp [outcome]
  | error f => cases f <;> simp [outcome]

theorem outcome_eq_unfinished : outcome x = some none ↔ x = .error .unfinished := by
  cases x with
  | ok s => simp [outcome]
  | error f => cases f <;> simp [outcome]

theorem outcome_ne_none (h : outcome x ≠ none) : x = .error .unfinished ∨ ∃ s, x = .ok s := by
  cases x with
  | ok s => exact .inr ⟨s, rfl⟩
  | error f => cases f <;> simp_all [outcome]

theorem outcome_map (a : Text) (x : Except Fault Text) :
    outcome (x.map (a ++ ·)) = (outcome x).map (Option.map (a ++ ·)) := by
  cases x with
  | ok s => rfl
  | error f => cases f <;> rfl

theorem outcome_shown {f : Fault} (h : shown p ts = .error f) : outcome (.error f) = none := by
  induction ts generalizing p with
  | nil => cases h
  | cons t rest ih =>
    rw [shown_cons] at h
    split at h
    · cases h
      rfl
    · cases hrest : shown (after t) rest with
      | ok s =>
        rw [hrest] at h
        cases h
      | error g =>
        rw [hrest] at h
        cases h
        exact ih hrest

theorem outcome_down {n : Nat} {y : Except Fault Text} (h : Down n Eq x y) : outcome y = outcome x := by
  cases h with
  | ok h => rw [h]
  | @error f g h =>
    rcases h with rfl | rfl
    · rfl
    · cases f <;> rfl

theorem shown_down (n : Nat) (p : Pos) (ts : List Token) :
    Down n Eq (shown p ts) (shown (p.down n) (ts.map (Token.down n))) := by
  have htrim (t : Token) : (t.down n).trimNewline = t.trimNewline.down n := by
    unfold Token.trimNewline
    rw [apply_ite (Token.down n)]
    rfl
  have hmap : (ts.map (Token.down n)).map Token.trimNewline = (ts.map Token.trimNewline).map (Token.down n) := by
    rw [map_map, map_map]
    exact map_congr_left fun t _ => htrim t
  unfold shown
  rw [hmap]
  exact text_down n (some p) _

theorem outcome_run_down (n : Nat) (ts : List Token) :
    outcome (rendered ⟨n + 1, 0⟩ (run {} (ts.map (Token.down n)))) = outcome (rendered ⟨1, 0⟩ (run {} ts)) := by
  have hstart : ({} : State).down n #[] = {} := by simp [State.down]
  have hrun := run_down n #[] {} ts
  rw [hstart] at hrun
  generalize run {} ts = r at hrun ⊢
  generalize run {} (ts.map (Token.down n)) = r' at hrun ⊢
  obtain ⟨hmade, hfault⟩ := hrun
  have hshown : Down n Eq (shown ⟨1, 0⟩ r.1.toList) (shown ⟨n + 1, 0⟩ r'.1.toList) := by
    have hdown := shown_down n ⟨1, 0⟩ r.1.toList
    rwa [show Pos.down n ⟨1, 0⟩ = ⟨n + 1, 0⟩ by simp [Pos.down, add_comm],
      show r.1.toList.map (Token.down n) = r'.1.toList by simp [hmade]] at hdown
  refine outcome_down (n := n) (hshown.bind fun a b hab => ?_)
  rcases hfault with ⟨hr, hr'⟩ | ⟨f, g, hr, hr', h⟩
  · rw [hr, hr']
    exact .ok hab
  · rw [hr, hr']
    exact .error h

theorem Agree.outcome {whole : Prop} {r r' : Array Token × Option Fault} (h : Agree p whole r r')
    (hwhole : r.2 = none → whole) : Restore.outcome (rendered p r) = Restore.outcome (rendered p r') := by
  obtain ⟨made, fault⟩ := r
  obtain ⟨made', fault'⟩ := r'
  obtain rfl : fault = fault' := h.fault
  have hok := h.isOk
  unfold rendered
  dsimp only at hok ⊢
  cases fault with
  | none => rw [h.shown (hwhole rfl) rfl]
  | some f =>
    cases hx : Layout.shown p made.toList with
    | ok a =>
      cases hy : Layout.shown p made'.toList with
      | ok b => rfl
      | error g => simp [hx, hy, Except.isOk, Except.toBool] at hok
    | error e =>
      cases hy : Layout.shown p made'.toList with
      | ok b => simp [hx, hy, Except.isOk, Except.toBool] at hok
      | error g => exact (outcome_shown hx).trans (outcome_shown hy).symm

theorem agree_rest (h : AtRest s after) {more : Text} (hindents : after.indents = [] ∨ Spaced more) :
    Agree ⟨after.row + 1, 0⟩ (BracketsClose (after.all (lines more))) (run {} (after.all (lines more)))
      (run {} ((tokenize (lines more)).map (Token.down after.row))) := by
  have hfit : after.Fit := fun o ho => by cases ho.symm.trans h.ready.1
  have hclear : (tokenize (lines more)).map (Token.down after.row) = (after.within []).all (lines more) := by
    have hscan : after.within [] = ({} : Scan).down after.row := by
      obtain ⟨hpending, hdepth, hjoined⟩ := h.ready
      simp [Scan.within, Scan.down, hpending, hdepth, hjoined, h.strict]
    rw [hscan, Scan.all_down]
    rfl
  rw [hclear]
  rcases hindents with hnone | hspaced
  · have hsame : after.within [] = after := by rw [← hnone]; rfl
    rw [hsame]
    exact ⟨rfl, rfl, fun _ _ => rfl⟩
  have hlock : Lock ⟨after.row + 1, 0⟩ after.row true none {} {} :=
    ⟨rfl, .start, fun _ => rfl, by simp, ⟨fun _ _ => rfl, rfl⟩, .inr rfl, by simp⟩
  have hbare (indents : List Nat) : Agree ⟨after.row + 1, 0⟩ (BracketsClose ((after.within indents).all (lines more)))
      (run {} ((after.within indents).all (lines more))) (run {} (bare ((after.within indents).all (lines more)))) := by
    have hdented := @Scan.all_dented _ (Scan.lines_lines more) hspaced (after.within indents) hfit after.row true le_rfl
      fun _ _ => .inl rfl
    have hagree := run_bare hdented h.ready.2.1.symm hlock (by simp)
    refine ⟨hagree.fault, hagree.isOk, fun hclose hnone => hagree.shown (fun front hfront => ?_) hnone⟩
    have hdepth : (after.within indents).depth = 0 := h.ready.2.1
    rw [hdepth, Int.zero_add]
    exact depthAfter_nonneg hclose hfront
  -- The two runs meet in the one that is given no changes of indentation.
  have hsame := Scan.all_within (Scan.lines_lines more) hfit []
  have hwithin := hbare after.indents
  have hself : after.within after.indents = after := rfl
  have hfree := hbare []
  rw [hself] at hwithin
  rw [hsame] at hfree
  refine ⟨hwithin.fault.trans hfree.fault.symm, hwithin.isOk.trans hfree.isOk.symm, fun hclose hnone => ?_⟩
  rw [hwithin.shown hclose hnone, hfree.shown (hclose.of_bare hsame.symm)]
  rw [hfree.fault, ← hwithin.fault, hnone]

/-! ### A text, and then another -/

theorem BracketsClose.front (h : BracketsClose (xs ++ ys)) : BracketsClose xs :=
  fun front hfront => h front (hfront.trans (prefix_append xs ys))

theorem bracketsClose_iff : BracketsClose ts ↔ ∀ front, front <+: ts → 0 ≤ depthAfter front := by
  refine ⟨fun h front hfront => depthAfter_nonneg h hfront, fun h front hfront => ?_⟩
  have hnonneg := h front hfront
  unfold depthAfter at hnonneg
  omega

theorem BracketsClose.append (h : BracketsClose xs) (hys : ∀ t ∈ ys, t.kind ≠ .op) : BracketsClose (xs ++ ys) := by
  have hnone (n : Nat) (some : Text) : (ys.take n).countP (isBracket · some) = 0 :=
    countP_eq_zero.2 fun t ht => by simp [isBracket, hys t (mem_of_mem_take ht)]
  refine bracketsClose_iff.2 fun front hfront => ?_
  rw [prefix_iff_eq_take.1 hfront, take_append, depthAfter_both]
  have hfirst := depthAfter_nonneg h ( take_prefix front.length xs)
  have hrest : depthAfter (ys.take (front.length - xs.length)) = 0 := by
    rw [depthAfter, hnone, hnone]
    rfl
  omega

end Restore

namespace AtRest

open Restore

variable {s more : Text} {after : Scan} (h : AtRest s after)

include h

theorem closes_rest (hclose : BracketsClose (tokenize (lines (s ++ more)))) :
    BracketsClose (tokensOf s) ∧ BracketsClose (after.all (lines more)) := by
  rw [h.tokens_append] at hclose
  refine ⟨hclose.front, bracketsClose_iff.2 fun front hfront => ?_⟩
  have hnonneg := depthAfter_nonneg hclose ((prefix_append_right_inj _).2 hfront)
  rwa [depthAfter_both, h.depthAfter_tokensOf, Int.zero_add] at hnonneg

theorem closes (hclose : BracketsClose (tokensOf s)) : BracketsClose (tokenize (lines s)) := by
  rw [← append_nil s, h.tokens_append]
  refine hclose.append fun t ht => ?_
  have hmem : t ∈ ((after.within after.indents).line []).1 := ht
  rcases Scan.line_nil_cases after with ⟨o, ho, -⟩ | ⟨-, hline⟩ | ⟨-, hready, -⟩
  · cases ho.symm.trans h.ready.1
  · rw [hline] at hmem
    rcases mem_append.1 hmem with hdedent | hend
    · obtain ⟨-, -, rfl⟩ := mem_map.1 hdedent
      simp
    · rw [mem_singleton.1 hend]
      simp
  · exact absurd h.ready hready

theorem restore_append {mid : State} (hsteps : steps {} (tokensOf s) = .ok mid) (more : Text) :
    restore (s ++ more) = (shown ⟨1, 0⟩ mid.made.toList).bind fun a =>
      (rendered ⟨after.row + 1, 0⟩ (run {} (after.all (lines more)))).map (a ++ ·) := by
  obtain ⟨hbase, hstop⟩ := steps_atRest h hsteps
  have hrun : run {} (tokenize (lines (s ++ more))) =
      (mid.made ++ (run {} (after.all (lines more))).1, (run {} (after.all (lines more))).2) := by
    rw [h.tokens_append, run_append, hsteps]
    dsimp only
    rw [run_base, hbase]
  rw [restore_eq, hrun, rendered_append, hstop]

theorem outcome_rest (hindents : after.indents = [] ∨ Spaced more)
    (hclose : (run {} (after.all (lines more))).2 = none → BracketsClose (after.all (lines more))) :
    outcome (rendered ⟨after.row + 1, 0⟩ (run {} (after.all (lines more)))) = outcome (restore more) := by
  rw [(agree_rest h hindents).outcome hclose, outcome_run_down, restore_eq]

theorem outcome_self {mid : State} (hsteps : steps {} (tokensOf s) = .ok mid) (hclose : BracketsClose (tokensOf s)) :
    outcome (restore s) = match shown ⟨1, 0⟩ mid.made.toList with
      | .ok a => some (some a)
      | .error _ => none := by
  have hend : BracketsClose (after.all (lines [])) := by
    have hwhole := h.closes hclose
    rw [← append_nil s] at hwhole
    exact (h.closes_rest hwhole).2
  rw [← append_nil s, h.restore_append hsteps]
  cases hshown : shown ⟨1, 0⟩ mid.made.toList with
  | error f => exact outcome_shown hshown
  | ok a =>
    refine (outcome_map a _).trans ?_
    rw [h.outcome_rest (.inr fun l hl => by cases hl) fun _ => hend]
    exact congrArg (fun s => some (some s)) (append_nil a)

theorem outcome_front (hclose : BracketsClose (tokensOf s)) (hout : outcome (restore (s ++ more)) ≠ none) :
    outcome (restore s) ≠ none := by
  cases hsteps : steps {} (tokensOf s) with
  | error result =>
    have hsame (u : Text) : restore (s ++ u) = rendered ⟨1, 0⟩ result := by
      rw [restore_eq, h.tokens_append, run_append, hsteps]
    rwa [hsame, ← hsame [], append_nil] at hout
  | ok mid =>
    rw [h.outcome_self hsteps hclose]
    rw [h.restore_append hsteps] at hout
    cases hshown : shown ⟨1, 0⟩ mid.made.toList with
    | ok a => simp
    | error f =>
      rw [hshown] at hout
      exact absurd (outcome_shown hshown) hout

theorem outcome_more (hclose : BracketsClose (tokensOf s)) {a : Text} (ha : restore s = .ok a)
    (hindents : after.indents = [] ∨ Spaced more)
    (hmore : restore (s ++ more) = .error .unfinished ∨ BracketsClose (tokenize (lines (s ++ more)))) :
    outcome (restore (s ++ more)) = (outcome (restore more)).map (Option.map (a ++ ·)) := by
  cases hsteps : steps {} (tokensOf s) with
  | error result =>
    obtain ⟨made, fault⟩ := result
    obtain ⟨f, rfl⟩ := steps_fault .start hsteps (by rwa [nil_append])
    rw [← append_nil s, restore_eq, h.tokens_append, run_append, hsteps] at ha
    unfold rendered at ha
    cases hshown : shown ⟨1, 0⟩ made.toList <;> rw [hshown] at ha <;> cases ha
  | ok mid =>
    have hself := h.outcome_self hsteps hclose
    rw [ha] at hself
    have hboth := h.restore_append hsteps more
    cases hshown : shown ⟨1, 0⟩ mid.made.toList with
    | error f =>
      rw [hshown] at hself
      cases hself
    | ok b =>
      rw [hshown] at hself hboth
      cases hself
      have hboth : restore (s ++ more) = (rendered ⟨after.row + 1, 0⟩ (run {} (after.all (lines more)))).map (a ++ ·) :=
        hboth
      rw [hboth, outcome_map, h.outcome_rest hindents fun hnone => ?_]
      rcases hmore with hunfinished | hmore
      · rw [hboth, rendered, hnone] at hunfinished
        cases hrest : shown ⟨after.row + 1, 0⟩ (run {} (after.all (lines more))).1.toList with
        | ok b =>
          rw [hrest] at hunfinished
          cases hunfinished
        | error f =>
          rw [hrest] at hunfinished
          cases hunfinished
          cases outcome_shown hrest
      · exact (h.closes_rest hmore).2

end AtRest

/-! ### Encoding pieces -/

namespace Codec

open Restore

theorem toBytes_append (s u : Text) : toBytes (s ++ u) = toBytes s ++ toBytes u := by
  simp [toBytes]

def Encoder.encodes (e : Encoder) (c : Codec) : List Text → Except Fault ByteArray × Encoder
  | [] => (.ok ByteArray.empty, e)
  | s :: rest =>
    match e.encode c s with
    | (.error f, e) => (.error f, e)
    | (.ok bytes, e) => ((e.encodes c rest).1.map (bytes ++ ·), (e.encodes c rest).2)

theorem encode_text {held s out : Text} (h : restore (held ++ s) = .ok out) :
    Encoder.encode ⟨held⟩ ⟨true⟩ s = (.ok (toBytes out), {}) := by
  simp [Encoder.encode, Codec.encode, h]

theorem encode_held {held s : Text} (h : restore (held ++ s) = .error .unfinished) :
    Encoder.encode ⟨held⟩ ⟨true⟩ s = (.ok ByteArray.empty, ⟨held ++ s⟩) := by
  simp [Encoder.encode, Codec.encode, h]

/-- Pieces of a source in which no bracket is closed that was not opened. -/
structure Divided (pieces : List Text) : Prop where
  closes : BracketsClose (tokenize (lines pieces.flatten))
  cuts : ∀ front back, pieces = front ++ back → back ≠ [] →
    (∃ after, AtRest front.flatten after ∧ (after.indents = [] ∨ Spaced pieces.flatten)) ∨
      restore front.flatten = .error .unfinished

theorem Divided.front {front back : List Text} (h : Divided (front ++ back))
    (hout : outcome (restore (front ++ back).flatten) ≠ none) : restore front.flatten = .error .unfinished ∨
      (∃ a, restore front.flatten = .ok a) ∧ BracketsClose (tokenize (lines front.flatten)) ∧
        (back = [] ∨ ∃ after, AtRest front.flatten after ∧
          (after.indents = [] ∨ Spaced (front ++ back).flatten)) := by
  by_cases hback : back = []
  · subst hback
    have hclose := h.closes
    rw [append_nil] at hout hclose
    exact (outcome_ne_none hout).imp_right fun ha => ⟨ha, hclose, .inl rfl⟩
  · refine (h.cuts front back rfl hback).elim (fun ⟨after, hrest, hindents⟩ => ?_) .inl
    have hclose := h.closes
    rw [flatten_append] at hout hclose
    have hfront := (hrest.closes_rest hclose).1
    exact (outcome_ne_none (hrest.outcome_front hfront hout)).imp_right fun ha =>
      ⟨ha, hrest.closes hfront, .inr ⟨after, hrest, hindents⟩⟩

theorem encodes_from {before held rest : List Text} {after : Scan} {a : Text}
    (hpieces : Divided (before ++ held ++ rest)) (hrest : AtRest before.flatten after)
    (hindents : after.indents = [] ∨ Spaced (before ++ held ++ rest).flatten) (ha : restore before.flatten = .ok a)
    (hheld : held = [] ∨ restore (before ++ held).flatten = .error .unfinished)
    (hout : outcome (restore (before ++ held ++ rest).flatten) ≠ none) :
    ∃ front back b, before ++ held ++ rest = front ++ back ∧ restore front.flatten = .ok (a ++ b) ∧
      Encoder.encodes ⟨held.flatten⟩ ⟨true⟩ rest = (.ok (toBytes b), ⟨back.flatten⟩) ∧
      (back = [] ∨ restore (before ++ held ++ rest).flatten = .error .unfinished) := by
  induction rest generalizing before held after a with
  | nil =>
    rw [append_nil]
    exact ⟨before, held, [], rfl, by rw [ha, append_nil], rfl, hheld⟩
  | cons s rest ih =>
    have hsplit : before ++ held ++ s :: rest = before ++ held ++ [s] ++ rest := by simp
    have hjoin : (before ++ held ++ [s]).flatten = before.flatten ++ (held.flatten ++ s) := by simp
    have hwhole : (before ++ held ++ [s] ++ rest).flatten =
        before.flatten ++ (held.flatten ++ s ++ rest.flatten) := by simp
    rw [hsplit] at hpieces hindents hout ⊢
    have hclose : BracketsClose (tokensOf before.flatten) := (hrest.closes_rest (hwhole ▸ hpieces.closes)).1
    have hspaces : after.indents = [] ∨ Spaced (held.flatten ++ s) :=
      hindents.imp_right fun hspaced => (hrest.spaced (hwhole ▸ hspaced)).front
    have hnow := hpieces.front hout
    have hmore := hrest.outcome_more hclose ha hspaces (by
      rw [← hjoin]
      exact hnow.imp_right fun h => h.2.1)
    rw [← hjoin] at hmore
    rcases hnow with hunfinished | ⟨⟨now, hnow⟩, -, hafter⟩
    · -- A call is open, and all that is not encoded is held.
      rw [hunfinished] at hmore
      obtain ⟨x, hx, hnone⟩ := Option.map_eq_some_iff.1 hmore.symm
      rw [Option.map_eq_none_iff.1 hnone] at hx
      have hheld := outcome_eq_unfinished.1 hx
      obtain ⟨front, back, b, hsame, hfront, hencodes, hback⟩ := @ih before (held ++ [s]) after a
        (by rwa [← append_assoc]) hrest (by rwa [← append_assoc]) ha
        (.inr (by rwa [← append_assoc])) (by rwa [← append_assoc])
      rw [← append_assoc] at hsame hback
      refine ⟨front, back, b, hsame, hfront, ?_, hback⟩
      rw [Encoder.encodes, encode_held hheld]
      rw [flatten_concat] at hencodes
      dsimp only
      rw [hencodes]
      simp [Except.map]
    · -- All that was held is encoded.
      rw [hnow] at hmore
      obtain ⟨x, hx, hsome⟩ := Option.map_eq_some_iff.1 hmore.symm
      obtain ⟨b, rfl, rfl⟩ := Option.map_eq_some_iff.1 hsome
      have hb := outcome_eq_text.1 hx
      rw [Encoder.encodes, encode_text hb]
      dsimp only
      by_cases hlast : rest = []
      · subst hlast
        exact ⟨before ++ held ++ [s], [], b, by simp, hnow, by simp [Encoder.encodes, Except.map], .inl rfl⟩
      · obtain ⟨after', hrest', hindents'⟩ := hafter.resolve_left hlast
        obtain ⟨front, back, more, hsame, hfront, hencodes, hback⟩ := @ih (before ++ held ++ [s]) [] after' (a ++ b)
          (by rwa [append_nil]) hrest' (by rwa [append_nil]) hnow (.inl rfl) (by rwa [append_nil])
        rw [append_nil] at hsame hback
        refine ⟨front, back, b ++ more, hsame, by rwa [← append_assoc], ?_, hback⟩
        have hencodes : Encoder.encodes {} ⟨true⟩ rest = (.ok (toBytes more), ⟨back.flatten⟩) := hencodes
        rw [hencodes, toBytes_append]
        rfl

theorem encodes_plain (pieces : List Text) :
    Encoder.encodes {} ⟨false⟩ pieces = (.ok (toBytes pieces.flatten), {}) := by
  induction pieces with
  | nil => rfl
  | cons s rest ih =>
    have hstep : Encoder.encode {} ⟨false⟩ s = (.ok (toBytes s), {}) := by
      simp [Encoder.encode, Codec.encode]
    rw [Encoder.encodes, hstep]
    dsimp only
    rw [ih, flatten_cons, toBytes_append]
    rfl

theorem encode_cases {s : Text} {bytes : ByteArray} {n : Nat} (h : Codec.encode ⟨true⟩ s = .ok (bytes, n)) :
    (∃ out, restore s = .ok out ∧ bytes = toBytes out ∧ n = s.length) ∨ restore s = .error .unfinished ∧ n = 0 := by
  unfold Codec.encode at h
  rw [if_pos rfl] at h
  split at h
  · rename_i out hout
    cases h
    exact .inl ⟨out, hout, rfl, rfl⟩
  · rename_i hout
    cases h
    exact .inr ⟨hout, rfl⟩
  · cases h

/-- Pieces are encoded to the bytes of the whole, if all of it can be encoded. If a call in it does not
end, the pieces before that one are encoded, and the others are held. -/
theorem encodes_pieces (c : Codec) (pieces : List Text) (hpieces : c.reversible = true → Divided pieces) :
    (∀ bytes, c.encode pieces.flatten = .ok (bytes, pieces.flatten.length) →
      Encoder.encodes {} c pieces = (.ok bytes, {})) ∧ (c.encode pieces.flatten = .ok (ByteArray.empty, 0) →
      ∃ front back out, pieces = front ++ back ∧ c.encode front.flatten = .ok (out, front.flatten.length) ∧
        Encoder.encodes {} c pieces = (.ok out, ⟨back.flatten⟩)) := by
  obtain ⟨reversible⟩ := c
  cases reversible with
  | false =>
    rw [encodes_plain]
    refine ⟨fun bytes h => ?_, fun _ => ⟨pieces, [], _, (append_nil _).symm, rfl, rfl⟩⟩
    cases h
    rfl
  | true =>
    have hempty : restore [] = .ok [] := rfl
    have hencodes (hout : outcome (restore pieces.flatten) ≠ none) :=
      @encodes_from [] [] pieces {} [] (hpieces rfl) .nil (.inl rfl) hempty (.inl rfl) hout
    refine ⟨fun bytes h => ?_, fun h => ?_⟩
    · obtain ⟨out, hout, rfl⟩ : ∃ out, restore pieces.flatten = .ok out ∧ bytes = toBytes out := by
        rcases encode_cases h with ⟨out, hout, hbytes, -⟩ | ⟨hout, hlength⟩
        · exact ⟨out, hout, hbytes⟩
        · rw [eq_nil_of_length_eq_zero hlength, hempty] at hout
          cases hout
      obtain ⟨front, back, b, hsame, hfront, henc, hback⟩ := hencodes (by rw [hout]; simp [outcome])
      rcases hback with rfl | hback
      · obtain rfl : pieces = front := hsame.trans (append_nil front)
        cases hout.symm.trans hfront
        exact henc
      · cases hout.symm.trans hback
    · have hout : outcome (restore pieces.flatten) ≠ none := by
        rcases encode_cases h with ⟨out, hout, -⟩ | ⟨hout, -⟩ <;> rw [hout] <;> simp [outcome]
      obtain ⟨front, back, b, hsame, hfront, henc, -⟩ := hencodes hout
      refine ⟨front, back, toBytes b, hsame, ?_, henc⟩
      simp [Codec.encode, hfront]

def cutBlock : List Text :=
  ["if a:\n x = html.PYXL('''<b>".toList, "</b>''', b, 5, 0)\n".toList, " y = [1,\n      2]\n".toList]

theorem cutBlock_divided : Divided cutBlock := by
  refine ⟨by decide +kernel, fun front back hsame hback => ?_⟩
  have hspaced : Spaced cutBlock.flatten := by decide +kernel
  match front with
  | [] => exact .inl ⟨{}, .nil, .inl rfl⟩
  | [p] =>
    obtain ⟨rfl, -⟩ := List.cons.inj hsame
    exact .inr (outcome_eq_unfinished.1 (by decide +kernel))
  | [p, q] =>
    obtain ⟨rfl, htail⟩ := List.cons.inj hsame
    obtain ⟨rfl, -⟩ := List.cons.inj htail
    exact .inl ⟨⟨2, 0, false, [1], none, false⟩, ⟨.inr rfl, rfl, ⟨rfl, rfl, rfl⟩, rfl⟩, .inr hspaced⟩
  | p :: q :: r :: more =>
    have hnone : more = [] ∧ back = [] := by simpa [cutBlock] using congrArg List.length hsame
    exact absurd hnone.2 hback

theorem encodes_cutBlock : Divided cutBlock ∧ Encoder.encodes {} ⟨true⟩ cutBlock =
    (.ok (toBytes "if a:\n x = <b></b>\n y = [1,\n      2]\n".toList), {}) := by
  have hwhole : restore cutBlock.flatten = .ok "if a:\n x = <b></b>\n y = [1,\n      2]\n".toList :=
    outcome_eq_text.1 (by decide +kernel)
  refine ⟨cutBlock_divided, (encodes_pieces ⟨true⟩ cutBlock fun _ => cutBlock_divided).1 _ ?_⟩
  rw [Codec.encode, if_pos rfl, hwhole]

def cutBrackets : List Text := ["x = (1,\n".toList, "     2)\n".toList]

theorem encodes_cutBrackets : Codec.encode ⟨true⟩ cutBrackets.flatten = .ok (toBytes cutBrackets.flatten, 16) ∧
      Encoder.encodes {} ⟨true⟩ cutBrackets = (.ok (toBytes "x = (1,\n     2".toList), {}) ∧
      toBytes "x = (1,\n     2".toList ≠ toBytes cutBrackets.flatten := by
  have hwhole : restore cutBrackets.flatten = .ok cutBrackets.flatten := outcome_eq_text.1 (by decide +kernel)
  have hfirst : restore ([] ++ "x = (1,\n".toList) = .ok "x = (1,\n".toList := outcome_eq_text.1 (by decide +kernel)
  have hsecond : restore ([] ++ "     2)\n".toList) = .ok "     2".toList := outcome_eq_text.1 (by decide +kernel)
  refine ⟨?_, ?_, by decide +kernel⟩
  · rw [Codec.encode, if_pos rfl, hwhole]
    rfl
  · rw [cutBrackets, Encoder.encodes, encode_text hfirst]
    dsimp only
    rw [Encoder.encodes, encode_text hsecond]
    rfl

end Codec

end InlineMarkup

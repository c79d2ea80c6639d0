import InlineMarkup.Proofs.Restoring

/-!
Code further down. Where the rows of a source begin is of no account: tokens that stand some rows
further down are read, replaced and laid out as they are where they stand, only further down. The
rows are named by one fault alone.
-/
namespace InlineMarkup

open List

/-! ### Further down -/

def Pos.down (n : Nat) (p : Pos) : Pos := ⟨p.row + n, p.col⟩

def Token.down (n : Nat) (t : Token) : Token := { t with start := t.start.down n, stop := t.stop.down n }

def Fault.down (n : Nat) : Fault → Fault
  | .rowsReversed row last => .rowsReversed (row + n) (last + n)
  | f => f

section

variable (n : Nat) (t : Token)

@[simp] theorem Pos.down_row (p : Pos) : (p.down n).row = p.row + n := rfl

@[simp] theorem Pos.down_col (p : Pos) : (p.down n).col = p.col := rfl

@[simp] theorem Token.down_kind : (t.down n).kind = t.kind := rfl

@[simp] theorem Token.down_text : (t.down n).text = t.text := rfl

@[simp] theorem Token.down_start : (t.down n).start = t.start.down n := rfl

@[simp] theorem Token.down_stop : (t.down n).stop = t.stop.down n := rfl

end

/-! ### Scanning -/

def OpenString.down (n : Nat) (o : OpenString) : OpenString := { o with start := o.start.down n }

namespace Scan

open Lexeme

def Reading.map (f : Scan → Scan) (g : Token → Token) : Reading → Reading
  | .token t size after => .token (g t) size (f after)
  | .suspended after => .suspended (f after)

theorem readFrom_map {f : Scan → Scan} {g : Token → Token}
    (herror : ∀ (scan : Scan) (text line : Text) (a b : Int), g ⟨.error, text, ⟨scan.row, a⟩, ⟨scan.row, b⟩, line⟩ =
        ⟨.error, text, ⟨(f scan).row, a⟩, ⟨(f scan).row, b⟩, line⟩)
    (hread : ∀ (scan : Scan) (line : Text) (col : Nat) (body : Text) (front : Front) (size : Nat),
      (f scan).read line col body front size = (scan.read line col body front size).map f g)
    (line : Text) (scan : Scan) (col skip : Nat) (s : Text) : readFrom line (f scan) col skip s =
      ((readFrom line scan col skip s).1.map g, f (readFrom line scan col skip s).2) := by
  fun_induction readFrom line scan col skip s with
  | case1 => simp [readFrom]
  | case2 scan col skip c rest ih =>
    rw [readFrom]
    exact ih
  | case3 scan col c rest spacing body hempty =>
    rw [readFrom]
    dsimp only
    rw [if_pos hempty]
    rfl
  | case4 scan col c rest spacing body hempty hfront t more after hrest ih =>
    rw [readFrom]
    dsimp only
    rw [if_neg hempty, hfront]
    rw [hrest] at ih
    dsimp only
    rw [ih, map_cons, herror]
  | case5 scan col c rest spacing body hempty front size hfront after hafter =>
    rw [readFrom]
    dsimp only
    rw [if_neg hempty, hfront]
    dsimp only
    rw [hread, hafter]
    rfl
  | case6 scan col c rest spacing body hempty front size hfront t taken after htoken more final hrest ih =>
    rw [readFrom]
    dsimp only
    rw [if_neg hempty, hfront]
    dsimp only
    rw [hread, htoken]
    rw [hrest] at ih
    dsimp only [Reading.map]
    rw [ih]
    rfl

def down (n : Nat) (scan : Scan) : Scan :=
  { scan with row := scan.row + n, pending := scan.pending.map (OpenString.down n) }

theorem read_down (n : Nat) (scan : Scan) (line : Text) (col : Nat) (body : Text) (front : Front) (size : Nat) :
    (scan.down n).read line col body front size =
      (scan.read line col body front size).map (down n) (Token.down n) := by
  cases front with
  | opening closer =>
    unfold read
    dsimp only
    cases tail? closer (body.drop size) <;>
      simp [Reading.map, Scan.down, Token.down, Pos.down, OpenString.down]
  | lineEnd => rfl
  | _ => simp [read, Reading.map, Scan.down, Token.down, Pos.down, OpenString.down]

theorem readFrom_down (n : Nat) (line : Text) (scan : Scan) (col skip : Nat) (s : Text) :
    readFrom line (scan.down n) col skip s =
      ((readFrom line scan col skip s).1.map (Token.down n), (readFrom line scan col skip s).2.down n) := by
  refine readFrom_map (fun scan text line a b => ?_) (read_down n) line scan col skip s
  simp [Token.down, Pos.down, Scan.down]

def lineDown (n : Nat) (result : List Token × Option Scan) : List Token × Option Scan :=
  (result.1.map (Token.down n), result.2.map (Scan.down n))

theorem finish_down (n : Nat) (scan : Scan) : (scan.down n).finish = scan.finish.map (Token.down n) := by
  simp [finish, Token.down, Pos.down, Scan.down]

theorem statementLine_down (n : Nat) (scan : Scan) (line : Text) :
    (scan.down n).statementLine line = lineDown n (scan.statementLine line) := by
  unfold statementLine
  dsimp only
  split
  · rw [finish_down]
    rfl
  · rename_i c rest hline
    split
    · simp [lineDown, Token.down, Pos.down, Scan.down]
    · split
      · simp [lineDown, Token.down, Pos.down, Scan.down]
      · generalize hindents : (if scan.indents.headD 0 < columnOf (line.take (run isSpacing line)) then
          columnOf (line.take (run isSpacing line)) :: scan.indents
          else scan.indents.drop
            (scan.indents.takeWhile (columnOf (line.take (run isSpacing line)) < ·)).length) = indents
        have hread := readFrom_down n line { scan with indents } (run isSpacing line) 0 (c :: rest)
        have hscan : ({ scan with indents } : Scan).down n = { scan.down n with indents } := rfl
        rw [hscan] at hread
        have hsame : (scan.down n).indents = scan.indents := rfl
        rw [hsame, hindents, hread]
        simp only [lineDown, Option.map_some, map_append, map_map]
        congr 2
        split <;> simp [Token.down, Pos.down, Scan.down, Function.comp_def]

theorem stringLine_down (n : Nat) (scan : Scan) (o : OpenString) (line : Text) :
    (scan.down n).stringLine (o.down n) line = lineDown n (scan.stringLine o line) := by
  unfold stringLine
  dsimp only
  split
  · rfl
  · have hcloser : (o.down n).closer = o.closer := rfl
    rw [hcloser]
    cases tail? o.closer line with
    | some k =>
      dsimp only
      have hread := readFrom_down n line { scan with pending := none, strict := false } 0 k line
      have hscan : ({ scan with pending := none, strict := false } : Scan).down n =
        { scan.down n with pending := none, strict := false } := rfl
      rw [hscan] at hread
      rw [hread]
      rfl
    | none =>
      dsimp only
      have hstrict : (scan.down n).strict = scan.strict := rfl
      rw [hstrict]
      split
      · rfl
      · rfl

def rowAt (scan : Scan) (l : Text) : List Token × Option Scan :=
  match scan.pending with
  | some o => scan.stringLine o l
  | none =>
    if scan.depth = 0 ∧ scan.joined = false then
      if l.isEmpty then (scan.finish, none) else scan.statementLine l
    else if l.isEmpty then ([], none)
    else ((readFrom l { scan with joined := false } 0 0 l).1,
      some (readFrom l { scan with joined := false } 0 0 l).2)

theorem line_eq_rowAt (scan : Scan) (l : Text) :
    scan.line l = ({ scan with row := scan.row + 1 } : Scan).rowAt l := rfl

theorem rowAt_down (n : Nat) (scan : Scan) (l : Text) : (scan.down n).rowAt l = lineDown n (scan.rowAt l) := by
  obtain ⟨row, depth, joined, indents, pending, strict⟩ := scan
  cases pending with
  | some o => exact stringLine_down n ⟨row, depth, joined, indents, some o, strict⟩ o l
  | none =>
    change rowAt ⟨row + n, depth, joined, indents, none, strict⟩ l = _
    unfold rowAt
    dsimp only
    by_cases houter : depth = 0 ∧ joined = false
    · rw [if_pos houter, if_pos houter]
      by_cases hempty : l.isEmpty
      · rw [if_pos hempty, if_pos hempty]
        exact congrArg (·, none) (finish_down n ⟨row, depth, joined, indents, none, strict⟩)
      · rw [if_neg hempty, if_neg hempty]
        exact statementLine_down n ⟨row, depth, joined, indents, none, strict⟩ l
    · rw [if_neg houter, if_neg houter]
      by_cases hempty : l.isEmpty
      · rw [if_pos hempty, if_pos hempty]
        rfl
      · have hread := readFrom_down n l ⟨row, depth, false, indents, none, strict⟩ 0 0 l
        dsimp only [Scan.down, Option.map_none] at hread
        rw [if_neg hempty, if_neg hempty, hread]
        rfl

theorem line_down (n : Nat) (scan : Scan) (l : Text) : (scan.down n).line l = lineDown n (scan.line l) := by
  have hrow : ({ scan.down n with row := (scan.down n).row + 1 } : Scan) =
      ({ scan with row := scan.row + 1 } : Scan).down n := by
    simp [Scan.down, Nat.add_right_comm]
  rw [line_eq_rowAt, line_eq_rowAt, hrow, rowAt_down]

theorem all_down (n : Nat) (scan : Scan) (ls : List Text) :
    (scan.down n).all ls = (scan.all ls).map (Token.down n) := by
  induction ls generalizing scan with
  | nil =>
    rw [all, all, line_down]
    rfl
  | cons l rest ih =>
    rw [all, all, line_down]
    cases hline : scan.line l with
    | mk ts after =>
      cases after with
      | none => rfl
      | some after =>
        dsimp only [lineDown, Option.map_some]
        rw [ih, map_append]

end Scan

/-! ### Laying out -/

/-- What may fail comes to related results, or fails with the same fault, perhaps some rows further
down. -/
inductive Down (n : Nat) {α β : Type} (R : α → β → Prop) : Except Fault α → Except Fault β → Prop where
  | ok {a : α} {b : β} (h : R a b) : Down n R (.ok a) (.ok b)
  | error {f g : Fault} (h : g = f ∨ g = f.down n) : Down n R (.error f) (.error g)

namespace Down

variable {n : Nat} {α β γ δ : Type} {R : α → β → Prop} {S : γ → δ → Prop}

variable {x : Except Fault α} {y : Except Fault β}

theorem bind {g : α → Except Fault γ} {h : β → Except Fault δ} (hxy : Down n R x y)
    (hgh : ∀ a b, R a b → Down n S (g a) (h b)) : Down n S (x >>= g) (y >>= h) := by
  cases hxy with
  | ok hab => exact hgh _ _ hab
  | error h => exact .error h

theorem map {g : α → γ} {h : β → δ} (hxy : Down n R x y)
    (hgh : ∀ a b, R a b → S (g a) (h b)) : Down n S (x.map g) (y.map h) := by
  cases hxy with
  | ok hab => exact .ok (hgh _ _ hab)
  | error h => exact .error h

theorem refl (x : Except Fault α) : Down n Eq x x := by
  cases x with
  | ok a => exact .ok rfl
  | error f => exact .error (.inl rfl)

theorem mapM {f : α → Except Fault γ} {g : β → Except Fault γ} {k : α → β} (h : ∀ a, Down n Eq (f a) (g (k a)))
    (xs : List α) : Down n Eq (xs.mapM f) ((xs.map k).mapM g) := by
  induction xs with
  | nil => exact .ok rfl
  | cons x rest ih =>
    rw [map_cons, mapM_cons, mapM_cons]
    refine (h x).bind fun a b hab => ih.bind fun as bs hrest => ?_
    rw [hab, hrest]
    exact .ok rfl

end Down

namespace Layout

variable (n : Nat)

theorem gap_down (p q : Pos) : gap (p.down n) (q.down n) = gap p q := by
  simp [gap]

theorem origin_down (last : Option Pos) (t : Token) :
    origin (last.map (Pos.down n)) (t.down n) = (origin last t).down n := by
  have hlast : (last.map (Pos.down n)).getD (t.down n).start = (last.getD t.start).down n := by
    cases last <;> rfl
  unfold origin
  rw [hlast, Token.down_kind]
  by_cases hend : t.kind.isLineEnd = true
  · rw [if_pos hend, if_pos hend]
    rfl
  · rw [if_neg hend, if_neg hend]

theorem after_down (t : Token) : after (t.down n) = (after t).down n := by
  unfold after
  rw [Token.down_kind]
  split
  · simp [Pos.down, Token.down, add_right_comm]
  · rfl

theorem text_down (last : Option Pos) (ts : List Token) :
    Down n Eq (text last ts) (text (last.map (Pos.down n)) (ts.map (Token.down n))) := by
  induction ts generalizing last with
  | nil => exact .ok rfl
  | cons t rest ih =>
    rw [map_cons, text, text, origin_down, after_down, Token.down_start, Pos.down_row, Pos.down_row, gap_down]
    by_cases hrow : t.start.row < (origin last t).row
    · rw [if_pos hrow, if_pos (by omega)]
      exact .error (.inr rfl)
    · rw [if_neg hrow, if_neg (by omega)]
      refine (ih (some (after t))).map fun a b hab => ?_
      rw [hab]
      rfl

theorem stripped_down (ts : List Token) : Down n Eq (stripped ts) (stripped (ts.map (Token.down n))) := by
  refine (text_down n none ts).map fun a b hab => ?_
  rw [hab]

end Layout

/-! ### Restoring -/

namespace Restore

variable (n : Nat)

def Call.down (call : Call) : Call where
  start := call.start.down n
  depth := call.depth
  arguments := call.arguments.map (List.map (Token.down n))
  current := call.current.map (Token.down n)

def State.down (before : Array Token) (s : State) : State where
  saved := s.saved.map (Token.down n)
  depth := s.depth
  calls := s.calls.map (Call.down n)
  made := before ++ s.made.map (Token.down n)

def Arguments.down (a : Arguments) : Arguments where
  format := a.format.map (Token.down n)
  column := a.column.map (Token.down n)
  columns := a.columns.map (List.map (Token.down n))
  fragments := a.fragments.map (List.map (Token.down n))

theorem ofList_down (arguments : List (List Token)) : Down n (fun a b => b = a.down n) (Arguments.ofList arguments)
      (Arguments.ofList (arguments.map (List.map (Token.down n)))) := by
  match arguments with
  | [] => exact .error (.inl rfl)
  | [_] => exact .error (.inl rfl)
  | [_, _] => exact .error (.inl rfl)
  | [_, _, _] => exact .error (.inl rfl)
  | a :: b :: c :: d :: rest =>
    refine .ok ?_
    simp [Arguments.down]

theorem dropComments_down (ts : List Token) :
    Token.dropComments (ts.map (Token.down n)) = (Token.dropComments ts).map (Token.down n) := by
  unfold Token.dropComments
  rw [filter_map]
  rfl

theorem leading?_down (ts : List Token) :
    Token.leading? (ts.map (Token.down n)) = (Token.leading? ts).map (Token.down n) := by
  unfold Token.leading?
  rw [find?_map, head?_map, Option.map_or]
  rfl

theorem argumentText_down (ts : List Token) :
    Down n Eq (argumentText ts) (argumentText (ts.map (Token.down n))) := by
  unfold argumentText
  rw [dropComments_down]
  exact Layout.stripped_down n _

theorem integer_down (ts : List Token) : Down n Eq (integer ts) (integer (ts.map (Token.down n))) := by
  refine (argumentText_down n ts).bind fun a b hab => ?_
  subst hab
  exact Down.refl _

theorem leading_down (ts : List Token) :
    Down n (fun a b => b = a.down n) (leading ts) (leading (ts.map (Token.down n))) := by
  unfold leading
  rw [leading?_down]
  cases Token.leading? ts with
  | none => exact .error (.inl rfl)
  | some t => exact .ok rfl

theorem fragment_down (ts : List Token) (was is : Int) :
    Down n Eq (fragment ts was is) (fragment (ts.map (Token.down n)) was is) := by
  refine (Layout.stripped_down n ts).bind fun a b hab => ?_
  subst hab
  exact Down.refl _

theorem fragments_down (fs : List (List Token)) (was is : List Int) :
    Down n Eq (fragments fs was is) (fragments (fs.map (List.map (Token.down n))) was is) := by
  induction fs generalizing was is with
  | nil => exact .ok rfl
  | cons f rest ih =>
    match was, is with
    | [], _ => exact .ok rfl
    | _ :: _, [] => exact .ok rfl
    | w :: ws, i :: more =>
      refine (fragment_down n f w i).bind fun a b hab => (ih ws more).bind fun as bs hrest => ?_
      rw [hab, hrest]
      exact .ok rfl

def replacement (start literalStart : Pos) (close : Token) (args : Arguments) (was is : List Int)
    (literal : Literal) (column : Int) (apart : Bool) : Except Fault (List Token) := do
  let newStart := if apart then literalStart else start
  let texts ← fragments args.fragments was is
  let format ← formatText literal
  let markup ← Text.format format texts
  let firstLine ← Text.format ((Text.splitAt '\n' format).headD []) texts
  let moved ← Indentation.tryMove markup (newStart.col - column) (some column)
    (Text.tally '\n' firstLine + 1)
  if apart then
    let stop := ((args.format.getLast?).map (·.stop)).getD literalStart
    let stop := if stop.row < close.start.row - 1 then ⟨close.start.row - 1, stop.col⟩ else stop
    pure [{ kind := .op, text := ['('], start, stop := start, line := [] },
      { kind := .string, text := moved, start := literalStart, stop, line := [] }, close]
  else pure [{ kind := .string, text := moved, start := newStart, stop := close.stop, line := [] }]

theorem callTokens_eq (start : Pos) (depth : Int) (close : Token) (arguments : List (List Token)) :
    callTokens start depth close arguments = (do
      let args ← Arguments.ofList arguments
      let was ← args.columns.mapM integer
      let is ← args.fragments.mapM fun f => do pure (← leading (Token.dropComments f)).start.col
      let literal ← Literal.read (← argumentText args.format)
      let column ← integer args.column
      let literalStart := (← leading args.format).start
      let apart ←
        if depth = 0 ∧ start.row ≠ literalStart.row then literal.hasNewline else pure false
      replacement start literalStart close args was is literal column apart) := rfl

theorem replacement_down (start literalStart : Pos) (close : Token) (args : Arguments) (was is : List Int)
    (literal : Literal) (column : Int) (apart : Bool) : Down n (fun a b => b = a.map (Token.down n))
      (replacement start literalStart close args was is literal column apart)
      (replacement (start.down n) (literalStart.down n) (close.down n) (args.down n) was is literal column
        apart) := by
  have hcol : (if apart = true then literalStart.down n else start.down n).col =
      (if apart = true then literalStart else start).col := by
    cases apart <;> rfl
  unfold replacement
  dsimp only
  refine (fragments_down n args.fragments was is).bind fun texts _ htexts => ?_
  subst htexts
  refine (Down.refl (formatText literal)).bind fun format _ hformat => ?_
  subst hformat
  refine (Down.refl (Text.format format texts)).bind fun markup _ hmarkup => ?_
  subst hmarkup
  refine (Down.refl (Text.format ((Text.splitAt '\n' format).headD []) texts)).bind fun first _ hfirst => ?_
  subst hfirst
  rw [hcol]
  refine (Down.refl _).bind fun moved _ hmoved => ?_
  subst hmoved
  cases apart with
  | false => exact .ok rfl
  | true =>
    have hlast : (((args.down n).format.getLast?).map (·.stop)).getD (literalStart.down n) =
        (((args.format.getLast?).map (·.stop)).getD literalStart).down n := by
      rw [Arguments.down, getLast?_map]
      cases args.format.getLast? <;> rfl
    rw [if_pos rfl, if_pos rfl, hlast]
    generalize ((args.format.getLast?).map (·.stop)).getD literalStart = stop
    refine .ok ?_
    by_cases hrow : stop.row < close.start.row - 1
    · rw [if_pos hrow, if_pos (by simp; omega)]
      simp [Token.down, Pos.down, sub_eq_add_neg, add_right_comm]
    · rw [if_neg hrow, if_neg (by simp; omega)]
      simp [Token.down]

theorem callTokens_down (start : Pos) (depth : Int) (close : Token) (arguments : List (List Token)) :
    Down n (fun a b => b = a.map (Token.down n)) (callTokens start depth close arguments)
      (callTokens (start.down n) depth (close.down n) (arguments.map (List.map (Token.down n)))) := by
  rw [callTokens_eq, callTokens_eq]
  refine (ofList_down n arguments).bind fun args _ hargs => ?_
  subst hargs
  refine (Down.mapM (integer_down n) args.columns).bind fun was _ hwas => ?_
  subst hwas
  refine Down.bind (R := Eq) (Down.mapM (fun f => ?_) args.fragments) fun is _ his => ?_
  · rw [dropComments_down]
    refine (leading_down n _).bind fun t _ ht => ?_
    subst ht
    exact .ok rfl
  subst his
  refine (argumentText_down n args.format).bind fun text _ htext => ?_
  subst htext
  refine (Down.refl (InlineMarkup.Literal.read text)).bind fun literal _ hliteral => ?_
  subst hliteral
  refine (integer_down n args.column).bind fun column _ hcolumn => ?_
  subst hcolumn
  refine (leading_down n args.format).bind fun t _ ht => ?_
  subst ht
  have hplace : (depth = 0 ∧ (start.down n).row ≠ (t.down n).start.row) ↔
      (depth = 0 ∧ start.row ≠ t.start.row) := by
    simp
  simp only [hplace]
  split
  · refine (Down.refl literal.hasNewline).bind fun apart _ hapart => ?_
    subst hapart
    exact replacement_down n start t.start close args was is literal column apart
  · exact replacement_down n start t.start close args was is literal column false

theorem isBracket_down (t : Token) (brackets : Text) : isBracket (t.down n) brackets = isBracket t brackets :=
  rfl

theorem turn_down (t : Token) : turn (t.down n) = turn t := rfl

theorem goesOn_down (saved : List Token) (t : Token) :
    goesOn (saved.map (Token.down n)) (t.down n) = goesOn saved t := by
  match saved with
  | [] => rfl
  | [_] => rfl
  | [_, _] => rfl
  | _ :: _ :: _ :: _ => rfl

section

variable (before : Array Token)

theorem add_down (s : State) (ts : List Token) :
    (s.down n before).add (ts.map (Token.down n)) = (s.add ts).down n before := by
  obtain ⟨saved, depth, calls, made⟩ := s
  cases calls with
  | nil => simp [State.add, State.down]
  | cons call rest => simp [State.add, State.down, Call.down]

inductive NextDown : Next → Next → Prop where
  | ok (s : State) : NextDown (.ok s) (.ok (s.down n before))
  | stop (made : Array Token) : NextDown (.error (made, none)) (.error (before ++ made.map (Token.down n), none))
  | fault (made : Array Token) {f g : Fault} (h : g = f ∨ g = f.down n) :
      NextDown (.error (made, some f)) (.error (before ++ made.map (Token.down n), some g))

theorem collected_down (call : Call) : (call.down n).collected = call.collected.map (List.map (Token.down n)) := by
  unfold Call.collected Call.down
  by_cases h : call.current = #[] <;> simp [h]

theorem plainToken_down {s : State} (hsaved : s.saved = []) (t : Token) :
    NextDown n before (plainToken s t) (plainToken (s.down n before) (t.down n)) := by
  have hdown : (s.down n before).saved = [] := by simp [State.down, hsaved]
  rw [plainToken_eq hsaved, plainToken_eq hdown, isBracket_down, turn_down]
  have hadd (calls : List Call) (depth : Int) (ts : List Token) :
      NextDown n before (.ok (State.add ⟨[], depth, calls, s.made⟩ ts))
        (.ok (State.add ⟨[], depth, calls.map (Call.down n), (s.down n before).made⟩
          (ts.map (Token.down n)))) := by
    have hsame := add_down n before ⟨[], depth, calls, s.made⟩ ts
    have hnext := @NextDown.ok n before (State.add ⟨[], depth, calls, s.made⟩ ts)
    rwa [← hsame] at hnext
  have hdepth : (s.down n before).depth = s.depth := rfl
  have hcalls : (s.down n before).calls = s.calls.map (Call.down n) := rfl
  rw [hdepth, hcalls]
  cases s.calls with
  | nil =>
    dsimp only [map_nil]
    split
    · exact .stop _
    · exact hadd [] _ [t]
  | cons call rest =>
    rw [map_cons]
    dsimp only
    have hplace : (call.down n).depth = call.depth := rfl
    have hcomma : (t.down n).isOp [','] = t.isOp [','] := rfl
    rw [hplace, hcomma, collected_down]
    by_cases hclose : isBracket t "\x7d)]".toList = true ∧ s.depth + turn t = call.depth
    · rw [if_pos hclose, if_pos hclose]
      have htokens := callTokens_down n call.start (s.depth + turn t) t call.collected
      have hstart : (call.down n).start = call.start.down n := rfl
      rw [hstart]
      generalize callTokens call.start (s.depth + turn t) t call.collected = x at htokens ⊢
      generalize callTokens (call.start.down n) (s.depth + turn t) (t.down n)
        (call.collected.map (List.map (Token.down n))) = y at htokens ⊢
      cases htokens with
      | ok h =>
        subst h
        exact hadd rest _ _
      | error h => exact .fault _ h
    rw [if_neg hclose, if_neg hclose]
    by_cases hstop : isBracket t "\x7d)]".toList = true ∧ s.depth + turn t < 0
    · rw [if_pos hstop, if_pos hstop]
      exact .stop _
    rw [if_neg hstop, if_neg hstop]
    by_cases hsep : t.isOp [','] = true ∧ s.depth + turn t = call.depth + 1
    · rw [if_pos hsep, if_pos hsep]
      have hcall : (call.down n).separated = call.separated.down n := by
        simp [Call.separated, Call.down]
      rw [hcall]
      exact .ok ⟨[], s.depth + turn t, call.separated :: rest, s.made⟩
    · rw [if_neg hsep, if_neg hsep]
      exact hadd (call :: rest) _ [t]

theorem step_down (s : State) (t : Token) : NextDown n before (step s t) (step (s.down n before) (t.down n)) := by
  have hplain : NextDown n before (plainToken s.flush t) (plainToken (s.down n before).flush (t.down n)) := by
    have hflush : (s.down n before).flush = s.flush.down n before :=
      add_down n before { s with saved := [] } s.saved
    rw [hflush]
    exact plainToken_down n before (flush_saved s) t
  obtain ⟨saved, depth, calls, made⟩ := s
  change NextDown n before _ (step ⟨saved.map (Token.down n), depth, calls.map (Call.down n),
    before ++ made.map (Token.down n)⟩ (t.down n))
  unfold step
  dsimp only
  rw [goesOn_down]
  by_cases hgo : goesOn saved t = true
  · rw [if_pos hgo, if_pos hgo]
    have hnext := @NextDown.ok n before ⟨saved ++ [t], depth, calls, made⟩
    rwa [State.down, map_append] at hnext
  rw [if_neg hgo, if_neg hgo]
  match saved with
  | [] => exact hplain
  | [_] => exact hplain
  | [_, _] => exact hplain
  | [a, b, c] =>
    have hsame : (t.down n).isOp ['('] = t.isOp ['('] := rfl
    rw [map_cons, map_cons, map_cons, map_nil]
    dsimp only
    rw [hsame]
    by_cases hopen : t.isOp ['('] = true
    · rw [if_pos hopen, if_pos hopen]
      have hnext := @NextDown.ok n before
        ⟨[], depth + 1, { start := a.start, depth := depth } :: calls, made⟩
      simpa [State.down, Call.down] using hnext
    · rw [if_neg hopen, if_neg hopen]
      exact hplain
  | _ :: _ :: _ :: _ :: _ => exact hplain

theorem run_down (s : State) (ts : List Token) :
    (run (s.down n before) (ts.map (Token.down n))).1 = before ++ (run s ts).1.map (Token.down n) ∧
      ((run s ts).2 = none ∧ (run (s.down n before) (ts.map (Token.down n))).2 = none ∨
        ∃ f g, (run s ts).2 = some f ∧ (run (s.down n before) (ts.map (Token.down n))).2 = some g ∧
          (g = f ∨ g = f.down n)) := by
  induction ts generalizing s with
  | nil =>
    rw [map_nil, run, run]
    have hcalls : (s.down n before).calls.isEmpty = s.calls.isEmpty := by
      cases hcalls : s.calls <;> simp [State.down, hcalls]
    refine ⟨rfl, ?_⟩
    rw [hcalls]
    cases s.calls.isEmpty with
    | true => exact .inl ⟨rfl, rfl⟩
    | false => exact .inr ⟨_, _, rfl, rfl, .inl rfl⟩
  | cons t rest ih =>
    rw [map_cons, run, run]
    have hstep := step_down n before s t
    generalize step s t = x at hstep ⊢
    generalize step (s.down n before) (t.down n) = y at hstep ⊢
    cases hstep with
    | ok s' => exact ih s'
    | stop made => exact ⟨rfl, .inl ⟨rfl, rfl⟩⟩
    | fault made h => exact ⟨rfl, .inr ⟨_, _, rfl, rfl, h⟩⟩

end

end Restore

end InlineMarkup

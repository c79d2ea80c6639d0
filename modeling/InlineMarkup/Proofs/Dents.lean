import InlineMarkup.Proofs.Fronts
import InlineMarkup.Proofs.RowShift
import InlineMarkup.Proofs.SourceTiles

/-!
Changes of indentation. The tokens that tell them stand before a token at the beginning of a
statement, outside all brackets, and hold no more than the spaces before it. Main statement: without
them the same text is restored.
-/
namespace InlineMarkup

open Lexeme Text List

def Kind.isDent : Kind → Bool
  | indent | dedent => true
  | _ => false

def bare (ts : List Token) : List Token := ts.filter fun t => !t.kind.isDent

theorem bare_append (xs ys : List Token) : bare (xs ++ ys) = bare xs ++ bare ys := filter_append _ _

variable {ds : List Token}

theorem bare_of_dents (h : ∀ d ∈ ds, d.kind.isDent = true) : bare ds = [] := by
  rw [bare, filter_eq_nil_iff]
  intro d hd
  simp [h d hd]

theorem depthAfter_dents (h : ∀ d ∈ ds, d.kind.isDent = true) : Restore.depthAfter ds = 0 := by
  have hnone (some : Text) : ds.countP (Restore.isBracket · some) = 0 := by
    refine countP_eq_zero.2 fun d hd => ?_
    have hkind := h d hd
    cases hd : d.kind <;> simp_all [Kind.isDent, Restore.isBracket]
  rw [Restore.depthAfter, hnone, hnone]
  rfl

def Dents (q : Pos) (spacing : Text) (ds : List Token) : Prop :=
  ∃ ins outs, ds = ins ++ outs ∧
    (ins = [] ∨ ∃ t, ins = [t] ∧ t.kind = .indent ∧ t.text = spacing ∧ t.start = ⟨q.row, 0⟩ ∧ t.stop = q) ∧
    ∀ d ∈ outs, d.kind = .dedent ∧ d.text = [] ∧ d.start = q ∧ d.stop = q

theorem Dents.isDent {q : Pos} {spacing : Text} (h : Dents q spacing ds) : ∀ d ∈ ds, d.kind.isDent = true := by
  obtain ⟨ins, outs, rfl, hins, houts⟩ := h
  intro d hd
  rcases mem_append.1 hd with hd | hd
  · rcases hins with rfl | ⟨t, rfl, hkind, -⟩
    · cases hd
    · rw [mem_singleton.1 hd, hkind]
      rfl
  · rw [(houts d hd).1]
    rfl

namespace Scan

/-! ### Open indentations

Only the changes of indentation depend on the indentations that are open. -/

def within (scan : Scan) (indents : List Nat) : Scan := { scan with indents }

theorem readFrom_within (indents : List Nat) (line : Text) (scan : Scan) (col skip : Nat) (s : Text) :
    readFrom line (scan.within indents) col skip s =
      ((readFrom line scan col skip s).1, (readFrom line scan col skip s).2.within indents) := by
  have hread (scan : Scan) (line : Text) (col : Nat) (body : Text) (front : Front) (size : Nat) :
      (scan.within indents).read line col body front size =
        (scan.read line col body front size).map (within · indents) id := by
    cases front with
    | opening closer =>
      unfold read
      dsimp only
      cases tail? closer (body.drop size) <;> rfl
    | _ => rfl
  have hmap := readFrom_map (fun _ _ _ _ _ => rfl) hread line scan col skip s
  rwa [map_id] at hmap

theorem stringLine_within (indents : List Nat) (scan : Scan) (o : OpenString) (l : Text) :
    (scan.within indents).stringLine o l =
      ((scan.stringLine o l).1, (scan.stringLine o l).2.map (within · indents)) := by
  unfold stringLine
  dsimp only
  split
  · rfl
  · cases tail? o.closer l with
    | some n =>
      have hread := readFrom_within indents l { scan with pending := none, strict := false } 0 n l
      have hscan : ({ scan with pending := none, strict := false } : Scan).within indents =
        { scan.within indents with pending := none, strict := false } := rfl
      rw [hscan] at hread
      dsimp only
      rw [hread]
      rfl
    | none =>
      dsimp only
      have hstrict : (scan.within indents).strict = scan.strict := rfl
      rw [hstrict]
      split <;> rfl

theorem bare_finish (scan : Scan) (indents : List Nat) : bare (scan.within indents).finish = bare scan.finish := by
  have hdents (more : List Nat) :
      bare (more.map fun _ => (⟨.dedent, [], ⟨scan.row, 0⟩, ⟨scan.row, 0⟩, []⟩ : Token)) = [] := by
    refine bare_of_dents fun d hd => ?_
    obtain ⟨-, -, rfl⟩ := mem_map.1 hd
    rfl
  exact (bare_append _ _).trans ((congrArg (· ++ _) ((hdents indents).trans (hdents scan.indents).symm)).trans
    (bare_append _ _).symm)

theorem statementLine_read (scan : Scan) {l : Text} {c : Char} {rest : Text}
    (hdrop : l.drop (run isSpacing l) = c :: rest) (hc : c ≠ '#' ∧ c ≠ '\r' ∧ c ≠ '\n') :
    ∃ ds more, Dents ⟨scan.row, run isSpacing l⟩ (l.take (run isSpacing l)) ds ∧
      scan.statementLine l = (ds ++ (readFrom l scan (run isSpacing l) 0 (c :: rest)).1,
        some ((readFrom l scan (run isSpacing l) 0 (c :: rest)).2.within more)) := by
  unfold statementLine
  dsimp only
  rw [hdrop]
  dsimp only
  rw [if_neg hc.1, if_neg (not_or.2 hc.2)]
  have hread (more : List Nat) := readFrom_within more l scan (run isSpacing l) 0 (c :: rest)
  rw [show ∀ more, (⟨scan.row, scan.depth, scan.joined, more, scan.pending, scan.strict⟩ : Scan) =
    scan.within more from fun _ => rfl, hread]
  refine ⟨_, _, ⟨_, _, rfl, ?_, ?_⟩, rfl⟩
  · split
    · exact .inr ⟨_, rfl, rfl, by simp, rfl, rfl⟩
    · exact .inl rfl
  · intro d hd
    obtain ⟨-, -, rfl⟩ := mem_map.1 hd
    exact ⟨rfl, by simp, rfl, rfl⟩

/-! ### What a line is read as -/

variable {c : Char} {s line body l : Text} {t : Token} {scan after : Scan} {col size : Nat} {front : Front}
  {ts : List Token}

variable {more : Text} {taken : Nat}

theorem mem_of_occurs (h : occurs (c :: more) s = true) : c ∈ s := by
  induction s with
  | nil => cases h
  | cons d rest ih =>
    rw [occurs, Bool.or_eq_true, List.isPrefixOf, Bool.and_eq_true, beq_iff_eq] at h
    rcases h with ⟨rfl, -⟩ | h
    · exact mem_cons_self
    · exact mem_cons_of_mem _ (ih h)

def brackets : Text := ['(', '[', '\x7b', ')', ']', '\x7d']

theorem turn_of_head (htext : t.text = c :: more) (hc : c ∉ brackets) : Restore.turn t = 0 := by
  have hnone {some : Text} (hsome : ∀ d ∈ some, d ∈ brackets) : Restore.isBracket t some = false := by
    rw [Restore.isBracket, htext, Bool.and_eq_false_iff]
    exact .inr (Bool.eq_false_iff.2 fun h => hc (hsome c (mem_of_occurs h)))
  rw [Restore.turn, hnone (by simp [brackets]), hnone (by simp [brackets])]
  rfl

theorem read_depth (hfront : front? body = some (front, size))
    (h : scan.read line col body front size = .token t taken after) :
    after.depth = scan.depth + Restore.turn t := by
  have hreach := front?_reaches hfront
  have hpos := hreach.pos
  obtain ⟨c, rest, rfl⟩ := exists_cons_of_length_pos (hpos.trans_le hreach.le)
  by_cases hc : c ∈ brackets
  · have hsep : c ∈ separators := by
      revert hc
      simp only [brackets, separators, mem_cons]
      tauto
    rw [front?_separator hsep] at hfront
    cases hfront
    cases h
    simp only [brackets, mem_cons, not_mem_nil, or_false] at hc
    rcases hc with rfl | rfl | rfl | rfl | rfl | rfl <;> rfl
  · have hcount (depth : Int) : depthAfter depth (c :: rest) = depth := by
      simp only [brackets, mem_cons, not_mem_nil, or_false, not_or] at hc
      simp [depthAfter, hc]
    obtain ⟨k, rfl⟩ : ∃ k, size = k + 1 := ⟨size - 1, by omega⟩
    unfold Scan.read at h
    cases front with
    | openString closer => cases h
    | opening closer =>
      dsimp only at h
      split at h
      · cases h
        rw [turn_of_head (by rw [Nat.add_right_comm]; rfl) hc, Int.add_zero]
      · cases h
    | joined =>
      cases h
      exact (Int.add_zero _).symm
    | symbol =>
      cases h
      rw [turn_of_head rfl hc, Int.add_zero]
      exact hcount _
    | comment | number | lineEnd | string | name =>
      cases h
      rw [turn_of_head rfl hc, Int.add_zero]

structure Reads (scan : Scan) (s : Text) (ts : List Token) (after : Scan) : Prop where
  row : after.row = scan.row
  tokens : ∀ t ∈ ts, t.kind.isDent = false ∧ t.stop.row = scan.row
  depth : after.depth = scan.depth + Restore.depthAfter ts
  joined : after.joined = true → after.pending = none ∧ s.getLast? = some '\n'
  /-- A row that is ended, and leaves no string open, ends with a line end, a joint to the next row or a
  string that it spoils. -/
  last : s.getLast? = some '\n' → after.pending = none → ∃ init t, ts = init ++ [t] ∧
    (t.kind.isLineEnd = true ∨ t.isOp ['\\'] = true ∧ after.joined = true ∨ t.kind = .error ∧ after.strict = true)

theorem read_kind (h : scan.read line col body front size = .token t taken after) :
    (t.kind.isDent = false ∧ t.kind ≠ .endMarker) ∧ (after.joined = scan.joined ∧ t.text = body.take taken ∨
      front = .joined ∧ after.joined = true ∧ t.isOp ['\\'] = true ∧ taken = size) := by
  unfold Scan.read at h
  cases front with
  | openString closer => cases h
  | opening closer =>
    dsimp only at h
    split at h <;> cases h
    exact ⟨⟨rfl, nofun⟩, .inl ⟨rfl, rfl⟩⟩
  | joined =>
    cases h
    exact ⟨⟨rfl, nofun⟩, .inr ⟨rfl, rfl, rfl, rfl⟩⟩
  | number =>
    cases h
    refine ⟨?_, .inl ⟨rfl, rfl⟩⟩
    dsimp only [numberKind]
    split <;> [split; skip] <;> decide
  | lineEnd =>
    cases h
    refine ⟨?_, .inl ⟨rfl, rfl⟩⟩
    dsimp only
    split <;> decide
  | comment | symbol | string | name =>
    cases h
    exact ⟨⟨rfl, nofun⟩, .inl ⟨rfl, rfl⟩⟩

theorem read_suspended_kept (h : scan.read line col body front size = .suspended after) :
    after.depth = scan.depth ∧ after.joined = scan.joined := by
  obtain ⟨_, _, rfl, -⟩ := read_suspended_eq h
  exact ⟨rfl, rfl⟩

theorem Reads.cons {mid final : Scan} {u : Text}
    (h : Reads mid u ts final) (hrow : mid.row = scan.row) (hkind : t.kind.isDent = false)
    (hstop : t.stop.row = scan.row) (hdepth : mid.depth = scan.depth + Restore.turn t)
    (hu : u.getLast? = some '\n' → s.getLast? = some '\n') (hs : s.getLast? = some '\n' → u.getLast? = some '\n' ∨
      ts = [] ∧ (t.kind.isLineEnd = true ∨ t.isOp ['\\'] = true ∧ final.joined = true)) :
    Reads scan s (t :: ts) final := by
  refine ⟨h.row.trans hrow, ?_, ?_, fun hjoined => (h.joined hjoined).imp_right hu, fun hlast hpending => ?_⟩
  · rintro v hv
    rcases mem_cons.1 hv with rfl | hv
    · exact ⟨hkind, hstop⟩
    · exact hrow ▸ h.tokens v hv
  · have hone : Restore.depthAfter [t] = Restore.turn t := by
      rw [← nil_append [t], Restore.depthAfter_concat, Restore.depthAfter_nil, Int.zero_add]
    rw [h.depth, hdepth, ← singleton_append, Restore.depthAfter_both, hone, Int.add_assoc]
  · rcases hs hlast with hu | ⟨rfl, ht⟩
    · obtain ⟨init, v, rfl, hv⟩ := h.last hu hpending
      exact ⟨t :: init, v, rfl, hv⟩
    · exact ⟨[], t, rfl, ht.imp_right .inl⟩

theorem readFrom_reads (line : Text) (scan : Scan) (col skip : Nat) (s : Text) (hline : SingleLine s)
    (hpending : scan.pending = none) (hjoined : scan.joined = false) :
    Reads scan (s.drop skip) (readFrom line scan col skip s).1 (readFrom line scan col skip s).2 := by
  fun_induction readFrom line scan col skip s with
  | case1 => exact ⟨rfl, by simp, by simp [Restore.depthAfter_nil], by simp [hjoined], by simp⟩
  | case2 scan col skip c rest ih => exact ih (by simpa using hline.drop 1) hpending hjoined
  | case3 scan col c rest spacing body hempty =>
    refine ⟨rfl, by simp, by simp [Restore.depthAfter_nil], by simp [hjoined], fun hlast _ => ?_⟩
    -- nothing but spacing does not end with a newline
    have hall := spacing_take_run (c :: rest)
    rw [take_of_length_le (drop_eq_nil_iff.1 (isEmpty_iff.1 hempty))] at hall
    exact absurd rfl (spacing_noNewline hall _ (mem_of_getLast? hlast))
  | case4 scan col c rest spacing body hempty hfront t more after hrest ih =>
    rw [hrest] at ih
    have hc : c ≠ '\n' := ne_newline_of_front?_eq_none hfront
    refine (ih (by simpa using hline.drop 1) hpending hjoined).cons rfl rfl rfl ?_ (fun h => ?_) fun h => .inl ?_
    · simp [t, Restore.turn, Restore.isBracket]
    · rw [drop_zero] at h
      rw [drop_zero, getLast?_cons, h]
      rfl
    · cases rest with
      | nil => exact absurd (by simpa using h) hc
      | cons d more => simpa using h
  | case5 scan col c rest spacing body hempty front size hfront after hread =>
    obtain ⟨hdepth, hkept⟩ := read_suspended_kept hread
    obtain ⟨⟨closer, -, hopen⟩, hrow⟩ := read_suspended (front?_reaches hfront) hread
    refine ⟨hrow, by simp, by simp [hdepth, Restore.depthAfter_nil], ?_, ?_⟩
    · simp [hkept, hjoined]
    · simp [hopen]
  | case6 scan col c rest spacing body hempty front size hfront t taken after hread more final hrest ih =>
    rw [hrest] at ih
    obtain ⟨⟨hkind, -⟩, hjoint⟩ := read_kind hread
    obtain ⟨-, hstop, hpos, hle, hspells, hrow, hkept⟩ := read_token (hline.drop _) (front?_reaches hfront) hread
    have hdrop : rest.drop (spacing + taken - 1) = body.drop taken := by
      obtain ⟨k, hk⟩ : ∃ k, spacing + taken = k + 1 := ⟨spacing + taken - 1, by omega⟩
      rw [drop_drop, hk, drop_succ_cons, Nat.add_sub_cancel]
    have hstopRow : t.stop.row = scan.row := by rw [hstop]
    have hbody : body ≠ [] := by simpa using hempty
    have hlast : (c :: rest).getLast? = body.getLast? := by
      conv_lhs => rw [← take_append_drop spacing (c :: rest)]
      exact getLast?_append_of_ne_nil _ hbody
    have hover (hall : body.length ≤ taken) : more = [] ∧ final = after := by
      have hlength : rest.length ≤ spacing + taken - 1 := by
        have hbodyLength : body.length = rest.length + 1 - spacing := by simp [body]
        omega
      rw [readFrom_of_length_le _ _ _ _ _ hlength] at hrest
      cases hrest
      exact ⟨rfl, rfl⟩
    rcases hjoint with ⟨hsame, htext⟩ | ⟨rfl, htrue, hop, rfl⟩
    · have hmore := ih (by simpa using hline.drop 1) (hkept.trans hpending) (hsame.trans hjoined)
      rw [hdrop] at hmore
      refine hmore.cons hrow hkind hstopRow (read_depth hfront hread) (fun h => ?_) fun h => ?_
      · rw [drop_zero, hlast, ← take_append_drop taken body, getLast?_append, h]
        rfl
      · rw [drop_zero, hlast] at h
        by_cases hall : body.length ≤ taken
        · refine .inr ⟨(hover hall).1, .inl ?_⟩
          -- a token that is all that is left of the row holds its newline
          rcases hspells with ⟨-, -, hnone⟩ | ⟨hend, -⟩ | ⟨-, hslash, -, e, he, hbodyText⟩
          · rw [htext, take_of_length_le hall] at hnone
            exact absurd rfl (hnone _ (mem_of_getLast? h))
          · exact hend
          · rw [htext, take_of_length_le hall] at hslash
            have hnil := (List.cons.inj (hbodyText.symm.trans hslash)).2
            exact absurd he.length_pos (by simp [hnil])
        · left
          rw [← take_append_drop taken body, getLast?_append_of_ne_nil _ (by simp; omega)] at h
          exact h
    · obtain ⟨e, tail, hbodyText, he, hsize⟩ := front?_reaches hfront
      have htail : tail = [] := he.rest_nil ['\\'] (by simpa [← hbodyText] using hline.drop spacing)
      have hall : body.length ≤ taken := by
        rw [hbodyText, hsize, htail]
        simp [Nat.add_comm]
      obtain ⟨rfl, rfl⟩ := hover hall
      have hnewline : body.getLast? = some '\n' := by
        rw [hbodyText, htail]
        rcases he with rfl | rfl <;> rfl
      refine ⟨hrow, ?_, ?_, fun _ => ⟨hkept.trans hpending, ?_⟩, fun _ _ => ⟨[], t, rfl, .inr (.inl ⟨hop, htrue⟩)⟩⟩
      · simpa using ⟨hkind, hstopRow⟩
      · rw [read_depth hfront hread, ← nil_append [t], Restore.depthAfter_concat, Restore.depthAfter_nil,
          Int.zero_add]
      · rw [drop_zero, hlast, hnewline]

theorem Reads.of_last {u : Text} (h : Reads scan s ts after)
    (hlast : s.getLast? = u.getLast?) : Reads scan u ts after :=
  ⟨h.row, h.tokens, h.depth, hlast ▸ h.joined, hlast ▸ h.last⟩

def Starts (q : Pos) (ts : List Token) (left : Option OpenString) : Prop :=
  (∃ x more, ts = x :: more ∧ x.start = q ∧ x.kind.isLineEnd = false) ∨ ts = [] ∧ ∃ o, left = some o ∧ o.start = q

theorem starts_of_row {row col : Int} {rest : Text} {left : Option OpenString}
    (h : Row row col (c :: rest) ts left) (hspace : isSpacing c = false) (hc : c ≠ '\r' ∧ c ≠ '\n') :
    Starts ⟨row, col⟩ ts left := by
  have hnil {gap s : Text} (hgap : Spacing gap) (heq : gap ++ s = c :: rest) : gap = [] := by
    cases gap with
    | nil => rfl
    | cons d more =>
      have := hgap d mem_cons_self
      rw [(List.cons.inj heq).1, hspace] at this
      cases this
  generalize hs : c :: rest = s at h
  cases h with
  | blank hblank =>
    have := hblank c (hs ▸ mem_cons_self)
    rw [hspace] at this
    cases this
  | opens p hgap _ hstart =>
    obtain rfl := hnil hgap hs.symm
    exact .inr ⟨rfl, p, rfl, by simpa using hstart⟩
  | word t hgap hkind _ hstart =>
    obtain rfl := hnil hgap hs.symm
    exact .inl ⟨t, _, rfl, by simpa using hstart, hkind⟩
  | lineEnd t hgap _ htext =>
    obtain rfl := hnil hgap hs.symm
    rw [nil_append] at hs
    rw [← hs] at htext
    rcases htext with htext | htext | htext
    · exact absurd (List.cons.inj htext).1 hc.2
    · cases htext
    · exact absurd (Option.some.inj htext) hc.1
  | joined t hgap _ hkind _ hstart =>
    obtain rfl := hnil hgap hs.symm
    exact .inl ⟨t, [], rfl, by simpa using hstart, by rw [hkind]; rfl⟩

def Ready (scan : Scan) : Prop := scan.pending = none ∧ scan.depth = 0 ∧ scan.joined = false

theorem rowAt_ready (h : scan.Ready) (l : Text) :
    scan.rowAt l = if l.isEmpty then (scan.finish, none) else scan.statementLine l := by
  unfold rowAt
  rw [h.1]
  dsimp only
  rw [if_pos h.2]

theorem rowAt_amid (hpending : scan.pending = none) (h : ¬scan.Ready) (l : Text) :
    scan.rowAt l = if l.isEmpty then ([], none) else
      ((readFrom l { scan with joined := false } 0 0 l).1, some (readFrom l { scan with joined := false } 0 0
    l).2) := by
  unfold rowAt
  rw [hpending]
  dsimp only
  rw [if_neg fun hready => h ⟨hpending, hready⟩]

structure Lined (scan : Scan) (l : Text) (ts : List Token) (after : Scan) : Prop where
  reads : Reads scan l ts after
  line : ∀ indents, ∃ ds more, (scan.within indents).rowAt l = (ds ++ ts, some (after.within more)) ∧
    (ds = [] ∨ scan.Ready ∧ Dents ⟨scan.row, run isSpacing l⟩ (l.take (run isSpacing l)) ds ∧
      Starts ⟨scan.row, run isSpacing l⟩ ts after.pending)

theorem stringLine_lined {o : OpenString} (hline : SingleLine l) (hne : l ≠ [])
    (hpending : scan.pending = some o) (hquote : isQuote o.closer.mark) (hjoined : scan.joined = false) :
    ∃ ts after, Lined scan l ts after := by
  have hempty : l.isEmpty = false := by simpa using hne
  suffices h : ∃ ts after, scan.stringLine o l = (ts, some after) ∧ Reads scan l ts after by
    obtain ⟨ts, after, hstring, hreads⟩ := h
    refine ⟨ts, after, hreads, fun indents => ⟨[], indents, ?_, .inl rfl⟩⟩
    have hrow : (scan.within indents).rowAt l = (scan.within indents).stringLine o l := by
      rw [rowAt, within, hpending]
    rw [hrow, stringLine_within, hstring]
    rfl
  unfold stringLine
  dsimp only
  rw [hempty, if_neg Bool.false_ne_true]
  cases htail : tail? o.closer l with
  | some n =>
    obtain ⟨-, hle, hmark⟩ := tail?_reach l n htail
    have hreads := readFrom_reads l { scan with pending := none, strict := false } 0 n l hline rfl hjoined
    refine ⟨_, _, rfl, hreads.cons rfl rfl rfl ?_ (fun h => ?_) fun h => .inl ?_⟩
    · simp [Restore.turn, Restore.isBracket]
    · rw [← take_append_drop n l, getLast?_append, h]
      rfl
    · -- the string ends before the newline does
      rw [← take_append_drop n l, getLast?_append] at h
      cases hrest : (l.drop n).getLast? with
      | some c => simpa [hrest] using h
      | none =>
        rw [hrest, Option.none_or, hmark] at h
        rw [Option.some.inj h] at hquote
        exact absurd hquote (by decide)
  | none =>
    dsimp only
    split
    · rename_i hspoiled
      refine ⟨_, _, rfl, rfl, ?_, ?_, by simp [hjoined], fun _ _ => ⟨[], _, rfl, .inr (.inr ⟨rfl, ?_⟩)⟩⟩
      · simp [Kind.isDent]
      · simp [Restore.depthAfter, Restore.isBracket]
      · simpa using (Bool.and_eq_true_iff.1 hspoiled).1
    · exact ⟨_, _, rfl, rfl, by simp, by simp [Restore.depthAfter_nil], by simp [hjoined], by simp⟩

theorem statementLine_lined (hline : SingleLine l) (hne : l ≠ []) (hready : scan.Ready) :
    (∃ ts after, Lined scan l ts after) ∨
      ∀ indents, (scan.within indents).rowAt l = ((scan.within indents).finish, none) := by
  have hempty : l.isEmpty = false := by simpa using hne
  have hrow (indents : List Nat) : (scan.within indents).rowAt l = (scan.within indents).statementLine l := by
    rw [@rowAt_ready (scan.within indents) hready, hempty, if_neg Bool.false_ne_true]
  have hnone : Reads scan [] [] scan :=
    ⟨rfl, by simp, by simp [Restore.depthAfter_nil], by simp [hready.2.2], by simp⟩
  have hend {t : Token} (hkind : t.kind = .nl) (hstop : t.stop.row = scan.row) : Reads scan l [t] scan := by
    refine hnone.cons rfl (by rw [hkind]; rfl) hstop ?_ (by simp) fun _ => .inr ⟨rfl, .inl (by rw [hkind]; rfl)⟩
    simp [Restore.turn, Restore.isBracket, hkind]
  have hplain (hreads : Reads scan l (scan.statementLine l).1 scan) (hts : ∀ indents,
      (scan.within indents).statementLine l = ((scan.statementLine l).1, some (scan.within indents))) :
      ∃ ts after, Lined scan l ts after :=
    ⟨_, scan, hreads, fun indents => ⟨[], indents, (hrow indents).trans (hts indents), .inl rfl⟩⟩
  cases hdrop : l.drop (run isSpacing l) with
  | nil =>
    refine .inr fun indents => ?_
    rw [hrow, statementLine, hdrop]
  | cons c rest =>
    left
    by_cases hhash : c = '#'
    · refine hplain ?_ fun indents => ?_
      · simp only [statementLine, hdrop, if_pos hhash]
        refine (hend rfl rfl).cons rfl rfl rfl ?_ id .inl
        simp [Restore.turn, Restore.isBracket]
      · simp only [statementLine, hdrop, if_pos hhash]
        rfl
    by_cases hreturn : c = '\r' ∨ c = '\n'
    · refine hplain ?_ fun indents => ?_
      · simp only [statementLine, hdrop, if_neg hhash, if_pos hreturn]
        exact hend rfl rfl
      · simp only [statementLine, hdrop, if_neg hhash, if_pos hreturn]
        rfl
    have hc := not_or.1 hreturn
    have hsplit := take_append_drop (run isSpacing l) l
    rw [hdrop] at hsplit
    have hbodyline : SingleLine (c :: rest) := hdrop ▸ hline.drop _
    have hspace : isSpacing c = false := by
      have hwhile : l.dropWhile isSpacing = c :: rest := by
        have hleft := @drop_left _ (l.takeWhile isSpacing) (l.dropWhile isSpacing)
        rw [takeWhile_append_dropWhile] at hleft
        exact hleft.symm.trans hdrop
      simpa [hwhile] using head?_dropWhile_not isSpacing l
    refine ⟨_, _, (readFrom_reads l scan (run isSpacing l) 0 (c :: rest) hbodyline hready.1 hready.2.2).of_last ?_,
      fun indents => ?_⟩
    · rw [← hsplit, drop_zero, getLast?_append_of_ne_nil _ (by simp)]
    · obtain ⟨ds, more, hdents, hstatement⟩ := statementLine_read (scan.within indents) hdrop ⟨hhash, hc⟩
      refine ⟨ds, more, ?_, .inr ⟨hready, hdents, ?_⟩⟩
      · rw [hrow, hstatement, readFrom_within]
        rfl
      · exact starts_of_row (readFrom_row_zero hbodyline hready.1 rfl) hspace hc

def Fit (scan : Scan) : Prop := ∀ o, scan.pending = some o → o.Begun ∧ scan.joined = false

def nextRow (scan : Scan) : Scan := { scan with row := scan.row + 1 }

theorem line_within (scan : Scan) (indents : List Nat) (l : Text) :
    (scan.within indents).line l = (scan.nextRow.within indents).rowAt l := rfl

theorem rowAt_cases (hfit : scan.Fit) (hline : SingleLine l) (hne : l ≠ []) : (∃ ts after, Lined scan l ts after) ∨
      scan.Ready ∧ ∀ indents, (scan.within indents).rowAt l = ((scan.within indents).finish, none) := by
  cases hpending : scan.pending with
  | some o =>
    obtain ⟨hbegun, hjoined⟩ := hfit o hpending
    exact .inl (stringLine_lined hline hne hpending hbegun.quote hjoined)
  | none =>
    by_cases hready : scan.Ready
    · exact (statementLine_lined hline hne hready).imp_right fun h => ⟨hready, h⟩
    · have hempty : l.isEmpty = false := by simpa using hne
      have hreads := readFrom_reads l { scan with joined := false } 0 0 l hline hpending rfl
      refine .inl ⟨_, _, ⟨hreads.row, hreads.tokens, hreads.depth, hreads.joined, hreads.last⟩, fun indents =>
        ⟨[], indents, ?_, .inl rfl⟩⟩
      have hwithin := readFrom_within indents l { scan with joined := false } 0 0 l
      rw [@rowAt_amid (scan.within indents) hpending hready, hempty, if_neg Bool.false_ne_true]
      exact congrArg (fun r : List Token × Scan => (r.1, some r.2)) hwithin

theorem line_cases (hfit : scan.Fit) (hline : SingleLine l) (hne : l ≠ []) :
    (∃ ts after, Lined scan.nextRow l ts after ∧ after.Fit) ∨
      scan.Ready ∧ ∀ indents, (scan.within indents).line l = ((scan.nextRow.within indents).finish, none) := by
  refine (@rowAt_cases l scan.nextRow hfit hline hne).imp (fun ⟨ts, after, hlined⟩ =>
    ⟨ts, after, hlined, fun o ho => ⟨?_, ?_⟩⟩) id
  · obtain ⟨ds, more, hrow, -⟩ := hlined.line scan.indents
    have hafter : (scan.line l).2 = some (after.within more) := congrArg Prod.snd hrow
    rcases line_read scan hline hne with ⟨after', hafter', -, hread⟩ | ⟨-, -, hover⟩
    · cases hafter.symm.trans hafter'
      exact hread.begun (fun p hp => (hfit p hp).1) o ho
    · rw [hover] at hafter
      cases hafter
  · refine Bool.eq_false_iff.2 fun hjoined => ?_
    rw [(hlined.reads.joined hjoined).1] at ho
    cases ho

def Lines (ls : List Text) : Prop :=
  (∀ l ∈ ls, SingleLine l ∧ l ≠ []) ∧ ls.IsChain fun l _ => l.getLast? = some '\n'

theorem lines_lines (s : Text) : Lines (lines s) :=
  ⟨fun _ hl => ⟨singleLine_of_mem_lines hl, ne_nil_of_mem_lines hl⟩, isChain_lines s⟩

theorem Lines.tail {rest : List Text} (h : Lines (l :: rest)) : Lines rest :=
  ⟨fun k hk => h.1 k (mem_cons_of_mem _ hk), h.2.tail⟩

theorem line_nil_cases (scan : Scan) :
    (∃ o, scan.pending = some o ∧ ∃ t, t.kind = .error ∧ t.start = o.start ∧ t.stop = ⟨scan.nextRow.row, 0⟩ ∧
      ∀ indents, ((scan.within indents).line []).1 = [t]) ∨
    (scan.Ready ∧ ∀ indents, ((scan.within indents).line []).1 = (scan.nextRow.within indents).finish) ∨
    scan.pending = none ∧ ¬scan.Ready ∧ ∀ indents, ((scan.within indents).line []).1 = [] := by
  cases hpending : scan.pending with
  | some o =>
    refine .inl ⟨o, rfl, ⟨.error, o.text ++ [], o.start, ⟨scan.nextRow.row, 0⟩, o.line⟩, rfl, rfl, rfl, fun indents => ?_⟩
    rw [line_within, rowAt, show (scan.nextRow.within indents).pending = some o from hpending]
    rfl
  | none =>
    by_cases hready : scan.Ready
    · refine .inr (.inl ⟨hready, fun indents => ?_⟩)
      rw [line_within, @rowAt_ready (scan.nextRow.within indents) hready, isEmpty_nil, if_pos rfl]
    · refine .inr (.inr ⟨rfl, hready, fun indents => ?_⟩)
      rw [line_within, @rowAt_amid (scan.nextRow.within indents) hpending hready, isEmpty_nil, if_pos rfl]

theorem all_within {ls : List Text} (hls : Lines ls) {scan : Scan} (hfit : scan.Fit) (indents : List Nat) :
    bare ((scan.within indents).all ls) = bare (scan.all ls) := by
  have hself (scan : Scan) : scan.within scan.indents = scan := rfl
  induction ls generalizing scan indents with
  | nil =>
    change bare ((scan.within indents).line []).1 = bare ((scan.within scan.indents).line []).1
    rcases line_nil_cases scan with ⟨_, -, _, -, -, -, hline⟩ | ⟨-, hline⟩ | ⟨-, -, hline⟩
    · rw [hline, hline]
    · rw [hline, hline, bare_finish, bare_finish]
    · rw [hline, hline]
  | cons l rest ih =>
    obtain ⟨hline, hne⟩ := hls.1 l mem_cons_self
    rcases line_cases hfit hline hne with ⟨ts, after, hlined, hafter⟩ | ⟨-, hover⟩
    · have hall (indents : List Nat) :
          bare ((scan.within indents).all (l :: rest)) = bare ts ++ bare (after.all rest) := by
        obtain ⟨ds, more, hrow, hds⟩ := hlined.line indents
        have hbare : bare ds = [] := by
          rcases hds with rfl | ⟨-, hdents, -⟩
          · rfl
          · exact bare_of_dents hdents.isDent
        rw [all_cons_some ((line_within scan indents l).trans hrow), bare_append, bare_append, hbare,
          ih hls.tail hafter]
        rfl
      rw [hall, ← hall scan.indents, hself]
    · rw [all_cons_none (hover indents), ← hself scan, all_cons_none (hover scan.indents), bare_finish]
      rfl

end Scan

/-! ### Where changes of indentation stand -/

def isFront (t : Token) : Bool := t.isName "html".toList || t.isOp ['.'] || t.isName "PYXL".toList

/-- Tokens with changes of indentation in between: none of the tokens stops above `row`, the last one
before them belongs to no front of a call if this is clear, and it stands in brackets as deep. -/
inductive Dented : Int → Bool → Int → List Token → Prop where
  | nil {row depth : Int} {clear : Bool} (h : depth = 0 → clear = true) : Dented row clear depth []
  | token {row depth : Int} {clear : Bool} {t : Token} {ts : List Token} (hkind : t.kind.isDent = false)
      (hrow : row ≤ t.stop.row) (h : Dented t.stop.row (!isFront t) (depth + Restore.turn t) ts) :
      Dented row clear depth (t :: ts)
  | dents {row : Int} {clear : Bool} {spacing : Text} {ds : List Token} {x : Token} {ts : List Token}
      (hne : ds ≠ []) (hds : Dents x.start spacing ds) (hspacing : ∀ c ∈ spacing, c = ' ')
      (hcol : x.start.col = spacing.length) (hrow : row < x.start.row) (hkind : x.kind.isDent = false)
      (hend : x.kind.isLineEnd = false) (hclear : clear = true ∨ x.kind = .endMarker)
      (h : Dented row clear 0 (x :: ts)) : Dented row clear 0 (ds ++ x :: ts)

theorem Dented.row {ts rest : List Token} {row r depth : Int} {clear : Bool}
    (hts : ∀ t ∈ ts, t.kind.isDent = false ∧ t.stop.row = r) (hrow : row ≤ r)
    (hnone : ts = [] → Dented row clear (depth + Restore.depthAfter ts) rest)
    (hlast : ∀ init t, ts = init ++ [t] → Dented r (!isFront t) (depth + Restore.depthAfter ts) rest) :
    Dented row clear depth (ts ++ rest) := by
  induction ts generalizing row depth clear with
  | nil => simpa [Restore.depthAfter_nil] using hnone rfl
  | cons t more ih =>
    obtain ⟨hkind, hstop⟩ := hts t mem_cons_self
    have hone : Restore.depthAfter (t :: more) = Restore.turn t + Restore.depthAfter more := by
      rw [← singleton_append, Restore.depthAfter_both, ← nil_append [t], Restore.depthAfter_concat,
        Restore.depthAfter_nil, Int.zero_add]
    rw [hone, ← Int.add_assoc] at hlast
    refine .token hkind (hstop ▸ hrow) (hstop ▸ ih (fun u hu => hts u (mem_cons_of_mem _ hu)) le_rfl ?_ ?_)
    · rintro rfl
      exact hlast [] t rfl
    · rintro init u rfl
      exact hlast (t :: init) u rfl

namespace Scan

theorem finish_dented {scan : Scan} {row : Int} {clear : Bool} (hrow : row < scan.row) :
    Dented row clear 0 scan.finish := by
  have hend : Dented row clear 0 [⟨.endMarker, [], ⟨scan.row, 0⟩, ⟨scan.row, 0⟩, []⟩] :=
    .token rfl hrow.le (.nil fun _ => rfl)
  unfold finish
  by_cases hnone : scan.indents = []
  · rw [hnone]
    exact hend
  · refine @Dented.dents _ _ [] _ _ _ (by simpa using hnone) ⟨[], _, rfl, .inl rfl, ?_⟩ (by simp) rfl hrow rfl rfl
      (.inr rfl) hend
    intro d hd
    obtain ⟨-, -, rfl⟩ := mem_map.1 hd
    exact ⟨rfl, rfl, rfl, rfl⟩

theorem all_of_pending {ls : List Text} (hls : Lines ls) {scan : Scan} {o : OpenString}
    (hpending : scan.pending = some o) :
    ∃ x ts, scan.all ls = x :: ts ∧ x.start = o.start ∧ x.kind.isDent = false ∧ x.kind.isLineEnd = false := by
  induction ls generalizing scan o with
  | nil =>
    rcases line_nil_cases scan with ⟨o', ho, t, hkind, hstart, -, hline⟩ | ⟨hready, -⟩ | ⟨hnone, -⟩
    · cases hpending.symm.trans ho
      exact ⟨t, [], hline scan.indents, hstart, by rw [hkind]; rfl, by rw [hkind]; rfl⟩
    · cases hpending.symm.trans hready.1
    · cases hpending.symm.trans hnone
  | cons l rest ih =>
    obtain ⟨hline, hne⟩ := hls.1 l mem_cons_self
    obtain ⟨after, hafter, -, hread⟩ := stringLine_read scan.nextRow o hline hne
    have hall : scan.line l = scan.nextRow.stringLine o l := by
      rw [line_eq_rowAt, rowAt, hpending]
      rfl
    have hcons : scan.all (l :: rest) = (scan.nextRow.stringLine o l).1 ++ after.all rest :=
      all_cons_some (hall.trans (Prod.ext rfl hafter))
    obtain ⟨ts, hts⟩ : ∃ ts, (scan.nextRow.stringLine o l).1 = ts := ⟨_, rfl⟩
    rw [hts] at hread hcons
    generalize hleft : after.pending = left at hread
    cases hread with
    | closes _ _ t hkind _ _ _ hstart => exact ⟨t, _, hcons, hstart, by rw [hkind]; rfl, by rw [hkind]; rfl⟩
    | spoiled _ t hkind _ hstart => exact ⟨t, _, hcons, hstart, by rw [hkind]; rfl, by rw [hkind]; rfl⟩
    | goesOn _ q _ hstart =>
      obtain ⟨x, ts, hx, hxstart, hkinds⟩ := ih hls.tail hleft
      exact ⟨x, ts, hcons.trans hx, hxstart.trans hstart, hkinds⟩

theorem isFront_of_last {t : Token} {after : Scan} (h : t.kind.isLineEnd = true ∨
    t.isOp ['\\'] = true ∧ after.joined = true ∨ t.kind = .error ∧ after.strict = true) : isFront t = false := by
  rcases h with h | ⟨h, -⟩ | ⟨h, -⟩
  · cases hkind : t.kind <;> simp_all [isFront, Token.isName, Token.isOp, Kind.isLineEnd]
  · simp only [Token.isOp_iff] at h
    simp [isFront, Token.isName, Token.isOp, h.1, h.2]
  · simp [isFront, Token.isName, Token.isOp, h]

theorem all_dented {ls : List Text} (hls : Lines ls) (hspaces : ∀ l ∈ ls, ∀ c ∈ l.takeWhile isSpacing, c = ' ')
    {scan : Scan} (hfit : scan.Fit) {row : Int} {clear : Bool} (hrow : row ≤ scan.row)
    (hclear : scan.pending = none → scan.depth = 0 → clear = true ∨ ls = [] ∧ scan.joined = false) :
    Dented row clear scan.depth (scan.all ls) := by
  have hself (scan : Scan) : scan.within scan.indents = scan := rfl
  induction ls generalizing scan row clear with
  | nil =>
    change Dented row clear scan.depth ((scan.within scan.indents).line []).1
    have hnext : row < scan.nextRow.row := Int.lt_add_one_of_le hrow
    rcases line_nil_cases scan with ⟨o, -, t, hkind, -, hstop, hline⟩ | ⟨hready, hline⟩ | ⟨hnone, hready, hline⟩
    · rw [hline]
      refine .token (by rw [hkind]; rfl) (by rw [hstop]; exact hnext.le) (.nil fun _ => ?_)
      simp [isFront, Token.isName, Token.isOp, hkind]
    · rw [hline, hready.2.1]
      exact finish_dented hnext
    · rw [hline]
      refine .nil fun hdepth => (hclear hnone hdepth).elim id fun h => absurd ⟨hnone, hdepth, h.2⟩ hready
  | cons l rest ih =>
    obtain ⟨hline, hne⟩ := hls.1 l mem_cons_self
    have hspaces' : ∀ k ∈ rest, ∀ c ∈ k.takeWhile isSpacing, c = ' ' := fun k hk =>
      hspaces k (mem_cons_of_mem _ hk)
    have hnext : row < scan.nextRow.row := Int.lt_add_one_of_le hrow
    rcases line_cases hfit hline hne with ⟨ts, after, hlined, hafter⟩ | ⟨hready, hover⟩
    · obtain ⟨ds, more, hrowAt, hds⟩ := hlined.line scan.indents
      have hreads := hlined.reads
      have hall : scan.all (l :: rest) = ds ++ ts ++ (after.within more).all rest :=
        all_cons_some ((line_within scan scan.indents l).trans hrowAt)
      have hdepth : after.depth = scan.depth + Restore.depthAfter ts := hreads.depth
      -- a line that is ended leaves no front of a call, and one that is not is the last and not joined
      have hlast : after.pending = none → (∃ init t, ts = init ++ [t] ∧ isFront t = false) ∨
          rest = [] ∧ after.joined = false := by
        intro hnone
        by_cases hended : l.getLast? = some '\n'
        · obtain ⟨init, t, hts, ht⟩ := hreads.last hended hnone
          exact .inl ⟨init, t, hts, isFront_of_last ht⟩
        · refine .inr ⟨?_, Bool.eq_false_iff.2 fun hjoined => hended (hreads.joined hjoined).2⟩
          cases rest with
          | nil => rfl
          | cons k more => exact absurd (isChain_cons_cons.1 hls.2).1 hended
      have hafterRow : (after.within more).row = scan.nextRow.row := hreads.row
      have hrest : Dented row clear scan.depth (ts ++ (after.within more).all rest) := by
        refine .row hreads.tokens hnext.le (fun hts => ?_) fun init t hts => ?_
        · refine hdepth ▸ @ih hls.tail hspaces' (after.within more) hafter row clear (by omega) fun hnone _ => .inr ?_
          exact (hlast hnone).resolve_left (by simp [hts])
        · refine hdepth ▸ @ih hls.tail hspaces' (after.within more) hafter _ _ (by omega) fun hnone _ => ?_
          refine (hlast hnone).imp_left fun hdent => ?_
          obtain ⟨_, u, h, hu⟩ := hdent
          rw [hts] at h
          rw [singleton_inj.1 (append_inj' h rfl).2, hu]
          rfl
      rw [hall]
      rcases hds with rfl | ⟨hready, hdents, hstarts⟩
      · exact hrest
      · have hzero : scan.depth = 0 := hready.2.1
        have hlength : (l.take (run isSpacing l)).length = run isSpacing l :=
          length_take_of_le (onLine_run (by decide) _).le
        have hwhile : l.take (run isSpacing l) = l.takeWhile isSpacing :=
          (prefix_iff_eq_take.mp ( takeWhile_prefix isSpacing)).symm
        have hall : clear = true := (hclear hready.1 hzero).resolve_right fun h => by cases h.1
        rw [hzero] at hrest ⊢
        -- the token that the changes of indentation stand before
        obtain ⟨x, xs, hx, hstart, hkind, hend⟩ : ∃ x xs, ts ++ (after.within more).all rest = x :: xs ∧
            x.start = ⟨scan.nextRow.row, run isSpacing l⟩ ∧ x.kind.isDent = false ∧ x.kind.isLineEnd = false := by
          rcases hstarts with ⟨x, xs, rfl, hstart, hend⟩ | ⟨rfl, o, ho, hstart⟩
          · exact ⟨x, _, rfl, hstart, (hreads.tokens x mem_cons_self).1, hend⟩
          · obtain ⟨x, xs, hx, hxstart, hkinds⟩ := @all_of_pending _ hls.tail (after.within more) _ ho
            exact ⟨x, xs, hx, hxstart.trans hstart, hkinds⟩
        rw [append_assoc, hx]
        rw [hx] at hrest
        by_cases hne : ds = []
        · rw [hne]
          exact hrest
        refine .dents hne (hstart ▸ hdents) ?_ ?_ ?_ hkind hend (.inl hall) hrest
        · rw [hwhile]
          exact hspaces l mem_cons_self
        · rw [hstart, hlength]
        · rw [hstart]
          exact hnext
    · have hall : scan.all (l :: rest) = (scan.nextRow.within scan.indents).finish := all_cons_none (hover scan.indents)
      rw [hall, hready.2.1]
      exact finish_dented hnext

end Scan

end InlineMarkup

import InlineMarkup.Proofs.Pieces

/-!
The columns of indentation. An indent opens a column that is deeper than those open, and a dedent closes
the innermost one, also where a line goes back to a column that was never open. Main statement: dedents
never outnumber the indents before them, and where the end is marked, last of all, every column is closed.
-/
namespace InlineMarkup

open Lexeme List

def Deepening (columns : List Nat) : Prop := (columns ++ [0]).Pairwise (· > ·)

/-- Tokens that take the open columns from some to others. None of them marks the end. -/
inductive Indents : List Nat → List Token → List Nat → Prop where
  | nil (columns : List Nat) : Indents columns [] columns
  | other {t : Token} {ts : List Token} {columns final : List Nat} (hkind : t.kind.isDent = false)
      (hmark : t.kind ≠ .endMarker) (hrest : Indents columns ts final) : Indents columns (t :: ts) final
  | indent {t : Token} {ts : List Token} {columns final : List Nat} {n : Nat} (hkind : t.kind = .indent)
      (hdeeper : columns.headD 0 < n) (hrest : Indents (n :: columns) ts final) : Indents columns (t :: ts) final
  | dedent {t : Token} {ts : List Token} {columns final : List Nat} {n : Nat} (hkind : t.kind = .dedent)
      (hrest : Indents columns ts final) : Indents (n :: columns) (t :: ts) final

namespace Indents

variable {columns mid final : List Nat} {ts us : List Token}

theorem append (h : Indents columns ts mid) (hmore : Indents mid us final) : Indents columns (ts ++ us) final := by
  induction h with
  | nil => exact hmore
  | other hkind hmark _ ih => exact .other hkind hmark (ih hmore)
  | indent hkind hdeeper _ ih => exact .indent hkind hdeeper (ih hmore)
  | dedent hkind _ ih => exact .dedent hkind (ih hmore)

theorem split (h : Indents columns (ts ++ us) final) : ∃ mid, Indents columns ts mid ∧ Indents mid us final := by
  induction ts generalizing columns with
  | nil => exact ⟨columns, .nil columns, h⟩
  | cons t ts ih =>
    cases h with
    | other hkind hmark hrest =>
      obtain ⟨mid, hts, hus⟩ := ih hrest
      exact ⟨mid, .other hkind hmark hts, hus⟩
    | indent hkind hdeeper hrest =>
      obtain ⟨mid, hts, hus⟩ := ih hrest
      exact ⟨mid, .indent hkind hdeeper hts, hus⟩
    | dedent hkind hrest =>
      obtain ⟨mid, hts, hus⟩ := ih hrest
      exact ⟨mid, .dedent hkind hts, hus⟩

theorem deepening (h : Indents columns ts final) (hcolumns : Deepening columns) : Deepening final := by
  induction h with
  | nil => exact hcolumns
  | other _ _ _ ih => exact ih hcolumns
  | @indent _ _ columns _ n _ hdeeper _ ih =>
    refine ih (pairwise_cons.2 ⟨fun m hm => ?_, hcolumns⟩)
    -- none of the open columns is deeper than the innermost
    cases columns with
    | nil => simpa using (mem_singleton.1 hm) ▸ hdeeper
    | cons k more =>
      rcases mem_cons.1 hm with rfl | hm
      · exact hdeeper
      · exact ((pairwise_cons.1 hcolumns).1 m hm).trans hdeeper
  | dedent _ _ ih => exact ih (pairwise_cons.1 hcolumns).2

theorem length (h : Indents columns ts final) :
    ts.countP (·.kind == .dedent) + final.length = ts.countP (·.kind == .indent) + columns.length := by
  induction h with
  | nil => rfl
  | @other t ts _ _ hkind _ _ ih =>
    have hdent : (t.kind == .dedent) = false ∧ (t.kind == .indent) = false := by
      cases ht : t.kind <;> simp_all [Kind.isDent]
    simpa [countP_cons, hdent] using ih
  | indent hkind _ _ ih =>
    simp only [countP_cons, hkind, length_cons] at ih ⊢
    simp
    omega
  | dedent hkind _ ih =>
    simp only [countP_cons, hkind, length_cons] at ih ⊢
    simp
    omega

theorem not_mark (h : Indents columns ts final) : ∀ t ∈ ts, t.kind ≠ .endMarker := by
  induction h with
  | nil => simp
  | other _ hmark _ ih => exact forall_mem_cons.2 ⟨hmark, ih⟩
  | indent hkind _ _ ih => exact forall_mem_cons.2 ⟨by simp [hkind], ih⟩
  | dedent hkind _ ih => exact forall_mem_cons.2 ⟨by simp [hkind], ih⟩

theorem of_dedents (columns : List Nat) {α : Type} (closed : List α) {t : Token} (ht : t.kind = .dedent)
    (hlength : closed.length ≤ columns.length) :
    Indents columns (closed.map fun _ => t) (columns.drop closed.length) := by
  induction closed generalizing columns with
  | nil => exact .nil columns
  | cons _ closed ih =>
    cases columns with
    | nil => exact absurd hlength (by simp)
    | cons n columns => exact .dedent ht (ih columns (by simpa using hlength))

end Indents

/-! ### Line by line -/

namespace Scan

theorem readFrom_indents (line : Text) (scan : Scan) (col skip : Nat) (s : Text) :
    Indents scan.indents (readFrom line scan col skip s).1 (readFrom line scan col skip s).2.indents := by
  fun_induction readFrom line scan col skip s with
  | case1 scan => exact .nil scan.indents
  | case2 scan col skip c rest ih => exact ih
  | case3 scan => exact .nil scan.indents
  | case4 scan col c rest spacing body hempty hfront t more after hrest ih =>
    rw [hrest] at ih
    exact .other rfl (by simp) ih
  | case5 scan col c rest spacing body hempty front size hfront after hread =>
    rw [read_suspended_indents hread]
    exact .nil scan.indents
  | case6 scan col c rest spacing body hempty front size hfront t taken after hread more final hrest ih =>
    rw [hrest, (read_after hread).1] at ih
    obtain ⟨⟨hkind, hmark⟩, -⟩ := read_kind hread
    exact .other hkind hmark ih

def Indenting (columns : List Nat) : List Token × Option Scan → Prop
  | (ts, some after) => Indents columns ts after.indents
  | (ts, none) => ∃ front last final, ts = front ++ last ∧ Indents columns front final ∧
      (last = [] ∨ final = [] ∧ ∃ t : Token, t.kind = .endMarker ∧ last = [t])

theorem finish_indenting (scan : Scan) : Indenting scan.indents (scan.finish, none) := by
  exact ⟨_, _, _, rfl, .of_dedents scan.indents scan.indents rfl le_rfl, .inr ⟨drop_length, _, rfl, rfl⟩⟩

theorem statementLine_indenting (scan : Scan) (l : Text) : Indenting scan.indents (scan.statementLine l) := by
  unfold statementLine
  dsimp only
  split
  · exact finish_indenting scan
  · rename_i c rest hbody
    split
    · exact .other rfl nofun (.other rfl nofun (.nil _))
    · split
      · exact .other rfl nofun (.nil _)
      · generalize columnOf (l.take (run isSpacing l)) = column
        split
        · rename_i hdeeper
          rw [takeWhile_of_deeper hdeeper]
          exact .indent rfl hdeeper (readFrom_indents l { scan with indents := column :: scan.indents } _ _ _)
        · have hclosed : (scan.indents.takeWhile (column < ·)).length ≤ scan.indents.length :=
            ( takeWhile_prefix _).length_le
          exact (Indents.of_dedents _ _ rfl hclosed).append (readFrom_indents l
            { scan with indents := scan.indents.drop (scan.indents.takeWhile (column < ·)).length } _ _ _)

theorem stringLine_indenting (scan : Scan) (p : OpenString) (l : Text) :
    Indenting scan.indents (scan.stringLine p l) := by
  unfold stringLine
  dsimp only
  split
  · exact ⟨[_], [], _, rfl, .other rfl (by simp) (.nil _), .inl rfl⟩
  · split
    · rename_i n _
      exact .other rfl nofun (readFrom_indents l { scan with pending := none, strict := false } 0 n l)
    · split
      · exact .other rfl nofun (.nil _)
      · exact .nil _

theorem line_indenting (scan : Scan) (l : Text) : Indenting scan.indents (scan.line l) := by
  unfold line
  dsimp only
  split
  · exact stringLine_indenting { scan with row := scan.row + 1 } _ l
  · split
    · split
      · exact finish_indenting { scan with row := scan.row + 1 }
      · exact statementLine_indenting { scan with row := scan.row + 1 } l
    · split
      · exact ⟨[], [], _, rfl, .nil _, .inl rfl⟩
      · exact readFrom_indents l { scan with row := scan.row + 1, joined := false } 0 0 l

theorem through_indenting (scan : Scan) (ls : List Text) : Indenting scan.indents (scan.through ls) := by
  induction ls generalizing scan with
  | nil => exact .nil scan.indents
  | cons l rest ih =>
    have hline := line_indenting scan l
    rw [through]
    rcases hl : scan.line l with ⟨ts, _ | after⟩
    · rw [hl] at hline
      exact hline
    · rw [hl] at hline
      have hrest := ih after
      rcases hr : after.through rest with ⟨us, _ | final⟩
      · rw [hr] at hrest
        obtain ⟨front, last, final, rfl, hfront, hlast⟩ := hrest
        dsimp only
        rw [hr]
        exact ⟨ts ++ front, last, final, (append_assoc ..).symm, hline.append hfront, hlast⟩
      · rw [hr] at hrest
        dsimp only
        rw [hr]
        exact hline.append hrest

theorem through_nil (scan : Scan) (ls : List Text) : scan.through (ls ++ [[]]) = (scan.all ls, none) := by
  induction ls generalizing scan with
  | nil =>
    rcases hline : scan.line [] with ⟨ts, after⟩
    have hover := line_nil_over scan
    rw [hline] at hover
    cases hover
    rw [nil_append, through, all, hline]
  | cons l rest ih =>
    rw [cons_append, through, all]
    rcases scan.line l with ⟨ts, _ | after⟩
    · rfl
    · dsimp only
      rw [ih]

end Scan

/-- Indentation balances. In every part of the tokens from their beginning dedents are at most as many as
indents. The end is marked at most once, and last, and then there are as many dedents as indents. The open
columns increase strictly from the margin, after any number of lines and at every token before. -/
theorem indentation_balances (lines : List Text) : (∀ front rest, tokenize lines = front ++ rest →
      front.countP (·.kind == .dedent) ≤ front.countP (·.kind == .indent)) ∧
    (∀ front t rest, tokenize lines = front ++ t :: rest → t.kind = .endMarker →
      rest = [] ∧ front.countP (·.kind == .dedent) = front.countP (·.kind == .indent)) ∧
    (∀ n after, (({} : Scan).through (lines.take n)).2 = some after → Deepening after.indents ∧
      ∀ front rest, (({} : Scan).through (lines.take n)).1 = front ++ rest →
        ∃ columns, Indents [] front columns ∧ Deepening columns ∧ Indents columns rest after.indents) := by
  have hmargin : Deepening [] := pairwise_singleton _ _
  have hall := Scan.through_indenting {} (lines ++ [[]])
  rw [Scan.through_nil] at hall
  obtain ⟨ts, last, final, htokens, hts, hlast⟩ := hall
  change tokenize lines = ts ++ last at htokens
  rw [htokens]
  refine ⟨fun front rest hfront => ?_, fun front t rest hfront ht => ?_, fun n after hafter => ?_⟩
  · rcases append_eq_append_iff.1 hfront with ⟨more, rfl, hmore⟩ | ⟨more, rfl, -⟩
    · have hnone : more.countP (·.kind == .dedent) = 0 := by
        refine countP_eq_zero.2 fun t ht => ?_
        rcases hlast with rfl | ⟨-, u, hu, rfl⟩
        · simp [(append_eq_nil_iff.1 hmore.symm).1] at ht
        · have htu : t ∈ [u] := hmore ▸ mem_append_left rest ht
          simp [mem_singleton.1 htu, hu]
      have hcount := hts.length
      simp only [countP_append, hnone, length_nil] at hcount ⊢
      omega
    · obtain ⟨columns, hcolumns, -⟩ := hts.split
      have hcount := hcolumns.length
      rw [length_nil] at hcount
      omega
  · obtain ⟨more, rfl, hmore⟩ : ∃ more, front = ts ++ more ∧ last = more ++ t :: rest := by
      rcases append_eq_append_iff.1 hfront with hbeyond | ⟨more, hsplit, hmore⟩
      · exact hbeyond
      · cases more with
        | nil => exact ⟨[], by simpa using hsplit.symm, by simpa using hmore.symm⟩
        | cons u more =>
          obtain rfl : t = u := (List.cons.inj hmore).1
          exact absurd ht (hts.not_mark t (by simp [hsplit]))
    rcases hlast with rfl | ⟨rfl, u, -, rfl⟩
    · simp at hmore
    · obtain ⟨rfl, rfl⟩ : more = [] ∧ rest = [] := by
        cases more <;> simp_all
      exact ⟨rfl, by simpa using hts.length⟩
  · have hlines := Scan.through_indenting {} (lines.take n)
    rw [← Prod.mk.eta (p := ({} : Scan).through (lines.take n)), hafter] at hlines
    refine ⟨hlines.deepening hmargin, fun front rest hfront => ?_⟩
    rw [hfront] at hlines
    obtain ⟨columns, hcolumns, hrest⟩ := hlines.split
    exact ⟨columns, hcolumns, hcolumns.deepening hmargin, hrest⟩

-- the second line goes back to a column that was never open
example : (tokenize ["  a\n".toList, " b\n".toList]).map (·.kind) =
    [.indent, .name, .newline, .dedent, .name, .newline, .endMarker] := by decide +kernel

end InlineMarkup

import InlineMarkup.Proofs.Layout

/-!
The tokens of a source tile it. Every token stands on the characters between its two positions, tokens stand
one after the other, and what is between them is spacing.
-/
namespace InlineMarkup

open Lexeme Text List

/-! ### Offsets -/

def offset (lines : List Text) (p : Pos) : Int := (lines.take (p.row - 1).toNat).flatten.length + p.col

def slice (s : Text) (a b : Int) : Text := (s.take b.toNat).drop a.toNat

theorem offset_row (front rest : List Text) (c : Int) :
    offset (front ++ rest) ⟨(front.length + 1 : Nat), c⟩ = front.flatten.length + c := by
  have hrows : (((front.length + 1 : Nat) : Int) - 1).toNat = front.length := by omega
  simp only [offset, hrows, take_left]

theorem slice_append (a b c : Text) : slice (a ++ (b ++ c)) a.length (a.length + b.length) = b := by
  have hstop : ((a.length : Int) + b.length).toNat = (a ++ b).length := by
    rw [length_append]
    omega
  rw [slice, hstop, Int.toNat_natCast, ← append_assoc, take_left, drop_left]

theorem Text.isChain_lines (s : Text) : (lines s).IsChain fun l _ => l.getLast? = some '\n' := by
  induction s with
  | nil => exact .nil
  | cons c rest ih =>
    simp only [lines]
    split
    · exact ih.cons fun _ _ => rfl
    · split
      · exact .singleton _
      · rename_i line more hmore
        rw [hmore] at ih
        refine ih.tail.cons fun k hk => ?_
        have hline : line.getLast? = some '\n' := ih.rel_head? hk
        rw [getLast?_cons, hline]
        rfl

/-! ### Tilings -/

def Token.StandsOn (t : Token) (s : Text) : Prop :=
  if t.isOp ['\\'] then ∃ e, IsLineEnd e ∧ s = '\\' :: e else s = t.text

theorem Token.standsOn_of_not_op {t : Token} (h : t.kind ≠ .op) : t.StandsOn t.text := by
  rw [Token.StandsOn, if_neg]
  simp [Token.isOp, h]

/-- `Tiled off n s ts`: the text `s`, before which there are `n` characters, is tiled by the tokens. -/
inductive Tiled (off : Pos → Int) : Int → Text → List Token → Prop where
  | gap {n : Int} {s : Text} (hs : Spacing s) : Tiled off n s []
  | token {n : Int} {gap piece s : Text} {ts : List Token} (t : Token) (hgap : Spacing gap)
      (hstart : off t.start = n + gap.length) (hstop : off t.stop = n + gap.length + piece.length)
      (hpiece : t.StandsOn piece) (hrest : Tiled off (n + gap.length + piece.length) s ts) :
      Tiled off n (gap ++ (piece ++ s)) (t :: ts)

section

variable {off : Pos → Int} {n : Int} {s u : Text} {ts us : List Token}

theorem Tiled.space {gap : Text} (hgap : Spacing gap) (h : Tiled off (n + gap.length) s ts) :
    Tiled off n (gap ++ s) ts := by
  have happ {more : Text} (hmore : Spacing more) : Spacing (gap ++ more) := fun c hc =>
    (mem_append.mp hc).elim (hgap c) (hmore c)
  have hlen (more : Text) : n + ((gap ++ more).length : Int) = n + gap.length + more.length := by
    rw [length_append, Nat.cast_add, add_assoc]
  cases h with
  | gap hs => exact .gap (happ hs)
  | token t hmore hstart hstop hpiece hrest =>
    rw [← append_assoc]
    exact .token t (happ hmore) (by rw [hstart, hlen]) (by rw [hstop, hlen]) hpiece (by rwa [hlen])

theorem Tiled.append (h : Tiled off n s ts) (hu : Tiled off (n + s.length) u us) :
    Tiled off n (s ++ u) (ts ++ us) := by
  induction h with
  | gap hs => exact hu.space hs
  | token t hgap hstart hstop hpiece _ ih =>
    rw [append_assoc, append_assoc, cons_append]
    refine .token t hgap hstart hstop hpiece (ih ?_)
    simpa only [length_append, Nat.cast_add, add_assoc] using hu

theorem Tiled.one (t : Token) {piece : Text} (hstart : off t.start = n)
    (hstop : off t.stop = n + piece.length) (hpiece : t.StandsOn piece) : Tiled off n piece [t] := by
  have hone := Tiled.token t spacing_nil (by simpa using hstart) (by simpa using hstop) hpiece
    (Tiled.gap spacing_nil)
  simpa using hone

theorem Tiled.empty (h : ∀ t ∈ ts, t.kind ≠ .op ∧ t.text = [] ∧ off t.start = n ∧ off t.stop = n) :
    Tiled off n [] ts := by
  induction ts with
  | nil => exact .gap spacing_nil
  | cons t rest ih =>
    obtain ⟨hkind, htext, hstart, hstop⟩ := h t mem_cons_self
    have hpiece := Token.standsOn_of_not_op hkind
    rw [htext] at hpiece
    have hone := Tiled.one t hstart (by simpa using hstop) hpiece
    exact hone.append (by simpa using ih fun u hu => h u (mem_cons_of_mem _ hu))

def TiledUpTo (off : Pos → Int) (n : Int) (s : Text) (ts : List Token) (left : Option OpenString) : Prop :=
  ∃ front, s = front ++ (left.map (·.text)).getD [] ∧ Tiled off n front ts ∧
    ∀ p, left = some p → off p.start = n + front.length

theorem Tiled.upTo (h : Tiled off n s ts) : TiledUpTo off n s ts none := ⟨s, by simp, h, nofun⟩

theorem TiledUpTo.tiled (h : TiledUpTo off n s ts none) : Tiled off n s ts := by
  obtain ⟨front, hs, hfront, -⟩ := h
  simp only [Option.map_none, Option.getD_none, append_nil] at hs
  exact hs ▸ hfront

theorem TiledUpTo.after {left : Option OpenString} (h : Tiled off n s ts)
    (hu : TiledUpTo off (n + s.length) u us left) : TiledUpTo off n (s ++ u) (ts ++ us) left := by
  obtain ⟨front, rfl, hfront, hleft⟩ := hu
  refine ⟨s ++ front, (append_assoc _ _ _).symm, h.append hfront, fun p hp => ?_⟩
  rw [hleft p hp, length_append, Nat.cast_add, add_assoc]

end

/-! ### Joints -/

namespace Lexeme

theorem tripleOpening?_backslash (rest : Text) : tripleOpening? ('\\' :: rest) = none := by
  cases rest with
  | nil => rfl
  | cons c more => cases more <;> rfl

theorem number?_backslash (rest : Text) : number? ('\\' :: rest) = none := by
  have hdigit : isAsciiDigit '\\' = false := by decide
  have hdecimal : isDecimalDigit '\\' = false := by decide
  simp [number?, imaginary?, float?, pointFloat?, exponentFloat?, integer?, run, hdecimal, hdigit]

theorem front?_backslash {rest : Text} {front : Front} {n : Nat}
    (h : front? ('\\' :: rest) = some (front, n)) : front = .joined := by
  have hcomment : comment? ('\\' :: rest) = none := rfl
  have hoperator : operator? ('\\' :: rest) = none := rfl
  have hline : lineEnd? ('\\' :: rest) = none := rfl
  have hpunctuation : punctuation? ('\\' :: rest) = none := rfl
  have hstring : shortString? ('\\' :: rest) = none := rfl
  have hname : name? ('\\' :: rest) = none := rfl
  unfold front? at h
  rw [hcomment, tripleOpening?_backslash, number?_backslash, hoperator, hline, hpunctuation, hstring, hname] at h
  split at h
  · cases h
    rfl
  · cases h

end Lexeme

def Token.Wide (t : Token) : Prop := t.isOp ['\\'] = true → t.start.col + 1 < t.stop.col

theorem Token.wide_of_not_op {t : Token} (h : t.kind ≠ .op) : t.Wide := by
  intro hop
  simp [Token.isOp, h] at hop

namespace Scan

theorem read_wide {scan after : Scan} {line body : Text} {col size taken : Nat} {front : Front}
    {t : Token} (hfront : front? body = some (front, size))
    (h : scan.read line col body front size = .token t taken after) : t.Wide := by
  -- An operator that is spelled as it stands begins with another character than a backslash.
  have hspelled (hne : front ≠ .joined) : body.take size ≠ ['\\'] := by
    intro htake
    have hhead : body.head? = some '\\' := by
      cases body with
      | nil => simp at htake
      | cons c rest =>
        cases size with
        | zero => simp at htake
        | succ k => simpa using (List.cons.inj htake).1
    obtain ⟨rest, rfl⟩ := head?_eq_some_iff.mp hhead
    exact hne (front?_backslash hfront)
  have hreach := front?_reaches hfront
  unfold Scan.read at h
  cases front with
  | joined =>
    obtain ⟨e, rest, -, he, rfl⟩ := hreach
    have hpos := he.length_pos
    cases h
    intro
    dsimp only
    omega
  | opening closer =>
    dsimp only at h
    split at h
    · cases h
      exact Token.wide_of_not_op nofun
    · cases h
  | openString closer => cases h
  | lineEnd =>
    cases h
    refine Token.wide_of_not_op ?_
    dsimp only
    split <;> nofun
  | number | symbol =>
    cases h
    intro hop
    simp only [Token.isOp_iff] at hop
    exact absurd hop.2 (hspelled nofun)
  | comment | string | name =>
    cases h
    exact Token.wide_of_not_op nofun

theorem readFrom_wide (line : Text) (scan : Scan) (col skip : Nat) (body : Text) :
    ∀ t ∈ (readFrom line scan col skip body).1, t.Wide := by
  induction body generalizing scan col skip with
  | nil => simp [readFrom]
  | cons c rest ih =>
    cases skip with
    | succ k => exact ih scan (col + 1) k
    | zero =>
      rw [readFrom]
      dsimp only
      split
      · simp
      · split
        · intro t ht
          rcases mem_cons.mp ht with rfl | ht
          · exact Token.wide_of_not_op (by simp)
          · exact ih scan (col + 1) 0 t ht
        · rename_i front size hfront
          split
          · simp
          · rename_i u taken after hread
            intro t ht
            rcases mem_cons.mp ht with rfl | ht
            · exact read_wide hfront hread
            · exact ih after (col + 1) _ t ht

theorem finish_wide (scan : Scan) : ∀ t ∈ scan.finish, t.Wide := by
  intro t ht
  simp only [finish, mem_append, mem_map, mem_singleton] at ht
  rcases ht with ⟨-, -, rfl⟩ | rfl
  · exact Token.wide_of_not_op (by simp)
  · exact Token.wide_of_not_op (by simp)

theorem statementLine_wide (scan : Scan) (l : Text) : ∀ t ∈ (scan.statementLine l).1, t.Wide := by
  unfold statementLine
  dsimp only
  split
  · exact finish_wide scan
  · split
    · simp [Token.wide_of_not_op]
    · split
      · simp [Token.wide_of_not_op]
      · intro t ht
        simp only [mem_append, mem_map] at ht
        rcases ht with (ht | ⟨-, -, rfl⟩) | ht
        · split at ht
          · rw [mem_singleton] at ht
            exact ht ▸ Token.wide_of_not_op nofun
          · cases ht
        · exact Token.wide_of_not_op nofun
        · exact readFrom_wide _ _ _ _ _ t ht

theorem stringLine_wide (scan : Scan) (p : OpenString) (l : Text) : ∀ t ∈ (scan.stringLine p l).1, t.Wide := by
  unfold stringLine
  dsimp only
  split
  · simp [Token.wide_of_not_op]
  · split
    · intro t ht
      rcases mem_cons.mp ht with rfl | ht
      · exact Token.wide_of_not_op nofun
      · exact readFrom_wide _ _ _ _ _ t ht
    · split
      · simp [Token.wide_of_not_op]
      · nofun

theorem line_wide (scan : Scan) (l : Text) : ∀ t ∈ (scan.line l).1, t.Wide := by
  unfold line
  dsimp only
  split
  · exact stringLine_wide _ _ l
  · split
    · split
      · exact finish_wide _
      · exact statementLine_wide _ l
    · split
      · nofun
      · exact readFrom_wide _ _ _ _ _

end Scan

/-! ### From rows to the whole source -/

section

variable {off : Pos → Int} {row base : Int}

theorem Row.tiledUpTo {col : Int} {s : Text} {ts : List Token} {left : Option OpenString}
    (h : Row row col s ts left) (hoff : ∀ c, off ⟨row, c⟩ = base + c) (hwide : ∀ t ∈ ts, t.Wide) :
    TiledUpTo off (base + col) s ts left := by
  induction h with
  | blank hs => exact (Tiled.gap hs).upTo
  | opens p hgap _ hstart =>
    refine ⟨_, rfl, .gap hgap, fun q hq => ?_⟩
    cases hq
    rw [hstart, hoff, add_assoc]
  | @word col gap s ts left t hgap _ _ hstart hstop _ _ ih =>
    have hnot : t.isOp ['\\'] = false := by
      -- a joint would be wider than its text
      by_contra hop
      have hop : t.isOp ['\\'] = true := by simpa using hop
      have hlt := hwide t mem_cons_self hop
      simp only [Token.isOp_iff] at hop
      rw [hstart, hstop, hop.2] at hlt
      simp at hlt
    have hpiece : t.StandsOn t.text := by
      rw [Token.StandsOn, hnot, if_neg Bool.false_ne_true]
    have hone : Tiled off (base + col) (gap ++ (t.text ++ [])) [t] :=
      .token t hgap (by rw [hstart, hoff, add_assoc]) (by rw [hstop, hoff]; ring) hpiece (.gap spacing_nil)
    rw [append_nil] at hone
    have htail : TiledUpTo off (base + col + (gap ++ t.text).length) s ts left := by
      rw [length_append, Nat.cast_add]
      simpa only [add_assoc] using ih fun u hu => hwide u (mem_cons_of_mem _ hu)
    simpa using TiledUpTo.after hone htail
  | @lineEnd col gap t hgap hkind _ hstart hstop =>
    have hpiece : t.StandsOn t.text := by
      refine Token.standsOn_of_not_op ?_
      rintro hop
      rw [hop] at hkind
      cases hkind
    have hone : Tiled off (base + col) (gap ++ (t.text ++ [])) [t] :=
      .token t hgap (by rw [hstart, hoff, add_assoc]) (by rw [hstop, hoff]; ring) hpiece (.gap spacing_nil)
    rw [append_nil] at hone
    exact hone.upTo
  | @joined col gap e t hgap hend hkind htext hstart hstop =>
    have hpiece : t.StandsOn ('\\' :: e) := by
      rw [Token.StandsOn, if_pos (by simp [Token.isOp, hkind, htext])]
      exact ⟨e, hend, rfl⟩
    have hone : Tiled off (base + col) (gap ++ ('\\' :: e ++ [])) [t] := by
      refine .token t hgap (by rw [hstart, hoff, add_assoc]) ?_ hpiece (.gap spacing_nil)
      rw [hstop, hoff, length_cons, Nat.cast_add, Nat.cast_one]
      ring
    rw [append_nil] at hone
    exact hone.upTo

theorem Scan.LineRead.tiledUpTo {l done : Text} {before left : Option OpenString} {ts us : List Token}
    (h : Scan.LineRead row l before us left) (hoff : ∀ c, off ⟨row, c⟩ = done.length + c)
    (hwide : ∀ t ∈ us, t.Wide) (hdone : TiledUpTo off 0 done ts before) :
    TiledUpTo off 0 (done ++ l) (ts ++ us) left := by
  cases h with
  | fresh hrow =>
    refine TiledUpTo.after hdone.tiled ?_
    simpa using hrow.tiledUpTo hoff hwide
  | @closes us left p k t hkind hle _ htext hstart hstop hrow =>
    obtain ⟨front, rfl, hfront, hopen⟩ := hdone
    simp only [Option.map_some, Option.getD_some, length_append, Nat.cast_add] at hoff
    have hpiece : t.StandsOn (p.text ++ l.take k) := by
      rw [← htext]
      exact Token.standsOn_of_not_op (by rw [hkind]; nofun)
    have hlen : (l.take k).length = k := length_take_of_le hle
    have hone : Tiled off (0 + front.length) (p.text ++ l.take k) [t] := by
      refine .one t (by rw [hstart, hopen p rfl]) ?_ hpiece
      rw [hstop, hoff, length_append, hlen, Nat.cast_add]
      ring
    have hrest := hrow.tiledUpTo hoff fun u hu => hwide u (mem_cons_of_mem _ hu)
    have htail : TiledUpTo off (0 + (front ++ (p.text ++ l.take k)).length) (l.drop k) us left := by
      rw [length_append, length_append, hlen]
      simpa [add_assoc] using hrest
    simpa [append_assoc] using TiledUpTo.after (hfront.append hone) htail
  | spoiled p t hkind htext hstart hstop =>
    obtain ⟨front, rfl, hfront, hopen⟩ := hdone
    simp only [Option.map_some, Option.getD_some, length_append, Nat.cast_add] at hoff
    have hpiece : t.StandsOn (p.text ++ l) := by
      rw [← htext]
      exact Token.standsOn_of_not_op (by rw [hkind]; nofun)
    have hone : Tiled off (0 + front.length) (p.text ++ l) [t] := by
      refine .one t (by rw [hstart, hopen p rfl]) ?_ hpiece
      rw [hstop, hoff, length_append, Nat.cast_add]
      ring
    simpa [append_assoc] using (hfront.append hone).upTo
  | goesOn p q htext hstart _ =>
    obtain ⟨front, rfl, hfront, hopen⟩ := hdone
    refine ⟨front, by simp [htext], by simpa using hfront, fun r hr => ?_⟩
    cases hr
    rw [hstart]
    exact hopen p rfl

end

namespace Scan

theorem line_nil_tiled {lines : List Text} {scan : Scan} {ts : List Token} (hrow : scan.row = lines.length)
    (h : TiledUpTo (offset lines) 0 lines.flatten ts scan.pending) :
    Tiled (offset lines) 0 lines.flatten (ts ++ (scan.line []).1) := by
  have hend : offset lines ⟨(scan.row + 1 : Nat), 0⟩ = lines.flatten.length := by
    have hlast := offset_row lines [] 0
    rwa [append_nil, add_zero, ← hrow] at hlast
  cases hpending : scan.pending with
  | none =>
    rw [hpending] at h
    have hempty : Tiled (offset lines) (0 + lines.flatten.length) [] (scan.line []).1 := by
      refine Tiled.empty fun t ht => ?_
      obtain ⟨hkind, htext, hstart, hstop⟩ := Layout.mem_line_nil hpending ht
      have hrow : ((scan.row : Int) + 1) = (scan.row + 1 : Nat) := by simp
      rw [hrow] at hstart hstop
      refine ⟨?_, htext, by rw [hstart, hend, zero_add], by rw [hstop, hend, zero_add]⟩
      rcases hkind with hkind | hkind <;> simp [hkind]
    simpa using h.tiled.append hempty
  | some p =>
    rw [hpending] at h
    obtain ⟨front, htext, hfront, hopen⟩ := h
    simp only [Option.map_some, Option.getD_some] at htext
    rw [Layout.line_nil_pending hpending, htext]
    refine hfront.append (Tiled.one _ (hopen p rfl) ?_ (Token.standsOn_of_not_op nofun))
    rw [hend, htext, length_append, Nat.cast_add, zero_add]

theorem all_tiled {lines front rest : List Text} {scan : Scan} {ts : List Token}
    (hlines : lines = front ++ rest) (hrest : ∀ l ∈ rest, SingleLine l ∧ l ≠ [])
    (hended : rest.IsChain fun l _ => l.getLast? = some '\n') (hrow : scan.row = front.length)
    (h : TiledUpTo (offset lines) 0 front.flatten ts scan.pending) :
    Tiled (offset lines) 0 lines.flatten (ts ++ scan.all rest) := by
  induction rest generalizing front scan ts with
  | nil =>
    rw [append_nil] at hlines
    subst hlines
    exact line_nil_tiled hrow h
  | cons l rest ih =>
    obtain ⟨hline, hne⟩ := hrest l mem_cons_self
    have hoff (c : Int) : offset lines ⟨(scan.row + 1 : Nat), c⟩ = front.flatten.length + c := by
      rw [hlines, hrow, offset_row]
    rcases line_read scan hline hne with ⟨after, hafter, hr, hread⟩ | ⟨hspace, hpending, hfinish⟩
    · have hstep := hread.tiledUpTo hoff (line_wide scan l) h
      have hflat : front.flatten ++ l = (front ++ [l]).flatten := by simp
      rw [hflat] at hstep
      rw [all_cons_some (Prod.ext rfl hafter), ← append_assoc]
      exact ih (by simp [hlines]) (fun k hk => hrest k (mem_cons_of_mem _ hk)) hended.tail
        (by simp [hr, hrow]) hstep
    · -- A line of spacing alone has no newline, so it is the last.
      have hlast : rest = [] := by
        cases rest with
        | nil => rfl
        | cons k more =>
          have hnewline := mem_of_getLast? (isChain_cons_cons.mp hended).1
          exact absurd (hspace _ hnewline) (by decide)
      subst hlast
      rw [hpending] at h
      rw [all_cons_none hfinish, hlines, flatten_append, ← hlines, flatten_singleton]
      have hempty : Tiled (offset lines) (0 + front.flatten.length) [] (finish { scan with row := scan.row + 1 }) := by
        refine Tiled.empty fun t ht => ?_
        have hend := hoff 0
        rw [add_zero] at hend
        simp only [finish, mem_append, mem_map, mem_singleton] at ht
        rcases ht with ⟨-, -, rfl⟩ | rfl
        · exact ⟨by simp, rfl, by rw [hend, zero_add], by rw [hend, zero_add]⟩
        · exact ⟨by simp, rfl, by rw [hend, zero_add], by rw [hend, zero_add]⟩
      have hgap : Tiled (offset lines) (0 + front.flatten.length + ([] : Text).length) l [] := .gap hspace
      simpa using h.tiled.append (hempty.append hgap)

end Scan

theorem tokenize_tiled (source : Text) :
    Tiled (offset (Text.lines source)) 0 source (tokenize (Text.lines source)) := by
  have hnone : Tiled (offset (Text.lines source)) 0 [] [] := .gap (by simp [Spacing])
  have hall := @Scan.all_tiled (Text.lines source) [] (Text.lines source) {} [] rfl
    (fun l hl => ⟨singleLine_of_mem_lines hl, ne_nil_of_mem_lines hl⟩) (isChain_lines source) rfl hnone.upTo
  rwa [flatten_lines, nil_append] at hall

/-! ### Slices -/

def extents (off : Pos → Int) (s : Text) (ts : List Token) : List (Int × Int) :=
  (0, 0) :: (ts.map fun t => (off t.start, off t.stop)) ++ [((s.length : Int), (s.length : Int))]

def Follows (s : Text) (a b : Int × Int) : Prop := a.2 ≤ b.1 ∧ Spacing (slice s a.2 b.1)

section

variable {off : Pos → Int} {n : Int} {s : Text} {ts : List Token}

theorem Tiled.slices (h : Tiled off n s ts) {before : Text} (hn : n = before.length) :
    ∀ t ∈ ts, off t.start ≤ off t.stop ∧ t.StandsOn (slice (before ++ s) (off t.start) (off t.stop)) := by
  induction h generalizing before with
  | gap => nofun
  | @token n gap piece s ts t _ hstart hstop hpiece _ ih =>
    subst hn
    intro u hu
    rcases mem_cons.mp hu with rfl | hu
    · refine ⟨by rw [hstart, hstop]; omega, ?_⟩
      have hslice := slice_append (before ++ gap) piece s
      rw [length_append, Nat.cast_add, ← hstart] at hslice
      rw [← append_assoc, hstop, ← hstart, hslice]
      exact hpiece
    · have hrest := @ih (before ++ (gap ++ piece)) (by simp [add_assoc]) u hu
      simpa using hrest

theorem Tiled.follows (h : Tiled off n s ts) {before : Text} (hn : n = before.length) (k : Int) :
    ((k, n) :: (ts.map fun t => (off t.start, off t.stop)) ++
        [(((before ++ s).length : Int), ((before ++ s).length : Int))]).IsChain (Follows (before ++ s)) := by
  induction h generalizing before k with
  | @gap n s hs =>
    subst hn
    have hslice := slice_append before s []
    rw [append_nil, ← Nat.cast_add, ← length_append] at hslice
    simp only [map_nil, cons_append, nil_append, isChain_cons_cons, isChain_singleton,
      and_true]
    refine ⟨by simp, ?_⟩
    rw [hslice]
    exact hs
  | @token n gap piece s ts t hgap hstart hstop _ _ ih =>
    subst hn
    have hslice := slice_append before gap (piece ++ s)
    have hrest := @ih (before ++ (gap ++ piece)) (by simp [add_assoc]) (off t.start)
    rw [← hstop] at hrest
    simp only [map_cons, cons_append, isChain_cons_cons]
    refine ⟨⟨by rw [hstart]; omega, ?_⟩, by simpa using hrest⟩
    rw [hstart, hslice]
    exact hgap

end

/-- Every token of a source stands on the characters between its two positions. The tokens stand one
after the other, and before the first, between two of them and after the last there is nothing but
spacing. -/
theorem tokens_tile_source (source : Text) : (∀ t ∈ tokenize (Text.lines source),
      offset (Text.lines source) t.start ≤ offset (Text.lines source) t.stop ∧
      t.StandsOn (slice source (offset (Text.lines source) t.start) (offset (Text.lines source) t.stop))) ∧
    (extents (offset (Text.lines source)) source (tokenize (Text.lines source))).IsChain (Follows source) :=
  ⟨@Tiled.slices _ _ _ _ (tokenize_tiled source) [] rfl, @Tiled.follows _ _ _ _ (tokenize_tiled source) [] rfl 0⟩

end InlineMarkup

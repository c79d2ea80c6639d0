import InlineMarkup.Proofs.Fronts
import InlineMarkup.Proofs.Tiling

/-!
How rows end. What a row leaves to the next hangs on its text alone, and it is the same from each of its
tokens on: a row that is read again from one of its tokens ends as it did.
-/
namespace InlineMarkup

open Lexeme Text List

/-! ### The end of a row -/

/-- What a row leaves to the next: nothing, a joint, or a string that is still open. -/
inductive RowEnd where
  | done
  | joint
  | opens (closer : Closer) (strict : Bool)
  deriving DecidableEq, Repr

/-- What is read at the front of a row: so many characters, or all that is left of it. -/
inductive Bite where
  | taken (size : Nat)
  | last (e : RowEnd)
  deriving DecidableEq, Repr

def bite (s : Text) : Bite :=
  match front? s with
  | none => .taken 1
  | some (.joined, _) => .last .joint
  | some (.openString closer, _) => .last (.opens closer true)
  | some (.opening closer, size) =>
    match tail? closer (s.drop size) with
    | some n => .taken (size + n)
    | none => .last (.opens closer false)
  | some (_, size) => .taken size

def rowEnd : Nat → Text → RowEnd
  | _, [] => .done
  | skip + 1, _ :: rest => rowEnd skip rest
  | 0, c :: rest =>
    match bite (c :: rest) with
    | .taken size => rowEnd (size - 1) rest
    | .last e => e

theorem rowEnd_drop (skip : Nat) (s : Text) : rowEnd skip s = rowEnd 0 (s.drop skip) := by
  induction s generalizing skip with
  | nil => simp [rowEnd]
  | cons c rest ih =>
    cases skip with
    | zero => rfl
    | succ k => simpa [rowEnd] using ih k

variable {s r : Text} {n : Nat} {c : Char}

theorem bite_taken (hne : s ≠ []) (h : bite s = .taken n) : 0 < n ∧ n ≤ s.length := by
  unfold bite at h
  split at h
  · cases h
    exact ⟨Nat.one_pos, length_pos_iff.2 hne⟩
  · cases h
  · cases h
  · rename_i closer size hfront
    obtain ⟨-, hpos, hon⟩ := front?_reaches hfront
    split at h
    · rename_i m htail
      cases h
      have hle := (tail?_reach _ m htail).2.1
      rw [length_drop] at hle
      have := hon.le
      omega
    · cases h
  · rename_i hfront
    cases h
    exact ⟨(front?_reaches hfront).pos, (front?_reaches hfront).le⟩

theorem rowEnd_taken (h : bite s = .taken n) : rowEnd 0 s = rowEnd 0 (s.drop n) := by
  cases s with
  | nil => simp
  | cons c rest =>
    obtain ⟨k, rfl⟩ : ∃ k, n = k + 1 :=
      ⟨n - 1, by have := (bite_taken (cons_ne_nil c rest) h).1; omega⟩
    rw [rowEnd, h]
    exact rowEnd_drop k rest

theorem rowEnd_last {e : RowEnd} (h : bite s = .last e) : rowEnd 0 s = e := by
  cases s with
  | nil => cases h
  | cons c rest => rw [rowEnd, h]

/-! ### The places a row is read to -/

/-- The reading of the text `s` comes to `r`, what is left of it at one of its lexemes. -/
inductive Reached : Text → Text → Prop where
  | here (s : Text) : Reached s s
  | on {s r : Text} {n : Nat} (hne : s ≠ []) (h : bite s = .taken n)
      (hr : Reached (s.drop n) r) : Reached s r

theorem Reached.rowEnd_eq (h : Reached s r) : rowEnd 0 s = rowEnd 0 r := by
  induction h with
  | here => rfl
  | on _ h _ ih => rw [rowEnd_taken h, ih]

theorem Reached.trans {u : Text} (h : Reached s r) (k : Reached r u) : Reached s u := by
  induction h with
  | here => exact k
  | on hne h _ ih => exact .on hne h (ih k)

theorem front?_spacing (hc : isSpacing c = true) (rest : Text) : front? (c :: rest) = none := by
  have hc' : c = ' ' ∨ c = '\t' ∨ c = '\x0c' := by
    simpa [isSpacing, or_assoc] using hc
  have hdigit : isAsciiDigit c = false := by rcases hc' with rfl | rfl | rfl <;> decide
  have hdecimal : isDecimalDigit c = false := by rcases hc' with rfl | rfl | rfl <;> decide
  have hnumber : number? (c :: rest) = none := by
    rcases hc' with rfl | rfl | rfl <;>
      simp [number?, imaginary?, float?, pointFloat?, exponentFloat?, integer?, run, hdecimal, hdigit]
  have htriple : tripleOpening? (c :: rest) = none := by
    rcases hc' with rfl | rfl | rfl <;> rcases rest with - | ⟨d, - | ⟨e, more⟩⟩ <;> rfl
  rcases hc' with rfl | rfl | rfl <;> (unfold front?; rw [hnumber, htriple]; rfl)

theorem bite_spacing (hc : isSpacing c = true) (rest : Text) : bite (c :: rest) = .taken 1 := by
  rw [bite, front?_spacing hc]

theorem reached_spacing {gap : Text} (hgap : Spacing gap) (s : Text) : Reached (gap ++ s) s := by
  induction gap with
  | nil => exact .here s
  | cons c rest ih =>
    exact .on (cons_ne_nil _ _) (bite_spacing (hgap c mem_cons_self) _)
      (ih fun d hd => hgap d (mem_cons_of_mem _ hd))

/-! ### Rows as they are read -/

namespace Scan

def Keeps (scan : Scan) : RowEnd → Prop
  | .opens closer strict =>
    ∃ o, scan.pending = some o ∧ o.closer = closer ∧ scan.strict = strict
  | _ => scan.pending = none ∧ scan.strict = false

variable {after : Scan} {l s : Text} {row : Nat} {ts : List Token}

variable {scan : Scan} {line body : Text} {col size : Nat} {front : Front}

theorem read_bite {taken : Nat} {t : Token} (hline : SingleLine body) (hfront : front? body = some (front, size))
    (h : scan.read line col body front size = .token t taken after) :
    after.strict = scan.strict ∧ (bite body = .taken taken ∨ bite body = .last .joint ∧ taken = body.length) := by
  unfold bite
  rw [hfront]
  have hreach := front?_reaches hfront
  unfold Scan.read at h
  cases front with
  | joined =>
    obtain ⟨e, rest, rfl, he, rfl⟩ := hreach
    have hrest : rest = [] := he.rest_nil ['\\'] hline
    subst hrest
    cases h
    refine ⟨rfl, Or.inr ⟨rfl, ?_⟩⟩
    simp only [append_nil, length_cons]
    omega
  | openString closer => exact absurd h (by simp)
  | opening closer =>
    dsimp only at h ⊢
    cases htail : tail? closer (body.drop size) with
    | some n =>
      rw [htail] at h
      cases h
      exact ⟨rfl, Or.inl rfl⟩
    | none =>
      rw [htail] at h
      cases h
  | comment | number | lineEnd | symbol | string | name =>
    cases h
    exact ⟨rfl, Or.inl rfl⟩

theorem read_bite_suspended (hstrict : scan.strict = false) (hfront : front? body = some (front, size))
    (h : scan.read line col body front size = .suspended after) :
    ∃ o e, bite body = .last e ∧ after.Keeps e ∧ after.pending = some o ∧ o.text = body := by
  unfold bite
  rw [hfront]
  obtain ⟨closer, strict, rfl, ⟨rfl, hsame, htail⟩ | ⟨rfl, rfl⟩⟩ := read_suspended_eq h
  · dsimp only
    rw [htail]
    exact ⟨_, _, rfl, ⟨_, rfl, rfl, hsame.trans hstrict⟩, rfl, rfl⟩
  · exact ⟨_, _, rfl, ⟨_, rfl, rfl, rfl⟩, rfl, rfl⟩

/-- What is read of the text `s`, which ends the line `l`: the tokens start at places that the
reading comes to, and so does the string that is left open. -/
structure Follows (l s : Text) (row : Nat) (ts : List Token) (after : Scan) : Prop where
  tokens : ∀ t ∈ ts, ∃ n : Nat, t.start = ⟨row, n⟩ ∧ Reached s (l.drop n) ∧ l.drop n ≠ []
  keeps : after.Keeps (rowEnd 0 s)
  left : ∀ o, after.pending = some o → Reached s o.text

theorem Follows.of_reached {r : Text}
    (h : Follows l r row ts after) (hr : Reached s r) : Follows l s row ts after where
  tokens t ht := by
    obtain ⟨n, hstart, hreached, hne⟩ := h.tokens t ht
    exact ⟨n, hstart, hr.trans hreached, hne⟩
  keeps := hr.rowEnd_eq ▸ h.keeps
  left o ho := hr.trans (h.left o ho)

theorem Follows.append {us : List Token}
    (hus : ∀ t ∈ us, ∃ n : Nat, t.start = ⟨row, n⟩ ∧ Reached s (l.drop n) ∧ l.drop n ≠ [])
    (h : Follows l s row ts after) : Follows l s row (us ++ ts) after where
  tokens t ht := (mem_append.1 ht).elim (hus t) (h.tokens t)
  keeps := h.keeps
  left := h.left

theorem Follows.cons {t : Token} {n : Nat}
    (hstart : t.start = ⟨row, n⟩) (hreached : Reached s (l.drop n)) (hne : l.drop n ≠ [])
    (h : Follows l s row ts after) : Follows l s row (t :: ts) after :=
  @Follows.append after l s row ts [t]
    (fun _ hu => mem_singleton.1 hu ▸ ⟨n, hstart, hreached, hne⟩) h

theorem Follows.atEnd (hend : rowEnd 0 s = .done ∨ rowEnd 0 s = .joint) (hpending : after.pending = none)
    (hstrict : after.strict = false) : Follows l s row [] after where
  tokens := nofun
  keeps := by rcases hend with hend | hend <;> exact hend ▸ ⟨hpending, hstrict⟩
  left o ho := by rw [hpending] at ho; cases ho

theorem readFrom_follows (line : Text) (scan : Scan) (col skip : Nat) (body : Text)
    (hline : SingleLine body) (hbody : l.drop col = body) (hpending : scan.pending = none)
    (hstrict : scan.strict = false) : Follows l (body.drop skip) scan.row (readFrom line scan col skip body).1
      (readFrom line scan col skip body).2 := by
  induction body generalizing scan col skip with
  | nil =>
    simp only [readFrom, drop_nil]
    exact Follows.atEnd (Or.inl rfl) hpending hstrict
  | cons c rest ih =>
    have hrestline : SingleLine rest := by simpa using hline.drop 1
    have hrest : l.drop (col + 1) = rest := by rw [← drop_drop, hbody, drop_one, tail_cons]
    cases skip with
    | succ k =>
      simp only [readFrom, drop_succ_cons]
      exact ih scan (col + 1) k hrestline hrest hpending hstrict
    | zero =>
      rw [readFrom, drop_zero]
      dsimp only
      have hspacing := spacing_take_run (c :: rest)
      have hreached := reached_spacing hspacing ((c :: rest).drop (run isSpacing (c :: rest)))
      have hplace : l.drop (col + run isSpacing (c :: rest)) =
          (c :: rest).drop (run isSpacing (c :: rest)) := by rw [← drop_drop, hbody]
      have hbodyline : SingleLine ((c :: rest).drop (run isSpacing (c :: rest))) := hline.drop _
      have hrun : isSpacing c = false → run isSpacing (c :: rest) = 0 := by
        intro hc
        simp [run, hc]
      rw [take_append_drop] at hreached
      generalize run isSpacing (c :: rest) = spacing at *
      generalize hfound : (c :: rest).drop spacing = found at *
      split
      · rename_i hempty
        have hnil : found = [] := by simpa using hempty
        rw [hnil] at hreached
        exact Follows.of_reached (.atEnd (Or.inl rfl) hpending hstrict) hreached
      · split
        · rename_i hnone
          -- one character is read, be it a space or the first of what is no lexeme
          have hbite : bite (c :: rest) = .taken 1 := by
            cases hc : isSpacing c with
            | true => exact bite_spacing hc rest
            | false =>
              rw [hrun hc, drop_zero] at hfound
              rw [bite, hfound, hnone]
          have hmore := ih scan (col + 1) 0 hrestline hrest hpending hstrict
          rw [drop_zero] at hmore
          refine Follows.cons rfl (hbody ▸ .here _) (by simp [hbody]) (hmore.of_reached ?_)
          exact .on (cons_ne_nil _ _) hbite (.here _)
        · rename_i front size hfront
          split
          · rename_i after hread
            obtain ⟨o, e, hbite, hkeeps, ho, htext⟩ := read_bite_suspended hstrict hfront hread
            refine Follows.of_reached ⟨by simp, rowEnd_last hbite ▸ hkeeps, ?_⟩ hreached
            intro o' ho'
            cases ho.symm.trans ho'
            exact htext ▸ .here _
          · rename_i t taken after hread
            obtain ⟨hstart, -, hpos, hle, -, hrow, hpend⟩ :=
              read_token hbodyline (front?_reaches hfront) hread
            obtain ⟨hkept, hbite⟩ := read_bite hbodyline hfront hread
            have hdrop : rest.drop (spacing + taken - 1) = found.drop taken := by
              obtain ⟨k, hk⟩ : ∃ k, spacing + taken = k + 1 := ⟨spacing + taken - 1, by omega⟩
              rw [← hfound, drop_drop, hk, drop_succ_cons, Nat.add_sub_cancel]
            have hmore := ih after (col + 1) (spacing + taken - 1) hrestline hrest
              (hpend.trans hpending) (hkept.trans hstrict)
            rw [hdrop, hrow] at hmore
            have hne : found ≠ [] := by
              rintro rfl
              rw [length_nil] at hle
              omega
            refine Follows.of_reached (.cons hstart (hplace ▸ .here _) (hplace ▸ hne) ?_) hreached
            rcases hbite with hbite | ⟨hbite, hall⟩
            · exact hmore.of_reached (.on hne hbite (.here _))
            · -- the joint is the last of its row
              have hlength : (c :: rest).length ≤ spacing + taken := by
                rw [hall, ← hfound, length_drop]
                omega
              rw [readFrom_of_length_le _ _ _ _ _ (by rw [length_cons] at hlength; omega)]
              exact Follows.atEnd (Or.inr (rowEnd_last hbite)) (hpend.trans hpending) (hkept.trans hstrict)

end Scan

/-! ### Lines cut after the backslash that joins them -/

def Cut (s : Text) : Prop := ∃ u, s = u ++ ['\\'] ∧ ∀ c ∈ u, c ≠ '\n' ∧ c ≠ '\r'

theorem Cut.ne_nil {s : Text} (h : Cut s) : s ≠ [] := by
  obtain ⟨u, rfl, -⟩ := h
  simp

theorem Cut.drop {s : Text} (h : Cut s) {n : Nat} (hne : s.drop n ≠ []) : Cut (s.drop n) := by
  obtain ⟨u, rfl, hu⟩ := h
  have hn : n ≤ u.length := by
    by_contra hlt
    exact hne (drop_eq_nil_of_le (by rw [length_append, length_singleton]; omega))
  exact ⟨u.drop n, drop_append_of_le_length hn, fun c hc => hu c (mem_of_mem_drop hc)⟩

theorem rowEnd_newline : rowEnd 0 ['\n'] = .done := by
  have hbite : bite ['\n'] = .taken 1 := by rw [bite, front?_newline]
  rw [rowEnd_taken hbite]
  rfl

theorem bite_joint : bite ['\\', '\n'] = .last .joint := rfl

theorem bite_backslash : bite ['\\'] = .taken 1 := rfl

theorem bite_cut {u : Text} (hu : ∀ c ∈ u, c ≠ '\n' ∧ c ≠ '\r') (hne : u ≠ []) :
    (∃ closer strict, bite (u ++ ['\\', '\n']) = .last (.opens closer strict)) ∨
      ∃ n, bite (u ++ ['\\', '\n']) = .taken n ∧ bite (u ++ ['\\']) = .taken n := by
  unfold bite
  obtain ⟨closer, n, h⟩ | h := front?_cut hu hne
  · exact Or.inl ⟨closer, true, by rw [h]⟩
  rw [h]
  split
  · exact Or.inr ⟨1, rfl, rfl⟩
  · rename_i n hfront
    have hjoined := front?_joined hfront
    rw [joinedLine?_append (by decide) (fun c hc => (hu c hc).1) hne] at hjoined
    cases hjoined
  · exact Or.inl ⟨_, _, rfl⟩
  · rename_i closer n hfront
    have hopening := front?_opening hfront
    rw [tripleOpening?_append (by decide)] at hopening
    obtain ⟨-, hon, hquote⟩ := tripleOpening?_onLine hopening
    have htail := tail?_cut hquote (u := u.drop n) fun c hc => (hu c (mem_of_mem_drop hc)).1
    rw [drop_append_of_le_length hon.le, drop_append_of_le_length hon.le, htail]
    rcases tail? closer (u.drop n ++ ['\\', '\n']) with - | m
    · exact Or.inl ⟨_, _, rfl⟩
    · exact Or.inr ⟨_, rfl, rfl⟩
  · exact Or.inr ⟨_, rfl, rfl⟩

theorem rowEnd_cut {s : Text} (h : Cut s) (hjoint : rowEnd 0 (s ++ ['\n']) = .joint) : rowEnd 0 s = .done := by
  induction hlength : s.length using Nat.strong_induction_on generalizing s with
  | _ k ih =>
  obtain ⟨u, rfl, hu⟩ := h
  rw [append_assoc, singleton_append] at hjoint
  by_cases hne : u = []
  · subst hne
    exact rowEnd_taken bite_backslash
  obtain ⟨closer, strict, hbite⟩ | ⟨n, hbite, hcut⟩ := bite_cut hu hne
  · rw [rowEnd_last hbite] at hjoint
    cases hjoint
  obtain ⟨hpos, hle⟩ := bite_taken (by simp) hcut
  rw [rowEnd_taken hcut]
  by_cases hrest : (u ++ ['\\']).drop n = []
  · rw [hrest]
    rfl
  · refine ih _ ?_ (Cut.drop ⟨u, rfl, hu⟩ hrest) ?_ rfl
    · rw [← hlength, length_drop]
      omega
    · rw [rowEnd_taken hbite] at hjoint
      rw [← drop_append_of_le_length hle, append_assoc, singleton_append]
      exact hjoint

theorem Reached.joint {s r : Text} (h : Reached s r) (hs : Cut s)
    (hjoint : rowEnd 0 (s ++ ['\n']) = .joint) (hr : r ≠ []) : rowEnd 0 (r ++ ['\n']) = .joint := by
  induction h with
  | here => exact hjoint
  | @on s r n hne hcut hrest ih =>
    obtain ⟨u, rfl, hu⟩ := id hs
    by_cases hnil : u = []
    · subst hnil
      cases hcut
      cases hrest with
      | here => exact absurd rfl hr
      | on hne => exact absurd rfl hne
    rw [append_assoc, singleton_append] at hjoint
    obtain ⟨closer, strict, hbite⟩ | ⟨m, hbite, hcut'⟩ := bite_cut hu hnil
    · rw [rowEnd_last hbite] at hjoint
      cases hjoint
    cases hcut.symm.trans hcut'
    have hle := (bite_taken hne hcut).2
    have hdrop : (u ++ ['\\', '\n']).drop n = (u ++ ['\\']).drop n ++ ['\n'] := by
      rw [← drop_append_of_le_length hle, append_assoc, singleton_append]
    rw [rowEnd_taken hbite, hdrop] at hjoint
    refine ih (hs.drop ?_) hjoint hr
    intro hover
    rw [hover, nil_append, rowEnd_newline] at hjoint
    cases hjoint

/-! ### Line by line -/

namespace RowEnd

def read (e : RowEnd) (l : Text) : Option RowEnd :=
  match e with
  | .opens closer strict =>
    match tail? closer l with
    | some n => some (rowEnd n l)
    | none =>
      if strict && !(['\\', '\n'].isSuffixOf l || ['\\', '\r', '\n'].isSuffixOf l) then none
      else some (.opens closer strict)
  | _ => some (rowEnd 0 l)

def reads : RowEnd → List Text → Option RowEnd
  | e, [] => some e
  | e, l :: rest => (e.read l).bind fun e' => e'.reads rest

theorem reads_append (e : RowEnd) (ks ls : List Text) :
    e.reads (ks ++ ls) = (e.reads ks).bind fun e' => e'.reads ls := by
  induction ks generalizing e with
  | nil => rfl
  | cons k ks ih =>
    rw [cons_append, reads, reads]
    cases e.read k with
    | none => rfl
    | some e' => exact ih e'

theorem reads_singleton (e : RowEnd) (l : Text) : e.reads [l] = e.read l := by
  cases h : e.read l <;> simp [reads, h]

def Quoted : RowEnd → Prop
  | .opens closer _ => isQuote closer.mark = true
  | _ => True

theorem read_newline {closer : Closer} {strict : Bool} {l : Text} {n : Nat}
    (hquote : isQuote closer.mark = true) (hl : Cut l) (htail : tail? closer l = some n) :
    (RowEnd.opens closer strict).read (l ++ ['\n']) = some (rowEnd 0 (l.drop n ++ ['\n'])) := by
  obtain ⟨u, rfl, hplain⟩ := hl
  have hle := (tail?_reach _ n htail).2.1
  rw [tail?_cut hquote fun c hc => (hplain c hc).1] at htail
  rw [read, ← drop_append_of_le_length hle, ← rowEnd_drop, append_assoc, singleton_append, htail]

theorem cut_of_joint {l : Text} {n : Nat} (hl : Cut l)
    (h : rowEnd 0 (l.drop n ++ ['\n']) = .joint) : Cut (l.drop n) := by
  refine hl.drop fun hnil => ?_
  rw [hnil, nil_append, rowEnd_newline] at h
  cases h

theorem read_cut {e : RowEnd} {l : Text} (hquoted : e.Quoted) (hl : Cut l)
    (h : e.read (l ++ ['\n']) = some .joint) : e.read l = some .done := by
  cases e with
  | done | joint => exact congrArg some (rowEnd_cut hl (Option.some.inj h))
  | opens closer strict =>
    cases htail : tail? closer l with
    | none =>
      obtain ⟨u, rfl, hplain⟩ := hl
      rw [tail?_cut hquoted fun c hc => (hplain c hc).1] at htail
      rw [append_assoc, singleton_append, read, htail] at h
      dsimp only at h
      split at h <;> cases h
    | some n =>
      rw [read_newline hquoted hl htail, Option.some.injEq] at h
      rw [read, htail]
      dsimp only
      rw [rowEnd_drop, rowEnd_cut (cut_of_joint hl h) h]

end RowEnd

namespace Scan

/-- What reading a line comes to: the string that was open before it, the tokens, and what the line
leaves. -/
inductive LineStep (scan : Scan) (l : Text) : List Token → Scan → RowEnd → Prop where
  | fresh {ts : List Token} {after : Scan} (hpending : scan.pending = none)
      (hrow : Row (scan.row + 1 : Nat) 0 l ts after.pending)
      (hfollows : Follows l l (scan.row + 1) ts after) : LineStep scan l ts after (rowEnd 0 l)
  | closes {ts : List Token} {after : Scan} (p : OpenString) (n : Nat) (t : Token)
      (hpending : scan.pending = some p) (hkind : t.kind = .string)
      (htail : tail? p.closer l = some n) (htext : t.text = p.text ++ l.take n)
      (hstart : t.start = p.start) (hstop : t.stop = ⟨(scan.row + 1 : Nat), n⟩)
      (hrow : Row (scan.row + 1 : Nat) n (l.drop n) ts after.pending)
      (hfollows : Follows l (l.drop n) (scan.row + 1) ts after) :
      LineStep scan l (t :: ts) after (rowEnd n l)
  | goesOn {after : Scan} (p q : OpenString) (hpending : scan.pending = some p)
      (hafter : after.pending = some q) (hstrict : after.strict = scan.strict)
      (htext : q.text = p.text ++ l) (hstart : q.start = p.start) (hcloser : q.closer = p.closer) :
      LineStep scan l [] after (.opens p.closer scan.strict)

variable {scan : Scan} {e : RowEnd} {l : Text}

theorem Keeps.eq_opens (h : scan.Keeps e) {o : OpenString}
    (ho : scan.pending = some o) : e = .opens o.closer scan.strict := by
  cases e with
  | opens closer strict =>
    obtain ⟨o', ho', rfl, rfl⟩ := h
    cases ho.symm.trans ho'
    rfl
  | done | joint =>
    rw [h.1] at ho
    cases ho

theorem Keeps.read_eq (h : scan.Keeps e) (hpending : scan.pending = none)
    (s : Text) : e.read s = some (rowEnd 0 s) := by
  cases e with
  | opens closer strict =>
    obtain ⟨o, ho, -⟩ := h
    rw [hpending] at ho
    cases ho
  | done | joint => rfl

theorem bite_comment {comment tail : Text} (hhead : comment.head? = some '#')
    (hcomment : ∀ c ∈ comment, c ≠ '\n' ∧ c ≠ '\r') (htail : tail = [] ∨ tail = ['\n']) :
    bite (comment ++ tail) = .taken comment.length := by
  cases comment with
  | nil => cases hhead
  | cons d more =>
    cases hhead
    have hmore : ∀ c ∈ more, (c != '\r' && c != '\n') = true := by
      intro c hc
      have h := hcomment c (mem_cons_of_mem _ hc)
      simp [h.1, h.2]
    have hrun : run (fun c => c != '\r' && c != '\n') (more ++ tail) = more.length := by
      rw [run, takeWhile_append_of_pos hmore]
      rcases htail with rfl | rfl <;> simp
    have hfront : front? ('#' :: (more ++ tail)) = some (.comment, 1 + more.length) := by
      rw [← hrun]
      rfl
    rw [cons_append, bite, hfront, length_cons, Nat.add_comm]

theorem comment_ended {gap comment tail : Text} (hgap : Spacing gap)
    (hhead : comment.head? = some '#') (hcomment : ∀ c ∈ comment, c ≠ '\n' ∧ c ≠ '\r')
    (hl : l = gap ++ (comment ++ tail)) (hplain : ∀ c ∈ l, c ≠ '\r') (htail : EndsRow tail)
    (hclosed : l.getLast? = some '\n' ∨ rowEnd 0 (l ++ ['\n']) = .joint) : tail = ['\n'] := by
  rcases htail with htail | htail | htail
  · exact htail
  · subst htail
    rw [append_nil] at hl
    exfalso
    rcases hclosed with hlast | hjoint
    · rw [hl] at hlast
      rcases mem_append.1 (mem_of_getLast? hlast) with h | h
      · exact spacing_noNewline hgap _ h rfl
      · exact (hcomment _ h).1 rfl
    · rw [hl, append_assoc, (reached_spacing hgap _).rowEnd_eq,
        rowEnd_taken (bite_comment hhead hcomment (Or.inr rfl)), drop_left,
        rowEnd_newline] at hjoint
      cases hjoint
  · refine absurd rfl (hplain '\r' ?_)
    rw [hl]
    exact mem_append_right _ (mem_append_right _ (mem_of_head? htail))

theorem statementLine_follows {after : Scan} (hline : SingleLine l)
    (hplain : ∀ c ∈ l, c ≠ '\r') (hpending : scan.pending = none) (hstrict : scan.strict = false)
    (hclosed : l.getLast? = some '\n' ∨ rowEnd 0 (l ++ ['\n']) = .joint)
    (hafter : (scan.statementLine l).2 = some after) : Follows l l scan.row (scan.statementLine l).1 after := by
  have hgap : Spacing (l.take (run isSpacing l)) := spacing_take_run l
  have hwidth : run isSpacing l = (l.take (run isSpacing l)).length :=
    (length_take_of_le (onLine_run (by decide) _).le).symm
  have hsplit := (take_append_drop (run isSpacing l) l).symm
  have hbodyline : SingleLine (l.drop (run isSpacing l)) := hline.drop _
  unfold statementLine at hafter ⊢
  dsimp only at hafter ⊢
  generalize hg : l.take (run isSpacing l) = gap at *
  generalize hbody : l.drop (run isSpacing l) = body at *
  rw [hwidth] at hbody hafter ⊢
  have hreached : Reached l body := hsplit ▸ reached_spacing hgap body
  cases body with
  | nil => cases hafter
  | cons c rest =>
    dsimp only at hafter ⊢
    split at hafter
    · rename_i hc
      subst hc
      cases hafter
      obtain ⟨comment, tail, htrim, happ, hhead, hcomment, htail⟩ := comment_cut hbodyline
      rw [htrim, if_pos rfl]
      rw [happ] at hbody hreached hsplit
      have hplain' : ∀ d ∈ comment, d ≠ '\n' ∧ d ≠ '\r' := fun d hd =>
        ⟨hcomment d hd, hplain d (by rw [hsplit]; simp [hd])⟩
      obtain rfl : tail = ['\n'] := comment_ended hgap hhead hplain' hsplit hplain htail hclosed
      have hrest : l.drop (gap.length + comment.length) = ['\n'] := by
        rw [← drop_drop, hbody, drop_left]
      have hnewline : Reached l ['\n'] := by
        refine hreached.trans (.on (by simp) (bite_comment hhead hplain' (Or.inr rfl)) ?_)
        rw [drop_left]
        exact .here _
      refine Follows.cons (n := gap.length) rfl (hbody ▸ hreached) (by simp [hbody]) ?_
      refine Follows.cons (n := gap.length + comment.length) rfl (hrest ▸ hnewline)
        (by simp [hrest]) ?_
      exact .atEnd (Or.inl (hnewline.rowEnd_eq.trans rowEnd_newline)) hpending hstrict
    · rename_i hhash
      split at hafter
      · rename_i hc
        cases hafter
        rw [if_neg hhash, if_pos hc]
        have hnewline : c = '\n' :=
          hc.resolve_left (hplain c (hsplit ▸ mem_append_right _ mem_cons_self))
        subst hnewline
        obtain rfl : rest = [] := hbodyline [] rest rfl
        refine Follows.cons (n := gap.length) rfl (hbody ▸ hreached) (by simp [hbody]) ?_
        exact .atEnd (Or.inl (hreached.rowEnd_eq.trans rowEnd_newline)) hpending hstrict
      · rename_i hc
        cases hafter
        rw [if_neg hhash, if_neg hc]
        have hread (indents : List Nat) : Follows l (c :: rest) scan.row
              (readFrom l { scan with indents } gap.length 0 (c :: rest)).1
              (readFrom l { scan with indents } gap.length 0 (c :: rest)).2 :=
          readFrom_follows l { scan with indents } gap.length 0 (c :: rest) hbodyline hbody
            hpending hstrict
        refine Follows.append ?_ (Follows.of_reached (hread _) hreached)
        intro t ht
        rcases mem_append.1 ht with ht | ht
        · split at ht
          · cases mem_singleton.1 ht
            exact ⟨0, rfl, .here l, by simp [hsplit]⟩
          · cases ht
        · obtain ⟨x, -, rfl⟩ := mem_map.1 ht
          exact ⟨gap.length, rfl, hbody ▸ hreached, by simp [hbody]⟩

theorem stringLine_step {p : OpenString} (hline : SingleLine l) (hne : l ≠ []) (hpending : scan.pending = some p)
    (hread : (RowEnd.opens p.closer scan.strict).read l = some e) :
    ∃ after, ({ scan with row := scan.row + 1 }.stringLine p l).2 = some after ∧ after.row = scan.row + 1 ∧
      LineStep scan l ({ scan with row := scan.row + 1 }.stringLine p l).1 after e := by
  unfold stringLine
  dsimp only
  unfold RowEnd.read at hread
  dsimp only at hread
  rw [if_neg (by simpa using hne)]
  cases htail : tail? p.closer l with
  | some n =>
    rw [htail] at hread
    cases hread
    have hrow := readFrom_row l { scan with row := scan.row + 1, pending := none, strict := false }
      0 n l hline rfl
    have hfollows := readFrom_follows (l := l) l
      { scan with row := scan.row + 1, pending := none, strict := false } 0 n l hline rfl rfl rfl
    rw [Nat.zero_add] at hrow
    exact ⟨_, rfl, hrow.2, .closes p n _ hpending rfl htail rfl rfl rfl hrow.1 hfollows⟩
  | none =>
    rw [htail] at hread
    dsimp only at hread ⊢
    split at hread
    · cases hread
    · rename_i hgoes
      cases hread
      rw [if_neg hgoes]
      exact ⟨_, rfl, rfl, .goesOn p _ hpending rfl rfl rfl rfl rfl⟩

theorem line_step {e' : RowEnd} (hkeeps : scan.Keeps e)
    (hline : SingleLine l) (hplain : ∀ c ∈ l, c ≠ '\r') (hspace : ¬ Spacing l)
    (hclosed : l.getLast? = some '\n' ∨ e.read (l ++ ['\n']) = some .joint) (hread : e.read l = some e') :
    ∃ after, (scan.line l).2 = some after ∧ after.row = scan.row + 1 ∧
      LineStep scan l (scan.line l).1 after e' := by
  have hne : l ≠ [] := by
    rintro rfl
    exact hspace spacing_nil
  cases hp : scan.pending with
  | some p =>
    obtain rfl := hkeeps.eq_opens hp
    obtain ⟨after, hafter, hrow, hstep⟩ := stringLine_step hline hne hp hread
    unfold line
    dsimp only
    rw [hp] at hafter hstep ⊢
    exact ⟨after, hafter, hrow, hstep⟩
  | none =>
    have hstrict : scan.strict = false := by
      cases e with
      | opens closer strict =>
        obtain ⟨o, ho, -⟩ := hkeeps
        rw [hp] at ho
        cases ho
      | done | joint => exact hkeeps.2
    rw [hkeeps.read_eq hp] at hread
    cases hread
    rw [hkeeps.read_eq hp, Option.some.injEq] at hclosed
    have hempty : l.isEmpty = false := by simpa using hne
    by_cases hstatement : scan.depth = 0 ∧ scan.joined = false
    · have heq : scan.line l = statementLine { scan with row := scan.row + 1 } l := by
        unfold line
        simp [hp, hstatement, hempty]
      rw [heq]
      rcases statementLine_row { scan with row := scan.row + 1 } hline hp with
        ⟨after, hafter, hr, hrow⟩ | ⟨hspacing, -⟩
      · have hfollows := @statementLine_follows { scan with row := scan.row + 1 } l after hline
          hplain hp hstrict hclosed hafter
        exact ⟨after, hafter, hr, .fresh hp hrow hfollows⟩
      · exact absurd hspacing hspace
    · have heq : scan.line l = ((readFrom l { scan with row := scan.row + 1, joined := false } 0 0 l).1,
            some (readFrom l { scan with row := scan.row + 1, joined := false } 0 0 l).2) := by
        unfold line
        simp [hp, hstatement, hempty]
      rw [heq]
      have hrow := readFrom_row l { scan with row := scan.row + 1, joined := false } 0 0 l hline hp
      have hfollows := readFrom_follows (l := l) l
        { scan with row := scan.row + 1, joined := false } 0 0 l hline rfl hp hstrict
      exact ⟨_, rfl, hrow.2, .fresh hp (by simpa using hrow.1) hfollows⟩

end Scan

end InlineMarkup

import InlineMarkup.Proofs.Builder
import InlineMarkup.Proofs.HeldCode

/-!
Code that a builder writes. The output is woven from pieces of the builder's own and from pieces of code,
each of which stands in one place and whole.
-/
namespace InlineMarkup.Markup

open List

/-! ### Text that is written -/

section

variable {P : Char → Prop}

variable {c : Char} {s : Text}

theorem over_replicate (hc : P c) (n : Nat) : Over P (List.replicate n c) := by
  intro d hd
  rwa [eq_of_mem_replicate hd]

theorem Over.trimRight (h : Over P s) (p : Char → Bool) : Over P (Text.trimRight p s) :=
  h.sublist fun c hc => by
    have hin := (dropWhile_sublist p).mem (mem_reverse.1 hc)
    exact mem_reverse.1 hin

theorem Over.trimLeft (h : Over P s) (p : Char → Bool) : Over P (Text.trimLeft p s) :=
  h.sublist (dropWhile_sublist p).subset

theorem Over.trim (h : Over P s) (p : Char → Bool) : Over P (Text.trim p s) :=
  (h.trimLeft p).trimRight p

theorem Over.replaceChar {new : Text} (h : Over P s) (hnew : Over P new) (old : Char) :
    Over P (Text.replaceChar old new s) := by
  intro d hd
  obtain ⟨c, hc, hin⟩ := mem_flatMap.1 hd
  split at hin
  · exact hnew d hin
  · rw [mem_singleton.1 hin]
    exact h c hc

variable (hP : Wording P)

include hP

theorem Over.normalize (h : Over P s) (afterCode beforeCode : Bool) :
    Over P (Builder.normalize s afterCode beforeCode) := by
  have hspace : P ' ' := hP " " (by decide) (by decide) ' ' (by decide)
  unfold Builder.normalize
  split
  · exact over_nil
  split
  · split
    · exact over_cons.2 ⟨hspace, over_nil⟩
    · exact over_nil
  · have hfront (s : Text) (hs : Over P s) :
        Over P (if afterCode && s.head? == some '\n' then ' ' :: Text.trimLeft (· == '\n') s else s) := by
      split
      · exact over_cons.2 ⟨hspace, hs.trimLeft _⟩
      · exact hs
    have hback (s : Text) (hs : Over P s) :
        Over P (if beforeCode && s.getLast? == some '\n' then Text.trimRight (· == '\n') s ++ [' '] else s) := by
      split
      · exact over_append.2 ⟨hs.trimRight _, over_cons.2 ⟨hspace, over_nil⟩⟩
      · exact hs
    intro d hd
    obtain ⟨c, hc, rfl⟩ := mem_map.1 hd
    split
    · exact hspace
    · exact (hback _ (hfront s h)).trim _ c hc

theorem over_hexDigits (width n : Nat) : Over P (Text.hexDigits width n) := by
  induction width generalizing n with
  | zero => exact over_nil
  | succ width ih =>
    have hdigit : Nat.digitChar (n % 16) ∈ "0123456789abcdef".toList := by
      have hlt : n % 16 < 16 := Nat.mod_lt n (by decide)
      interval_cases n % 16 <;> decide
    exact over_append.2 ⟨ih _, over_cons.2 ⟨hP _ (by decide) (by decide) _ hdigit, over_nil⟩⟩

theorem over_quotedChar {mark : Char} (hc : P c) : Over P (Text.quotedChar mark c) := by
  have hslash : P '\\' := hP "\\" (by decide) (by decide) _ (by decide)
  unfold Text.quotedChar
  split_ifs
  · exact over_cons.2 ⟨hslash, over_cons.2 ⟨hc, over_nil⟩⟩
  · exact hP "\\n" (by decide) (by decide)
  · exact hP "\\r" (by decide) (by decide)
  · exact hP "\\t" (by decide) (by decide)
  · exact over_cons.2 ⟨hc, over_nil⟩
  · unfold Text.codeEscape
    split_ifs
    · exact over_append.2 ⟨hP "\\x" (by decide) (by decide), over_hexDigits hP _ _⟩
    · exact over_append.2 ⟨hP "\\u" (by decide) (by decide), over_hexDigits hP _ _⟩
    · exact over_append.2 ⟨hP "\\U" (by decide) (by decide), over_hexDigits hP _ _⟩

theorem Over.quoted (h : Over P s) : Over P (Text.quoted s) := by
  have hmark : Over P [Text.quoteMark s] := by
    unfold Text.quoteMark
    split
    · exact hP "\"" (by decide) (by decide)
    · exact hP "'" (by decide) (by decide)
  refine over_append.2 ⟨over_append.2 ⟨hmark, fun d hd => ?_⟩, hmark⟩
  obtain ⟨c, hc, hin⟩ := mem_flatMap.1 hd
  exact over_quotedChar hP (h c hc) d hin

theorem Over.argumentName {name : Text} (h : Over P name) : Over P (Builder.argumentName name) := by
  unfold Builder.argumentName
  split_ifs
  · exact hP "xclass" (by decide) (by decide)
  · exact hP "xfor" (by decide) (by decide)
  · exact (h.replaceChar (hP "_" (by decide) (by decide)) _).replaceChar (hP "COLON" (by decide) (by decide)) _

theorem Over.className {tag : Text} (h : Over P tag) : Over P (Builder.className tag).1 := by
  have htail : Over P (tag.reverse.takeWhile (· != '.')).reverse := h.sublist fun c hc => by
    have hin := (takeWhile_sublist (· != '.')).mem (mem_reverse.1 hc)
    exact mem_reverse.1 hin
  have hfront (n : Nat) : Over P (tag.take n) := h.sublist (take_subset n tag)
  exact over_append.2 ⟨over_append.2 ⟨hfront _, hP "x_" (by decide) (by decide)⟩, htail⟩

end

/-! ### Pieces -/

namespace Piece

def Over (P : Char → Prop) : Piece → Prop
  | .own s => Markup.Over P s
  | .code before tokens text after =>
    Markup.Over P before ∧ Markup.Over P after ∧ Layout.plain tokens = .ok text

def Guarded : Piece → Prop
  | .own _ => True
  | .code _ _ _ after => ∃ c ∈ after, isBlank c = false

def lines : Piece → Int
  | .own s => newlines s
  | .code before _ _ after => newlines before + newlines after

theorem lines_eq_zero {P : Char → Prop} (hP : ¬ P '\n') {p : Piece} (h : p.Over P) : p.lines = 0 := by
  have hnone {s : Text} (hs : Markup.Over P s) : newlines s = 0 := newlines_eq_zero fun hmem => hP (hs _ hmem)
  cases p with
  | own s => simp [lines, hnone h]
  | code before tokens text after => simp [lines, hnone h.1, hnone h.2.1]

theorem Over.mono {P A : Char → Prop} (hA : ∀ c, P c → A c) {p : Piece} (h : p.Over P) : p.Over A := by
  cases p with
  | own s => exact fun c hc => hA c (h c hc)
  | code before tokens text after => exact ⟨fun c hc => hA c (h.1 c hc), fun c hc => hA c (h.2.1 c hc), h.2.2⟩

theorem exists_cut {p : Piece} {x blanks : Text} (hguard : p.Guarded)
    (htext : p.text = x ++ ',' :: blanks) (hblanks : ∀ c ∈ blanks, isBlank c = true) :
    ∃ q : Piece, q.text = x ++ blanks ∧ q.codes = p.codes ∧ q.lines = p.lines ∧ (∀ P, p.Over P → q.Over P) ∧
      ∀ s, p = .own s → ∃ t, q = .own t := by
  have hless (y : Text) (P : Char → Prop) (hover : Markup.Over P (y ++ ',' :: blanks)) : Markup.Over P (y ++ blanks) := by
    simp only [over_append, over_cons] at hover ⊢
    exact ⟨hover.1, hover.2.2⟩
  cases p with
  | own s =>
    obtain rfl : s = x ++ ',' :: blanks := htext
    exact ⟨.own (x ++ blanks), rfl, rfl, by simp [lines, newlines_cons], hless x, fun _ _ => ⟨_, rfl⟩⟩
  | code before tokens text after =>
    -- What follows the code is not blank, so that the comma is in it.
    obtain ⟨y, rfl, rfl⟩ : ∃ y, x = before ++ text ++ y ∧ after = y ++ ',' :: blanks := by
      rcases append_eq_append_iff.1 (show before ++ text ++ after = x ++ ',' :: blanks from htext) with
        ⟨y, hx, hafter⟩ | ⟨y, hcode, hrest⟩
      · exact ⟨y, hx, hafter⟩
      · cases y with
        | nil => exact ⟨[], by simpa using hcode.symm, by simpa using hrest.symm⟩
        | cons c y =>
          obtain ⟨d, hd, hblank⟩ := hguard
          have hin : d ∈ blanks := by
            rw [(List.cons.inj hrest).2]
            exact mem_append_right _ hd
          exact absurd ((hblanks d hin).symm.trans hblank) Bool.noConfusion
    exact ⟨.code before tokens text (y ++ blanks), by simp [Piece.text], rfl, by simp [lines, newlines_cons],
      fun P hover => ⟨hover.1, hless y P hover.2.1, hover.2.2⟩, by simp⟩

end Piece

def EndGuarded (pieces : List Piece) : Prop :=
  ∀ front p tail, pieces = front ++ p :: tail → Counts p.text → (∀ q ∈ tail, ¬ Counts q.text) → p.Guarded

theorem endGuarded_nil : EndGuarded [] := fun front p tail h => absurd h (by simp)

theorem endGuarded_concat {pieces : List Piece} {p : Piece} (hp : p.Guarded)
    (h : ¬ Counts p.text → EndGuarded pieces) : EndGuarded (pieces ++ [p]) := by
  intro front q tail hsplit hq htail
  rcases eq_nil_or_concat tail with rfl | ⟨less, r, rfl⟩
  · obtain ⟨-, hlast⟩ := append_inj' hsplit rfl
    rw [← singleton_inj.1 hlast]
    exact hp
  · rw [concat_eq_append] at hsplit htail
    rw [← cons_append, ← append_assoc] at hsplit
    obtain ⟨hfront, hlast⟩ := append_inj' hsplit rfl
    have hno : ¬ Counts p.text := singleton_inj.1 hlast ▸ htail r (by simp)
    exact h hno front q less hfront hq fun s hs => htail s (mem_append_left _ hs)

theorem EndGuarded.push {pieces : List Piece} (h : EndGuarded pieces) (s : Text) : EndGuarded (pieces ++ [.own s]) :=
  endGuarded_concat trivial fun _ => h

theorem endGuarded_own (pieces : List Piece) {s : Text} (h : Counts s) : EndGuarded (pieces ++ [.own s]) :=
  endGuarded_concat trivial fun hno => absurd h hno

theorem counts_cons {c : Char} {s : Text} (hblank : isBlank c = false) (hc : c ≠ '#') : Counts (c :: s) := by
  obtain ⟨tail, hsplit, htail, -⟩ := Text.trimRight_append isBlank (c :: s)
  cases htrim : Text.trimRight isBlank (c :: s) with
  | nil =>
    rw [htrim, nil_append] at hsplit
    have hyes := htail c (by rw [← hsplit]; exact mem_cons_self)
    rw [hblank] at hyes
    cases hyes
  | cons d rest =>
    rw [htrim, cons_append] at hsplit
    obtain ⟨rfl, -⟩ := List.cons.inj hsplit
    exact ⟨c, rest, htrim, hc⟩

def OwnAt (P : Char → Prop) (pieces : List Piece) (i : Nat) : Prop := ∃ s, pieces[i]? = some (.own s) ∧ Over P s

def ownLines (pieces : List Piece) : Int := (pieces.map Piece.lines).sum

theorem ownLines_append (ps qs : List Piece) : ownLines (ps ++ qs) = ownLines ps + ownLines qs := by
  simp [ownLines]

/-- Pieces of the characters `A` change without loss: what is the builder's own stays so, these pieces of code come
along, and all else that comes along is made of the characters `P`. -/
structure Grows (A P : Char → Prop) (codes : List (List Token)) (ps qs : List Piece) : Prop where
  clean : (∀ p ∈ ps, p.Over A) → ∀ q ∈ qs, q.Over A
  own : ∀ i, OwnAt P ps i → OwnAt P qs i
  codes : (qs.flatMap Piece.codes).Perm (ps.flatMap Piece.codes ++ codes)
  lines : ¬ P '\n' → ownLines qs = ownLines ps

section

variable {A P : Char → Prop} {codes more : List (List Token)} {ps qs rs : List Piece}

theorem Grows.refl (ps : List Piece) : Grows A P [] ps ps := ⟨id, fun _ => id, by simp, fun _ => rfl⟩

theorem Grows.trans (h : Grows A P codes ps qs) (h' : Grows A P more qs rs) : Grows A P (codes ++ more) ps rs := by
  refine ⟨fun hps => h'.clean (h.clean hps), fun i hi => h'.own i (h.own i hi), h'.codes.trans ?_,
    fun hP => (h'.lines hP).trans (h.lines hP)⟩
  rw [← append_assoc]
  exact h.codes.append_right more

theorem ownAt_append {i : Nat} (h : OwnAt P ps i) (qs : List Piece) : OwnAt P (ps ++ qs) i := by
  obtain ⟨s, hs, hover⟩ := h
  exact ⟨s, by rw [getElem?_append_left (List.getElem?_eq_some_iff.1 hs).1, hs], hover⟩

theorem grows_replace (front : List Piece) {p q : Piece} (tail : List Piece) (hover : ∀ P, p.Over P → q.Over P)
    (hcodes : q.codes = p.codes) (hlines : ¬ P '\n' → q.lines = p.lines) (hown : ∀ s, p = .own s → ∃ t, q = .own t) :
    Grows A P [] (front ++ p :: tail) (front ++ q :: tail) := by
  refine ⟨fun hall => ?_, ?_, by simp [hcodes], fun hP => by simp [ownLines, hlines hP]⟩
  · simp only [forall_mem_append, forall_mem_cons] at hall ⊢
    exact ⟨hall.1, hover A hall.2.1, hall.2.2⟩
  · rintro i ⟨s, hs, hsover⟩
    rw [getElem?_append] at hs
    unfold OwnAt
    rw [getElem?_append]
    split
    · exact ⟨s, by simpa [*] using hs, hsover⟩
    · rename_i hi
      rw [if_neg hi] at hs
      cases hj : i - front.length with
      | zero =>
        rw [hj] at hs
        obtain rfl : p = .own s := Option.some.inj hs
        obtain ⟨t, rfl⟩ := hown s rfl
        exact ⟨t, rfl, hover P hsover⟩
      | succ j =>
        rw [hj] at hs
        exact ⟨s, hs, hsover⟩

theorem grows_blank {i : Nat} (h : OwnAt P ps i) : Grows A P [] ps (ps.set i (.own [])) := by
  obtain ⟨s, hs, hover⟩ := h
  obtain ⟨hi, hget⟩ := List.getElem?_eq_some_iff.1 hs
  have hsplit : ps = ps.take i ++ .own s :: ps.drop (i + 1) := by
    rw [← hget]
    simp
  have hset : ps.set i (.own []) = ps.take i ++ .own [] :: ps.drop (i + 1) := by
    simp [set_eq_take_append_cons_drop, hi]
  have hreplace := grows_replace (A := A) (P := P) (ps.take i) (p := .own s) (q := .own []) (ps.drop (i + 1))
    (fun _ _ => over_nil) rfl (fun hP => (Piece.lines_eq_zero hP (p := .own s) hover).symm) fun _ _ => ⟨_, rfl⟩
  rwa [← hsplit, ← hset] at hreplace

namespace Builder

theorem grows_cut {new : List Text} (hend : EndGuarded ps) (h : Cut (ps.map Piece.text) new) :
    ∃ qs : List Piece, new = qs.map Piece.text ∧ Grows A P [] ps qs := by
  obtain ⟨front, x, blanks, tail, hout, rfl, hx, hblanks, htail⟩ := h
  obtain ⟨fs, rs, rfl, rfl, hrs⟩ := map_eq_append_iff.1 hout
  obtain ⟨p, ts, rfl, hp, rfl⟩ := map_eq_cons_iff.1 hrs
  have hguard : p.Guarded :=
    hend fs p ts rfl (hp ▸ counts_comma hx hblanks) fun q hq => htail _ (mem_map_of_mem hq)
  obtain ⟨q, hq, hcodes, hlines, hover, hown⟩ := Piece.exists_cut hguard hp hblanks
  exact ⟨fs ++ q :: ts, by simp [hq], grows_replace fs ts hover hcodes (fun _ => hlines) hown⟩

end Builder

variable (hA : ∀ c, P c → A c)

include hA

theorem Grows.append (h : Grows A P codes ps qs) (hrs : ∀ p ∈ rs, p.Over P) :
    Grows A P (codes ++ rs.flatMap Piece.codes) ps (qs ++ rs) := by
  refine h.trans ⟨fun hqs => forall_mem_append.2 ⟨hqs, fun p hp => (hrs p hp).mono hA⟩,
    fun i hi => ownAt_append hi rs, by simp, fun hP => ?_⟩
  have hnone : ownLines rs = 0 := sum_eq_zero fun n hn => by
    obtain ⟨p, hp, rfl⟩ := mem_map.1 hn
    exact Piece.lines_eq_zero hP (hrs p hp)
  rw [ownLines_append, hnone, add_zero]

theorem Grows.append_own (h : Grows A P codes ps qs) (ws : List Text) (hws : ∀ w ∈ ws, Over P w) :
    Grows A P codes ps (qs ++ ws.map .own) := by
  have hown : (ws.map Piece.own).flatMap Piece.codes = [] := by simp [Piece.codes, flatMap_map]
  have hover : ∀ p ∈ ws.map Piece.own, p.Over P := forall_mem_map.2 hws
  have hgrows := h.append hA hover
  rwa [hown, append_nil] at hgrows

theorem Builder.grows_resolved (hP : Words P) {mid : List Text} {after : Bool} (hend : EndGuarded ps)
    (h : Resolved (ps.map Piece.text) after mid) :
    ∃ qs : List Piece, mid = qs.map Piece.text ∧ Grows A P [] ps qs ∧ EndGuarded qs := by
  cases h with
  | nothing => exact ⟨ps, rfl, .refl ps, hend⟩
  | added _ hcut =>
    obtain ⟨qs, rfl, hgrows⟩ := grows_cut (A := A) (P := P) hend hcut
    have hcounts : Counts " else None, ".toList := ⟨' ', "else None,".toList, rfl, by decide⟩
    exact ⟨qs ++ [.own " else None, ".toList], by simp [Piece.text],
      hgrows.append_own hA [_] (forall_mem_singleton.2 (hP _ (by decide) (by decide))),
      endGuarded_own qs hcounts⟩

end

/-! ### What is written of a tag -/

def endCodes (tag : Text) (attributes : List Attribute) : List (List Token) :=
  if tag = "if".toList then
    ((attributes.find? (·.name == some "cond".toList)).map fun a => valueCodes a.value).getD []
  else []

def OpenTag.codes (t : OpenTag) : List (List Token) := endCodes t.tag t.attributes

section

variable (P : Char → Prop)

def Attribute.Written (a : Attribute) : Prop :=
  Markup.Over P (Builder.argumentName (a.name.getD [])) ∧
    ∀ s, Part.text s ∈ Builder.valueParts a.value → Markup.Over P (Text.quoted s)

def Event.Written (e : Event) : Prop :=
  match e with
  | .data s => ∀ afterCode beforeCode, Markup.Over P (Builder.normalize s afterCode beforeCode)
  | .start tag attributes =>
    (∀ name ∈ tag, Markup.Over P (Builder.className name).1) ∧ ∀ a ∈ attributes, a.Written P
  | .finish _ => True
  | e => (∀ name ∈ Builder.wholeTag e, Markup.Over P (Builder.className name).1) ∧
      ∀ a ∈ Builder.wholeAttributes e, a.Written P

end

theorem partsCodes_normalizeParts (afterCode : Bool) (parts : List Part) :
    partsCodes (Builder.normalizeParts afterCode parts) = partsCodes parts := by
  induction parts generalizing afterCode with
  | nil => rfl
  | cons part rest ih =>
    cases part with
    | code tokens => exact congrArg (tokens :: ·) (ih true)
    | text s =>
      have hdropped (t : Text) (x : List Part) :
          partsCodes (if t.isEmpty then x else .text t :: x) = partsCodes x := by
        split <;> rfl
      have htext : partsCodes (.text s :: rest) = partsCodes rest := rfl
      rw [htext, ← ih false]
      exact hdropped _ _

theorem forall_normalizeParts {P Q : Part → Prop} (hcode : ∀ tokens, P (.code tokens) → Q (.code tokens))
    (htext : ∀ s, P (.text s) → ∀ afterCode beforeCode, Q (.text (Builder.normalize s afterCode beforeCode)))
    (afterCode : Bool) {parts : List Part} (h : ∀ p ∈ parts, P p) :
    ∀ p ∈ Builder.normalizeParts afterCode parts, Q p := by
  induction parts generalizing afterCode with
  | nil => exact nofun
  | cons part rest ih =>
    obtain ⟨hpart, hrest⟩ := forall_mem_cons.1 h
    cases part with
    | code tokens => exact forall_mem_cons.2 ⟨hcode tokens hpart, ih true hrest⟩
    | text s =>
      have hkept (t : Text) (x : List Part) (ht : Q (.text t)) (hx : ∀ p ∈ x, Q p) :
          ∀ p ∈ (if t.isEmpty then x else .text t :: x), Q p := by
        split
        · exact hx
        · exact forall_mem_cons.2 ⟨ht, hx⟩
      exact hkept _ _ (htext s hpart _ _) (ih false hrest)

section

variable {P Q : Char → Prop} (hP : Wording P) (hQ : Wording Q)
  (hnormal : ∀ s, Markup.Over P s → ∀ afterCode beforeCode, Markup.Over Q (Builder.normalize s afterCode beforeCode))

include hQ hnormal

theorem Attribute.Made.written {a : Attribute} (h : a.Made Q P) : a.Written Q := by
  obtain ⟨name, value⟩ := a
  refine ⟨Over.argumentName hQ ?_, fun s hs => Over.quoted hQ ?_⟩
  · cases name with
    | none => exact over_nil
    | some name => exact h.name name rfl
  · refine forall_normalizeParts (P := (·.Over P)) (Q := (·.Over Q)) (fun _ _ => trivial) hnormal false ?_ _ hs
    cases value with
    | none => exact nofun
    | some parts => exact h.value parts rfl

include hP

theorem Event.Made.written {e : Event} (h : e.Made Q P) : e.Written Q := by
  have htag {tag : Option Text} (h : ∀ name, tag = some name → Markup.Over Q name) :
      ∀ name ∈ tag, Markup.Over Q (Builder.className name).1 := fun name hname => Over.className hQ (h name hname)
  have hdeclared (tag argument : String) {s : Text} (htag : Markup.Over Q tag.toList) (hargument : Markup.Over Q argument.toList)
      (hs : Markup.Over P s) : (∀ name ∈ some tag.toList, Markup.Over Q (Builder.className name).1) ∧
        ∀ a ∈ [(⟨some argument.toList, some [.text s]⟩ : Attribute)], a.Written Q := by
    refine ⟨fun name hname => ?_, forall_mem_singleton.2 (Attribute.Made.written hQ hnormal ⟨?_, ?_⟩)⟩
    · cases hname
      exact Over.className hQ htag
    · rintro _ ⟨⟩
      exact hargument
    · rintro _ ⟨⟩
      exact forall_mem_singleton.2 hs
  cases e with
  | data s => exact hnormal s h
  | start tag attributes => exact ⟨htag h.1, fun a ha => Attribute.Made.written hQ hnormal (h.2 a ha)⟩
  | startEnd tag attributes => exact ⟨htag h.1, fun a ha => Attribute.Made.written hQ hnormal (h.2 a ha)⟩
  | finish tag => trivial
  | comment s =>
    exact hdeclared "html_comment" "comment" (hQ _ (by decide) (by decide))
      (hQ _ (by decide) (by decide)) (Over.trim h _)
  | doctype s =>
    exact hdeclared "html_decl" "decl" (hQ _ (by decide) (by decide))
      (hQ _ (by decide) (by decide)) (over_append.2 ⟨hP _ (by decide) (by decide), h⟩)
  | cdata s =>
    exact hdeclared "html_marked_decl" "decl" (hQ _ (by decide) (by decide))
      (hQ _ (by decide) (by decide)) (over_append.2 ⟨hP _ (by decide) (by decide), h⟩)

end

namespace Builder

/-! ### Codes of the pieces -/

theorem codes_partPieces (f : Text) (p : Part) : (partPieces f p).flatMap Piece.codes = p.codes := by
  cases p <;> rfl

theorem codes_valuePieces (f : Text) (value : Option (List Part)) :
    (valuePieces f (valueParts value)).flatMap Piece.codes = valueCodes value := by
  have hall (parts : List Part) : (valuePieces f parts).flatMap Piece.codes = partsCodes parts := by
    fun_cases valuePieces f parts
    · rfl
    · rfl
    · simp [Piece.codes, partsCodes, flatMap_assoc, codes_partPieces]
  rw [hall, valueParts, partsCodes_normalizeParts]
  rfl

theorem codes_attributesPieces (f : Text) (more : Bool) (attributes : List Attribute) :
    (attributesPieces f more attributes).flatMap Piece.codes = attributesCodes attributes := by
  induction attributes generalizing more with
  | nil => rfl
  | cons a rest ih =>
    have hcons : attributesCodes (a :: rest) = valueCodes a.value ++ attributesCodes rest := rfl
    have hmore : (if more then [Piece.own ", ".toList] else []).flatMap Piece.codes = [] := by cases more <;> rfl
    rw [hcons, attributesPieces, flatMap_append, hmore, nil_append, flatMap_cons, flatMap_cons,
      flatMap_append, codes_valuePieces, ih]
    rfl

theorem codes_tagPieces (f tag : Text) (attributes : List Attribute) (call : Bool) :
    (tagPieces f tag attributes call).flatMap Piece.codes = attributesCodes attributes := by
  have hclass : ((classPieces tag).map Piece.own).flatMap Piece.codes = [] := by
    simp [Piece.codes, flatMap_map]
  rw [tagPieces, flatMap_append, hclass, nil_append, flatMap_append, codes_attributesPieces]
  cases call <;> simp [Piece.codes]

theorem codes_endPieces (f : Text) (t : OpenTag) : (endPieces f t).flatMap Piece.codes = t.codes := by
  have henclosed (ps : List Piece) : (enclosed ps).flatMap Piece.codes = ps.flatMap Piece.codes := by
    unfold enclosed
    split <;> simp [Piece.codes]
  unfold endPieces OpenTag.codes endCodes
  split
  · rw [flatMap_cons, henclosed, codes_valuePieces, conditionOf]
    cases t.attributes.find? (·.name == some "cond".toList) <;> rfl
  · rfl

theorem endCodes_of_ne {tag : Text} (h : tag ≠ "if".toList) (attributes : List Attribute) :
    endCodes tag attributes = [] :=
  if_neg h

/-! ### Characters of the pieces -/

section

variable {P : Char → Prop} (hP : Words P) {f : Text} (hf : Markup.Over P f)

include hP

theorem over_own {w : String} (hw : w ∈ ownWords) (hne : w ≠ "\n") : Piece.Over P (.own w.toList) := hP w hw hne

include hf

theorem over_valuePieces {parts : List Part} (hlay : ∀ p ∈ parts, Lays p)
    (h : ∀ s, Part.text s ∈ parts → Markup.Over P (Text.quoted s)) : ∀ p ∈ valuePieces f parts, p.Over P := by
  have hcode {tokens : List Token} (hlays : Lays (.code tokens)) : (codePart tokens).Over P :=
    ⟨over_nil, over_nil, hlays⟩
  have hpart (p : Part) (hp : p ∈ parts) : ∀ q ∈ partPieces f p, q.Over P := by
    have hcomma := over_own hP (w := ", ") (by decide) (by decide)
    cases p with
    | text s =>
      exact forall_mem_cons.2 ⟨h s hp, forall_mem_singleton.2 hcomma⟩
    | code tokens =>
      have hclose := over_own hP (w := ")") (by decide) (by decide)
      simp only [partPieces, forall_mem_cons]
      exact ⟨over_append.2 ⟨hf, hP "(" (by decide) (by decide)⟩, hcode (hlay _ hp), hclose, hcomma, nofun⟩
  fun_cases valuePieces f parts
  · exact forall_mem_singleton.2 (hcode (hlay _ (by simp)))
  · exact forall_mem_singleton.2 (h _ (by simp))
  · refine forall_mem_cons.2 ⟨hP _ (by decide) (by decide), forall_mem_append.2 ⟨fun q hq => ?_, ?_⟩⟩
    · obtain ⟨p, hp, hq⟩ := mem_flatMap.1 hq
      exact hpart p hp q hq
    · exact forall_mem_singleton.2 (hP _ (by decide) (by decide))

theorem over_attributesPieces (more : Bool) {attributes : List Attribute} (hlay : AttributesLay attributes)
    (h : ∀ a ∈ attributes, a.Written P) : ∀ p ∈ attributesPieces f more attributes, p.Over P := by
  induction attributes generalizing more with
  | nil => exact nofun
  | cons a rest ih =>
    obtain ⟨⟨-, -, hvalue⟩, hrest⟩ := forall_mem_cons.1 hlay
    obtain ⟨⟨hname, htexts⟩, hmore⟩ := forall_mem_cons.1 h
    refine forall_mem_append.2 ⟨?_, forall_mem_cons.2 ⟨hname, forall_mem_cons.2 ⟨?_, ?_⟩⟩⟩
    · cases more with
      | false => exact nofun
      | true => exact forall_mem_singleton.2 (hP ", " (by decide) (by decide))
    · exact hP "=" (by decide) (by decide)
    · exact forall_mem_append.2 ⟨over_valuePieces hP hf hvalue htexts, ih true hrest hmore⟩

theorem over_tagPieces {tag : Text} {attributes : List Attribute} (htag : Markup.Over P (className tag).1)
    (hlay : AttributesLay attributes) (h : ∀ a ∈ attributes, a.Written P) (call : Bool) :
    ∀ p ∈ tagPieces f tag attributes call, p.Over P := by
  refine forall_mem_append.2 ⟨?_, forall_mem_append.2 ⟨over_attributesPieces hP hf false hlay h, ?_⟩⟩
  · refine forall_mem_map.2 (forall_mem_append.2 ⟨?_, forall_mem_singleton.2 ?_⟩)
    · split
      · exact forall_mem_singleton.2 (hP "html." (by decide) (by decide))
      · exact nofun
    · exact over_append.2 ⟨htag, hP "(" (by decide) (by decide)⟩
  · refine forall_mem_cons.2 ⟨hP ")" (by decide) (by decide), ?_⟩
    cases call with
    | false => exact nofun
    | true => exact forall_mem_singleton.2 (hP "(" (by decide) (by decide))

theorem over_endPieces {t : OpenTag} (hlay : ConditionLays t) (h : ∀ a ∈ t.attributes, a.Written P) :
    ∀ p ∈ endPieces f t, p.Over P := by
  unfold endPieces
  split
  · rename_i hif
    obtain ⟨a, ha, -, hvalue⟩ := hlay hif
    have hover : ∀ p ∈ valuePieces f (valueParts a.value), p.Over P :=
      over_valuePieces hP hf hvalue (h a (mem_of_find?_eq_some ha)).2
    rw [ha]
    refine forall_mem_cons.2 ⟨hP _ (by decide) (by decide), ?_⟩
    unfold enclosed
    split
    · exact forall_mem_cons.2 ⟨hP "(" (by decide) (by decide), forall_mem_append.2 ⟨hover,
        forall_mem_singleton.2 (hP ")" (by decide) (by decide))⟩⟩
    · exact forall_mem_cons.2 ⟨over_nil, hover⟩
  · exact nofun

omit hf in
theorem over_dataPiece {data : Text} (h : Markup.Over P data) : Markup.Over P (dataPiece data) := by
  have hover := h.replaceChar (hP "\\\"" (by decide) (by decide)) '"'
  unfold dataPiece
  dsimp only
  split
  · exact over_append.2 ⟨over_append.2 ⟨hP _ (by decide) (by decide), hover⟩, hP _ (by decide) (by decide)⟩
  · exact over_append.2 ⟨over_append.2 ⟨hP _ (by decide) (by decide), hover⟩, hP _ (by decide) (by decide)⟩

end

/-! ### Output that is woven -/

/-- The output is these pieces, and what opens a fragment is the builder's own. -/
structure Woven (A P : Char → Prop) (codes : List (List Token)) (n : Int) (pieces : List Piece) (out : List Text)
    (tags : List OpenTag) : Prop where
  output : out = pieces.map Piece.text
  clean : ∀ p ∈ pieces, p.Over A
  openings : ∀ t ∈ tags, ∀ i ∈ t.opening, OwnAt P pieces i
  attributes : ∀ t ∈ tags, ∀ a ∈ t.attributes, a.Written P
  codes : (pieces.flatMap Piece.codes ++ tags.flatMap OpenTag.codes).Perm codes
  lines : ¬ P '\n' → ownLines pieces = n

section

variable {A P : Char → Prop} {codes more : List (List Token)} {n : Int} {ps qs : List Piece} {out : List Text}
  {tags : List OpenTag}

theorem Woven.congr (h : Woven A P codes n ps out tags) (hcodes : codes.Perm more) : Woven A P more n ps out tags :=
  ⟨h.output, h.clean, h.openings, h.attributes, h.codes.trans hcodes, h.lines⟩

theorem Woven.grow (h : Woven A P codes n ps out tags) (hgrows : Grows A P more ps qs) :
    Woven A P (codes ++ more) n qs (qs.map Piece.text) tags := by
  refine ⟨rfl, hgrows.clean h.clean, fun t ht i hi => hgrows.own i (h.openings t ht i hi), h.attributes, ?_,
    fun hP => (hgrows.lines hP).trans (h.lines hP)⟩
  refine (hgrows.codes.append_right _).trans (.trans ?_ (h.codes.append_right more))
  rw [append_assoc, append_assoc]
  exact perm_append_comm.append_left _

theorem Woven.grow_nil (h : Woven A P codes n ps out tags) (hgrows : Grows A P [] ps qs) :
    Woven A P codes n qs (qs.map Piece.text) tags := by
  have hmore := h.grow hgrows
  rwa [append_nil] at hmore

theorem Woven.write (h : Woven A P codes n ps out tags) {p : Piece} (hp : p.Over A) :
    Woven A P (codes ++ p.codes) (n + p.lines) (ps ++ [p]) (out ++ [p.text]) tags := by
  refine ⟨by simp [h.output], forall_mem_append.2 ⟨h.clean, forall_mem_singleton.2 hp⟩,
    fun t ht i hi => ownAt_append (h.openings t ht i hi) _, h.attributes, ?_, fun hP => ?_⟩
  · refine .trans ?_ (h.codes.append_right _)
    simp only [flatMap_append, flatMap_singleton, append_assoc]
    exact perm_append_comm.append_left _
  · rw [ownLines_append, h.lines hP]
    simp [ownLines]

theorem Woven.bump (h : Woven A P codes n ps out tags) : Woven A P codes n ps out (bump tags) := by
  cases tags with
  | nil => exact h
  | cons t rest =>
    exact ⟨h.output, h.clean, forall_mem_cons.2 (forall_mem_cons.1 h.openings),
      forall_mem_cons.2 (forall_mem_cons.1 h.attributes), h.codes, h.lines⟩

theorem Woven.opened (h : Woven A P codes n ps out tags) {t : OpenTag} (hopening : ∀ i ∈ t.opening, OwnAt P ps i)
    (hattributes : ∀ a ∈ t.attributes, a.Written P) : Woven A P (codes ++ t.codes) n ps out (t :: tags) := by
  refine ⟨h.output, h.clean, forall_mem_cons.2 ⟨hopening, h.openings⟩,
    forall_mem_cons.2 ⟨hattributes, h.attributes⟩, .trans ?_ (h.codes.append_right _), h.lines⟩
  rw [flatMap_cons, append_assoc]
  exact perm_append_comm.append_left _

variable {t : OpenTag} {call : Bool} {v : View}

theorem Woven.left (h : Woven A P codes n ps out (t :: tags)) :
    ∃ less, Woven A P less n ps out tags ∧ (less ++ t.codes).Perm codes := by
  refine ⟨_, ⟨h.output, h.clean, (forall_mem_cons.1 h.openings).2, (forall_mem_cons.1 h.attributes).2,
    .refl _, h.lines⟩, .trans ?_ h.codes⟩
  rw [flatMap_cons, append_assoc]
  exact perm_append_comm.append_left _

variable (hA : ∀ c, P c → A c) (hP : Words P) {f : Text} (hf : Markup.Over P f)

include hA hP

theorem Woven.resolved {mid : List Text} {after : Bool} (h : Woven A P codes n ps out tags) (hend : EndGuarded ps)
    (hmid : Resolved out after mid) : ∃ qs, Woven A P codes n qs mid tags ∧ EndGuarded qs := by
  obtain ⟨qs, rfl, hgrows, hguard⟩ := grows_resolved hA hP hend (h.output ▸ hmid)
  exact ⟨qs, h.grow_nil hgrows, hguard⟩

theorem Woven.code {tokens : List Token} (h : Woven A P codes n ps out tags) (hlays : Lays (.code tokens))
    (hend : EndGuarded ps) :
    ∃ qs, Woven A P (codes ++ [tokens]) n qs (out ++ [codePiece tokens (codeText tokens)]) tags ∧ EndGuarded qs := by
  have hword (w : String) (hw : w ∈ ownWords) (hne : w ≠ "\n") : Markup.Over A w.toList := (hP w hw hne).mono hA
  unfold codePiece
  split
  · have hguard : (Piece.code ['('] tokens (codeText tokens) "), ".toList).Guarded := ⟨')', by decide, by decide⟩
    have hcode := h.write (p := .code ['('] tokens (codeText tokens) "), ".toList)
      ⟨hword "(" (by decide) (by decide), hword "), " (by decide) (by decide), hlays⟩
    exact ⟨_, by simpa [Piece.codes, Piece.lines, Piece.text, newlines_cons] using hcode,
      endGuarded_concat hguard fun _ => hend⟩
  · have hguard : (Piece.code [] tokens (codeText tokens) ", ".toList).Guarded := ⟨',', by decide, by decide⟩
    have hcode := h.write (p := .code [] tokens (codeText tokens) ", ".toList)
      ⟨over_nil, hword ", " (by decide) (by decide), hlays⟩
    exact ⟨_, by simpa [Piece.codes, Piece.lines, Piece.text, newlines_cons] using hcode,
      endGuarded_concat hguard fun _ => hend⟩

theorem Woven.comma (h : Woven A P codes n ps out tags) (rest : List OpenTag) :
    ∃ qs, Woven A P codes n qs (out ++ Builder.comma rest) tags ∧ (rest ≠ [] → EndGuarded qs) := by
  cases rest with
  | nil => exact ⟨ps, by simpa [Builder.comma] using h, fun hno => absurd rfl hno⟩
  | cons t rest =>
    have hcounts : Counts [','] := counts_cons (by decide) (by decide)
    have hcomma := h.write (p := .own [',']) ((hP "," (by decide) (by decide)).mono hA)
    exact ⟨_, by simpa [Builder.comma, Piece.codes, Piece.lines, Piece.text, newlines_cons] using hcomma,
      fun _ => endGuarded_own ps hcounts⟩

include hf

theorem Begins.grows {tag : Text} {attributes : List Attribute} {opening : Option Nat}
    (h : Begins f call v tag attributes opening out) (hout : v.output = ps.map Piece.text) (hend : EndGuarded ps)
    (htag : Markup.Over P (className tag).1) (hattributes : ∀ a ∈ attributes, a.Written P) :
    ∃ qs now, out = qs.map Piece.text ∧ Grows A P now ps qs ∧ now ++ endCodes tag attributes = attributesCodes
    attributes ∧ EndGuarded qs ∧ ∀ i ∈ opening, OwnAt P qs i := by
  have hfragment : Markup.Over P fragmentPiece := hP _ (by decide) (by decide)
  have hcounts : Counts fragmentPiece := counts_cons (by decide) (by decide)
  cases h with
  | element hif helse hmid hlay =>
    obtain ⟨ms, rfl, hgrows, -⟩ := grows_resolved hA hP hend (hout ▸ hmid)
    refine ⟨ms ++ tagPieces f tag attributes call, attributesCodes attributes, by simp, ?_, ?_, ?_, nofun⟩
    · have hmore := hgrows.append hA (over_tagPieces hP hf htag hlay hattributes call)
      rwa [codes_tagPieces, nil_append] at hmore
    · rw [endCodes_of_ne hif, append_nil]
    · have hclosed := endGuarded_own (ms ++ ((classPieces tag).map .own ++ attributesPieces f false attributes))
        (s := [')']) (counts_cons (by decide) (by decide))
      cases call with
      | false => simpa [tagPieces] using hclosed
      | true => simpa [tagPieces] using hclosed.push ['(']
  | @condition _ a hif hone hname hmid =>
    obtain ⟨ms, rfl, hgrows, -⟩ := grows_resolved hA hP hend (hout ▸ hmid)
    subst hif hone
    refine ⟨ms ++ [.own fragmentPiece], [], by simp [Piece.text], hgrows.append_own hA [_]
      (forall_mem_singleton.2 hfragment), ?_, endGuarded_own ms hcounts, fun i hi => ?_⟩
    · simp [endCodes, hname, attributesCodes]
    · cases hi
      exact ⟨fragmentPiece, by simp, hfragment⟩
  | alternative helse hnone _ hnew =>
    obtain ⟨ns, rfl, hgrows⟩ := grows_cut (A := A) (P := P) hend (hout ▸ hnew)
    subst helse hnone
    have hwords : ∀ w ∈ ["else ".toList, fragmentPiece], Markup.Over P w :=
      forall_mem_cons.2 ⟨hP _ (by decide) (by decide), forall_mem_singleton.2 hfragment⟩
    refine ⟨ns ++ [.own "else ".toList, .own fragmentPiece], [], by simp [Piece.text], hgrows.append_own hA _ hwords,
      rfl, ?_, fun i hi => ?_⟩
    · rw [append_cons]
      exact endGuarded_own _ hcounts
    · cases hi
      exact ⟨fragmentPiece, by simp, hfragment⟩

theorem Ends.grows (h : Ends f call t v out)
    (hout : v.output = ps.map Piece.text) (hend : EndGuarded ps) (hopening : ∀ i ∈ t.opening, OwnAt P ps i)
    (hattributes : ∀ a ∈ t.attributes, a.Written P) : ∃ qs, out = qs.map Piece.text ∧ Grows A P t.codes ps qs := by
  cases h with
  | closed hkeep hmid hlay =>
    obtain ⟨ms, rfl, hgrows, -⟩ := grows_resolved hA hP hend (hout ▸ hmid)
    have hclose : ∀ w ∈ (if call then [[')']] else []), Markup.Over P w := by
      cases call with
      | false => exact nofun
      | true => exact forall_mem_singleton.2 (hP ")" (by decide) (by decide))
    have hall := (hgrows.append_own hA _ hclose).append hA (over_endPieces hP hf hlay hattributes)
    rw [codes_endPieces, nil_append] at hall
    exact ⟨_, by simp [Function.comp_def, Piece.text], hall⟩
  | dropped hcond hcall hone hmid hnew hi hlay =>
    obtain ⟨ms, rfl, hgrows, hguard⟩ := grows_resolved hA hP hend (hout ▸ hmid)
    have hblank := hgrows.append_own hA [[]] (forall_mem_singleton.2 over_nil)
    obtain ⟨ns, rfl, hcut⟩ := grows_cut (A := A) (P := P) (hguard.push []) (by simpa [Piece.text] using hnew)
    have hdropped := (hblank.trans hcut).trans (grows_blank (hcut.own _ (hblank.own _ (hopening _ hi))))
    have hall := hdropped.append hA (over_endPieces hP hf hlay hattributes)
    rw [codes_endPieces, append_nil, nil_append] at hall
    exact ⟨_, by simp [map_set, Piece.text], hall⟩

theorem Woven.handled {w : View} {e : Event} (hv : Woven A P codes n ps v.output v.tags) (hend : EndGuarded ps)
    (he : e.Written P) (h : Handled f v e w) :
    ∃ qs, Woven A P (codes ++ e.codes) n qs w.output w.tags ∧ ((∃ s, e = .data s) ∨ w.tags ≠ [] → EndGuarded qs) := by
  cases h with
  | blank => exact ⟨ps, by simpa [Event.codes] using hv, fun _ => hend⟩
  | @data s mid hmid afterCode beforeCode =>
    obtain ⟨ms, hms, hguard⟩ := hv.resolved hA hP hend hmid
    have hpiece : Markup.Over P (dataPiece (normalize s afterCode beforeCode)) := over_dataPiece hP (he afterCode beforeCode)
    have hall := hms.bump.grow_nil ((Grows.refl (A := A) ms).append_own hA [_] (forall_mem_singleton.2 hpiece))
    exact ⟨_, by simpa [Event.codes, Piece.text, hms.output] using hall, fun _ => hguard.push _⟩
  | @start tag attributes opening out row hbegin =>
    obtain ⟨qs, now, rfl, hgrows, hcodes, hguard, hopening⟩ :=
      hbegin.grows hA hP hf hv.output hend (he.1 tag rfl) he.2
    have hall := (hv.bump.grow hgrows).opened (t := ⟨tag, row, attributes, 0, opening⟩) hopening he.2
    rw [append_assoc, OpenTag.codes, hcodes] at hall
    exact ⟨qs, hall, fun _ => hguard⟩
  | @finish t rest out htags hends =>
    rw [htags] at hv
    obtain ⟨qs, rfl, hgrows⟩ := hends.grows hA hP hf hv.output hend (hv.openings t mem_cons_self)
      (hv.attributes t mem_cons_self)
    obtain ⟨less, hleft, hperm⟩ := hv.left
    obtain ⟨rs, hrs, hguard⟩ := (hleft.grow hgrows).comma hA hP rest
    refine ⟨rs, ?_, fun hor => hguard (hor.resolve_left (by simp))⟩
    simpa [Event.codes] using hrs.congr hperm
  | @whole _ tag opening out row hwhole hbegin hlay =>
    have hwritten : (∀ name ∈ wholeTag e, Markup.Over P (className name).1) ∧
        (∀ a ∈ wholeAttributes e, a.Written P) ∧ (∀ s, e ≠ .data s) ∧ e.codes = attributesCodes (wholeAttributes e) := by
      cases e with
      | startEnd | comment | doctype | cdata => exact ⟨he.1, he.2, by simp, rfl⟩
      | data | start | finish => cases hwhole
    obtain ⟨htag, hattributes, hdata, hall⟩ := hwritten
    obtain ⟨qs, now, rfl, hgrows, hcodes, hguard, hopening⟩ :=
      hbegin.grows hA hP hf hv.output hend (htag tag hwhole) hattributes
    have hmore := hgrows.append hA (over_endPieces hP hf hlay hattributes)
    rw [codes_endPieces, OpenTag.codes, hcodes] at hmore
    obtain ⟨rs, hrs, hlast⟩ := (hv.grow hmore).bump.comma hA hP (Builder.bump v.tags)
    refine ⟨rs, ?_, fun hor => hlast (hor.resolve_left (not_exists.2 hdata))⟩
    rw [hall]
    simpa using hrs

end

end Builder

end InlineMarkup.Markup

import InlineMarkup.Proofs.Calls
import InlineMarkup.Proofs.CodeKept

/-!
The calls that the reversible mode writes. Main statement: the call for markup holds a format of its segments
and the pieces of code, and formatting gives back the markup as it stands in the source, with the comment
after it, exactly if the comment has no braces.
-/
namespace InlineMarkup.Translate

open Markup Layout List

/-! ### The stream in the source -/

def placeAfter (front : Text) : Pos := Pos.advance ⟨1, 0⟩ front

theorem placeAfter_append (front s : Text) : placeAfter (front ++ s) = (placeAfter front).advance s :=
  Pos.advance_append _ _ _

theorem placeAfter_spaces (front : Text) (k : Nat) :
    placeAfter (front ++ List.replicate k ' ') = ⟨(placeAfter front).row, (placeAfter front).col + k⟩ := by
  rw [placeAfter_append, Pos.advance_replicate]

structure Past (source lost front : Text) (s : Stream) (held : Text) : Prop where
  stands : s.Stands (placeAfter front) held
  kept : Kept source (front ++ (held ++ s.unread.flatten)) lost

/-- A token, or the front of one, comes after `front` and some spaces, and the stream stands after it. -/
structure Taken (source lost front : Text) (k : Nat) (t : Token) (s : Stream) (held : Text) : Prop where
  past : Past source lost (front ++ (List.replicate k ' ' ++ t.text)) s held
  neat : Neat (t.text ++ held)
  start : t.start = placeAfter (front ++ List.replicate k ' ')
  stop : after t = placeAfter (front ++ (List.replicate k ' ' ++ t.text))
  lineEnd : t.kind.isLineEnd = true → k = 0 ∧ t.text = ['\n'] ∧ t.start.col ≤ t.stop.col

structure Fresh (s : Stream) : Prop where
  unshifted : s.unshifted = []
  ready : s.ready = []
  scan : s.scan = some {}
  rewound : s.rewound.isSome = true

theorem Reached.past {mode : Mode} {source : Text} {literals : List Token} {lost : Text}
    {config : Config} (h : Reached mode source literals lost config) :
    ∃ front held, Past source lost front config.stream held := by
  cases h with
  | @outside c s p held hout =>
    obtain ⟨front, q, hwritten, -, hkept⟩ := hout.text
    refine ⟨front, held, ?_, hkept⟩
    rw [placeAfter, hwritten.place]
    exact hout.stands
  | @inside made place p m held s frames _ hin =>
    obtain ⟨front, q, k, hwritten, hplace, hkept⟩ := hin.text
    refine ⟨front ++ (List.replicate k ' ' ++ m), held, ?_, by simpa using hkept⟩
    have hat : placeAfter (front ++ (List.replicate k ' ' ++ m)) = p := by
      rw [← append_assoc, placeAfter_append, placeAfter_spaces, placeAfter, hwritten.place, ← hplace, hin.stop]
    rw [hat]
    exact hin.stands

section

variable {source lost front : Text} {s : Stream} {k : Nat} {t : Token} {held : Text}

theorem Past.next {s' : Stream} (h : Past source lost front s held) (hnext : s.next = (some t, s')) :
    ∃ k held', Placed (placeAfter front) k t ∧ Taken source lost front k t s' held' ∧
      (t.kind = .comment → EndsFirst (s'.unshifted ++ s'.ready)) := by
  have htook := Stream.next_took h.stands
  rw [hnext] at htook
  obtain ⟨k, held', hplaced, hstands, hneat, htext, hends⟩ := htook
  have hstop : after t = placeAfter (front ++ (List.replicate k ' ' ++ t.text)) := by
    rw [placeAfter_append, hplaced.advance]
  refine ⟨k, held', hplaced, ⟨⟨hstop ▸ hstands, ?_⟩, hneat.of_append, ?_, hstop, hplaced.lineEnd⟩, hends⟩
  · have hkept := h.kept
    rw [htext] at hkept
    simpa using hkept
  · rw [placeAfter_spaces, hplaced.start]

theorem Taken.isWord (h : Taken source lost front k t s held) {c : Char} (hc : c ∈ t.text) (hne : c ≠ '\n') :
    t.kind.isLineEnd = false := by
  by_contra hkind
  have hnewline := (h.lineEnd (by simpa using hkind)).2.1
  rw [hnewline, mem_singleton] at hc
  exact hne hc

theorem Taken.widen {j : Nat} (h : Taken source lost (front ++ List.replicate j ' ') k t s held)
    (hj : j = 0 ∨ t.kind.isLineEnd = false) : Taken source lost front (j + k) t s held := by
  have hspaces (x : Text) : front ++ List.replicate j ' ' ++ (List.replicate k ' ' ++ x) =
      front ++ (List.replicate (j + k) ' ' ++ x) := by
    rw [replicate_add]
    simp only [append_assoc]
  have hstart := h.start
  rw [← append_nil (List.replicate k ' '), hspaces, append_nil] at hstart
  refine ⟨hspaces t.text ▸ h.past, h.neat, hstart, hspaces t.text ▸ h.stop, fun hkind => ?_⟩
  obtain ⟨hk, htext, hcol⟩ := h.lineEnd hkind
  rcases hj with hj | hword
  · exact ⟨by omega, htext, hcol⟩
  · exact absurd (hword.symm.trans hkind) Bool.false_ne_true

theorem Taken.split (h : Taken source lost front k t s held) (hend : t.kind.isLineEnd = false) (n : Nat)
    (kind : Kind) (hkind : kind ≠ .comment ∧ kind.isLineEnd = false)
    (hnewline : t.text.getLast? = some '\n' → kind = .error) :
    Taken source lost front k (splitToken t n).1 (s.unshift { (splitToken t n).2 with kind })
      (t.text.drop n ++ held) := by
  have hdivision : t.start.advance (t.text.take n) =
      placeAfter (front ++ (List.replicate k ' ' ++ t.text.take n)) := by
    rw [h.start, ← placeAfter_append, append_assoc]
  have hsplit (x : Text) : t.text.take n ++ (t.text.drop n ++ x) = t.text ++ x := by
    rw [← append_assoc, take_append_drop]
  have hstop : after (splitToken t n).1 = t.start.advance (t.text.take n) := after_of_not_lineEnd hend
  have hrest : after { (splitToken t n).2 with kind } = after t := by
    rw [after_of_not_lineEnd hend]
    exact after_of_not_lineEnd hkind.2
  have hplaced : Placed (t.start.advance (t.text.take n)) 0 { (splitToken t n).2 with kind } := by
    refine ⟨by simp [splitToken], ?_, fun hline => ?_, fun hlast => Or.inr (hnewline ?_), fun hcomment => ?_⟩
    · rw [hrest, h.stop, ← append_assoc, placeAfter_append, ← h.start]
      simp [splitToken, ← Pos.advance_append]
    · exact absurd (hkind.2.symm.trans hline) Bool.false_ne_true
    · have hdrop : (t.text.drop n).getLast? = some '\n' := hlast
      rw [← take_append_drop n t.text, getLast?_append, hdrop]
      rfl
    · exact absurd hcomment hkind.1
  have hneat : Neat (t.text.take n ++ (t.text.drop n ++ held)) := by
    rw [hsplit]
    exact h.neat
  have hstands := Stream.unshift_stands (by rw [hrest, h.stop]; exact h.past.stands) hplaced hkind.1
    hneat.of_append
  refine ⟨⟨?_, ?_⟩, hneat, h.start, hstop.trans hdivision, fun hline => ?_⟩
  · rw [hdivision] at hstands
    exact hstands
  · have hkept := h.past.kept
    have hunread : (s.unshift { (splitToken t n).2 with kind }).unread = s.unread := rfl
    rw [hunread]
    simpa [splitToken, hsplit] using hkept
  · exact absurd (hend.symm.trans hline) Bool.false_ne_true

theorem rewind_fresh {s' : Stream} (h : (Stream.rewind t).run s = .ok () s') : Fresh s' := by
  obtain ⟨text, -, rfl⟩ := Stream.rewind_ok h
  exact ⟨rfl, rfl, rfl, rfl⟩

theorem Taken.rewind (h : Taken source lost front k t s held) (hend : t.kind.isLineEnd = false) {x r : Text}
    (htext : t.text = x ++ r) :
    ∃ s', (Stream.rewind { t with text := r, start := t.start.advance x }).run s = .ok () s' ∧ Fresh s' ∧
      (∃ more, s'.unread.flatten = r ++ more) ∧
      Past source (lost ++ (s.rewound.getD []).flatten) (front ++ (List.replicate k ' ' ++ x)) s' [] := by
  have hplace : t.start.advance x = placeAfter (front ++ (List.replicate k ' ' ++ x)) := by
    rw [h.start, ← placeAfter_append, append_assoc]
  have hneat : Neat (r ++ held) := by
    have hall := h.neat
    rw [htext, append_assoc] at hall
    exact hall.of_append
  have hafter : after { t with text := r, start := t.start.advance x } =
      placeAfter (front ++ (List.replicate k ' ' ++ t.text)) := by
    rw [← h.stop, after_of_not_lineEnd hend]
    exact after_of_not_lineEnd hend
  obtain ⟨s', hrun, hstands, hunread⟩ := @Stream.rewind_stands s _ held
    { t with text := r, start := t.start.advance x } h.past.stands hend hafter hneat
  refine ⟨s', hrun, rewind_fresh hrun, ⟨held ++ s.source.flatten, ?_⟩, hplace ▸ hstands, ?_⟩
  · simp [hunread, Text.flatten_lines]
  have hall : Kept source ((front ++ (List.replicate k ' ' ++ (x ++ (r ++ held)))) ++
      ((s.rewound.getD []).flatten ++ s.source.flatten)) lost := by
    have hkept := h.past.kept
    rw [htext] at hkept
    simpa [Stream.unread] using hkept
  have hdrop := hall.drop
  simpa [hunread, Text.flatten_lines] using hdrop

end

/-! ### Markup that has been read -/

theorem laysOut_after_spaces {p : Pos} {k : Nat} {t : Token} (hstart : t.start = ⟨p.row, p.col + k⟩)
    (hend : t.kind.isLineEnd = true → k = 0 ∧ t.start.col ≤ t.stop.col) :
    LaysOut p [t] (List.replicate k ' ' ++ t.text) (after t) := by
  have hrow : (origin (some p) t).row ≤ t.start.row := by
    rw [origin_row, hstart]
  have hcons := LaysOut.cons hrow (.nil (after t))
  rwa [gap_after_spaces hstart hend, append_nil] at hcons

/-- The pieces of the markup that stands after `front` are laid out as the format of the segments,
and its fragments are their code. -/
structure Formed (front : Text) (l : Literal) (segments : List Segment) : Prop where
  start : l.builder.start = placeAfter front
  first : ∃ t rest, l.pieces.toList = t :: rest ∧ t.start = l.builder.start ∧ t.kind.isLineEnd = false
  laid : LaysOut l.builder.start l.pieces.toList (Segment.format segments)
    (placeAfter (front ++ Segment.source segments))
  opens : ∃ rest, segments = .text ['<'] :: rest
  fragments : ∃ texts, l.fragments.toList.mapM inColumn = .ok texts ∧ texts.map Text.strip = Segment.codes segments

section

variable {front : Text} {l l' : Literal} {segments : List Segment}

theorem Formed.same (h : Formed front l segments) (hstart : l'.builder.start = l.builder.start)
    (hpieces : l'.pieces = l.pieces) (hfragments : l'.fragments = l.fragments) : Formed front l' segments := by
  refine ⟨hstart.trans h.start, ?_, ?_, h.opens, hfragments ▸ h.fragments⟩
  · rw [hpieces, hstart]
    exact h.first
  · rw [hpieces, hstart]
    exact h.laid

theorem Formed.add (h : Formed front l segments) (hstart : l'.builder.start = l.builder.start) {t : Token}
    {added : List Segment} (hpieces : l'.pieces.toList = l.pieces.toList ++ [t])
    (hlaid : LaysOut (placeAfter (front ++ Segment.source segments)) [t] (Segment.format added)
      (placeAfter (front ++ Segment.source (segments ++ added))))
    (hfragments : ∃ texts, l'.fragments.toList.mapM inColumn = .ok texts ∧
      texts.map Text.strip = Segment.codes (segments ++ added)) : Formed front l' (segments ++ added) := by
  obtain ⟨rest, hrest⟩ := h.opens
  obtain ⟨u, us, hu, hustart, hukind⟩ := h.first
  refine ⟨hstart.trans h.start, ⟨u, us ++ [t], by rw [hpieces, hu]; rfl, hustart.trans hstart.symm, hukind⟩, ?_,
    ⟨rest ++ added, by rw [hrest]; rfl⟩, hfragments⟩
  rw [hstart, hpieces, Segment.format_append]
  exact h.laid.append hlaid

theorem doubled_after_spaces (k : Nat) (x : Text) :
    Segment.doubled (List.replicate k ' ' ++ x) = List.replicate k ' ' ++ Segment.doubled x := by
  rw [Segment.doubled_append, Segment.doubled_of_plain fun c hc => ?_]
  rw [eq_of_mem_replicate hc]
  decide

theorem Formed.add_text (h : Formed front l segments) (hstart : l'.builder.start = l.builder.start) {t : Token}
    {k : Nat} {x : Text} (hpieces : l'.pieces.toList = l.pieces.toList ++ [t])
    (hfragments : l'.fragments = l.fragments) (htext : t.text = Segment.doubled x)
    (ht : t.start = placeAfter (front ++ Segment.source segments ++ List.replicate k ' '))
    (hend : t.kind.isLineEnd = true → k = 0 ∧ t.start.col ≤ t.stop.col)
    (hafter : after t = placeAfter (front ++ Segment.source segments ++ (List.replicate k ' ' ++ x))) :
    Formed front l' (segments ++ [.text (List.replicate k ' ' ++ x)]) := by
  have hsource : Segment.source (segments ++ [.text (List.replicate k ' ' ++ x)]) =
      Segment.source segments ++ (List.replicate k ' ' ++ x) := by
    simp [Segment.source_append, Segment.source]
  refine h.add hstart hpieces ?_ ?_
  · rw [placeAfter_spaces] at ht
    have hlaid := laysOut_after_spaces ht hend
    rw [htext, ← doubled_after_spaces, hafter, append_assoc] at hlaid
    rw [hsource]
    simpa [Segment.format] using hlaid
  · rw [hfragments, Segment.codes_append, Segment.codes, Segment.codes, append_nil]
    exact h.fragments

theorem Formed.feed {source lost : Text} {k : Nat} {t : Token} {s : Stream} {held : Text}
    (h : Formed front l segments) (hstart : l'.builder.start = l.builder.start)
    (hpieces : l'.pieces = l.pieces.push (sanitize t)) (hfragments : l'.fragments = l.fragments)
    (ht : Taken source lost (front ++ Segment.source segments) k t s held) :
    Formed front l' (segments ++ [.text (List.replicate k ' ' ++ t.text)]) := by
  refine h.add_text hstart (t := sanitize t) ?_ hfragments rfl ht.start (fun hkind => ?_) ht.stop
  · rw [hpieces, Array.toList_push]
  · obtain ⟨hk, -, hcol⟩ := ht.lineEnd hkind
    exact ⟨hk, hcol⟩

variable {p : Char → Bool} {c : Char} {s : Text}

theorem trimLeft_of_head (h : s.head? = some c) (hc : p c = false) : Text.trimLeft p s = s := by
  obtain ⟨rest, rfl⟩ := head?_eq_some_iff.mp h
  rw [Text.trimLeft, dropWhile_cons_of_neg (by simp [hc])]

theorem trimRight_of_last (h : s.getLast? = some c) (hc : p c = false) : Text.trimRight p s = s := by
  rw [Text.trimRight, ← Text.trimLeft, trimLeft_of_head (by simpa using h) hc, reverse_reverse]

theorem strip_inColumn (n : Nat) (x : Text) :
    Text.strip ('\n' :: (List.replicate n ' ' ++ '\x7b' :: (x ++ ['\x7d']))) = '\x7b' :: (x ++ ['\x7d']) := by
  have hspaces : (List.replicate n ' ' ++ '\x7b' :: (x ++ ['\x7d'])).dropWhile isBlank =
      '\x7b' :: (x ++ ['\x7d']) := by
    rw [dropWhile_append_of_pos fun c hc => ?_, dropWhile_cons_of_neg (by decide)]
    rw [eq_of_mem_replicate hc]
    decide
  have hlast : ('\x7b' :: (x ++ ['\x7d'])).getLast? = some '\x7d' := by
    rw [← cons_append, getLast?_concat]
  rw [Text.strip, Text.trim, Text.trimLeft, dropWhile_cons_of_pos (by decide), hspaces,
    trimRight_of_last hlast (by decide)]

theorem mapM_push {α β : Type} {f : α → Except Fault β} {xs : List α} {ys : List β} {x : α} {y : β}
    (h : xs.mapM f = .ok ys) (hx : f x = .ok y) : (xs ++ [x]).mapM f = .ok (ys ++ [y]) := by
  rw [mapM_append, h, mapM_cons, hx]
  rfl

theorem Formed.add_code {source lost x : Text} {c : Code} {t : Token} {s : Stream} {held : Text} {j k : Nat}
    (h : Formed front l segments) (hstart : l'.builder.start = l.builder.start)
    (hpieces : l'.pieces = l.pieces.push { t with text := ['\x7b', '\x7d'], start := l.brace.1, line := [] })
    (hfragments : l'.fragments = l.fragments.push
      ([{ t with text := ['\x7b'], start := l.brace.1, stop := l.brace.2 }] ++ c.made.toList ++ [t]))
    (hbrace : l.brace.1 = placeAfter (front ++ Segment.source segments ++ List.replicate j ' '))
    (hcode : LaysOut l.brace.2 c.made.toList x
      (placeAfter (front ++ Segment.source segments ++ (List.replicate j ' ' ++ '\x7b' :: x))))
    (ht : Taken source lost (front ++ Segment.source segments ++ (List.replicate j ' ' ++ '\x7b' :: x)) k t s held)
    (hop : t.isOp ['\x7d'] = true) :
    Formed front l' (segments ++ [.text (List.replicate j ' '),
      .code ('\x7b' :: (x ++ (List.replicate k ' ' ++ ['\x7d'])))]) := by
  simp only [Token.isOp_iff] at hop
  obtain ⟨hkind, htext⟩ := hop
  have hend (u : Token) (hu : u.kind = .op) : u.kind.isLineEnd = false := by
    rw [hu]
    rfl
  refine h.add hstart (t := { t with text := ['\x7b', '\x7d'], start := l.brace.1, line := [] }) ?_ ?_ ?_
  · rw [hpieces, Array.toList_push]
  · rw [placeAfter_spaces] at hbrace
    have hlaid := @laysOut_after_spaces (placeAfter (front ++ Segment.source segments)) j
      { t with text := ['\x7b', '\x7d'], start := l.brace.1, line := [] } hbrace (by simp [hend t hkind])
    have hafter : after { t with text := ['\x7b', '\x7d'], start := l.brace.1, line := [] } =
        placeAfter (front ++ Segment.source (segments ++ [.text (List.replicate j ' '),
          .code ('\x7b' :: (x ++ (List.replicate k ' ' ++ ['\x7d'])))])) := by
      have hstop := ht.stop
      rw [htext] at hstop
      refine hstop.trans ?_
      simp [Segment.source_append, Segment.source]
    rw [hafter] at hlaid
    have hdoubled := doubled_after_spaces j []
    simp only [append_nil, Segment.doubled, flatMap_nil] at hdoubled
    simpa [Segment.format, Segment.doubled, hdoubled] using hlaid
  · obtain ⟨texts, htexts, hcodes⟩ := h.fragments
    have hopening : LaysOut ⟨l.brace.1.row - 1, 0⟩
        [{ t with text := ['\x7b'], start := l.brace.1, stop := l.brace.2 }]
        ('\n' :: (Text.copies l.brace.1.col ' ' ++ ['\x7b'])) l.brace.2 := by
      have hone := @LaysOut.one { t with text := ['\x7b'], start := l.brace.1, stop := l.brace.2 }
        (hend t hkind) ⟨l.brace.1.row - 1, 0⟩ (by simp)
      simpa [gap, Text.copies] using hone
    have hclosing := ht.start
    rw [placeAfter_spaces] at hclosing
    have hlast := laysOut_after_spaces hclosing (by simp [hend t hkind])
    have hall := (hopening.append (hcode.append hlast)).text
    have hone : inColumn ([{ t with text := ['\x7b'], start := l.brace.1, stop := l.brace.2 }] ++
        c.made.toList ++ [t]) = .ok ('\n' :: (List.replicate l.brace.1.col.toNat ' ' ++
          '\x7b' :: (x ++ (List.replicate k ' ' ++ ['\x7d'])))) := by
      rw [htext] at hall
      simpa [inColumn, Text.copies] using hall
    refine ⟨_, by rw [hfragments, Array.toList_push]; exact mapM_push htexts hone, ?_⟩
    have hstrip := strip_inColumn l.brace.1.col.toNat (x ++ List.replicate k ' ')
    rw [append_assoc] at hstrip
    simp [hcodes, Segment.codes_append, Segment.codes, hstrip]

end

/-! ### The comment after markup -/

def Trails (trailing rest : Text) : Prop :=
  IsTrailing trailing ∧ rest.head? = some '\n' ∨
    trailing = [] ∧ ∀ k more, rest ≠ List.replicate k ' ' ++ '#' :: more

theorem line_of_comment {l more : Text} {ls : List Text} {k : Nat} (hl : Text.IsLine l)
    (h : (l :: ls).flatten = List.replicate k ' ' ++ '#' :: more) :
    ∃ rest, l = List.replicate k ' ' ++ '#' :: rest := by
  have hfront : l ++ ls.flatten = (List.replicate k ' ' ++ ['#']) ++ more := by simpa using h
  rcases append_eq_append_iff.mp hfront with ⟨x, hx, -⟩ | ⟨x, rfl, -⟩
  · have hmem : '\n' ∈ List.replicate k ' ' ++ ['#'] := by
      rw [hx]
      exact mem_append_left _ (mem_of_getLast? hl.2)
    rcases mem_append.mp hmem with hmem | hmem
    · exact absurd (eq_of_mem_replicate hmem) (by decide)
    · exact absurd (mem_singleton.mp hmem) (by decide)
  · exact ⟨x, by simp⟩

section

variable {source lost front : Text} {s : Stream}

theorem Fresh.next_comment (hfresh : Fresh s) (hlines : ∀ l ∈ s.unread, NeatLine l) {k : Nat} {more : Text}
    (htext : s.unread.flatten = List.replicate k ' ' ++ '#' :: more) :
    ∃ t s', s.next = (some t, s') ∧ t.kind = .comment := by
  obtain ⟨back, hback⟩ := Option.isSome_iff_exists.mp hfresh.rewound
  have hnext : s.next = Stream.pullRewound s {} back := by
    unfold Stream.next
    rw [hfresh.unshifted, hfresh.ready, hfresh.scan, hback]
  have hunread : s.unread = back ++ s.source := by rw [Stream.unread, hback, Option.getD_some]
  rw [hunread] at hlines htext
  rw [hnext]
  cases back with
  | cons l rest =>
    obtain ⟨body, rfl⟩ := line_of_comment (hlines l mem_cons_self).isLine htext
    obtain ⟨t, ts, after, hline, hkind, -⟩ := Scan.line_comment k body
    rw [Stream.pullRewound, hline]
    exact ⟨_, _, rfl, hkind⟩
  | nil =>
    rw [Stream.pullRewound]
    cases hsource : s.source with
    | nil =>
      rw [hsource] at htext
      simp at htext
    | cons l rest =>
      rw [hsource] at hlines htext
      obtain ⟨body, rfl⟩ := line_of_comment (hlines l mem_cons_self).isLine htext
      obtain ⟨t, ts, after, hline, hkind, -⟩ := Scan.line_comment k body
      rw [Stream.pullSource, hline]
      exact ⟨_, _, rfl, hkind⟩

theorem next_of_endsFirst (h : EndsFirst (s.unshifted ++ s.ready)) : ∃ t s', s.next = (some t, s') := by
  obtain ⟨u, us, heq, -⟩ := h
  unfold Stream.next
  cases hunshifted : s.unshifted with
  | cons t rest => exact ⟨t, _, rfl⟩
  | nil =>
    rw [hunshifted, nil_append] at heq
    rw [heq]
    exact ⟨_, _, rfl⟩

theorem Taken.comment {k : Nat} {t : Token} {held : Text} (h : Taken source lost front k t s held)
    (hends : EndsFirst (s.unshifted ++ s.ready)) :
    (held ++ s.unread.flatten).head? = some '\n' ∧ t.text.getLast? ≠ some ' ' := by
  obtain ⟨u, s', hnext⟩ := next_of_endsFirst hends
  have htook := Stream.next_took h.past.stands
  rw [hnext] at htook
  obtain ⟨j, held', hplaced, -, -, htext, -⟩ := htook
  obtain ⟨rfl, hnewline, -⟩ := hplaced.lineEnd (Stream.next_endsFirst hnext hends)
  rw [hnewline] at htext
  refine ⟨by rw [htext]; rfl, fun hspace => ?_⟩
  have hneat : Neat (t.text ++ (held ++ s.unread.flatten)) := by
    rw [← append_assoc]
    exact h.neat.append (neat_flatten h.past.stands.lines)
  obtain ⟨body, hbody⟩ := getLast?_eq_some_iff.mp hspace
  refine hneat.trimmed ⟨body, held' ++ s'.unread.flatten, ?_⟩
  rw [htext, hbody]
  simp

theorem takeComment_trails (hpast : Past source lost front s []) (hfresh : Fresh s) (l : Literal) :
    ∃ trailing rest, Kept source (front ++ (trailing ++ rest)) lost ∧ Trails trailing rest ∧
      trailing.getLast? ≠ some ' ' ∧ (takeComment s l).2.builder = l.builder ∧
      (takeComment s l).2.fragments = l.fragments ∧
      ∃ more q, (takeComment s l).2.pieces.toList = l.pieces.toList ++ more ∧
        LaysOut (placeAfter front) more trailing q := by
  have hnone (hno : ∀ t s', s.next = (some t, s') → t.kind ≠ .comment) :
      Kept source (front ++ ([] ++ s.unread.flatten)) lost ∧ Trails [] s.unread.flatten := by
    refine ⟨hpast.kept, Or.inr ⟨rfl, fun k more htext => ?_⟩⟩
    obtain ⟨t, s', hnext, hkind⟩ := hfresh.next_comment hpast.stands.lines htext
    exact hno t s' hnext hkind
  unfold takeComment
  cases hnext : s.next with
  | mk taken s' =>
    cases taken with
    | none =>
      obtain ⟨hkept, htrails⟩ := hnone fun t s'' h => by
        rw [hnext] at h
        cases h
      exact ⟨[], _, hkept, htrails, by simp, rfl, rfl, [], _, by simp, .nil _⟩
    | some t =>
      dsimp only
      obtain ⟨k, held, hplaced, htaken, hends⟩ := hpast.next hnext
      split
      · rename_i hkind
        obtain ⟨hhead, hrow⟩ := hplaced.comment hkind
        obtain ⟨hnewline, hlast⟩ := htaken.comment (hends hkind)
        refine ⟨List.replicate k ' ' ++ t.text, held ++ s'.unread.flatten, by simpa using htaken.past.kept,
          Or.inl ⟨⟨k, t.text, rfl, hhead, hrow⟩, hnewline⟩, ?_, rfl, rfl, [t], after t, Array.toList_push, ?_⟩
        · obtain ⟨body, hbody⟩ := head?_eq_some_iff.mp hhead
          rw [getLast?_append_of_ne_nil _ (by rw [hbody]; simp)]
          exact hlast
        · have hword : t.kind.isLineEnd = false := by
            rw [hkind]
            rfl
          exact laysOut_after_spaces hplaced.start (by simp [hword])
      · rename_i hkind
        obtain ⟨hkept, htrails⟩ := hnone fun u s'' h => by
          rw [hnext] at h
          cases h
          exact hkind
        exact ⟨[], _, hkept, htrails, by simp, rfl, rfl, [], _, by simp, .nil _⟩

end

/-! ### The call -/

def callWith (format expression : Text) (column : Int) (columns : List Int) (fragments : List Text) : Text :=
  "html.PYXL(".toList ++ Text.join ", ".toList (tripleQuoted format :: expression :: Text.ofInt column ::
    (columns.map Text.ofInt ++ fragments ++ [['0']])) ++ [')']

theorem join_snoc (sep : Text) (parts : List Text) (last : Text) :
    Text.join sep (parts ++ [last]) = (parts.map (· ++ sep)).flatten ++ last := by
  induction parts with
  | nil => simp [Text.join]
  | cons part parts ih =>
    obtain ⟨b, rest, hrest⟩ := exists_cons_of_ne_nil (l := parts ++ [last]) (by simp)
    rw [Text.join] at ih ⊢
    have hcons : (part :: b :: rest).intersperse sep = part :: sep :: (b :: rest).intersperse sep := rfl
    rw [cons_append, hrest, hcons, ← hrest, flatten_cons, flatten_cons, ih]
    simp

theorem join_call (name quotes sep format expression column : Text) (columns fragments : List Text) :
    name ++ Text.join sep ((quotes ++ (format ++ quotes)) :: expression :: column ::
        (columns ++ fragments ++ [['0']])) ++ [')'] =
      name ++ quotes ++ format ++ (quotes ++ sep) ++ expression ++ sep ++ column ++ sep ++
        (columns.map (· ++ sep)).flatten ++ (fragments.map (· ++ sep)).flatten ++ ['0', ')'] := by
  have hlast := join_snoc sep ((quotes ++ (format ++ quotes)) :: expression :: column :: (columns ++ fragments)) ['0']
  simp only [cons_append] at hlast
  rw [hlast]
  simp

/-- The token is a call for the markup that stands after `front` in what is kept of the source, and is
made of the segments; it takes the comment after the markup along. -/
structure IsCall (source lost front : Text) (segments : List Segment) (trailing rest : Text)
    (fragments : List Text) (t : Token) : Prop where
  kept : Kept source (front ++ (Segment.source segments ++ (trailing ++ rest))) lost
  start : t.start = placeAfter front
  stop : t.stop = t.start.advance (Segment.source segments)
  opens : (Segment.source segments).head? = some '<'
  closes : (Segment.source segments).getLast? = some '>'
  trails : Trails trailing rest
  codes : fragments.map Text.strip = Segment.codes segments
  text : ∃ expression columns, columns.length = fragments.length ∧
    t.text = callWith (Segment.format segments ++ trailing) expression t.start.col columns fragments

section

variable {mode : Mode} {source lost front : Text} {s s₁ s₂ : Stream} {l l' : Literal} {segments : List Segment}

theorem stripped_of_laid {p q : Pos} {pieces : List Token} {x : Text} (h : LaysOut p pieces x q)
    (hfirst : ∃ t rest, pieces = t :: rest ∧ t.start = p ∧ t.kind.isLineEnd = false)
    (hhead : x.head? = some '<') {c : Char} (hlast : x.getLast? = some c) (hc : c ≠ ' ') :
    stripped pieces = .ok x := by
  obtain ⟨t, rest, rfl, rfl, hkind⟩ := hfirst
  have htext := h.text
  have hplain : plain (t :: rest) = .ok x := by
    rw [plain, ← htext, Layout.text, Layout.text]
    simp [origin, hkind]
  rw [stripped, hplain, Except.map, trimLeft_of_head hhead (by decide), trimRight_of_last hlast (by simpa using hc)]

def bared (expression : Text) : Text := Text.trimRight (· == ' ') (Text.trimLeft isBlank expression)

theorem stripped_token (b : Builder) : stripped [b.token] = .ok (bared b.token.text) := by
  simp [stripped, plain, Layout.text, origin, Builder.token, Kind.isLineEnd, gap, Text.copies, Except.map, bared]

theorem reversibleForm_eq {markup : Text} {texts : List Text}
    (hmarkup : stripped l.pieces.toList = .ok markup) (hfragments : l.fragments.toList.mapM inColumn = .ok texts) :
    ∃ columns, columns.length = texts.length ∧
      reversibleForm l = .ok (callWith markup (bared l.builder.token.text) l.builder.start.col columns texts) := by
  refine ⟨l.fragments.toList.map fun f => ((Token.leading? f).map (·.start.col)).getD 0, ?_, ?_⟩
  · rw [Restore.mapM_length hfragments, length_map]
  · have hcall := join_call "html.PYXL(".toList "'''".toList ", ".toList (quoteLiteral markup)
      (bared l.builder.token.text) (Text.ofInt l.builder.start.col)
      (l.fragments.toList.map fun f => Text.ofInt (((Token.leading? f).map (·.start.col)).getD 0)) texts
    have hopening : callOpening = "html.PYXL(".toList ++ "'''".toList := by decide
    have hclosing : literalClosing = "'''".toList ++ ", ".toList := by decide
    rw [map_map] at hcall
    unfold reversibleForm callWith tripleQuoted
    simp only [hmarkup, stripped_token, hfragments, Restore.ok_bind, pure, Except.pure]
    rw [hopening, hclosing, map_map]
    exact congrArg Except.ok hcall.symm

theorem PutsBack.pieces (h : PutsBack mode s l s₁ l') (hmode : mode.reversible = true) {pieces : Array Token}
    {u r : Token} {x : Text} (hpieces : l.pieces = pieces.push (sanitize u)) (hr : l.builder.remainder = some r)
    (hu : u.text = x ++ r.text) (hstart : r.start = l.builder.stop) (hstop : r.text = [] → u.stop = l.builder.stop)
    (hrun : (Stream.rewind r).run s = .ok () s₂) : s₁ = s₂ ∧ l'.fragments = l.fragments ∧
      ∃ y, l'.pieces = pieces.push y ∧ y.text = Segment.doubled x ∧ y.start = u.start ∧
        y.kind = u.kind ∧ y.stop = l.builder.stop := by
  have hsanitized : (sanitize u).text = Segment.doubled x ++ Segment.doubled r.text := by
    rw [← Segment.doubled_append, ← hu]
    rfl
  cases h with
  | nothing hno => cases hno.symm.trans hr
  | kept hr' hrun' hkept =>
    cases hr'.symm.trans hr
    cases hrun'.symm.trans hrun
    have hnil := hkept.resolve_left (by simp [hmode])
    refine ⟨rfl, rfl, _, hpieces, ?_, rfl, rfl, hstop hnil⟩
    rw [hsanitized, hnil]
    simp [Segment.doubled]
  | trimmed hr' hrun' _ hbraces =>
    cases hr'.symm.trans hr
    cases hrun'.symm.trans hrun
    have htake : (sanitize u).text.take ((sanitize u).text.length - r.text.length) = Segment.doubled x := by
      rw [hsanitized, Segment.doubled_of_plain hbraces, length_append, Nat.add_sub_cancel, take_left']
      rfl
    have htrim : trimLast l r = { l with pieces := pieces.push { sanitize u with
        text := (sanitize u).text.take ((sanitize u).text.length - r.text.length), stop := r.start } } := by
      unfold trimLast
      rw [hpieces, Array.back?_push]
      dsimp only
      rw [Array.pop_push]
    rw [htrim]
    exact ⟨rfl, rfl, _, rfl, htake, rfl, rfl, hstart⟩

theorem Formed.call (h : Formed front l segments) (hclose : (Segment.source segments).getLast? = some '>')
    (hformat : (Segment.format segments).getLast? = some '>')
    (hstop : l.builder.stop = placeAfter (front ++ Segment.source segments))
    (hpast : Past source lost (front ++ Segment.source segments) s []) (hfresh : Fresh s) {form : Text}
    (hform : reversibleForm (takeComment s l).2 = .ok form) :
    ∃ trailing rest fragments, IsCall source lost front segments trailing rest fragments
      { l.builder.token with text := form } := by
  obtain ⟨trailing, rest, hkept, htrails, hblank, hbuilder, hfragments, comment, q, hpieces, hlaid⟩ :=
    takeComment_trails hpast hfresh l
  obtain ⟨texts, htexts, hcodes⟩ := h.fragments
  obtain ⟨more, hopens⟩ := h.opens
  have hhead : (Segment.source segments).head? = some '<' ∧
      (Segment.format segments ++ trailing).head? = some '<' := by
    rw [hopens]
    exact ⟨rfl, rfl⟩
  -- the markup ends with a bracket and the comment not with a space, so nothing is stripped
  have hlast : ∃ c, (Segment.format segments ++ trailing).getLast? = some c ∧ c ≠ ' ' := by
    cases htrailing : trailing.getLast? with
    | none =>
      rw [getLast?_eq_none_iff.mp htrailing, append_nil]
      exact ⟨'>', hformat, by decide⟩
    | some c =>
      refine ⟨c, by rw [getLast?_append, htrailing]; rfl, ?_⟩
      rintro rfl
      exact hblank htrailing
  obtain ⟨c, hlast, hc⟩ := hlast
  have hmarkup : stripped (takeComment s l).2.pieces.toList = .ok (Segment.format segments ++ trailing) := by
    obtain ⟨t, ts, ht, hstart, hkind⟩ := h.first
    rw [hpieces]
    exact stripped_of_laid (h.laid.append hlaid) ⟨t, ts ++ comment, by rw [ht]; rfl, hstart, hkind⟩ hhead.2 hlast hc
  rw [← hfragments] at htexts
  obtain ⟨columns, hcolumns, hcall⟩ := reversibleForm_eq hmarkup htexts
  cases hform.symm.trans hcall
  rw [hbuilder]
  refine ⟨trailing, rest, texts, by simpa using hkept, h.start, ?_, hhead.1, hclose, htrails, hcodes,
    _, columns, hcolumns, rfl⟩
  exact hstop.trans (by rw [placeAfter_append, ← h.start]; rfl)

end

/-! ### Steps -/

/-- The frames above `outer`: the markup that stands after `front` in the code `c` and is open, or code
in that markup. -/
inductive Amid (front : Text) (c : Code) (outer : List Frame) : List Frame → Text → Prop where
  | markup {l : Literal} {segments : List Segment} (hopen : Builder.Open l.builder.start l.builder)
      (hl : Formed front l segments) :
      Amid front c outer (.literal l :: .code c :: outer) (Segment.source segments)
  | code {l : Literal} {segments : List Segment} {inner : Code} {k : Nat} {x : Text}
      (hopen : Builder.Open l.builder.start l.builder) (hl : Formed front l segments)
      (hbrace : l.brace.1 = placeAfter (front ++ Segment.source segments ++ List.replicate k ' '))
      (hcode : LaysOut l.brace.2 inner.made.toList x
        (placeAfter (front ++ Segment.source segments ++ (List.replicate k ' ' ++ '\x7b' :: x)))) :
      Amid front c outer (.code inner :: .literal l :: .code c :: outer)
        (Segment.source segments ++ (List.replicate k ' ' ++ '\x7b' :: x))

def Midway (source lost front : Text) (c : Code) (outer : List Frame) (config : Config) : Prop :=
  ∃ m j held, Amid front c outer config.frames m ∧
    Past source lost (front ++ m ++ List.replicate j ' ') config.stream held ∧
    (j = 0 ∨ ∃ t s, config.stream.next = (some t, s) ∧ t.kind = .comment)

def Called (source lost front : Text) (c : Code) (outer : List Frame) (config : Config) : Prop :=
  ∃ t segments trailing rest fragments, config.frames = .code (c.add t true) :: outer ∧
    IsCall source lost front segments trailing rest fragments t

section

variable {mode : Mode} {source lost front : Text} {c : Code} {outer : List Frame} {s s' : Stream} {l : Literal}
  {segments : List Segment} {final : Config}

theorem Taken.fed {k j : Nat} {p : Pos} {t u : Token} {s₁ : Stream} {b : Builder} {held : Text}
    (h : Taken source lost front k t s held) (hplaced : Placed p j t) (hmove : moveOf s b t = .feed s₁ u) :
    s₁.rewound = s.rewound ∧ (t.kind = .comment ∨ t.text.head? ≠ some '#') ∧
      ∃ held', Taken source lost front k u s₁ held' := by
  cases moveOf_feed hmove with
  | whole hhash => exact ⟨rfl, hhash, held, h⟩
  | mark _ hkind =>
    have hword : t.kind.isLineEnd = false := by rw [hkind]; rfl
    exact ⟨rfl, .inl hkind, _, h.split hword 1 .error ⟨by simp, rfl⟩ fun _ => rfl⟩
  | @part n d rest hkind hhash hn hrest hd =>
    have hword := h.isWord (mem_of_mem_drop (hrest ▸ mem_cons_self)) (by rcases hd with rfl | rfl <;> decide)
    exact ⟨rfl, .inr hhash, _, h.split hword n t.kind ⟨hkind, hword⟩ fun hlast =>
      (hplaced.newline hlast).resolve_left fun hline => absurd (hword.symm.trans hline) Bool.false_ne_true⟩

theorem Formed.closed (hl : Formed front l segments) (hmode : mode.reversible = true)
    (hopen : Builder.Open l.builder.start l.builder) {k : Nat} {u v : Token} {held : Text} {b : Builder} {s₂ : Stream}
    (hu : Taken source lost (front ++ Segment.source segments) k u s held)
    (hread : (Builder.read u).run l.builder = .ok () b) (hdone : b.isDone = true)
    (hclose : closeLiteral mode s (l.fed mode b u) = .ok (s₂, v)) : ∃ segments' trailing rest fragments,
      IsCall source (lost ++ (s.rewound.getD []).flatten) front segments' trailing rest fragments v := by
  obtain ⟨hstart, -, hends⟩ := Builder.read_ok hread hopen.begun hopen.notDone
  obtain ⟨x, r, htext, hlast, hstop, hrem⟩ := hends hdone
  have hword : u.kind.isLineEnd = false :=
    hu.isWord (c := '>') (by rw [htext]; exact mem_append_left _ (mem_of_getLast? hlast)) (by decide)
  obtain ⟨s₁, hrun, hfresh, -, hpast⟩ := hu.rewind hword htext
  obtain ⟨s₃, l', hputs, ⟨hno, -⟩ | ⟨-, -, form, hform, rfl⟩⟩ := closeLiteral_ok hclose
  · cases hmode.symm.trans hno
  have hplace : b.stop = placeAfter (front ++ Segment.source segments ++ (List.replicate k ' ' ++ x)) := by
    rw [hstop, hu.start, ← placeAfter_append, append_assoc]
  have hwhole : r = [] → u.stop = b.stop := by
    intro hnil
    rw [hplace, ← after_of_not_lineEnd hword, hu.stop, htext, hnil, append_nil]
  rw [← hstop] at hrun
  have hbuilder : l'.builder = b := hputs.builder
  have hpushed : (l.fed mode b u).pieces = l.pieces.push (sanitize u) := if_pos hmode
  obtain ⟨rfl, hfragments, y, hpieces, hytext, hystart, hykind, hystop⟩ :=
    hputs.pieces hmode hpushed hrem htext rfl hwhole hrun
  have hformed : Formed front l' (segments ++ [.text (List.replicate k ' ' ++ x)]) := by
    refine hl.add_text (by rw [hbuilder, hstart]) (by rw [hpieces, Array.toList_push]) hfragments hytext
      (hystart.trans hu.start) (by simp [hykind, hword]) ?_
    rw [after_of_not_lineEnd (by rw [hykind, hword]), hystop]
    exact hplace
  have hsource : Segment.source (segments ++ [.text (List.replicate k ' ' ++ x)]) =
      Segment.source segments ++ (List.replicate k ' ' ++ x) := by
    simp [Segment.source_append, Segment.source]
  obtain ⟨body, hbody⟩ := getLast?_eq_some_iff.mp hlast
  rw [append_assoc, ← hsource] at hpast hplace
  have hcall := hformed.call (by rw [hsource, hbody]; simp)
    (by rw [Segment.format_append, Segment.format, doubled_after_spaces, hbody, Segment.doubled_append]; simp [Segment.doubled, Segment.format])
    (by rw [hbuilder]; exact hplace) hpast hfresh hform
  rw [hbuilder] at hcall
  exact ⟨_, hcall⟩

theorem Midway.next {t : Token} {config : Config} (h : Midway source lost front c outer config)
    (hnext : config.stream.next = (some t, s')) :
    ∃ m p i k held, Amid front c outer config.frames m ∧ Placed p i t ∧
      Taken source lost (front ++ m) k t s' held := by
  obtain ⟨m, j, held, hamid, hpast, hj⟩ := h
  obtain ⟨k, held', hplaced, htaken, -⟩ := hpast.next hnext
  refine ⟨m, _, k, j + k, held', hamid, hplaced, htaken.widen (hj.imp id ?_)⟩
  rintro ⟨u, s₁, hu, hkind⟩
  rw [hnext] at hu
  cases hu
  rw [hkind]
  rfl

theorem step_midway (hmode : mode.reversible = true) {before after : Config}
    (hbefore : Midway source lost front c outer before) (h : step mode before = .ok after) :
    Midway source (lost ++ forgotten before after) front c outer after ∨
      Called source (lost ++ forgotten before after) front c outer after ∨
      after.frames.length = outer.length + 4 := by
  cases step_steps h with
  | @take s s' _ t _ depth significant hnext =>
    obtain ⟨m, p, i, k, held, hamid, hplaced, htaken⟩ := hbefore.next hnext
    cases hamid with
    | @code l segments inner j x hopen hl hbrace hcode =>
      rw [← append_assoc] at htaken
      refine Or.inl ⟨_, 0, held, @Amid.code front c outer l segments _ j (x ++ (List.replicate k ' ' ++ t.text)) hopen
        hl hbrace ?_, ?_, Or.inl rfl⟩
      · have hstart := htaken.start
        rw [placeAfter_spaces] at hstart
        have hone := laysOut_after_spaces hstart fun hkind => ⟨(htaken.lineEnd hkind).1, (htaken.lineEnd hkind).2.2⟩
        have hall := hcode.append hone
        rw [htaken.stop] at hall
        simpa [Code.add] using hall
      · simpa [forgotten, rewinds] using htaken.past
  | begin depth hnext hop _ hread =>
    obtain ⟨m, p, i, k, held, hamid, -⟩ := hbefore.next hnext
    cases hamid
    exact .inr (.inr rfl)
  | @leave s s' inner l t _ b hnext hop hread =>
    obtain ⟨m, p, i, k, held, hamid, hplaced, htaken⟩ := hbefore.next hnext
    cases hamid with
    | @code _ segments _ j x hopen hl hbrace hcode =>
      rw [← append_assoc] at htaken
      have hb := Builder.leavesOpen_readCode _ _ _ _ _ hopen hread
      rw [Literal.filled, if_pos hmode]
      refine Or.inl ⟨_, 0, held, .markup ⟨rfl, hb.begun, hb.notDone⟩
        (hl.add_code hb.start rfl rfl hbrace hcode htaken hop), ?_, Or.inl rfl⟩
      simp only [Token.isOp_iff] at hop
      have hpast := htaken.past
      rw [hop.2] at hpast
      simpa [Segment.source_append, Segment.source, forgotten, rewinds] using hpast
  | feed hnext hmove hread hnot =>
    obtain ⟨m, p, i, k, held, hamid, hplaced, htaken⟩ := hbefore.next hnext
    cases hamid with
    | markup hopen hl =>
      obtain ⟨-, hhash, held', hu⟩ := htaken.fed hplaced hmove
      obtain ⟨hstart, hbegun, -⟩ := Builder.read_ok hread hopen.begun hopen.notDone
      rw [forgotten_of_stays hnext hhash rfl, append_nil]
      refine .inl ⟨_, 0, held', .markup ⟨rfl, hbegun, hnot⟩ (hl.feed hstart (if_pos hmode) rfl hu), ?_, Or.inl rfl⟩
      simpa [Segment.source_append, Segment.source] using hu.past
  | close hnext hmove hread hdone hclose =>
    obtain ⟨m, p, i, k, held, hamid, hplaced, htaken⟩ := hbefore.next hnext
    cases hamid with
    | markup hopen hl =>
      obtain ⟨hrewound, -, held', hu⟩ := htaken.fed hplaced hmove
      obtain ⟨segments', trailing, rest, fragments, hcall⟩ := hl.closed hmode hopen hu hread hdone hclose
      rw [forgotten_of_rewinds hnext (.inl (by simp)), ← hrewound]
      exact .inr (.inl ⟨_, segments', trailing, rest, fragments, rfl, hcall⟩)
  | @enter s s' s₁ l t _ b hnext hmove hpass hrun =>
    obtain ⟨m, p, i, k, held, hamid, hplaced, htaken⟩ := hbefore.next hnext
    obtain ⟨more, htext⟩ := moveOf_enter hmove
    cases hamid with
    | @markup _ segments hopen hl =>
      have hword := htaken.isWord (c := '\x7b') (by simp [htext]) (by decide)
      obtain ⟨s₂, hrun₂, -, -, hpast⟩ := htaken.rewind hword (x := ['\x7b']) htext
      simp only [splitToken, htext, take_succ_cons, take_zero, drop_succ_cons, drop_zero] at hrun hpass
      cases hrun.symm.trans hrun₂
      have hopen' := Builder.leavesOpen_passOver _ _ _ _ _ hopen hpass
      have hdivision : t.start.advance ['\x7b'] =
          placeAfter (front ++ Segment.source segments ++ (List.replicate k ' ' ++ ['\x7b'])) := by
        rw [htaken.start, ← placeAfter_append, append_assoc]
      rw [forgotten_of_rewinds hnext (.inl (by simp))]
      refine .inl ⟨_, 0, [], @Amid.code front c outer _ segments {} k [] ⟨rfl, hopen'.begun, hopen'.notDone⟩
        (hl.same hopen'.start rfl rfl) htaken.start ?_, ?_, Or.inl rfl⟩
      · rw [← hdivision]
        simp only [splitToken, htext, take_succ_cons, take_zero]
        exact .nil _
      · simpa using hpast
  | keep _ hnext hmove =>
    obtain ⟨m, p, i, k, held, hamid, hplaced, htaken⟩ := hbefore.next hnext
    cases hamid with
    | markup hopen hl =>
      rw [forgotten_of_stays hnext (.inl (moveOf_remark hmove).1) rfl, append_nil]
      refine .inl ⟨_, 0, held, .markup hopen (hl.feed rfl rfl rfl htaken), ?_, Or.inl rfl⟩
      simpa [Segment.source_append, Segment.source] using htaken.past
  | remark hno => cases hmode.symm.trans hno
  | @again _ _ _ _ t _ hnext hmove hrun =>
    -- the token is read again from its hash mark on, and then is a comment
    obtain ⟨m, p, i, k, held, hamid, hplaced, htaken⟩ := hbefore.next hnext
    obtain ⟨more, htext, hcomment⟩ := moveOf_again hmove
    cases hamid with
    | markup hopen hl =>
      have hword := htaken.isWord (c := '#') (by simp [htext]) (by decide)
      obtain ⟨s₂, hrun₂, hfresh, ⟨rest, hrest⟩, hpast⟩ := htaken.rewind hword (x := []) (r := t.text) rfl
      cases hrun.symm.trans hrun₂
      rw [forgotten_of_rewinds hnext (.inr ⟨hcomment, by simp [htext]⟩)]
      rw [append_nil] at hpast
      rw [htext] at hrest
      exact .inl ⟨_, k, [], .markup hopen hl, hpast, .inr (hfresh.next_comment hpast.stands.lines (k := 0) hrest)⟩
  | stop _ hdone =>
    obtain ⟨m, j, held, hamid, -⟩ := hbefore
    cases hamid with
    | markup hopen =>
      rw [hopen.notDone] at hdone
      cases hdone

theorem Amid.length {frames : List Frame} {m : Text} (h : Amid front c outer frames m) :
    outer.length + 1 < frames.length := by
  cases h <;> simp

theorem Called.length {config : Config} (h : Called source lost front c outer config) :
    config.frames.length = outer.length + 1 := by
  obtain ⟨t, _, _, _, _, hframes, -⟩ := h
  rw [hframes, length_cons]

theorem Run.midway (hmode : mode.reversible = true) {before after : Config} {steps : List (Config × Config)}
    (hrun : Run mode before steps after) (hbefore : Midway source lost front c outer before)
    (hstay : ∀ s ∈ steps, outer.length + 1 < s.2.frames.length ∧ s.2.frames.length < outer.length + 4) :
    Midway source (lost ++ lostBy steps) front c outer after := by
  induction hrun generalizing lost with
  | refl => simpa [lostBy] using hbefore
  | @next before mid after steps hstep hrest ih =>
    obtain ⟨hfirst, hlater⟩ := forall_mem_cons.1 hstay
    have hmid : Midway source (lost ++ forgotten before mid) front c outer mid := by
      rcases step_midway hmode hbefore hstep with hmid | hcalled | hlength
      · exact hmid
      · exact absurd hcalled.length hfirst.1.ne'
      · exact absurd hlength hfirst.2.ne
    have hall := ih hmid hlater
    rwa [append_assoc] at hall

theorem step_enters (hmode : mode.reversible = true) {literals : List Token} {before after : Config}
    (hreached : Reached mode source literals lost before) (hframes : before.frames = .code c :: outer)
    (h : step mode before = .ok after) (hlength : outer.length + 1 < after.frames.length) :
    ∃ front c', c'.made = c.made ∧ Midway source lost front c' outer after := by
  obtain ⟨front, held, hpast⟩ := hreached.past
  cases step_steps h with
  | take | leave =>
    cases hframes
    simp at hlength
  | @begin s s' _ t _ b depth hnext hop _ hread =>
    cases hframes
    obtain ⟨k, held', hplaced, htaken, -⟩ := hpast.next hnext
    have hopen := Builder.read_begin hop hread
    simp only [Token.isOp_iff] at hop
    have hword : t.kind.isLineEnd = false := by
      rw [hop.1]
      rfl
    have hpast' := htaken.past
    rw [hop.2, ← append_assoc] at hpast'
    refine ⟨front ++ List.replicate k ' ', { c with depth }, rfl, ['<'], 0, held', ?_, by simpa using hpast', Or.inl rfl⟩
    rw [if_pos hmode]
    refine @Amid.markup _ _ _ { builder := b, pieces := #[t] } [.text ['<']] ⟨rfl, hopen.begun, hopen.notDone⟩
      ⟨hopen.start.trans htaken.start, ⟨t, [], rfl, hopen.start.symm, hword⟩, ?_, ⟨[], rfl⟩, [], rfl, rfl⟩
    have hone := laysOut_after_spaces (p := t.start) (k := 0) (t := t) (by simp) (by simp [hword])
    rw [htaken.stop, hop.2] at hone
    rw [hopen.start]
    simpa [Segment.format, Segment.doubled, Segment.source] using hone
  | feed | close | enter | keep | remark | again | stop => cases hframes

end

/-! ### Formatting -/

theorem mem_format {segments : List Segment} {d : Char} (h : d ∈ Segment.format segments) :
    d ∈ Segment.source segments ∨ d = '\x7b' ∨ d = '\x7d' := by
  induction segments with
  | nil => cases h
  | cons segment rest ih =>
    cases segment with
    | text s =>
      rw [Segment.format, mem_append, Segment.mem_doubled] at h
      rw [Segment.source, mem_append]
      tauto
    | code s =>
      simp only [Segment.format, mem_cons] at h
      rw [Segment.source, mem_append]
      tauto

/-- In a neat source, each piece of markup that has no markup in its code becomes a call. What stands before,
in and after the markup is the source, but for text that rewinds lost. The call holds a format of the markup
and its pieces of code; a comment at the end of the line goes with them. Formatting gives back the markup and
the comment exactly if the comment has no braces. -/
theorem call_formats_back {mode : Mode} (hmode : mode.reversible = true) {source : Text} (hneat : Neat source)
    {earlier middle : List (Config × Config)} {first last : Config × Config} {final : Config} {depth : Nat}
    (hrun : Run mode (start source) (earlier ++ first :: (middle ++ [last])) final)
    (hmarkup : ReadsMarkup depth first middle last) (hflat : ∀ s ∈ middle, s.2.frames.length < depth + 3) :
    ∃ c c' outer t front segments trailing rest fragments,
      first.1.frames = .code c :: outer ∧ last.2.frames = .code c' :: outer ∧ c'.made = c.made.push t ∧
      IsCall source (lostBy (earlier ++ first :: (middle ++ [last]))) front segments trailing rest fragments t ∧
      ('\x00' ∉ source → InlineMarkup.Literal.read (tripleQuoted (Segment.format segments ++ trailing)) =
        .ok (.text (Segment.format segments ++ trailing))) ∧
      (Text.format (Segment.format segments ++ trailing) (fragments.map Text.strip) =
          .ok (Segment.source segments ++ trailing) ↔ ∀ d ∈ trailing, d ≠ '\x7b' ∧ d ≠ '\x7d') := by
  obtain ⟨c, outer, hfirst, rfl⟩ := hmarkup.begins
  obtain ⟨mid, hearlier, hrest⟩ := hrun.split
  cases hrest with
  | @next _ opened _ _ hstep hrest =>
    obtain ⟨mid', hmiddle, hlast⟩ := hrest.split
    cases hlast with
    | @next _ closed _ _ hlast _ =>
      obtain ⟨hopens, hstays⟩ := forall_mem_cons.1 hmarkup.stays
      have hreached := hearlier.reached (reached_start mode hneat)
      obtain ⟨front, c', hmade, hmidway⟩ := step_enters hmode hreached hfirst hstep hopens
      have hmidway' := hmiddle.midway hmode hmidway fun s hs => ⟨hstays s hs, hflat s hs⟩
      have hends := hmarkup.ends
      have hcalled : Called source (lostBy (earlier ++ (mid, opened) :: (middle ++ [(mid', closed)]))) front c'
          outer closed := by
        rcases step_midway hmode hmidway' hlast with ⟨_, _, _, hamid, -⟩ | hcalled | hlength
        · exact absurd hends hamid.length.ne'
        · have hkeep : forgotten mid opened = [] := by
            unfold forgotten rewinds
            rw [hfirst]
            rfl
          simpa [lostBy, hkeep] using hcalled
        · dsimp only at hends
          omega
      obtain ⟨t, segments, trailing, rest, fragments, hframes, hcall⟩ := hcalled
      refine ⟨c, _, outer, t, front, segments, trailing, rest, fragments, hfirst, hframes, ?_, hcall, fun hzero => ?_,
        ?_⟩
      · rw [Code.add, hmade]
      · have habsent (d : Char) (hbraces : d ≠ '\x7b' ∧ d ≠ '\x7d') (hd : d ∉ source) :
            d ∉ Segment.format segments ++ trailing := by
          intro hmem
          have hkept : d ∉ front ++ (Segment.source segments ++ (trailing ++ rest)) := fun hk =>
            hd (hcall.kept.sublist.subset hk)
          simp only [mem_append, not_or] at hkept
          rcases mem_append.mp hmem with hmem | hmem
          · rcases mem_format hmem with hmem | hmem | hmem
            · exact hkept.2.1 hmem
            · exact hbraces.1 hmem
            · exact hbraces.2 hmem
          · exact hkept.2.2.1 hmem
        exact Literal.read_tripleQuoted (habsent _ (by decide) fun hreturn => (hneat.plain _ hreturn).2.2 rfl)
          (habsent _ (by decide) hzero)
      · rw [hcall.codes]
        exact Segment.format_tail_iff segments trailing

def stepsFrom (mode : Mode) : Nat → Config → List (Config × Config)
  | 0, _ => []
  | n + 1, config =>
    match step mode config with
    | .error _ => []
    | .ok next => (config, next) :: stepsFrom mode n next

theorem run_stepsFrom (mode : Mode) (n : Nat) (config : Config) :
    ∃ final, Run mode config (stepsFrom mode n config) final := by
  induction n generalizing config with
  | zero => exact ⟨config, .refl config⟩
  | succ n ih =>
    rw [stepsFrom]
    split
    · exact ⟨config, .refl config⟩
    · rename_i next hstep
      obtain ⟨final, hrun⟩ := ih next
      exact ⟨final, .next hstep hrun⟩

def heights (s : Config × Config) : Bool × Nat × Nat :=
  (match s.1.frames with
    | .code _ :: _ => true
    | _ => false, s.1.frames.length, s.2.frames.length)

theorem readsMarkup_of_heights {first last : Config × Config} {middle : List (Config × Config)} {depth : Nat}
    (hfirst : heights first = (true, depth, depth + 1)) (hmiddle : ∀ h ∈ middle.map heights, depth < h.2.2)
    (hlast : (heights last).2.2 = depth) : ReadsMarkup depth first middle last := by
  obtain ⟨hcode, hbefore, hafter⟩ : _ ∧ first.1.frames.length = depth ∧ first.2.frames.length = depth + 1 := by
    simpa [heights] using hfirst
  refine ⟨?_, forall_mem_cons.2 ⟨by omega, fun s hs => hmiddle _ (mem_map_of_mem hs)⟩, hlast⟩
  split at hcode
  · rename_i c below hframes
    exact ⟨c, below, hframes, by rw [← hbefore, hframes, length_cons]⟩
  · cases hcode

def commentedMarkup : Text := "x = <a b=\"\x7bc\x7d\">\x7bd\x7d # \x7be\x7d\n</a> # f\n".toList

theorem call_formats_back_commentedMarkup :
    ∃ earlier first middle last final, Run { reversible := true } (start commentedMarkup)
        (earlier ++ first :: (middle ++ [last])) final ∧
      ReadsMarkup 1 first middle last ∧ (∀ s ∈ middle, s.2.frames.length < 4) ∧
    ∃ c c' outer t front segments trailing rest fragments,
      first.1.frames = .code c :: outer ∧ last.2.frames = .code c' :: outer ∧ c'.made = c.made.push t ∧
      IsCall commentedMarkup (lostBy (earlier ++ first :: (middle ++ [last]))) front segments trailing rest fragments
        t ∧
      ('\x00' ∉ commentedMarkup → InlineMarkup.Literal.read (tripleQuoted (Segment.format segments ++ trailing)) =
        .ok (.text (Segment.format segments ++ trailing))) ∧
      (Text.format (Segment.format segments ++ trailing) (fragments.map Text.strip) =
          .ok (Segment.source segments ++ trailing) ↔
        ∀ d ∈ trailing, d ≠ '\x7b' ∧ d ≠ '\x7d') := by
  obtain ⟨final, hrun⟩ := run_stepsFrom { reversible := true } 21 (start commentedMarkup)
  have hheights : (stepsFrom { reversible := true } 21 (start commentedMarkup)).map heights =
      [(true, 1, 1), (true, 1, 1)] ++ (true, 1, 2) :: ([(false, 2, 2), (false, 2, 2), (false, 2, 2), (false, 2, 2), (false, 2, 3), (true, 3, 3), (true, 3, 2),
        (false, 2, 2), (false, 2, 2), (false, 2, 3), (true, 3, 3), (true, 3, 2),
        (false, 2, 2), (false, 2, 2), (false, 2, 2), (false, 2, 2), (false, 2, 2)] ++
        [(false, 2, 1)]) := by
    decide +kernel
  obtain ⟨earlier, later, hsteps, -, hlater⟩ := map_eq_append_iff.mp hheights
  obtain ⟨first, rest, hsplit, hfirst, hrest⟩ := map_eq_cons_iff.mp hlater
  obtain ⟨middle, ending, hsplit', hmiddle, hending⟩ := map_eq_append_iff.mp hrest
  obtain ⟨last, nothing, hsplit'', hlast, hnothing⟩ := map_eq_cons_iff.mp hending
  obtain rfl := map_eq_nil_iff.mp hnothing
  rw [hsteps, hsplit, hsplit', hsplit''] at hrun
  have hmarkup : ReadsMarkup 1 first middle last := by
    refine readsMarkup_of_heights hfirst ?_ (by rw [hlast])
    rw [hmiddle]
    decide
  have hflat : ∀ s ∈ middle, s.2.frames.length < 4 := by
    intro s hs
    have hbound : ∀ h ∈ middle.map heights, h.2.2 < 4 := by
      rw [hmiddle]
      decide
    exact hbound _ (mem_map_of_mem hs)
  exact ⟨earlier, first, middle, last, final, hrun, hmarkup, hflat,
    call_formats_back rfl (by decide +kernel) hrun hmarkup hflat⟩

def bracedComment : Text := "x = <a></a> # \x7bb\x7d\n".toList

/-- The comment is in the format as it stands, and formatting fails. -/
theorem translate_bracedComment : (translate { reversible := true } bracedComment).toOption =
        some ("x = ".toList ++ callWith "<a></a> # \x7bb\x7d".toList "html.x_a()()".toList 4 [] [] ++ ['\n']) ∧
      (Text.format "<a></a> # \x7bb\x7d".toList []).toOption = none := by
  decide +kernel

end InlineMarkup.Translate

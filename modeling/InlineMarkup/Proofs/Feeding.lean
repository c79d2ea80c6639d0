import InlineMarkup.Proofs.Handlers
import InlineMarkup.Proofs.Tags

/-!
Feeding markup to a builder, text and code in turn, each where the one before it ended. A start tag
or an end tag makes the reader report the data before it and then the tag; the handlers do the rest.
-/
namespace InlineMarkup.Markup.Builder

def feedText (s : Text) : Build Unit := do
  let b ← get
  read { kind := .string, text := s, start := b.stop, stop := b.stop.advance s, line := [] }

def startTag (name : Text) : Text := '<' :: name ++ ['>']

def endTag (name : Text) : Text := '<' :: '/' :: name ++ ['>']

def codeTokens (p : Pos) (code : Text) : List Token :=
  let first := p.step '\x7b'
  let last := first.advance code
  [{ kind := .name, text := code, start := first, stop := last, line := [] },
    { kind := .op, text := [], start := last.step '\x7d', stop := last.step '\x7d', line := [] }]

def feedCode (code : Text) : Build Unit := do
  let p := (← get).stop
  passOver { kind := .op, text := ['\x7b'], start := p, stop := p.step '\x7b', line := [] }
  readCode (codeTokens p code)

/-! ### Reading characters -/

def Reads (s : Text) (b c : Builder) : Prop := ∀ rest, readText (s ++ rest) b = readText rest c

variable {s d : Text} {b c : Builder} {ch : Char} {m : Machine} {e : Event} {v w u : View} {out : List Text}
  {tags : List OpenTag} {afterIf : Bool}

theorem Reads.append {t : Text} {d : Builder} (hs : Reads s b c) (ht : Reads t c d) : Reads (s ++ t) b d := by
  intro rest
  rw [List.append_assoc, hs, ht]

theorem Reads.cons {t : Text} {d : Builder} (hs : Reads [ch] b c) (ht : Reads t c d) :
    Reads (ch :: t) b d := hs.append ht

theorem reads_quiet (hdone : b.isDone = false) (hstep : b.machine.step ch = .quiet m) :
    Reads [ch] b { b with stop := b.stop.step ch, machine := m } := by
  intro rest
  rw [List.singleton_append]
  simp [readText, hdone, readChar, bind, EStateM.bind, modify, modifyGet, MonadStateOf.modifyGet, EStateM.modifyGet,
    get, getThe, MonadStateOf.get, EStateM.get, hstep]

variable {name : Text} {parts : List Part}

theorem reads_event {during after : Machine}
    (hdone : b.isDone = false) (hstep : b.machine.step ch = .event during e after)
    (hhandle : handle e { b with stop := b.stop.step ch, machine := during } = .ok () c) :
    Reads [ch] b { c with machine := after } := by
  intro rest
  rw [List.singleton_append]
  simp [readText, hdone, readChar, bind, EStateM.bind, modify, modifyGet, MonadStateOf.modifyGet, EStateM.modifyGet,
    get, getThe, MonadStateOf.get, EStateM.get, hstep, hhandle]

/-! ### Builders that are ready for more -/

/-- The builder shows the view and stands in data, of which this much has been read. -/
structure Ready (b : Builder) (v : View) (data : Text) : Prop where
  shows : Shows b v
  state : b.machine.state = .data
  data : b.machine.data = data

theorem Shows.move (h : Shows b v) (p : Pos) (m : Machine) : Shows { b with stop := p, machine := m } v :=
  ⟨h.output, h.tags, h.afterIf, h.afterCode, h.beforeCode⟩

def View.IsOpen (v : View) : Prop := v.tags ≠ [] ∨ v.output = []

theorem Shows.not_done (h : Shows b v) (hv : v.IsOpen) : b.isDone = false := by
  rcases hv with htags | hout
  · have hopen : b.openTags ≠ [] := by
      intro hnil
      have hmap := h.tags
      rw [hnil] at hmap
      exact htags hmap.symm
    simp [isDone, hopen]
  · have hempty : b.output = #[] := by
      rw [← Array.toList_eq_nil_iff, h.output, hout]
    simp [isDone, hempty]

theorem reads_data (h : Ready b v d) (hv : v.IsOpen)
    (hs : ∀ c ∈ s, c ≠ '<') : ∃ c, Reads s b c ∧ Ready c v (d ++ s) := by
  induction s generalizing b d with
  | nil => exact ⟨b, fun _ => rfl, by simpa using h⟩
  | cons ch s ih =>
    have hch : ch ≠ '<' := hs ch List.mem_cons_self
    have hstep : b.machine.step ch = .quiet (b.machine.extendData [ch] .data) := by
      simp [Machine.step, h.state, hch]
    have hone := reads_quiet (h.shows.not_done hv) hstep
    have hready : Ready { b with stop := b.stop.step ch, machine := b.machine.extendData [ch] .data } v
        (d ++ [ch]) :=
      ⟨h.shows.move _ _, rfl, by simp [Machine.extendData, h.data]⟩
    obtain ⟨c, hc, hdone⟩ := ih hready fun e he => hs e (List.mem_cons_of_mem _ he)
    exact ⟨c, hone.cons hc, by simpa using hdone⟩

/-! ### Tags -/

theorem Quiet.reads {last : Machine} (h : Quiet m s last) {b : Builder} (hb : b.machine = m) :
    ∃ p, Reads s b { b with stop := p, machine := last } := by
  induction h generalizing b with
  | nil m => exact ⟨b.stop, fun _ => by rw [← hb]; rfl⟩
  | cons hstate hstep _ ih =>
    subst hb
    obtain ⟨p, hp⟩ := ih (b := { b with stop := b.stop.step _, machine := _ }) rfl
    exact ⟨p, (reads_quiet (not_done_of_state hstate) hstep).cons hp⟩

theorem reads_tagOpen (h : Ready b v d) (hv : v.IsOpen) (hdata : Does (writeData d) v w) :
    ∃ c, Reads ['<'] b c ∧ Shows c w ∧ c.machine.state = .tagOpen ∧ c.machine.data = [] := by
  have hstep : b.machine.step '<' = .event b.machine (.data d)
      { b.machine with data := [], state := .tagOpen } := by
    simp [Machine.step, h.state, Machine.closeData, h.data]
  obtain ⟨c, hc, hshows, -⟩ := hdata _ (h.shows.move (b.stop.step '<') b.machine)
  exact ⟨_, reads_event (h.shows.not_done hv) hstep hc, hshows.move c.stop _, rfl, rfl⟩

theorem reads_tagClose {n : Machine} (h : Shows b v)
    (hstep : b.machine.step '>' = .event n e (n.goto .data)) (hdata : n.data = []) (hhandle : Does (handle e) v w) :
    ∃ c, Reads ['>'] b c ∧ Ready c w [] := by
  have hstate : b.machine.state ≠ .data := fun hstate => by simp [Machine.step, hstate] at hstep
  obtain ⟨c, hc, hshows, -⟩ := hhandle _ (h.move (b.stop.step '>') n)
  exact ⟨_, reads_event (not_done_of_state hstate) hstep hc, hshows.move c.stop _, rfl, hdata⟩

/-! ### Feeding -/

def Feeds (x : Build Unit) (v : View) (d : Text) (w : View) (e : Text) : Prop :=
  ∀ b, Ready b v d → ∃ c, x b = .ok () c ∧ Ready c w e

def IsRead (kind : Kind) (s : Text) : Prop :=
  kind ≠ .indent ∧ ¬ (kind = .op ∧ s = ['\\']) ∧ ¬ (kind = .error ∧ s = [' '])

instance (kind : Kind) (s : Text) : Decidable (IsRead kind s) :=
  inferInstanceAs (Decidable (_ ∧ _ ∧ _))

theorem read_reads {kind : Kind} (hread : IsRead kind s) {b c : Builder} (h : Reads s b c) :
    ∃ p r, (p = c.stop ∨ p = b.stop.advance s) ∧
      read { kind, text := s, start := b.stop, stop := b.stop.advance s, line := [] } b =
        .ok () { c with stop := p, remainder := r } := by
  obtain ⟨hindent, hjoin, hblank⟩ := hread
  have htext : readText s b = .ok [] c := by
    have hnil := h []
    rw [List.append_nil] at hnil
    rw [hnil]
    rfl
  have hop : ({ kind, text := s, start := b.stop, stop := b.stop.advance s, line := [] } : Token).isOp ['\\'] =
      false := by
    simpa [Token.isOp] using hjoin
  rw [read_at_stop rfl hindent hop hblank, bind_ok htext]
  cases hdone : c.isDone with
  | true => exact ⟨c.stop, _, Or.inl rfl, congrArg (EStateM.Result.ok ()) (if_pos hdone)⟩
  | false => exact ⟨_, c.remainder, Or.inr rfl, congrArg (EStateM.Result.ok ()) (if_neg (by simp [hdone]))⟩

theorem feedText_ok (h : Reads s b c) : ∃ p r, feedText s b = .ok () { c with stop := p, remainder := r } := by
  obtain ⟨p, r, -, hread⟩ := @read_reads _ .string ⟨nofun, nofun, nofun⟩ _ _ h
  exact ⟨p, r, hread⟩

theorem Shows.rest (h : Shows b v) (p : Pos) (r : Option Token) : Shows { b with stop := p, remainder := r } v :=
  ⟨h.output, h.tags, h.afterIf, h.afterCode, h.beforeCode⟩

theorem Ready.rest (h : Ready b v d) (p : Pos) (r : Option Token) :
    Ready { b with stop := p, remainder := r } v d :=
  ⟨h.shows.rest p r, h.state, h.data⟩

theorem feeds_of_reads {e : Text}
    (h : ∀ b, Ready b v d → ∃ c, Reads s b c ∧ Ready c w e) : Feeds (feedText s) v d w e := by
  intro b hb
  obtain ⟨c, hc, hready⟩ := h b hb
  obtain ⟨p, r, hfeed⟩ := feedText_ok hc
  exact ⟨_, hfeed, hready.rest p r⟩

theorem feeds_text (d : Text) (hv : v.IsOpen) (hs : ∀ c ∈ s, c ≠ '<') : Feeds (feedText s) v d v (d ++ s) :=
  feeds_of_reads fun _ hb => reads_data hb hv hs

theorem feeds_tag (hs : Completes s e) (hu : u.IsOpen)
    (hdata : Does (writeData d) u v) (hhandle : Does (handle e) v w) :
    Feeds (feedText ('<' :: (s ++ ['>']))) u d w [] := by
  refine feeds_of_reads fun b hb => ?_
  obtain ⟨c, hopen, hshows, hstate, hempty⟩ := reads_tagOpen hb hu hdata
  obtain ⟨k, n, hquiet, hstep, hn⟩ := hs c.machine hstate
  obtain ⟨p, hread⟩ := hquiet.reads rfl
  obtain ⟨l, hclose, hready⟩ := reads_tagClose (hshows.move p k) hstep (hn.trans hempty) hhandle
  exact ⟨l, hopen.cons (hread.append hclose), hready⟩

theorem feeds_start (hu : u.IsOpen) (hname : IsTagName name)
    (hdata : Does (writeData d) u v) (hbegin : Does (beginElement name [] true) v w) :
    Feeds (feedText (startTag name)) u d w [] := by
  have htag : Completes name (.start (some name) []) := by
    simpa using completes_start hname .nil (nofun : IsGap [])
  exact feeds_tag htag hu hdata hbegin

theorem feeds_finish (hu : u.IsOpen) (hname : IsTagName name)
    (hdata : Does (writeData d) u v) (hend : Does (endElement name true) v w) :
    Feeds (feedText (endTag name)) u d w [] := by
  have htag : Completes ('/' :: name) (.finish (some name)) := by
    simpa using completes_finish hname (nofun : IsGap [])
  exact feeds_tag htag hu hdata hend

/-! ### Conditions -/

structure Conditioning (m : Machine) (parts : List Part) : Prop where
  state : m.state = .valueDoubleQuoted
  data : m.data = []
  tag : m.tag = some { name := some "if".toList }
  attributeName : m.attributeName = some "cond".toList
  attributeValue : m.attributeValue = some parts

theorem quiet_condition (hstate : m.state = .tagOpen) (hdata : m.data = []) :
    ∃ n, Quiet m "if cond=\"".toList n ∧ Conditioning n [] := by
  have hname : IsTagName "if".toList := isTagName_of_identifier (by decide) (by decide)
  obtain ⟨k, hread, hk, htag, hkdata⟩ := quiet_startName hstate hname
  have hspace : k.step ' ' = .quiet (k.goto .beforeAttributeName) := by simp [Machine.step, hk, Machine.isSpace]
  refine ⟨{ k with attributeName := some "cond".toList, attributeValue := some [], state := .valueDoubleQuoted },
    hread.append (.cons (by rw [hk]; decide) hspace ?_), rfl, hkdata.trans hdata, htag, rfl, rfl⟩
  refine .cons ?_ rfl (.cons ?_ rfl (.cons ?_ rfl (.cons ?_ rfl (.cons ?_ rfl (.cons ?_ rfl (.nil _)))))) <;> rintro ⟨⟩

theorem passOver_ok {t : Token} (ht : t.kind = .op) (hstart : t.start = b.stop)
    (hdone : b.isDone = false) : passOver t b = .ok () { b with stop := t.stop } := by
  simp [passOver, read, Token.isOp, advanceTo, bind, EStateM.bind, MonadState.get, getThe, MonadStateOf.get,
    EStateM.get, pure, EStateM.pure, modify, modifyGet, MonadStateOf.modifyGet, EStateM.modifyGet, hdone, ht,
    hstart, readText]

theorem readCode_ok (h : Shows b ⟨pending out afterIf, tags, afterIf⟩) (hm : Conditioning b.machine parts) {p : Pos}
    (hp : b.stop = p.step '\x7b') (code : Text) :
    ∃ c, readCode (codeTokens p code) b = .ok () c ∧ Shows c ⟨settled out afterIf, tags, false⟩ ∧
      Conditioning c.machine (parts ++ [.code (codeTokens p code)]) := by
  obtain ⟨c, hclose, hshows, hmachine, hstop⟩ := does_closeIf out tags afterIf b h
  rw [← hmachine] at hm
  have hrow : c.stop.row = (p.step '\x7b').row := by rw [hstop, hp]
  have hin : c.machine.inValue = true := by simp [Machine.inValue, hm.state]
  have hcode : c.machine.readCode (codeTokens p code) =
      .ok { c.machine with attributeValue := some (parts ++ [.code (codeTokens p code)]) } := by
    simp [Machine.readCode, hin, hm.state, hm.attributeValue]
  refine ⟨{ c with
    stop := ((p.step '\x7b').advance code).step '\x7d',
    machine := { c.machine with attributeValue := some (parts ++ [.code (codeTokens p code)]) } }, ?_,
    hshows.move _ _, hm.state, hm.data, hm.tag, hm.attributeName, rfl⟩
  refine (bind_ok hclose).trans ?_
  simp only [codeTokens, List.head?_cons, List.getLast?_cons_cons, List.getLast?_singleton] at hcode ⊢
  simp [advanceTo, bind, EStateM.bind, MonadState.get, getThe, MonadStateOf.get, EStateM.get, pure, EStateM.pure,
    modify, modifyGet, MonadStateOf.modifyGet, EStateM.modifyGet, hrow, hm.state, hin, hcode]

theorem feedCode_ok (h : Shows b ⟨pending out afterIf, tags, afterIf⟩) (hm : Conditioning b.machine parts)
    (code : Text) : ∃ p c, feedCode code b = .ok () c ∧ Shows c ⟨settled out afterIf, tags, false⟩ ∧
      Conditioning c.machine (parts ++ [.code (codeTokens p code)]) := by
  have hdone : b.isDone = false := not_done_of_state (by rw [hm.state]; decide)
  have hpass := passOver_ok (t := ⟨.op, ['\x7b'], b.stop, b.stop.step '\x7b', []⟩) rfl rfl hdone
  obtain ⟨c, hc, hdone⟩ := readCode_ok (h.move (b.stop.step '\x7b') b.machine) hm rfl code
  exact ⟨b.stop, c, (bind_ok hpass).trans hc, hdone⟩

theorem reads_conditionEnd {tokens : List Token} (h : Shows b v) (hm : Conditioning b.machine [.code tokens])
    (hbegin : Does (beginElement "if".toList (condition tokens) true) v w) :
    ∃ c, Reads ['"', '>'] b c ∧ Ready c w [] := by
  have hquote : b.machine.step '"' = .quiet (b.machine.goto .afterAttributeValue) := by simp [Machine.step, hm.state]
  have hin : InTag (b.machine.goto .afterAttributeValue)
      { name := some "if".toList, attributes := [⟨b.machine.attributeName, b.machine.attributeValue⟩] } :=
    .afterValue (.inl rfl) _ hm.tag (by simp) rfl
  rw [hm.attributeName, hm.attributeValue] at hin
  obtain ⟨n, hstep, hn⟩ := hin.step_close rfl
  obtain ⟨p, hread⟩ := (Quiet.one (by simp [hm.state]) hquote).reads (b := b) rfl
  obtain ⟨c, hclose, hready⟩ := reads_tagClose (h.move p _) hstep (hn.trans hm.data) hbegin
  exact ⟨c, hread.cons hclose, hready⟩

def feedIf (code : Text) : Build Unit := do
  feedText "<if cond=\"".toList
  feedCode code
  feedText ['"', '>']

theorem plain_codeTokens (p : Pos) (code : Text) : Layout.plain (codeTokens p code) = .ok (code ++ [' ']) := by
  have hstep (q : Pos) : q.step '\x7d' = ⟨q.row, q.col + 1⟩ := rfl
  simp [Layout.plain, codeTokens, Layout.text, Layout.origin, Layout.after, Layout.gap, Kind.isLineEnd, hstep,
    Text.copies, Except.map]

theorem feeds_if {code : Text}
    (hu : u.IsOpen) (hdata : Does (writeData d) u ⟨pending out afterIf, tags, afterIf⟩) {b : Builder}
    (hb : Ready b u d) : ∃ p c, feedIf code b = .ok () c ∧ Ready c ⟨settled out afterIf ++ [fragmentPiece],
        { tag := "if".toList, row := 0, attributes := condition (codeTokens p code),
          opening := some (settled out afterIf).length } :: bump tags, false⟩ [] := by
  obtain ⟨b₁, hopen, hshows, hstate, hempty⟩ := reads_tagOpen hb hu hdata
  obtain ⟨n, hquiet, hn⟩ := quiet_condition hstate hempty
  obtain ⟨q, hcond⟩ := hquiet.reads rfl
  obtain ⟨q', r, hfirst⟩ := feedText_ok (s := "<if cond=\"".toList) (hopen.cons hcond)
  obtain ⟨p, b₂, hcode, hshows₂, hcoded⟩ := feedCode_ok ((hshows.move q n).rest q' r) hn code
  obtain ⟨b₃, hend, hready⟩ := reads_conditionEnd hshows₂ hcoded
    (does_beginIf (plain_codeTokens p code) (settled out afterIf) tags false)
  obtain ⟨q'', r', hlast⟩ := feedText_ok hend
  exact ⟨p, _, (bind_ok hfirst).trans ((bind_ok hcode).trans hlast), hready.rest q'' r'⟩

end InlineMarkup.Markup.Builder

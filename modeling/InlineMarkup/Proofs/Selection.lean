import InlineMarkup.Proofs.Sessions
import InlineMarkup.Proofs.Shifts

/-!
Selecting children. A selector by class or by tag only reads the document; one by identifier draws an
identifier for each child that it asks and that has none. A selector by class finds its text anywhere in the
classes of a child, so it means a child as soon as one of the words has that text in it.
-/
open List

namespace InlineMarkup.Element

namespace Act

variable {shown : Showing} {d : Document}

/-! ### Reading selectors -/

theorem quiet_isSelected {selector : Text} (h : selector.head? ≠ some '#') (child : Value) :
    (isSelected shown selector child).Quiet := by
  unfold isSelected
  split
  · exact (quiet_asElement child).bind fun i => (quiet_attributeOf i _ _).bind fun v =>
      quiet_get.bind fun _ => quiet_isFoundIn _ _
  · exact absurd rfl h
  · split
    · exact (quiet_node _).bind fun _ => quiet_pure _
    · exact quiet_pure _

theorem quiet_select (id : Nat) {selector : Option Text} (h : ∀ word, selector ≠ some ('#' :: word)) (exclude : Bool) :
    (select shown id selector exclude).Quiet := by
  refine (quiet_node id).bind fun n => ?_
  split
  · exact quiet_pure _
  · exact quiet_pure _
  · rename_i s _
    have hs : s.head? ≠ some '#' := fun hhead => by
      obtain ⟨word, rfl⟩ := head?_eq_some_iff.1 hhead
      exact h word rfl
    have hfrom (vs : List Value) : (selectFrom shown s exclude vs).Quiet := by
      induction vs with
      | nil => exact quiet_pure []
      | cons v vs ih => exact (quiet_isSelected hs v).bind fun _ => ih.bind fun _ => quiet_pure _
    exact (hfrom _).bind fun _ => quiet_pure _

/-! ### Identifiers that are drawn -/

/-- The identifier that the element has counts as true. -/
def HasIdentifier (d : Document) (v : Value) : Prop :=
  ∀ j, v = .element j → ∃ m w, d.nodes[j]? = some m ∧ m.attribute "id".toList .none = .ok w ∧ (d.opened w).isTrue = true

theorem attributeOf_run {j : Nat} {m : Node} {name : Text} {default w : Value} (hm : d.nodes[j]? = some m)
    (h : m.attribute name default = .ok w) : (attributeOf j name default).run d = .ok w d := by
  unfold attributeOf
  rw [run_bind (node_run hm), h]
  rfl

theorem attributeOf_of_ok {j : Nat} {name : Text} {default w : Value} {e : Document}
    (h : (attributeOf j name default).run d = .ok w e) :
    ∃ m, d.nodes[j]? = some m ∧ m.attribute name default = .ok w ∧ e = d := by
  rcases (quiet_node j).run d with ⟨m, hm⟩ | ⟨fault, hfault⟩
  · obtain ⟨hnode, -⟩ := node_of_ok hm
    unfold attributeOf at h
    rw [run_bind hm] at h
    refine ⟨m, hnode, ?_⟩
    cases hw : m.attribute name default with
    | ok v =>
      rw [hw] at h
      cases h
      exact ⟨rfl, rfl⟩
    | error fault =>
      rw [hw] at h
      cases h
  · cases (run_bind_error hfault).symm.trans h

theorem identifier_run {j : Nat} (h : HasIdentifier d (.element j)) : ∃ w, (identifier shown j).run d = .ok w d := by
  obtain ⟨m, w, hm, hw, htrue⟩ := h j rfl
  refine ⟨w, ?_⟩
  unfold identifier
  rw [run_bind (attributeOf_run hm hw), run_bind (rfl : (get : Act Document).run d = .ok d d), if_pos htrue]
  rfl

theorem selectFrom_left {vs : List Value} (h : ∀ v ∈ vs, HasIdentifier d v) (word : Text) (exclude : Bool) :
    (selectFrom shown ('#' :: word) exclude vs).left d = d := by
  have hhit {v : Value} (hv : HasIdentifier d v) : (isSelected shown ('#' :: word) v).left d = d := by
    cases v with
    | element j =>
      obtain ⟨w, hw⟩ := @identifier_run shown d j hv
      have hrun : (isSelected shown ('#' :: word) (.element j)).run d = .ok _ d := run_bind hw
      exact left_ok hrun
    | _ => rfl
  induction vs with
  | nil => rfl
  | cons v vs ih =>
    obtain ⟨hv, hvs⟩ := forall_mem_cons.1 h
    refine (left_bind (R := Eq) (hhit hv).symm fun hit e he => ?_).symm
    obtain rfl : e = d := (left_ok he).symm.trans (hhit hv)
    exact left_bind (R := Eq) (ih hvs).symm fun more f _ => rfl

/-- Elements keep all but their identifiers, and those that were asked may be given one if they had none that
is a text with something in it. -/
def Marks (asked : List Value) (d e : Document) : Prop :=
  ∀ j m, d.nodes[j]? = some m → ∃ m', e.nodes[j]? = some m' ∧ m'.kind = m.kind ∧ m'.children = m.children ∧
    m'.content? = m.content? ∧ (∀ other, other ≠ "id".toList → m'.attributes.lookup other = m.attributes.lookup other) ∧
    (m'.attributes = m.attributes ∨
      .element j ∈ asked ∧ ∀ s, m.attribute "id".toList .none = .ok (.text s) → s = [])

instance (asked : List Value) : IsPreorder Document (Marks asked) where
  refl _ _ m hm := ⟨m, hm, rfl, rfl, rfl, fun _ _ => rfl, .inl rfl⟩
  trans d e f h h' j m hm := by
    obtain ⟨m₁, hm₁, hkind, hchildren, hcontent, hlookup, hid⟩ := h j m hm
    obtain ⟨m₂, hm₂, hkind', hchildren', hcontent', hlookup', hid'⟩ := h' j m₁ hm₁
    refine ⟨m₂, hm₂, hkind'.trans hkind, hchildren'.trans hchildren, hcontent'.trans hcontent,
      fun other ho => (hlookup' other ho).trans (hlookup other ho), ?_⟩
    rcases hid with hsame | hasked
    · rcases hid' with hsame' | ⟨hmem, htext⟩
      · exact .inl (hsame'.trans hsame)
      · refine .inr ⟨hmem, fun s hs => htext s ?_⟩
        rw [← hs]
        unfold Node.attribute
        rw [hkind, hsame]
    · exact .inr hasked

theorem marks_identifier (draw : Drawing) {asked : List Value} {j : Nat} (hj : .element j ∈ asked) :
    (identifier draw.shown j).Goes (Marks asked) := by
  intro d
  refine left_bind ((quiet_attributeOf j _ _).goes d) fun v e hv => ?_
  obtain ⟨m, hm, hattribute, rfl⟩ := attributeOf_of_ok hv
  refine left_bind (goes_get e) fun f g hg => ?_
  cases hg
  split
  · exact goes_pure v e
  · rename_i hfalse
    have htext : ∀ s, m.attribute "id".toList .none = .ok (.text s) → s = [] := by
      intro s hs
      cases hattribute.symm.trans hs
      simpa [Document.opened, Value.isTrue] using hfalse
    -- drawing a number changes no element
    have hdrawn : Marks asked e { e with identifiers := e.identifiers + 1 } := fun k n hn =>
      ⟨n, hn, rfl, rfl, rfl, fun _ _ => rfl, .inl rfl⟩
    refine left_bind hdrawn fun _ g hg => ?_
    cases hg
    refine left_bind (goes_get _) fun f g hg => ?_
    cases hg
    refine left_bind ?_ fun _ g _ => goes_pure _ g
    obtain ⟨mid, hmid, hrun⟩ := setAttribute_only draw
      (d := { e with identifiers := e.identifiers + 1 }) hm "id".toList
      (.text ("pyxl".toList ++ Text.ofNat (e.identifiers + 1)))
    obtain rfl : mid = { e with identifiers := e.identifiers + 1 } := by
      rcases hmid with h | ⟨⟨i, hi⟩, -⟩
      · exact h
      · cases hi
    rcases hrun with ⟨fault, hfault⟩ | ⟨g, hg, honly⟩
    · rw [left_error hfault]
      exact refl_of (Marks asked) _
    · rw [left_ok hg]
      intro k n hn
      by_cases hk : k = j
      · subst hk
        obtain ⟨m', hm', hkind, hchildren, hcontent, hlookup⟩ := honly.element n hn
        obtain rfl : m = n := Option.some_inj.1 (hm.symm.trans hn)
        exact ⟨m', hm', hkind, hchildren, hcontent, hlookup, .inr ⟨hj, htext⟩⟩
      · exact ⟨n, (honly.others k hk).trans hn, rfl, rfl, rfl, fun _ _ => rfl, .inl rfl⟩

theorem marks_selectFrom (draw : Drawing) (asked : List Value) (word : Text) (exclude : Bool) {vs : List Value}
    (hvs : ∀ v ∈ vs, v ∈ asked) : (selectFrom draw.shown ('#' :: word) exclude vs).Goes (Marks asked) := by
  induction vs with
  | nil => exact goes_pure []
  | cons v vs ih =>
    obtain ⟨hv, hrest⟩ := forall_mem_cons.1 hvs
    refine Goes.bind ?_ fun _ => (ih hrest).thenPure
    cases v with
    | element j => exact (marks_identifier draw hv).bind fun _ => goes_get.thenPure
    | _ => exact goes_throw _

theorem childrenOf_eq {id : Nat} {n : Node} (h : d.nodes[id]? = some n) : d.childrenOf id = n.children := by
  rw [Document.childrenOf, h]
  rfl

/-- Selecting children changes nothing if the selector is not by identifier, or if the children that are
elements have identifiers already. Otherwise it gives identifiers to children that have none, and all else of
every element is as it was. -/
theorem selecting_draws_only_identifiers (draw : Drawing) (d : Document) (id : Nat) (selector : Option Text)
    (exclude : Bool) :
    ((∀ word, selector ≠ some ('#' :: word)) → (select draw.shown id selector exclude).left d = d) ∧
    ((∀ v ∈ d.childrenOf id, HasIdentifier d v) → (select draw.shown id selector exclude).left d = d) ∧
    Marks (d.childrenOf id) d ((select draw.shown id selector exclude).left d) := by
  by_cases hselector : ∀ word, selector ≠ some ('#' :: word)
  · have hquiet : (select draw.shown id selector exclude).Quiet := quiet_select id hselector exclude
    exact ⟨fun _ => hquiet d, fun _ => hquiet d, hquiet.goes d⟩
  · simp only [not_forall, not_not] at hselector
    obtain ⟨word, rfl⟩ := hselector
    refine ⟨fun h => absurd rfl (h word), fun h => ?_, ?_⟩
    · refine (left_bind (R := Eq) ((quiet_node id) d).symm fun n e hn => ?_).symm
      obtain ⟨hnode, rfl⟩ := node_of_ok hn
      exact left_bind (R := Eq) (selectFrom_left (childrenOf_eq hnode ▸ h) word exclude).symm fun _ _ _ => rfl
    · refine left_bind (goes_node id d) fun n e hn => ?_
      obtain ⟨hnode, rfl⟩ := node_of_ok hn
      rw [childrenOf_eq hnode]
      exact (marks_selectFrom draw n.children word exclude fun _ h => h).thenPure e

def nameless : Document :=
  { nodes := #[{ kind := htmlClass "div", children := [.element 1] }, { kind := htmlClass "p" }] }

theorem nameless_marked : ∃ e, (select (Drawing.ofDepth 3).shown 0 (some ['#', 'x']) false).run nameless =
      .ok (.list []) e ∧
    ((Drawing.ofDepth 3).shown (.element 0)).run nameless = .ok "<div><p></p></div>".toList nameless ∧
    ((Drawing.ofDepth 3).shown (.element 0)).run e = .ok "<div><p id=\"pyxl1\"></p></div>".toList e :=
  ⟨_, rfl, rfl, rfl⟩

end Act

end InlineMarkup.Element

/-! ### Words of classes -/

namespace InlineMarkup.Text

theorem splitAt_cons_of_ne {c x : Char} (hx : x ≠ c) (s : Text) :
    ∃ part more, splitAt c s = part :: more ∧ splitAt c (x :: s) = (x :: part) :: more := by
  rw [splitAt, if_neg hx]
  cases hs : splitAt c s with
  | nil => exact absurd (splitAt_eq c s ▸ hs) (splitOn_ne_nil c s)
  | cons part more => exact ⟨part, more, rfl, rfl⟩

theorem splitAt_append (c : Char) (s t : Text) : splitAt c (s ++ c :: t) = splitAt c s ++ splitAt c t := by
  induction s with
  | nil => simp [splitAt]
  | cons x s ih =>
    by_cases hx : x = c
    · simp [splitAt, hx, ih]
    · obtain ⟨part, more, hs, hcons⟩ := splitAt_cons_of_ne hx s
      obtain ⟨part', more', hs', hcons'⟩ := splitAt_cons_of_ne hx (s ++ c :: t)
      rw [ih, hs, cons_append, List.cons.injEq] at hs'
      rw [cons_append, hcons', hcons, ← hs'.1, ← hs'.2]
      rfl

theorem splitAt_of_notMem {c : Char} {s : Text} (h : c ∉ s) : splitAt c s = [s] := by
  induction s with
  | nil => rfl
  | cons x s ih =>
    obtain ⟨hx, hs⟩ := not_or.1 (mem_cons.not.1 h)
    rw [splitAt, if_neg (Ne.symm hx), ih hs]

theorem occurs_nil (s : Text) : occurs [] s = true := by
  cases s <;> rfl

theorem occurs_self (s : Text) : occurs s s = true := by
  cases s with
  | nil => rfl
  | cons c s => simp [occurs]

theorem occurs_eq_any {c : Text} (hc : ' ' ∉ c) (s : Text) : occurs c s = (splitAt ' ' s).any (occurs c) := by
  -- a text without spaces that begins what is left begins its first word
  have hprefix (s : Text) : c.isPrefixOf s = c.isPrefixOf ((splitAt ' ' s).headD []) := by
    induction c generalizing s with
    | nil => rfl
    | cons a c ih =>
      obtain ⟨ha, hc⟩ := not_or.1 (mem_cons.not.1 hc)
      cases s with
      | nil => rfl
      | cons x s =>
        by_cases hx : x = ' '
        · have hax : (a == x) = false := beq_eq_false_iff_ne.2 (hx ▸ Ne.symm ha)
          simp [splitAt, hx, List.isPrefixOf, hx ▸ hax]
        · obtain ⟨part, more, hs, hcons⟩ := splitAt_cons_of_ne hx s
          have hrest := ih hc s
          rw [hs] at hrest
          rw [hcons, headD_cons, List.isPrefixOf, List.isPrefixOf, hrest]
          rfl
  induction s with
  | nil => simp [splitAt, occurs]
  | cons x s ih =>
    rw [occurs, hprefix, ih]
    by_cases hx : x = ' '
    · simp only [splitAt, hx, if_true, headD_cons, any_cons, occurs]
      cases c <;> rfl
    · obtain ⟨part, more, hs, hcons⟩ := splitAt_cons_of_ne hx s
      rw [hcons, hs, headD_cons, any_cons, any_cons, occurs, Bool.or_assoc]

end InlineMarkup.Text

namespace InlineMarkup.Element

/-- The text of the class attribute, if that is a text. -/
def Node.classText? (m : Node) : Option Text :=
  match m.attribute "class".toList (.text []) with
  | .ok (.text s) => some s
  | _ => none

def classText? (d : Document) : Value → Option Text
  | .element j => d.nodes[j]?.bind Node.classText?
  | _ => none

def classWords (d : Document) (v : Value) : List Text := Text.splitAt ' ' ((classText? d v).getD [])

theorem Node.classText?_eq_some {m : Node} {s : Text} (h : m.classText? = some s) :
    m.attribute "class".toList (.text []) = .ok (.text s) := by
  unfold classText? at h
  split at h
  · rename_i heq
    cases h
    exact heq
  · cases h

theorem Node.stored_class {m : Node} {s : Text} (hdomain : m.kind.domain "class".toList = .text)
    (h : m.classText? = some s) : m.kind.allows "class".toList = true ∧
      (m.attributes.lookup "class".toList = some (.text s) ∨ m.attributes.lookup "class".toList = none ∧ s = []) := by
  have hs := Node.classText?_eq_some h
  unfold Node.attribute at hs
  split at hs
  · rename_i hallows
    refine ⟨hallows, ?_⟩
    split at hs
    · rename_i v hv
      cases hs
      exact .inl hv
    · rename_i hnone
      rw [hdomain] at hs
      cases hs
      exact .inr ⟨hnone, rfl⟩
  · cases hs

theorem Node.classText?_put {m : Node} (hallows : m.kind.allows "class".toList = true) (s : Text) :
    (m.put "class".toList (.text s)).classText? = some s := by
  have hlookup := lookup_putAttribute m.attributes "class".toList "class".toList (.text s)
  rw [if_pos rfl] at hlookup
  unfold Node.classText? Node.attribute Node.put
  rw [if_pos hallows, hlookup]

namespace Act

variable {shown : Showing} {d : Document}

theorem selectFrom_class {c : Text} (hc : ' ' ∉ c) (exclude : Bool) {vs : List Value}
    (hvs : ∀ v ∈ vs, (classText? d v).isSome = true) : (selectFrom shown ('.' :: c) exclude vs).run d =
      .ok (vs.filter fun v => (classWords d v).any (Text.occurs c) != exclude) d := by
  induction vs with
  | nil => rfl
  | cons v vs ih =>
    obtain ⟨hv, hrest⟩ := forall_mem_cons.1 hvs
    obtain ⟨s, hs⟩ := Option.isSome_iff_exists.1 hv
    have hhit : (isSelected shown ('.' :: c) v).run d = .ok ((classWords d v).any (Text.occurs c)) d := by
      rw [classWords, hs, Option.getD_some, ← Text.occurs_eq_any hc]
      cases v with
      | element j =>
        obtain ⟨m, hm, hs⟩ := Option.bind_eq_some_iff.1 hs
        exact run_bind (attributeOf_run hm (Node.classText?_eq_some hs))
      | _ => cases hs
    unfold selectFrom
    rw [run_bind hhit, run_bind (ih hrest), filter_cons]
    rfl

/-- The words of a text that are not empty. -/
def wordsIn (s : Text) : List Text := (Text.splitAt ' ' s).filter fun w => !w.isEmpty

theorem setAttribute_held {j : Nat} {m : Node} {name : Text} (hm : d.nodes[j]? = some m)
    (hallows : m.kind.allows name = true) (hdomain : m.kind.domain name = .text) (s : Text) :
    (setAttribute shown j name (.text s)).run d = .ok () (d.setting j name (.text s)) ∧
      (d.setting j name (.text s)).nodes[j]? = some (m.put name (.text s)) := by
  constructor
  · have hadmitted : (admitted shown m name (.text s)).run d = .ok (.text s) d := by
      unfold admitted
      rw [hdomain]
      rfl
    unfold setAttribute
    rw [run_bind (node_run hm), if_pos hallows]
    exact run_bind hadmitted
  · rw [Document.nodes_setting, hm]
    simp

theorem addClass_run {j : Nat} {m : Node} {s : Text} (hm : d.nodes[j]? = some m)
    (hdomain : m.kind.domain "class".toList = .text) (hs : m.classText? = some s) (t : Text) :
    ∃ e m' s', (addClass shown j (.text t)).run d = .ok () e ∧ e.nodes[j]? = some m' ∧ m'.kind = m.kind ∧
      m'.classText? = some s' ∧ wordsIn s' = wordsIn s ++ wordsIn t := by
  obtain ⟨hallows, hstored⟩ := Node.stored_class hdomain hs
  have hempty : wordsIn [] = [] := rfl
  -- whatever text is made of the two is then stored
  have hset (joined : Text) (hwords : wordsIn joined = wordsIn s ++ wordsIn t) : ∃ e m' s',
      (setAttribute shown j "class".toList (.text joined)).run d = .ok () e ∧ e.nodes[j]? = some m' ∧
        m'.kind = m.kind ∧ m'.classText? = some s' ∧ wordsIn s' = wordsIn s ++ wordsIn t := by
    obtain ⟨hrun, hnode⟩ := @setAttribute_held shown d j m "class".toList hm hallows hdomain joined
    exact ⟨_, _, joined, hrun, hnode, rfl, Node.classText?_put hallows joined, hwords⟩
  unfold addClass
  rw [run_bind (rfl : (get : Act Document).run d = .ok d d)]
  cases t with
  | nil => exact ⟨d, m, s, rfl, hm, rfl, hs, by rw [hempty, append_nil]⟩
  | cons x t =>
    have htrue : (d.opened (.text (x :: t))).isTrue = true := rfl
    rw [if_pos htrue]
    have hattribute (v : Value) (hv : m.attributes.lookup "class".toList = some v ∨
        m.attributes.lookup "class".toList = none ∧ v = .none) :
        (attributeOf j "class".toList .none).run d = .ok v d := by
      refine attributeOf_run hm ?_
      unfold Node.attribute
      rw [if_pos hallows, hdomain]
      rcases hv with hv | ⟨hv, rfl⟩ <;> rw [hv]
    rcases hstored with hstored | ⟨hstored, rfl⟩
    · rw [run_bind (hattribute _ (.inl hstored)), run_bind (rfl : (get : Act Document).run d = .ok d d)]
      cases s with
      | nil => exact hset (x :: t) rfl
      | cons y s =>
        refine hset (y :: s ++ ' ' :: x :: t) ?_
        rw [wordsIn, Text.splitAt_append, filter_append]
        rfl
    · rw [run_bind (hattribute _ (.inr ⟨hstored, rfl⟩)), run_bind (rfl : (get : Act Document).run d = .ok d d)]
      exact hset (x :: t) rfl

theorem addClasses_run {j : Nat} {m : Node} {s : Text} (hm : d.nodes[j]? = some m)
    (hdomain : m.kind.domain "class".toList = .text) (hs : m.classText? = some s) (ts : List Text) :
    ∃ e m' s', (ts.forM fun t => addClass shown j (.text t)).run d = .ok () e ∧ e.nodes[j]? = some m' ∧
      m'.classText? = some s' ∧ wordsIn s' = wordsIn s ++ ts.flatMap wordsIn := by
  induction ts generalizing d m s with
  | nil => exact ⟨d, m, s, rfl, hm, hs, by simp⟩
  | cons t ts ih =>
    obtain ⟨e, m', s', hrun, hm', hkind, hs', hwords⟩ := @addClass_run shown d j m s hm hdomain hs t
    obtain ⟨f, m'', s'', hrest, hm'', hs'', hmore⟩ := ih hm' (hkind ▸ hdomain) hs'
    refine ⟨f, m'', s'', (run_bind hrun).trans hrest, hm'', hs'', ?_⟩
    rw [hmore, hwords, flatMap_cons, append_assoc]

theorem occurs_of_added {c s : Text} (hc : ' ' ∉ c) {front : List Text} {ts : List Text}
    (hwords : wordsIn s = front ++ ts.flatMap wordsIn) (hadded : c ∈ ts) :
    (Text.splitAt ' ' s).any (Text.occurs c) = true := by
  rw [← Text.occurs_eq_any hc]
  cases c with
  | nil => exact Text.occurs_nil s
  | cons x c =>
    have hself := Text.splitAt_of_notMem hc
    have hmem : x :: c ∈ wordsIn s := by
      rw [hwords]
      exact mem_append_right _ (mem_flatMap.2 ⟨_, hadded, by rw [wordsIn, hself]; simp⟩)
    rw [Text.occurs_eq_any hc]
    exact any_eq_true.2 ⟨_, mem_of_mem_filter hmem, Text.occurs_self _⟩

/-- A selector by class means exactly the children with a word in their classes that has the selector's text in
it, and all others where it excludes. So it means the children that have the text as a word, if no longer word has
it in it. The words of an element are those it had and those that were added, so an element to which the text was
added is meant. -/
theorem selected_by_part_of_word (shown : Showing) {d : Document} {id : Nat} {n : Node} (hn : d.nodes[id]? = some n)
    {c : Text} (hc : ' ' ∉ c) (htexts : ∀ v ∈ n.children, (classText? d v).isSome = true) :
    (∀ exclude, (select shown id (some ('.' :: c)) exclude).run d =
      .ok (.list (n.children.filter fun v => (classWords d v).any (Text.occurs c) != exclude)) d) ∧
    ((∀ v ∈ n.children, ∀ w ∈ classWords d v, Text.occurs c w = true → w = c) → ∀ exclude,
      (select shown id (some ('.' :: c)) exclude).run d =
        .ok (.list (n.children.filter fun v => (classWords d v).contains c != exclude)) d) ∧
    ∀ j m s (ts : List Text), d.nodes[j]? = some m → m.kind.domain "class".toList = .text → m.classText? = some s →
      ∃ e s', (ts.forM fun t => addClass shown j (.text t)).run d = .ok () e ∧ classText? e (.element j) = some s' ∧
        wordsIn s' = wordsIn s ++ ts.flatMap wordsIn ∧
        (c ∈ ts → (classWords e (.element j)).any (Text.occurs c) = true) := by
  have hselect (exclude : Bool) : (select shown id (some ('.' :: c)) exclude).run d =
      .ok (.list (n.children.filter fun v => (classWords d v).any (Text.occurs c) != exclude)) d := by
    unfold select
    rw [run_bind (node_run hn)]
    exact run_bind (selectFrom_class hc exclude htexts)
  refine ⟨hselect, fun hwhole exclude => ?_, fun j m s ts hm hdomain hs => ?_⟩
  · rw [hselect]
    congr 2
    refine filter_congr fun v hv => ?_
    congr 1
    rw [Bool.eq_iff_iff, any_eq_true, contains_iff_mem]
    constructor
    · rintro ⟨w, hw, hoccurs⟩
      exact hwhole v hv w hw hoccurs ▸ hw
    · exact fun hmem => ⟨c, hmem, Text.occurs_self c⟩
  · obtain ⟨e, m', s', hrun, hm', hs', hwords⟩ := @addClasses_run shown d j m s hm hdomain hs ts
    have htext : classText? e (.element j) = some s' := by rw [classText?, hm', Option.bind_some, hs']
    refine ⟨e, s', hrun, htext, hwords, fun hadded => ?_⟩
    rw [classWords, htext, Option.getD_some]
    exact occurs_of_added hc hwords hadded

def classed : Document :=
  { nodes := #[{ kind := htmlClass "div", children := [.element 1, .element 2] },
      { kind := htmlClass "p", attributes := [("class".toList, .text "ab".toList)] },
      { kind := htmlClass "p", attributes := [("class".toList, .text "b c".toList)] }] }

theorem selected_by_part_of_word_classed :
    (select (Drawing.ofDepth 1).shown 0 (some ".c".toList) false).run classed = .ok (.list [.element 2]) classed := by
  have hn : classed.nodes[0]? = some { kind := htmlClass "div", children := [.element 1, .element 2] } := rfl
  have htexts : ∀ v ∈ [Value.element 1, .element 2], (classText? classed v).isSome = true := by decide +kernel
  exact (selected_by_part_of_word (Drawing.ofDepth 1).shown hn (c := ['c']) (by decide) htexts).1 false

/-- A word that has the text of the selector in it is enough. -/
theorem classed_part_selected : (select (Drawing.ofDepth 1).shown 0 (some ".b".toList) false).run classed =
      .ok (.list [.element 1, .element 2]) classed ∧ ['b'] ∉ classWords classed (.element 1) :=
  ⟨rfl, by decide +kernel⟩

end Act

end InlineMarkup.Element

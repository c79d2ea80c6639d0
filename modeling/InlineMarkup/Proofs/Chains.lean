import InlineMarkup.Proofs.Selection

/-!
Elements that stand for a content. The content of one may stand for a content itself, and so on along a chain
up to an element that does not. Main statement: the classes of all elements of the chain reach the last one,
each word once, however often the chain is followed, and nothing else changes.
-/
namespace InlineMarkup.Element

open Act List

/-! ### Words that are joined -/

theorem mem_insertWord {w word : Text} {words : List Text} :
    w ∈ Drawing.insertWord word words ↔ w = word ∨ w ∈ words := by
  induction words with
  | nil => simp [Drawing.insertWord]
  | cons other rest ih =>
    unfold Drawing.insertWord
    split_ifs with heq hlt
    · simp [heq]
    · simp
    · simp only [mem_cons, ih]
      tauto

theorem mem_wordsIn {w s : Text} : w ∈ wordsIn s ↔ w ∈ Text.splitAt ' ' s ∧ w ≠ [] := by
  simp [wordsIn]

theorem mem_wordsIn_joinWords {words : List Text} (hwords : ∀ w ∈ words, ' ' ∉ w) {w : Text} :
    w ∈ wordsIn (Drawing.joinWords words) ↔ w ∈ words ∧ w ≠ [] := by
  have hmem (u : Text) (ws : List Text) : u ∈ ws.foldr Drawing.insertWord [] ↔ u ∈ ws := by
    induction ws with
    | nil => simp
    | cons v ws ih => rw [foldr_cons, mem_insertWord, ih, mem_cons]
  unfold Drawing.joinWords
  generalize hjoined : (words.filter fun w => !w.isEmpty).foldr Drawing.insertWord [] = joined
  have hjoin (u : Text) : u ∈ joined ↔ u ∈ words ∧ u ≠ [] := by
    rw [← hjoined, hmem]
    simp
  rw [mem_wordsIn, ← hjoin]
  cases joined with
  | nil =>
    have hempty : Text.splitAt ' ' (Text.join [' '] []) = [[]] := rfl
    simp [hempty]
  | cons v ws =>
    have hsplit : Text.splitAt ' ' (Text.join [' '] (v :: ws)) = v :: ws := by
      rw [Text.splitAt_eq]
      exact splitOn_intercalate ' ' (fun u hu => hwords u ((hjoin u).1 hu).1) (by simp)
    rw [hsplit]
    exact ⟨fun h => h.1, fun h => ⟨h, ((hjoin w).1 h).2⟩⟩

theorem OnlyAttribute.refl (id : Nat) (name : Text) (d : Document) : OnlyAttribute id name d d :=
  ⟨fun _ _ => rfl, fun n hn => ⟨n, hn, rfl, rfl, rfl, fun _ _ => rfl⟩⟩

theorem OnlyAttribute.trans {id : Nat} {name : Text} {d e f : Document} (h : OnlyAttribute id name d e)
    (h' : OnlyAttribute id name e f) :
    OnlyAttribute id name d f := by
  refine ⟨fun j hj => (h'.others j hj).trans (h.others j hj), fun n hn => ?_⟩
  obtain ⟨m, hm, hkind, hchildren, hcontent, hlookup⟩ := h.element n hn
  obtain ⟨k, hk, hkind', hchildren', hcontent', hlookup'⟩ := h'.element m hm
  exact ⟨k, hk, hkind'.trans hkind, hchildren'.trans hchildren, hcontent'.trans hcontent,
    fun other ho => (hlookup' other ho).trans (hlookup other ho)⟩

/-! ### Contents -/

namespace Drawing

variable {draw : Drawing} {d e f : Document} {id b : Nat}

def EndsIn {α : Type} (last x : Act α) : Prop := ∀ d v e, x.run d = .ok v e → ∃ mid, last.run mid = .ok v e

variable {v : Value} {n m : Node} {s w t : Text} {limit : Nat}

theorem EndsIn.bind {α β : Type} {last : Act β} {x : Act α} {f : α → Act β} (h : ∀ a, EndsIn last (f a)) :
    EndsIn last (x >>= f) := by
  intro d v e hrun
  cases hx : x.run d with
  | ok a mid =>
    rw [run_bind hx] at hrun
    exact h a mid v e hrun
  | error fault mid =>
    rw [run_bind_error hx] at hrun
    cases hrun

theorem content_of_contentOf (h : (draw.contentOf id).run d = .ok v e) :
    ∃ m, e.nodes[id]? = some m ∧ m.content = v := by
  have hlast : EndsIn (do return (← node id).content) (draw.contentOf id) := by
    have hself : EndsIn (do return (← node id).content : Act Value) (do return (← node id).content) :=
      fun d _ _ h => ⟨d, h⟩
    have hrendered (n : Node) : EndsIn (do return (← node id).content) (draw.rendered id n) := by
      unfold rendered finished
      split
      · refine .bind fun _ => .bind fun _ => .bind fun _ => ?_
        dsimp only
        split
        · exact .bind fun _ => .bind fun _ => .bind fun _ => hself
        · exact hself
      · nofun
    rw [contentOf_eq]
    refine .bind fun n => ?_
    split
    · split
      · exact .bind fun _ => .bind fun _ => hrendered n
      · exact hrendered n
    · exact hself
  obtain ⟨mid, hmid⟩ := hlast d v e h
  rcases (quiet_node id).run mid with ⟨m, hm⟩ | ⟨fault, hfault⟩
  · rw [run_bind hm] at hmid
    cases hmid
    exact ⟨m, (node_of_ok hm).1, rfl⟩
  · cases (run_bind_error hfault).symm.trans hmid

theorem contentOf_made (hn : d.nodes[id]? = some n) (hcontent : n.content? = some v)
    (hv : v.isNone = false) : (draw.contentOf id).run d = .ok v d := by
  have hmade : n.content = v := by rw [Node.content, hcontent, Option.getD_some]
  rw [contentOf_eq, run_bind (node_run hn), if_neg (by rw [hmade, hv]; simp), run_bind (node_run hn), hmade]
  rfl

/-! ### Chains -/

/-- `Chain draw d id chain b f`: from the document `d` on the element `id` is made into a content, that into its
own, and so on up to the element `b`, which stands for no content. The chain has the elements on the way, each
with the text of its class when it has been made, and `f` is left then. An element that has been made stays as it
is while the others are. -/
inductive Chain (draw : Drawing) : Document → Nat → List (Nat × Text) → Nat → Document → Prop where
  | last {d e : Document} {id b : Nat} {n m : Node} {s : Text} (hn : d.nodes[id]? = some n)
      (hcomponent : n.kind.isComponent = true) (hcontent : (draw.contentOf id).run d = .ok (.element b) e)
      (hs : classText? e (.element id) = some s) (hm : e.nodes[b]? = some m) (hb : m.kind.isComponent = false) :
      Chain draw d id [(id, s)] b e
  | next {d e f : Document} {id j b : Nat} {n : Node} {s : Text} {rest : List (Nat × Text)} (hn : d.nodes[id]? = some n)
      (hcomponent : n.kind.isComponent = true) (hcontent : (draw.contentOf id).run d = .ok (.element j) e)
      (hs : classText? e (.element id) = some s) (hrest : Chain draw e j rest b f)
      (hkept : f.nodes[id]? = e.nodes[id]?) : Chain draw d id ((id, s) :: rest) b f

/-- A chain all of whose contents have been made. -/
inductive Linked (d : Document) : Nat → List (Nat × Text) → Nat → Prop where
  | last {id b : Nat} {n m : Node} {s : Text} (hn : d.nodes[id]? = some n) (hcomponent : n.kind.isComponent = true)
      (hcontent : n.content? = some (.element b)) (hs : n.classText? = some s) (hm : d.nodes[b]? = some m)
      (hb : m.kind.isComponent = false) : Linked d id [(id, s)] b
  | next {id j b : Nat} {n : Node} {s : Text} {rest : List (Nat × Text)} (hn : d.nodes[id]? = some n)
      (hcomponent : n.kind.isComponent = true) (hcontent : n.content? = some (.element j)) (hs : n.classText? = some s)
      (hrest : Linked d j rest b) : Linked d id ((id, s) :: rest) b

variable {links : List (Nat × Text)}

theorem Goes.made (hdraw : draw.Goes) {n : Node} {j : Nat} {s : Text} (hn : d.nodes[id]? = some n)
    (hcomponent : n.kind.isComponent = true) (hcontent : (draw.contentOf id).run d = .ok (.element j) e)
    (hs : classText? e (.element id) = some s) : ∃ m, e.nodes[id]? = some m ∧ m.kind.isComponent = true ∧
      m.content? = some (.element j) ∧ m.classText? = some s := by
  have hfollows := hdraw.contentOf id d
  rw [left_ok hcontent] at hfollows
  obtain ⟨m, hm, hmade⟩ := content_of_contentOf hcontent
  obtain ⟨m', hm', hkind⟩ := hfollows.kinds hn
  obtain rfl : m' = m := Option.some_inj.1 (hm'.symm.trans hm)
  rw [classText?, hm, Option.bind_some] at hs
  refine ⟨m', hm, hkind ▸ hcomponent, ?_, hs⟩
  cases hsome : m'.content? with
  | none =>
    rw [Node.content, hsome] at hmade
    cases hmade
  | some v => rw [← hmade, Node.content, hsome, Option.getD_some]

theorem Chain.linked (hdraw : draw.Goes) (h : Chain draw d id links b f) : Linked f id links b := by
  induction h with
  | last hn hcomponent hcontent hs hm hb =>
    obtain ⟨k, hk, hkind, hmade, hclass⟩ := hdraw.made hn hcomponent hcontent hs
    exact .last hk hkind hmade hclass hm hb
  | next hn hcomponent hcontent hs _ hkept ih =>
    obtain ⟨k, hk, hkind, hmade, hclass⟩ := hdraw.made hn hcomponent hcontent hs
    exact .next (hkept.trans hk) hkind hmade hclass ih

theorem Linked.chain (draw : Drawing) (h : Linked d id links b) : Chain draw d id links b d := by
  have hclass {id : Nat} {n : Node} {s : Text} (hn : d.nodes[id]? = some n) (hs : n.classText? = some s) :
      classText? d (.element id) = some s := by rw [classText?, hn, Option.bind_some, hs]
  induction h with
  | last hn hcomponent hcontent hs hm hb =>
    exact .last hn hcomponent (contentOf_made hn hcontent rfl) (hclass hn hs) hm hb
  | next hn hcomponent hcontent hs _ ih =>
    exact .next hn hcomponent (contentOf_made hn hcontent rfl) (hclass hn hs) ih rfl

theorem Linked.from (h : Linked d id links b) : ∀ c ∈ links, ∃ rest, Linked d c.1 rest b ∧ rest <:+ links := by
  induction h with
  | last hn hcomponent hcontent hs hm hb =>
    exact forall_mem_singleton.2 ⟨_, .last hn hcomponent hcontent hs hm hb, suffix_rfl⟩
  | next hn hcomponent hcontent hs hrest ih =>
    refine forall_mem_cons.2 ⟨⟨_, .next hn hcomponent hcontent hs hrest, suffix_rfl⟩, fun c hc => ?_⟩
    obtain ⟨more, hmore, hsuffix⟩ := ih c hc
    exact ⟨more, hmore, hsuffix.trans (suffix_cons _ _)⟩

/-- The chain is as it was if only an attribute of its last element has changed. -/
theorem Linked.of_only {name : Text} (h : Linked d id links b) (honly : OnlyAttribute b name d e) :
    Linked e id links b ∧ ∀ c ∈ links, e.nodes[c.1]? = d.nodes[c.1]? := by
  -- no element of the chain is the last one, since that stands for no content
  have hother {id : Nat} {n m : Node} (hn : d.nodes[id]? = some n) (hcomponent : n.kind.isComponent = true)
      (hm : d.nodes[b]? = some m) (hb : m.kind.isComponent = false) : e.nodes[id]? = d.nodes[id]? := by
    refine honly.others id fun heq => ?_
    rw [heq, hm] at hn
    cases hn
    cases hb.symm.trans hcomponent
  have hend : ∃ m, d.nodes[b]? = some m ∧ m.kind.isComponent = false := by
    clear honly hother
    induction h with
    | last _ _ _ _ hm hb => exact ⟨_, hm, hb⟩
    | next _ _ _ _ _ ih => exact ih
  obtain ⟨m, hm, hb⟩ := hend
  induction h with
  | last hn hcomponent hcontent hs _ _ =>
    have hsame := hother hn hcomponent hm hb
    obtain ⟨m', hm', hkind, -⟩ := honly.element m hm
    exact ⟨.last (hsame.trans hn) hcomponent hcontent hs hm' (hkind ▸ hb), forall_mem_singleton.2 hsame⟩
  | next hn hcomponent hcontent hs _ ih =>
    have hsame := hother hn hcomponent hm hb
    obtain ⟨hlinked, hrest⟩ := ih honly hother hm
    exact ⟨.next (hsame.trans hn) hcomponent hcontent hs hlinked, forall_mem_cons.2 ⟨hsame, hrest⟩⟩

/-! ### Following a chain -/

def classRead (s : Text) : List Text := if s.isEmpty then [] else Text.splitAt ' ' s

theorem wordsOf_run (hs : classText? d (.element id) = some s) : (wordsOf id).run d = .ok (classRead s) d := by
  obtain ⟨n, hn, hclass⟩ := Option.bind_eq_some_iff.1 hs
  have hclasses : (Act.classes id).run d = .ok (.text s) d := attributeOf_run hn (Node.classText?_eq_some hclass)
  unfold wordsOf
  rw [run_bind (rfl : (get : Act Document).run d = .ok d d), run_bind hclasses]
  cases s <;> rfl

theorem follow_step (hn : d.nodes[id]? = some n) (hcomponent : n.kind.isComponent = true)
    (hcontent : (draw.contentOf id).run d = .ok v e) (hs : classText? e (.element id) = some s) (limit : Nat)
    (found : List Text) :
    (draw.follow (limit + 1) (.element id) found).run d = (draw.follow limit v (found ++ classRead s)).run e := by
  rw [follow, run_bind (node_run hn), if_pos hcomponent]
  exact (run_bind hcontent).trans (run_bind (wordsOf_run hs))

theorem follow_stop (hm : d.nodes[b]? = some m) (hb : m.kind.isComponent = false) (limit : Nat)
    (found : List Text) : (draw.follow limit (.element b) found).run d = .ok (.element b, found) d := by
  unfold follow
  rw [run_bind (node_run hm), hb]
  rfl

def collected (links : List (Nat × Text)) : List Text := links.flatMap fun c => classRead c.2

theorem follow_run (h : Chain draw d id links b f) (hlimit : links.length ≤ limit) (found : List Text) :
    (draw.follow limit (.element id) found).run d = .ok (.element b, found ++ collected links) f := by
  induction h generalizing limit found with
  | last hn hcomponent hcontent hs hm hb =>
    obtain ⟨limit, rfl⟩ := Nat.exists_eq_add_of_le' hlimit
    rw [length_singleton, follow_step hn hcomponent hcontent hs, follow_stop hm hb]
    simp [collected]
  | next hn hcomponent hcontent hs _ _ ih =>
    obtain ⟨limit, rfl⟩ := Nat.exists_eq_add_of_le' hlimit
    rw [length_cons, ← Nat.add_assoc, follow_step hn hcomponent hcontent hs, ih (Nat.le_add_left _ _)]
    simp [collected]

/-! ### The last element -/

theorem mem_classRead (hw : w ≠ []) : w ∈ classRead s ↔ w ∈ wordsIn s := by
  rw [mem_wordsIn]
  cases s with
  | nil =>
    have hempty : Text.splitAt ' ' [] = [[]] := rfl
    simp [classRead, hempty]
  | cons c s => simp [classRead, hw]

theorem mem_collected (hw : w ≠ []) : w ∈ collected links ↔ ∃ c ∈ links, w ∈ wordsIn c.2 := by
  simp only [collected, mem_flatMap, mem_classRead hw]

theorem blank_notMem_of_mem_collected (h : w ∈ collected links) : ' ' ∉ w := by
  obtain ⟨c, -, hw⟩ := mem_flatMap.1 h
  unfold classRead at hw
  split at hw
  · cases hw
  · exact Text.not_mem_of_mem_splitAt w hw

/-- The words of the class of `b` are those of a text and of the classes of a chain, and nothing else has changed. -/
structure Gathered (links : List (Nat × Text)) (b : Nat) (t : Text) (d e : Document) : Prop where
  only : OnlyAttribute b "class".toList d e
  words : ∃ m s, e.nodes[b]? = some m ∧ m.kind.domain "class".toList = .text ∧ m.classText? = some s ∧
    ∀ w, w ∈ wordsIn s ↔ w ∈ wordsIn t ∨ ∃ c ∈ links, w ∈ wordsIn c.2

def gather (draw : Drawing) (last : Value) (found : List Text) : Act Value := do
  match found, last with
  | _ :: _, .element b =>
    let v := (← get).settled (← Act.classes b)
    let more ← words v
    Act.setAttribute draw.shown b "class".toList (.text (joinWords (found ++ more)))
  | _, _ => pure ()
  pure last

theorem gather_run (draw : Drawing) (links : List (Nat × Text)) (hm : f.nodes[b]? = some m)
    (hdomain : m.kind.domain "class".toList = .text)
    (ht : m.classText? = some t) :
    ∃ e, (draw.gather (.element b) (collected links)).run f = .ok (.element b) e ∧ Gathered links b t f e := by
  cases hfound : collected links with
  | nil =>
    have hnone (w : Text) (hw : w ≠ []) : ¬∃ c ∈ links, w ∈ wordsIn c.2 := by
      rw [← mem_collected hw, hfound]
      exact not_mem_nil
    refine ⟨f, rfl, OnlyAttribute.refl .., m, t, hm, hdomain, ht, fun w => ⟨.inl, ?_⟩⟩
    rintro (h | ⟨c, hc, h⟩)
    · exact h
    · exact absurd ⟨c, hc, h⟩ (hnone w (mem_wordsIn.1 h).2)
  | cons word more =>
    obtain ⟨hallows, -⟩ := Node.stored_class hdomain ht
    have hclasses : (Act.classes b).run f = .ok (.text t) f := attributeOf_run hm (Node.classText?_eq_some ht)
    have hwords : (words (.text t)).run f = .ok (Text.splitAt ' ' t) f := rfl
    obtain ⟨hset, hnode⟩ := @setAttribute_held draw.shown f b m "class".toList hm hallows hdomain
      (joinWords (word :: more ++ Text.splitAt ' ' t))
    have hrun : (draw.gather (.element b) (word :: more)).run f = .ok (.element b)
        (f.setting b "class".toList (.text (joinWords (word :: more ++ Text.splitAt ' ' t)))) := by
      unfold gather
      dsimp only
      rw [run_bind (rfl : (get : Act Document).run f = .ok f f), run_bind hclasses]
      exact (run_bind hwords).trans (run_bind hset)
    refine ⟨_, hrun, ?_, _, _, hnode, hdomain, Node.classText?_put hallows _, fun w => ?_⟩
    · exact onlyAttribute_modify (f := (·.put "class".toList _)) rfl (fun _ => rfl) (fun _ => rfl) (fun _ => rfl)
        fun n other ho => (lookup_putAttribute n.attributes _ other _).trans (if_neg ho)
    · rw [← hfound, mem_wordsIn_joinWords, mem_append]
      · constructor
        · rintro ⟨h | h, hw⟩
          · exact .inr ((mem_collected hw).1 h)
          · exact .inl (mem_wordsIn.2 ⟨h, hw⟩)
        · rintro (h | ⟨c, hc, h⟩)
          · obtain ⟨h, hw⟩ := mem_wordsIn.1 h
            exact ⟨.inr h, hw⟩
          · have hw := (mem_wordsIn.1 h).2
            exact ⟨.inl ((mem_collected hw).2 ⟨c, hc, h⟩), hw⟩
      · intro w hw
        rcases mem_append.1 hw with h | h
        · exact blank_notMem_of_mem_collected h
        · exact Text.not_mem_of_mem_splitAt w h

theorem baseOf_run (h : Chain draw d id links b f) (hlimit : links.length ≤ limit)
    (hm : f.nodes[b]? = some m) (hdomain : m.kind.domain "class".toList = .text) (ht : m.classText? = some t) :
    ∃ e, (draw.baseOf limit id).run d = .ok (.element b) e ∧ Gathered links b t f e := by
  obtain ⟨e, hgather, hgathered⟩ := gather_run draw links hm hdomain ht
  refine ⟨e, ?_, hgathered⟩
  have hstep {n : Node} {v : Value} {s : Text} {e : Document} (hn : d.nodes[id]? = some n) (hcomponent : n.kind.isComponent = true)
      (hcontent : (draw.contentOf id).run d = .ok v e) (hs : classText? e (.element id) = some s)
      (hfollow : (draw.follow limit v (classRead s)).run e = .ok (.element b, collected links) f) :
      (draw.baseOf limit id).run d = (draw.gather (.element b) (collected links)).run f := by
    unfold baseOf
    rw [run_bind (node_run hn), if_pos hcomponent, run_bind hcontent, run_bind (wordsOf_run hs), run_bind hfollow]
    rfl
  rw [← hgather]
  cases h with
  | last hn hcomponent hcontent hs hm hb =>
    refine hstep hn hcomponent hcontent hs ?_
    rw [follow_stop hm hb]
    simp [collected]
  | next hn hcomponent hcontent hs hrest _ =>
    refine hstep hn hcomponent hcontent hs ?_
    rw [follow_run hrest (by simp at hlimit; omega)]
    simp [collected]

/-- Following a chain again, from any of its elements on, adds no word. -/
theorem Gathered.again {limit : Nat} {t : Text} (h : Gathered links b t f e) (draw : Drawing)
    (hlinked : Linked f id links b)
    (hlimit : links.length ≤ limit) {c : Nat × Text} (hc : c ∈ links) :
    ∃ g, (draw.baseOf limit c.1).run e = .ok (.element b) g ∧ Gathered links b t f g := by
  obtain ⟨rest, hrest, hsuffix⟩ := hlinked.from c hc
  obtain ⟨m, s, hm, hdomain, hs, hwords⟩ := h.words
  obtain ⟨g, hrun, hagain⟩ := baseOf_run ((hrest.of_only h.only).1.chain draw) (hsuffix.length_le.trans hlimit) hm hdomain hs
  refine ⟨g, hrun, h.only.trans hagain.only, ?_⟩
  obtain ⟨m', s', hm', hdomain', hs', hwords'⟩ := hagain.words
  refine ⟨m', s', hm', hdomain', hs', fun w => ?_⟩
  rw [hwords', hwords, or_assoc]
  refine or_congr_right (or_iff_left_of_imp ?_)
  rintro ⟨c, hc, hw⟩
  exact ⟨c, hsuffix.subset hc, hw⟩

theorem Gathered.again_all (h : Gathered links b t f e) (draw : Drawing) (hlinked : Linked f id links b)
    (hlimit : links.length ≤ limit) {ids : List Nat} (hids : ∀ i ∈ ids, ∃ c ∈ links, c.1 = i) :
    ∃ g, (ids.mapM (draw.baseOf limit)).run e = .ok (ids.map fun _ => .element b) g ∧ Gathered links b t f g := by
  induction ids generalizing e with
  | nil => exact ⟨e, rfl, h⟩
  | cons i ids ih =>
    obtain ⟨⟨c, hc, rfl⟩, hrest⟩ := forall_mem_cons.1 hids
    obtain ⟨mid, hrun, hmid⟩ := h.again draw hlinked hlimit hc
    obtain ⟨g, hmore, hg⟩ := ih hmid hrest
    refine ⟨g, ?_, hg⟩
    rw [mapM_cons, run_bind hrun, run_bind hmore]
    rfl

/-- A paragraph that an element stands for, for which another stands. -/
def standing : Document :=
  let stands (j : Nat) : Class :=
    { Class.component with lineage := { serial := 50, content? := some (.value (.element j)) } :: Class.component.lineage }
  { nodes := #[{ kind := stands 1, attributes := [("class".toList, .text "a  b".toList)] },
      { kind := stands 2, attributes := [("class".toList, .text " c".toList)] },
      { kind := htmlClass "p", attributes := [("class".toList, .text "b d".toList)] }] }

/-- The words of the class come in order, each once. -/
example : ∃ e, ((ofDepth 2).base 0).run standing = .ok (.element 2) e ∧
    classText? e (.element 2) = some "a b c d".toList := ⟨_, rfl, rfl⟩

end Drawing

end InlineMarkup.Element

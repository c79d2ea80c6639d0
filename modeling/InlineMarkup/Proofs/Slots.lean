import InlineMarkup.Proofs.Rendering
import InlineMarkup.Proofs.Spelling

/-!
The place of an attribute in the text of an element. Main statement: two texts of it make the same failure, or
texts that are alike but for the places where it stands, and there no character ends a tag or a value, but for
the name that a form error tells.
-/
namespace InlineMarkup.Element

/-! ### Documents that differ in one attribute -/

def Document.setting (d : Document) (id : Nat) (name : Text) (v : Value) : Document :=
  { d with nodes := d.nodes.modify id (·.put name v) }

theorem putAttribute_split (attributes : List (Text × Value)) (name : Text) :
    ∃ front back, (∀ a ∈ front, a ∈ attributes) ∧ (∀ a ∈ back, a ∈ attributes) ∧
      ∀ v, putAttribute attributes name v = front ++ (name, v) :: back := by
  induction attributes with
  | nil => exact ⟨[], [], nofun, nofun, fun v => rfl⟩
  | cons a rest ih =>
    by_cases hname : a.1 = name
    · refine ⟨[], rest, nofun, fun b hb => List.mem_cons_of_mem _ hb, fun v => ?_⟩
      simp [putAttribute, hname]
    · obtain ⟨front, back, hfront, hback, hput⟩ := ih
      refine ⟨a :: front, back, List.cons_subset_cons a hfront, fun b hb => List.mem_cons_of_mem _ (hback b hb),
        fun v => ?_⟩
      simp [putAttribute, hname, hput]

theorem lookup_putAttribute (attributes : List (Text × Value)) (name other : Text) (v : Value) :
    (putAttribute attributes name v).lookup other = if other = name then some v else attributes.lookup other := by
  induction attributes with
  | nil =>
    by_cases h : other = name
    · simp [putAttribute, h]
    · simp [putAttribute, List.lookup_cons, beq_eq_false_iff_ne.2 h, h]
  | cons a rest ih =>
    obtain ⟨n, w⟩ := a
    unfold putAttribute
    by_cases hname : n = name
    · by_cases h : other = name
      · simp [hname, h]
      · simp [hname, List.lookup_cons, beq_eq_false_iff_ne.2 h, h]
    · by_cases h : other = n
      · simp [hname, h]
      · simp [hname, List.lookup_cons, beq_eq_false_iff_ne.2 h, ih]

namespace Document

variable (d : Document) (id : Nat) (name : Text) (v : Value)

theorem nodes_setting (other : Nat) : (d.setting id name v).nodes[other]? =
    d.nodes[other]?.map fun n => if other = id then n.put name v else n := by
  simp only [setting, Array.getElem?_modify]
  by_cases h : id = other
  · subst h
    simp
  · simp [h, Ne.symm h]

theorem itemsAt_setting : (d.setting id name v).itemsAt = d.itemsAt := by
  funext place
  cases place with
  | made n => rfl
  | children other =>
    simp only [itemsAt, childrenOf, nodes_setting, Option.map_map]
    congr 2
    funext n
    by_cases h : other = id <;> simp [h, Node.put]

theorem settledWithin_congr {d e : Document} (h : d.itemsAt = e.itemsAt) (depth : Nat) :
    d.settledWithin depth = e.settledWithin depth := by
  induction depth with
  | zero => rfl
  | succ depth ih =>
    funext around v
    simp only [settledWithin, h, ih]

theorem settled_setting (w : Value) : (d.setting id name v).settled w = d.settled w := by
  have hsize : (d.setting id name v).nodes.size = d.nodes.size := by simp [setting]
  unfold settled
  rw [settledWithin_congr (itemsAt_setting d id name v), hsize]
  rfl

end Document

/-! ### Work that goes alike in all documents -/

section Uniform

variable {ι α β : Type} {D : ι → Document}

def Uniform (D : ι → Document) (work : ι → Act α) (P : (ι → α) → Prop) : Prop :=
  (∃ fault, ∀ i, (work i).run (D i) = .error fault (D i)) ∨ ∃ r, P r ∧ ∀ i, (work i).run (D i) = .ok (r i) (D i)

variable {P : (ι → α) → Prop} {ts : ι → List Tree}

theorem Uniform.pure {r : ι → α} (h : P r) : Uniform D (fun i => Pure.pure (r i)) P :=
  .inr ⟨r, h, fun _ => rfl⟩

theorem Uniform.fails (fault : Fault) : Uniform D (fun _ => throw fault) P :=
  .inl ⟨fault, fun _ => rfl⟩

theorem Uniform.bind {work : ι → Act α} {next : ι → α → Act β} {Q : (ι → β) → Prop}
    (h : Uniform D work P) (hnext : ∀ r, P r → Uniform D (fun i => next i (r i)) Q) :
    Uniform D (fun i => work i >>= next i) Q := by
  rcases h with ⟨fault, hfault⟩ | ⟨r, hr, hrun⟩
  · refine .inl ⟨fault, fun i => ?_⟩
    have hwork := hfault i
    simp only [EStateM.run, Bind.bind, EStateM.bind] at hwork ⊢
    rw [hwork]
  · rcases hnext r hr with ⟨fault, hfault⟩ | ⟨q, hq, hlast⟩
    · exact .inl ⟨fault, fun i => (run_bind (hrun i)).trans (hfault i)⟩
    · exact .inr ⟨q, hq, fun i => (run_bind (hrun i)).trans (hlast i)⟩

/-! ### Texts and trees with slots -/

def Slotted (slot : ι → Text) (f : ι → Text) : Prop :=
  ∃ pieces : List (Option Text), ∀ i, f i = pieces.flatMap (·.getD (slot i))

variable {slot : ι → Text}

theorem Slotted.const (slot : ι → Text) (s : Text) : Slotted slot fun _ => s := ⟨[some s], by simp⟩

theorem Slotted.self (slot : ι → Text) : Slotted slot slot := ⟨[none], by simp⟩

theorem Slotted.append {f g : ι → Text} (hf : Slotted slot f) (hg : Slotted slot g) :
    Slotted slot fun i => f i ++ g i := by
  obtain ⟨ps, hps⟩ := hf
  obtain ⟨qs, hqs⟩ := hg
  exact ⟨ps ++ qs, fun i => by simp [hps, hqs]⟩

def Spread (slot : ι → Text) (t : ι → Tree) : Prop :=
  (∃ whole, ∀ i, (t i).isWhole = whole) ∧ Slotted slot fun i => (t i).write

theorem Spread.const (t : Tree) : Spread slot fun _ => t := ⟨⟨t.isWhole, fun _ => rfl⟩, .const slot t.write⟩

theorem Spread.cons {t : ι → Tree} (ht : Spread slot t)
    (hts : Spread slot fun i => .fragment (ts i)) : Spread slot fun i => .fragment (t i :: ts i) := by
  obtain ⟨⟨first, hfirst⟩, hwrite⟩ := ht
  obtain ⟨⟨rest, hrest⟩, hwrites⟩ := hts
  refine ⟨⟨first && rest, fun i => ?_⟩, hwrite.append hwrites⟩
  rw [← hfirst i, ← hrest i]
  rfl

theorem Spread.paired {attributes : ι → List (Text × Text)} (tag : Text)
    (hattributes : Slotted slot fun i => (attributes i).flatMap Tree.writeAttribute)
    (hts : Spread slot fun i => .fragment (ts i)) : Spread slot fun i => .paired tag (attributes i) (ts i) := by
  refine ⟨hts.1, ?_⟩
  have hfront := (Slotted.const slot (['<'] ++ tag)).append (hattributes.append (.const slot ['>']))
  simpa [Tree.write] using hfront.append (hts.2.append (.const slot (['<', '/'] ++ tag ++ ['>'])))

theorem Spread.single {attributes : ι → List (Text × Text)} (tag : Text)
    (hattributes : Slotted slot fun i => (attributes i).flatMap Tree.writeAttribute) :
    Spread slot fun i => .single tag (attributes i) := by
  refine ⟨⟨true, fun _ => rfl⟩, ?_⟩
  simpa [Tree.write] using
    (Slotted.const slot (['<'] ++ tag)).append (hattributes.append (.const slot [' ', '/', '>']))

theorem Spread.conditional {condition : ι → Text} (shown : Bool)
    (hcondition : Slotted slot fun i => Tree.writeCondition (condition i))
    (hts : Spread slot fun i => .fragment (ts i)) :
    Spread slot fun i => .conditional shown (condition i) (ts i) := by
  refine ⟨hts.1, ?_⟩
  have hopening := (Slotted.const slot "<!--[if ".toList).append hcondition
  cases shown with
  | false =>
    simpa [Tree.write, Tree.conditionMarks] using
      (hopening.append (.const slot "]>".toList)).append (hts.2.append (.const slot "<![endif]-->".toList))
  | true =>
    simpa [Tree.write, Tree.conditionMarks] using
      (hopening.append (.const slot "]><!-->".toList)).append (hts.2.append (.const slot "<!--<![endif]-->".toList))

theorem Spread.declaration {body : ι → Option Text} (opening closing : Text)
    (hbody : (∃ b, ∀ i, body i = b) ∨ ∀ i, body i = some (slot i)) :
    Spread slot fun i => .declaration opening (body i) closing := by
  rcases hbody with ⟨b, hb⟩ | hslot
  · simp only [hb]
    exact .const _
  · simp only [hslot]
    refine ⟨⟨true, fun _ => rfl⟩, ?_⟩
    exact ((Slotted.const slot opening).append (.self slot)).append (.const slot closing)

/-! ### Drawing -/

def textsIn (d : Document) (attributes : List (Text × Value)) : List (Text × Text) :=
  attributes.map fun a => (a.1, (d.settled a.2).shown)

theorem attributeTexts_run (draw : Drawing) (d : Document) {attributes : List (Text × Value)}
    (h : ∀ a ∈ attributes, ∀ i, a.2 ≠ .element i) :
    (Drawing.attributeTexts draw attributes).run d = .ok (textsIn d attributes) d := by
  induction attributes with
  | nil => rfl
  | cons a rest ih =>
    obtain ⟨hfirst, hrest⟩ := List.forall_mem_cons.1 h
    unfold Drawing.attributeTexts
    rw [run_bind (shown_value draw d hfirst), run_bind (ih hrest)]
    rfl

theorem childTrees_uniform {draw : Drawing} {d : Document} (hsettled : ∀ i v, (D i).settled v = d.settled v)
    (hdraw : ∀ j, Uniform D (fun _ => draw.tree j) (Spread slot)) (vs : List Value) :
    Uniform D (fun _ => Drawing.childTrees draw vs) fun ts => Spread slot fun i => .fragment (ts i) := by
  have hvalue {v : Value} {rest : List Value} (hsome : v ≠ .none) (helement : ∀ j, v ≠ .element j)
      (ih : Uniform D (fun _ => Drawing.childTrees draw rest) fun ts => Spread slot fun i => .fragment (ts i)) :
      Uniform D (fun _ => Drawing.childTrees draw (v :: rest)) fun ts => Spread slot fun i => .fragment (ts i) := by
    have hchild : Drawing.childTrees draw (v :: rest) = (do
        let s ← draw.shown v
        let ts ← Drawing.childTrees draw rest
        pure (.text s :: ts)) := by
      rw [Drawing.childTrees]
      · exact hsome
      · exact helement
    rw [hchild]
    have hshown : Uniform D (fun _ => draw.shown v) fun r => ∀ i, r i = (d.settled v).shown :=
      .inr ⟨_, fun _ => rfl, fun i => by rw [shown_value draw (D i) helement, hsettled]⟩
    refine hshown.bind fun r hr => ih.bind fun ts hts => .pure ?_
    simp only [hr]
    exact (Spread.const (.text (d.settled v).shown)).cons hts
  induction vs with
  | nil => exact .pure (.const (.fragment []))
  | cons v rest ih =>
    cases v with
    | none => exact ih
    | element j => exact (hdraw j).bind fun t ht => ih.bind fun ts hts => .pure (ht.cons hts)
    | _ => exact hvalue nofun nofun ih

def Form.isHypertext : Form → Bool
  | .feed | .feedDeclaration | .feedDate | .feedCreator | .content => false
  | _ => true

def Form.isVerbatim : Form → Bool
  | .raw | .declaration | .markedDeclaration | .conditionDeclaration => true
  | _ => false

/-- Attributes that differ from document to document, and show in the text of an element of the class only
in the slot. -/
structure Exposes (slot : ι → Text) (d : Document) (kind : Class) (attributes : ι → List (Text × Value)) :
    Prop where
  plain : ∀ i, ∀ a ∈ attributes i, ∀ j, a.2 ≠ .element j
  tagged : kind.form? = some .paired ∨ kind.form? = some .single →
    Slotted slot fun i => (textsIn d (attributes i)).flatMap Tree.writeAttribute
  condition : ∀ shown, kind.form? = some (.conditional shown) →
    (∃ v, (∀ j, v ≠ some (.element j)) ∧ ∀ i, (attributes i).lookup "cond".toList = v) ∨
      ∃ s : ι → Text, ∀ i, (attributes i).lookup "cond".toList = some (.text (s i)) ∧ Tree.writeCondition (s i) = slot i
  verbatim : ∀ f key, kind.form? = some f → f.isVerbatim = true → ∃ v, ∀ i, (attributes i).lookup key = v
  formError : kind.form? = some .formError → (∃ v, ∀ i, (attributes i).lookup "name".toList = v) ∨
    kind.allows "name".toList = true ∧ ∀ i, (attributes i).lookup "name".toList = some (.text (slot i))

theorem lookup_ne_element {attributes : List (Text × Value)} (h : ∀ a ∈ attributes, ∀ j, a.2 ≠ .element j)
    (key : Text) (j : Nat) : attributes.lookup key ≠ some (.element j) := by
  intro hlookup
  obtain ⟨front, back, rfl, -⟩ := List.lookup_eq_some_iff.1 hlookup
  exact h (key, .element j) (by simp) j rfl

theorem exposes_const {d : Document} (kind : Class) {attributes : List (Text × Value)}
    (h : ∀ a ∈ attributes, ∀ j, a.2 ≠ .element j) : Exposes slot d kind fun _ => attributes where
  plain _ := h
  tagged _ := .const slot _
  condition _ _ := .inl ⟨_, fun j hj => lookup_ne_element h _ j hj, fun _ => rfl⟩
  verbatim _ _ _ _ := ⟨_, fun _ => rfl⟩
  formError _ := .inl ⟨_, fun _ => rfl⟩

section Level

variable {draw : Drawing} {d : Document} {j : Nat} {m : Node} {attributes : ι → List (Text × Value)}

theorem node_uniform (hnode : ∀ i, (D i).nodes[j]? = some { m with attributes := attributes i }) :
    Uniform D (fun _ => Act.node j) fun r => r = fun i => { m with attributes := attributes i } :=
  .inr ⟨_, rfl, fun i => node_run (hnode i)⟩

theorem childrenNow_uniform (draw : Drawing) (hsettled : ∀ i v, (D i).settled v = d.settled v)
    (hdraw : ∀ j, Uniform D (fun _ => draw.tree j) (Spread slot))
    (hnode : ∀ i, (D i).nodes[j]? = some { m with attributes := attributes i }) :
    Uniform D (fun _ => Drawing.childrenNow draw j) fun ts => Spread slot fun i => .fragment (ts i) := by
  refine (node_uniform hnode).bind fun r hr => ?_
  subst hr
  exact childTrees_uniform hsettled hdraw m.children

theorem attributeOf_uniform (hnode : ∀ i, (D i).nodes[j]? = some { m with attributes := attributes i }) {key : Text}
    {v : Option Value} (hkey : ∀ i, (attributes i).lookup key = v) :
    Uniform D (fun _ => Act.attributeOf j key .none) fun r => ∃ w, ∀ i, r i = w := by
  refine (node_uniform hnode).bind fun r hr => ?_
  subst hr
  have hsame (i : ι) : { m with attributes := attributes i }.attribute key .none =
      { m with attributes := (v.map (key, ·)).toList }.attribute key .none := by
    unfold Node.attribute
    rw [hkey]
    cases v <;> simp
  simp only [hsame]
  cases hw : { m with attributes := (v.map (key, ·)).toList }.attribute key .none with
  | error fault => exact .fails fault
  | ok w => exact .pure ⟨w, fun _ => rfl⟩

theorem declarationOf_uniform (hnode : ∀ i, (D i).nodes[j]? = some { m with attributes := attributes i })
    {key : String} {v : Option Value} (hkey : ∀ i, (attributes i).lookup key.toList = v) (opening closing : String) :
    Uniform D (fun _ => Drawing.declarationOf j key opening closing) (Spread slot) := by
  refine (attributeOf_uniform hnode hkey).bind fun r ⟨w, hw⟩ => .pure ?_
  simp only [hw]
  exact .const _

theorem attributeTexts_uniform (draw : Drawing) (hsettled : ∀ i v, (D i).settled v = d.settled v)
    (hplain : ∀ i, ∀ a ∈ attributes i, ∀ j, a.2 ≠ .element j) :
    Uniform D (fun i => Drawing.attributeTexts draw (attributes i)) fun r => r = fun i => textsIn d (attributes i) := by
  refine .inr ⟨_, rfl, fun i => ?_⟩
  rw [attributeTexts_run draw (D i) (hplain i)]
  simp only [textsIn, hsettled]

theorem treeOf_uniform (limit : Nat) (hsettled : ∀ i v, (D i).settled v = d.settled v)
    (hdraw : ∀ j, Uniform D (fun _ => draw.tree j) (Spread slot))
    (hnode : ∀ i, (D i).nodes[j]? = some { m with attributes := attributes i })
    (hform : ∀ f, m.kind.form? = some f → f.isHypertext = true) (h : Exposes slot d m.kind attributes) :
    Uniform D (fun _ => Drawing.treeOf draw limit j) (Spread slot) := by
  refine (node_uniform hnode).bind fun r hr => ?_
  subst hr
  have htexts := attributeTexts_uniform draw hsettled h.plain
  have hchildren := childrenNow_uniform draw hsettled hdraw hnode
  cases hkind : m.kind.form? with
  | none => simpa only [hkind] using .fails .unwritable
  | some f =>
    cases f with
    | paired =>
      simp only [hkind]
      refine htexts.bind fun r hr => ?_
      subst hr
      exact hchildren.bind fun ts hts => .pure (.paired _ (h.tagged (.inl hkind)) hts)
    | single =>
      simp only [hkind]
      refine htexts.bind fun r hr => ?_
      subst hr
      exact .pure (.single _ (h.tagged (.inr hkind)))
    | hidden => simpa only [hkind] using .pure (.const (.fragment []))
    | declaration =>
      obtain ⟨v, hv⟩ := h.verbatim _ "decl".toList hkind rfl
      simpa only [hkind] using declarationOf_uniform hnode hv _ _
    | markedDeclaration =>
      obtain ⟨v, hv⟩ := h.verbatim _ "decl".toList hkind rfl
      simpa only [hkind] using declarationOf_uniform hnode hv _ _
    | conditionDeclaration =>
      obtain ⟨v, hv⟩ := h.verbatim _ "decl".toList hkind rfl
      simpa only [hkind] using declarationOf_uniform hnode hv _ _
    | raw =>
      obtain ⟨v, hv⟩ := h.verbatim _ "text".toList hkind rfl
      simp only [hkind]
      refine (attributeOf_uniform hnode hv).bind fun r hr => ?_
      obtain ⟨w, hw⟩ := hr
      simp only [hw]
      cases w with
      | text s => exact .pure (.const (.raw s))
      | bytes bs =>
        dsimp only
        split
        · exact .pure (.const _)
        · exact .fails _
      | _ => exact .fails _
    | fragment =>
      simp only [hkind]
      exact hchildren.bind fun ts hts => .pure hts
    | formError =>
      simp only [hkind]
      rcases h.formError hkind with ⟨v, hv⟩ | ⟨hallows, hname⟩
      · exact declarationOf_uniform hnode hv _ _
      · have hname (i : ι) : { m with attributes := attributes i }.attribute "name".toList .none =
            .ok (.text (slot i)) := by
          unfold Node.attribute
          rw [if_pos hallows, hname]
        refine Uniform.bind (P := fun r => r = fun i => .text (slot i)) (.inr ⟨_, rfl, fun i => ?_⟩) fun r hr => ?_
        · rw [Act.attributeOf, run_bind (node_run (hnode i)), hname]
          rfl
        · subst hr
          exact .pure (.declaration _ _ (.inr fun _ => rfl))
    | conditional shown =>
      simp only [hkind]
      rcases h.condition shown hkind with ⟨v, hplain, hv⟩ | ⟨s, hs⟩
      · simp only [hv]
        rcases v with _ | _ | _ | _ | _ | _ | _ | _ | _ | _ | _ | k | _
        case some.element => exact absurd rfl (hplain k)
        case none | some.text => exact hchildren.bind fun ts hts => .pure (.conditional shown (.const slot _) hts)
        all_goals exact .fails _
      · simp only [(hs _).1, Option.getD_some]
        refine hchildren.bind fun ts hts => .pure (.conditional shown ?_ hts)
        simp only [(hs _).2]
        exact .self slot
    | feed | feedDeclaration | feedDate | feedCreator | content => exact absurd (hform _ hkind) (by decide)

end Level

end Uniform

/-! ### Attributes of hypertext -/

def Class.slot (kind : Class) (name s : Text) : Text :=
  match kind.form? with
  | some (.conditional _) => Tree.writeCondition s
  | some .formError => if name = "name".toList then s else Text.escape s
  | _ => Text.escape s

def Class.held (kind : Class) (name s : Text) : Value :=
  match kind.domain name with
  | .integer => (Value.text s).toInteger?.getD (.text s)
  | _ => .text s

theorem Class.held_cases (kind : Class) (name s : Text) :
    kind.held name s = .text s ∨ ∃ n, kind.held name s = .integer n := by
  unfold held
  split
  · cases h : Text.readInt? s with
    | none => simp [Value.toInteger?, h]
    | some n => simp [Value.toInteger?, h]
  · exact .inl rfl

theorem mem_writeCondition {c : Char} {s : Text} (h : c ∈ Tree.writeCondition s) :
    c = '&' ∨ ∃ t, c ∈ Text.escape t := by
  unfold Tree.writeCondition at h
  cases hparts : (Text.splitAt '&' s).map Text.escape with
  | nil => simp [hparts, Text.join] at h
  | cons part more =>
    have hescaped (p : Text) (hp : p ∈ part :: more) : ∃ t, p = Text.escape t := by
      rw [← hparts] at hp
      obtain ⟨t, -, rfl⟩ := List.mem_map.1 hp
      exact ⟨t, rfl⟩
    rw [hparts, Markup.Builder.join_cons, List.mem_append, List.mem_flatMap] at h
    rcases h with h | ⟨p, hp, h⟩
    · obtain ⟨t, rfl⟩ := hescaped part List.mem_cons_self
      exact .inr ⟨t, h⟩
    · obtain ⟨t, rfl⟩ := hescaped p (List.mem_cons_of_mem _ hp)
      rcases List.mem_append.1 h with h | h
      · exact .inl (List.mem_singleton.1 h)
      · exact .inr ⟨t, h⟩

theorem Class.slot_free_iff (kind : Class) (name : Text) :
    (∀ s, ∀ c ∈ kind.slot name (kind.held name s).shown, c ≠ '<' ∧ c ≠ '>' ∧ c ≠ '"') ↔
      ¬ (kind.form? = some .formError ∧ name = "name".toList) := by
  have hescape (s : Text) : ∀ c ∈ Text.escape s, c ≠ '<' ∧ c ≠ '>' ∧ c ≠ '"' := by
    intro c hc
    refine ⟨?_, ?_, ?_⟩ <;> rintro rfl <;> exact Text.not_mem_escape (by simp) s hc
  constructor
  · rintro hfree ⟨hform, hname⟩
    have hheld : kind.held name ['<'] = .text ['<'] := by
      have hdigits : (Value.text ['<']).toInteger?.isNone = true := by decide +kernel
      unfold held
      rw [Option.isNone_iff_eq_none.1 hdigits]
      split <;> rfl
    have hmark := hfree ['<'] '<'
    rw [hheld, slot, hform] at hmark
    simp [hname, Value.shown] at hmark
  · intro hother s c hc
    unfold slot at hc
    split at hc
    · rcases mem_writeCondition hc with rfl | ⟨t, ht⟩
      · decide
      · exact hescape t c ht
    · rename_i hform
      rw [if_neg fun hname => hother ⟨hform, hname⟩] at hc
      exact hescape _ c hc
    · exact hescape _ c hc

def Node.isHypertext (n : Node) : Bool :=
  n.kind.form?.all Form.isHypertext && n.attributes.all fun a => match a.2 with
    | .element _ => false
    | _ => true

def Document.isHypertext (d : Document) : Bool := d.nodes.all Node.isHypertext

theorem Document.isHypertext_node {d : Document} (h : d.isHypertext = true) {j : Nat} {m : Node}
    (hm : d.nodes[j]? = some m) : (∀ f, m.kind.form? = some f → f.isHypertext = true) ∧
      ∀ a ∈ m.attributes, ∀ i, a.2 ≠ .element i := by
  have hnode : m.isHypertext = true := by
    obtain ⟨hlt, rfl⟩ := Array.getElem?_eq_some_iff.1 hm
    exact Array.all_eq_true.1 h j hlt
  obtain ⟨hform, hvalues⟩ := Bool.and_eq_true_iff.1 hnode
  refine ⟨fun f hf => ?_, fun a ha i hi => ?_⟩
  · simpa [hf] using hform
  · have hvalue := List.all_eq_true.1 hvalues a ha
    simp [hi] at hvalue

section Setting

variable {d : Document} {name : Text} {n : Node}

theorem settled_held (kind : Class) (s : Text) : d.settled (kind.held name s) = kind.held name s := by
  rcases kind.held_cases name s with h | ⟨k, h⟩ <;> rw [h] <;> rfl

theorem exposes_held (hvalues : ∀ a ∈ n.attributes, ∀ i, a.2 ≠ .element i)
    (hform : ∀ f, n.kind.form? = some f → f.isVerbatim = false) (hallows : n.kind.allows name = true)
    (htext : name = "name".toList ∨ name = "cond".toList → ∀ s, n.kind.held name s = .text s) :
    Exposes (fun s => n.kind.slot name (n.kind.held name s).shown) d n.kind
      fun s => putAttribute n.attributes name (n.kind.held name s) := by
  obtain ⟨front, back, hfront, hback, hput⟩ := putAttribute_split n.attributes name
  refine ⟨fun s a ha => ?_, fun htag => ?_, fun shown hshown => ?_, fun f key hkind hverbatim => ?_, fun herror => ?_⟩
  · rw [hput] at ha
    rcases List.mem_append.1 ha with ha | ha
    · exact hvalues a (hfront a ha)
    · rcases List.mem_cons.1 ha with rfl | ha
      · rcases n.kind.held_cases name s with h | ⟨k, h⟩ <;> rw [h] <;> exact nofun
      · exact hvalues a (hback a ha)
  · have hslot (s : Text) : n.kind.slot name s = Text.escape s := by
      rcases htag with h | h <;> rw [Class.slot, h]
    have hpieces := ((Slotted.const _ ((textsIn d front).flatMap Tree.writeAttribute ++ ([' '] ++ name ++ ['=', '"']))).append
      (Slotted.self fun s => n.kind.slot name (n.kind.held name s).shown)).append
      (.const _ (['"'] ++ (textsIn d back).flatMap Tree.writeAttribute))
    simpa [hput, textsIn, settled_held, Tree.writeAttribute, hslot] using hpieces
  · by_cases hname : "cond".toList = name
    · refine .inr ⟨id, fun s => ?_⟩
      rw [lookup_putAttribute, if_pos hname, htext (.inr hname.symm) s, Class.slot, hshown]
      exact ⟨rfl, rfl⟩
    · refine .inl ⟨n.attributes.lookup "cond".toList, lookup_ne_element hvalues _, fun s => ?_⟩
      rw [lookup_putAttribute, if_neg hname]
  · exact absurd (hform f hkind) (by simp [hverbatim])
  · by_cases hname : "name".toList = name
    · subst hname
      refine .inr ⟨hallows, fun s => ?_⟩
      rw [lookup_putAttribute, if_pos rfl, htext (.inl rfl) s, Class.slot, herror]
      rfl
    · refine .inl ⟨n.attributes.lookup "name".toList, fun s => ?_⟩
      rw [lookup_putAttribute, if_neg hname]

theorem drawn_uniform {id : Nat} (hd : d.isHypertext = true) (hn : d.nodes[id]? = some n)
    {slot : Text → Text} {held : Text → Value}
    (h : Exposes slot d n.kind fun s => putAttribute n.attributes name (held s)) (depth j : Nat) :
    Uniform (fun s => d.setting id name (held s)) (fun _ => (Drawing.ofDepth depth).tree j) (Spread slot) := by
  induction depth generalizing j with
  | zero => exact .fails _
  | succ depth ih =>
    have hsettled (s : Text) (v : Value) := d.settled_setting id name (held s) v
    cases hm : d.nodes[j]? with
    | none =>
      refine .inl ⟨.missingPart, fun s => ?_⟩
      have hnone : (d.setting id name (held s)).nodes[j]? = none := by simp [d.nodes_setting, hm]
      simp only [Drawing.ofDepth, Drawing.treeOf, Act.node, EStateM.run, bind, EStateM.bind, get, getThe,
        MonadStateOf.get, EStateM.get, hnone]
      rfl
    | some m =>
      obtain ⟨hform, hvalues⟩ := d.isHypertext_node hd hm
      by_cases hj : j = id
      · subst hj
        obtain rfl : m = n := by simpa [hm] using hn
        refine treeOf_uniform _ hsettled ih (fun s => ?_) hform h
        rw [d.nodes_setting, hm]
        simp [Node.put]
      · refine treeOf_uniform _ hsettled ih (fun s => ?_) hform (exposes_const m.kind hvalues)
        rw [d.nodes_setting, hm]
        simp [hj]

theorem shown_uniform {ι : Type} {D : ι → Document} {draw : Drawing} {slot : ι → Text} {root : Nat}
    (h : Uniform D (fun _ => draw.tree root) (Spread slot)) :
    Uniform D (fun _ => draw.shown (.element root)) (Slotted slot) := by
  refine h.bind fun t ht => ?_
  obtain ⟨⟨whole, hwhole⟩, hwrite⟩ := ht
  cases whole with
  | true => simpa only [Tree.render, hwhole, if_true] using .pure hwrite
  | false => simpa only [Tree.render, hwhole] using .fails .unsuitable

end Setting

/-! ### The classes of hypertext -/

def Class.holdsTexts (kind : Class) : Bool :=
  kind.attributes.all fun a => match a.2 with
    | .text => true
    | .integer => a.1 != "name".toList && a.1 != "cond".toList
    | _ => false

variable {kind : Class} {s : Shelf} {tag : Text}

theorem Class.domain_of_holdsTexts (h : kind.holdsTexts = true) (name : Text) :
    kind.domain name = .text ∨ kind.domain name = .integer ∧ name ≠ "name".toList ∧ name ≠ "cond".toList := by
  unfold domain
  cases hlookup : kind.attributes.lookup name with
  | none => exact .inl rfl
  | some dom =>
    obtain ⟨front, back, hsplit, -⟩ := List.lookup_eq_some_iff.1 hlookup
    have hmem := List.all_eq_true.1 h (name, dom) (by simp [hsplit])
    cases dom with
    | text => exact .inl rfl
    | integer => exact .inr ⟨rfl, by simpa using hmem⟩
    | _ => simp at hmem

theorem Shelf.class?_eq_some {depth : Nat}
    (h : s.class? (depth + 1) tag = some kind) : kind = .base ∨ ∃ e ∈ s.entries, e.tag = tag := by
  unfold class? at h
  split at h
  · exact .inl (Option.some_inj.1 h).symm
  · split at h
    · cases h
    · rename_i i hi
      obtain ⟨hlt, htag, -⟩ := List.findIdx?_eq_some_iff_getElem.1 hi
      exact .inr ⟨_, List.getElem_mem hlt, by simpa using htag⟩

theorem holdsTexts_of_shelf (hall : s.entries.all (fun e => (s.class? kindDepth e.tag).all Class.holdsTexts) =
    true) {tag : Text} {kind : Class} (h : s.class? kindDepth tag = some kind) : kind.holdsTexts = true := by
  rcases Shelf.class?_eq_some h with rfl | ⟨e, he, rfl⟩
  · decide +kernel
  · simpa [h] using List.all_eq_true.1 hall e he

theorem holdsTexts_html : Shelf.html.entries.all
    (fun e => (Shelf.html.class? kindDepth e.tag).all Class.holdsTexts) = true := by
  decide +kernel

theorem holdsTexts_browser : Shelf.browser.entries.all
    (fun e => (Shelf.browser.class? kindDepth e.tag).all Class.holdsTexts) = true := by
  decide +kernel

theorem holdsTexts_of_library {home : Text} (hhome : home = "html".toList ∨ home = "browser_hacks".toList)
    {kind : Class} (h : libraryClass? home tag = some kind) : kind.holdsTexts = true := by
  rcases hhome with rfl | rfl
  · rw [libraryClass?, if_pos rfl, Option.or_eq_some_iff] at h
    rcases h with h | ⟨-, h⟩
    · exact holdsTexts_of_shelf holdsTexts_html h
    · split at h
      · exact holdsTexts_of_shelf holdsTexts_browser h
      · cases h
  · rw [libraryClass?, if_neg (by decide), if_neg (by decide), if_pos rfl] at h
    exact holdsTexts_of_shelf holdsTexts_browser h

theorem setAttribute_text {shown : Showing} {d e : Document} {id : Nat} {n : Node} (hn : d.nodes[id]? = some n)
    {name s : Text} (hdomain : n.kind.domain name = .text ∨ n.kind.domain name = .integer)
    (h : (Act.setAttribute shown id name (.text s)).run d = .ok () e) :
    n.kind.allows name = true ∧ e = d.setting id name (n.kind.held name s) := by
  unfold Act.setAttribute at h
  rw [run_bind (node_run hn)] at h
  split at h
  · rename_i hallows
    refine ⟨hallows, ?_⟩
    dsimp only at h
    have hadmitted : (Act.admitted shown n name (.text s)).run d = .ok (n.kind.held name s) d ∨
        ∃ fault, (Act.admitted shown n name (.text s)).run d = .error fault d := by
      unfold Act.admitted Class.held
      rcases hdomain with hdomain | hdomain
      · rw [hdomain]
        exact .inl rfl
      · rw [hdomain]
        cases hread : Text.readInt? s with
        | none =>
          refine .inr ⟨.wrongSort n.kind.tag n.kind.name name Domain.integer.sortName (d.sortName (.text s)), ?_⟩
          simp [Domain.holds, Domain.convert?, Value.toInteger?, hread]
          rfl
        | some k =>
          refine .inl ?_
          simp [Domain.holds, Domain.convert?, Value.toInteger?, hread]
          rfl
    rcases hadmitted with hok | ⟨fault, herror⟩
    · rw [run_bind hok] at h
      cases h
      rfl
    · simp only [EStateM.run, bind, EStateM.bind] at h herror
      rw [herror] at h
      cases h
  · cases h

/-- An attribute of an element of hypertext, set to one text or another, shows in the text of any element
only in its own slot, and the slot is free of the characters that end a tag or a value; the one exception is
the name of a form error. -/
theorem attributes_stay_in_slots {d : Document} (hd : d.isHypertext = true) {id : Nat} {n : Node}
    (hn : d.nodes[id]? = some n) {home tag : Text} (hhome : home = "html".toList ∨ home = "browser_hacks".toList)
    (hkind : libraryClass? home tag = some n.kind)
    (hform : ∀ f, n.kind.form? = some f → f.isVerbatim = false) (name : Text) (shown : Showing) (depth root : Nat) :
    ((∃ fault, ∀ s e, (Act.setAttribute shown id name (.text s)).run d = .ok () e →
        ((Drawing.ofDepth depth).shown (.element root)).run e = .error fault e) ∨
      ∃ pieces : List (Option Text), ∀ s e, (Act.setAttribute shown id name (.text s)).run d = .ok () e →
        ((Drawing.ofDepth depth).shown (.element root)).run e =
          .ok (pieces.flatMap (·.getD (n.kind.slot name (n.kind.held name s).shown))) e) ∧
    ((∀ s, ∀ c ∈ n.kind.slot name (n.kind.held name s).shown, c ≠ '<' ∧ c ≠ '>' ∧ c ≠ '"') ↔
      ¬ (n.kind.form? = some .formError ∧ name = "name".toList)) := by
  refine ⟨?_, n.kind.slot_free_iff name⟩
  have hdomain := n.kind.domain_of_holdsTexts (holdsTexts_of_library hhome hkind) name
  have hset {s : Text} {e : Document} (h : (Act.setAttribute shown id name (.text s)).run d = .ok () e) :=
    setAttribute_text hn (hdomain.imp_right And.left) h
  by_cases hallows : n.kind.allows name = true
  · have htext (hname : name = "name".toList ∨ name = "cond".toList) (s : Text) : n.kind.held name s = .text s := by
      rcases hdomain with hdomain | ⟨-, hother, hother'⟩
      · rw [Class.held, hdomain]
      · exact absurd hname (not_or.2 ⟨hother, hother'⟩)
    have hexposes := exposes_held (d := d) (d.isHypertext_node hd hn).2 hform hallows htext
    rcases shown_uniform (drawn_uniform hd hn hexposes depth root) with ⟨fault, hfault⟩ | ⟨r, ⟨pieces, hr⟩, hrun⟩
    · refine .inl ⟨fault, fun s e h => ?_⟩
      rw [(hset h).2]
      exact hfault s
    · refine .inr ⟨pieces, fun s e h => ?_⟩
      rw [(hset h).2, ← hr s]
      exact hrun s
  · exact .inl ⟨.unsuitable, fun s e h => absurd (hset h).1 hallows⟩

def htmlClass (tag : String) : Class := (libraryClass? "html".toList tag.toList).getD .base

def titledLink : Node :=
  { kind := htmlClass "a", attributes := [("title".toList, .text ['"']), ("href".toList, .text ['x'])] }

def linkedTwice : Document :=
  { nodes := #[{ kind := htmlClass "p", children := [.element 1, .text ['<'], .element 1] }, titledLink] }

theorem attributes_stay_in_slots_linkedTwice :
    linkedTwice.isHypertext = true ∧ (htmlClass "a").form? = some .paired ∧ ((∃ fault, ∀ s e,
          (Act.setAttribute Drawing.standard.shown 1 "href".toList (.text s)).run linkedTwice = .ok () e →
            ((Drawing.ofDepth 3).shown (.element 0)).run e = .error fault e) ∨ ∃ pieces : List (Option Text), ∀ s e,
          (Act.setAttribute Drawing.standard.shown 1 "href".toList (.text s)).run linkedTwice = .ok () e →
            ((Drawing.ofDepth 3).shown (.element 0)).run e =
              .ok (pieces.flatMap (·.getD ((htmlClass "a").slot "href".toList
                ((htmlClass "a").held "href".toList s).shown))) e) ∧
      ∀ s, ∀ c ∈ (htmlClass "a").slot "href".toList ((htmlClass "a").held "href".toList s).shown,
        c ≠ '<' ∧ c ≠ '>' ∧ c ≠ '"' := by
  have hplain : linkedTwice.isHypertext = true := by decide +kernel
  have hform : (htmlClass "a").form? = some .paired := by decide +kernel
  have hkind : libraryClass? "html".toList "a".toList = some (htmlClass "a") := by
    have hsome : (libraryClass? "html".toList "a".toList).isSome = true := by decide +kernel
    obtain ⟨kind, hkind⟩ := Option.isSome_iff_exists.1 hsome
    rw [htmlClass, hkind]
    rfl
  have hn : linkedTwice.nodes[1]? = some titledLink := rfl
  have hwritten (f : Form) (hf : titledLink.kind.form? = some f) : f.isVerbatim = false := by
    cases hform.symm.trans hf
    rfl
  have h := attributes_stay_in_slots hplain hn (.inl rfl) hkind hwritten "href".toList Drawing.standard.shown 3 0
  exact ⟨hplain, hform, h.1, h.2.2 fun herror => nomatch hform.symm.trans herror.1⟩

def oneFormError : Document := { nodes := #[{ kind := htmlClass "form_error" }] }

/-- The name of a form error can end the tag and begin another. -/
theorem oneFormError_not_escaped : ∃ e,
    (Act.setAttribute Drawing.standard.shown 0 "name".toList (.text "\"><script>".toList)).run oneFormError = .ok () e ∧
      ((Drawing.ofDepth 1).shown (.element 0)).run e = .ok "<form:error name=\"\"><script>\" />".toList e :=
  ⟨_, rfl, rfl⟩

end InlineMarkup.Element

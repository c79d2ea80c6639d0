import InlineMarkup.Proofs.Legality

/-!
Sessions and the attributes that elements store. All work on documents keeps classes and the kinds of elements, and
what is stored stays legal. Main statement: after any session every attribute that is stored is legal, and setting an
attribute changes that one only, or nothing.
-/
namespace InlineMarkup.Element

/-! ### Documents with legal attributes -/

/-- The classes have no choices with lists, and the attributes of all elements are legal. -/
structure Document.Lawful (d : Document) : Prop where
  classes : ∀ c ∈ d.classes, c.2.isPlain = true
  nodes : ∀ {id : Nat} {n : Node}, d.nodes[id]? = some n → n.kind.isPlain = true ∧ n.Legal

theorem Document.Lawful.class? {d : Document} (h : d.Lawful) {name : Text} {kind : Class}
    (hkind : d.class? name = some kind) : kind.isPlain = true := by
  unfold Document.class? at hkind
  split at hkind
  · exact isPlain_of_library hkind
  · obtain ⟨front, back, hsplit, -⟩ := List.lookup_eq_some_iff.1 hkind
    exact h.classes (name, kind) (by simp [hsplit])

/-- One document comes after another: classes and the kinds of elements are the same, and attributes that
were legal still are. -/
structure Follows (d e : Document) : Prop where
  classes : e.classes = d.classes
  kinds : ∀ {id : Nat} {n : Node}, d.nodes[id]? = some n → ∃ m, e.nodes[id]? = some m ∧ m.kind = n.kind
  lawful : d.Lawful → e.Lawful

instance : IsPreorder Document Follows where
  refl _ := ⟨rfl, fun h => ⟨_, h, rfl⟩, id⟩
  trans _ _ _ h h' := by
    refine ⟨h'.classes.trans h.classes, fun hn => ?_, fun hd => h'.lawful (h.lawful hd)⟩
    obtain ⟨m, hm, hkind⟩ := h.kinds hn
    obtain ⟨k, hk, hkind'⟩ := h'.kinds hm
    exact ⟨k, hk, hkind'.trans hkind⟩

theorem Follows.class? {d e : Document} (h : Follows d e) (name : Text) : e.class? name = d.class? name := by
  rw [Document.class?, Document.class?, h.classes]

theorem follows_of_nodes {d e : Document} (hclasses : e.classes = d.classes) (hnodes : e.nodes = d.nodes) :
    Follows d e :=
  ⟨hclasses, fun h => ⟨_, hnodes ▸ h, rfl⟩, fun h => ⟨hclasses ▸ h.classes, fun hn => h.nodes (hnodes ▸ hn)⟩⟩

theorem follows_modify (d : Document) (id : Nat) {f : Node → Node} (hkind : ∀ n, (f n).kind = n.kind)
    (hlegal : ∀ n, d.nodes[id]? = some n → n.kind.isPlain = true → n.Legal → (f n).Legal) :
    Follows d { d with nodes := d.nodes.modify id f } := by
  refine ⟨rfl, fun {other n} hn => ?_, fun hd => ⟨hd.classes, fun {other n} hn => ?_⟩⟩
  · rw [Array.getElem?_modify, hn]
    split
    · exact ⟨f n, rfl, hkind n⟩
    · exact ⟨n, rfl, rfl⟩
  · rw [Array.getElem?_modify] at hn
    split at hn
    · rename_i hid
      obtain ⟨m, hm, rfl⟩ := Option.map_eq_some_iff.1 hn
      obtain ⟨hplain, hm'⟩ := hd.nodes hm
      exact ⟨(hkind m).symm ▸ hplain, hlegal m (hid ▸ hm) hplain hm'⟩
    · exact hd.nodes hn

theorem follows_push (d : Document) {kind : Class} (hkind : d.Lawful → kind.isPlain = true) :
    Follows d { d with nodes := d.nodes.push { kind } } := by
  refine ⟨rfl, fun {id n} hn => ?_, fun hd => ⟨hd.classes, fun {id n} hn => ?_⟩⟩
  · have hlt : id < d.nodes.size := (Array.getElem?_eq_some_iff.1 hn).1
    exact ⟨n, by rw [Array.getElem?_push, if_neg (by omega), hn], rfl⟩
  · rw [Array.getElem?_push] at hn
    split at hn
    · cases hn
      exact ⟨hkind hd, nofun⟩
    · exact hd.nodes hn

namespace Act

variable {shown : Showing} {id : Nat}

/-! ### Setting attributes -/

theorem goes_share (v : Value) : (share v).Goes Follows := by
  cases v with
  | list items => exact fun d => follows_of_nodes rfl rfl
  | _ => exact fun d => refl_of Follows d

theorem goes_update {f : Node → Node} (hkind : ∀ n, (f n).kind = n.kind)
    (hattributes : ∀ n, (f n).attributes = n.attributes) : (update id f).Goes Follows := by
  intro d
  refine follows_modify d id hkind fun n _ _ h => ?_
  rw [Node.Legal, hattributes, hkind]
  exact h

theorem goes_extend (place : Place) (items : List Value) : (extend place items).Goes Follows := by
  cases place with
  | children id => exact goes_update (fun _ => rfl) fun _ => rfl
  | made n => exact fun d => follows_of_nodes rfl rfl

/-- What comes of admitting a value: a failure, or a value that may be held. The elements are as they were, or as
finding the text of the value has left them. -/
theorem admitted_outcome (shown : Showing) (n : Node) (name : Text) (v : Value) (d : Document) :
    ∃ mid, (mid = d ∨ mid = (shown v).left d) ∧ ((∃ fault, (admitted shown n name v).run d = .error fault mid) ∨
      ∃ w e, (admitted shown n name v).run d = .ok w e ∧ e.nodes = mid.nodes ∧ e.classes = mid.classes ∧
        (n.kind.isPlain = true → v.isNone = false →
          (n.kind.domain name).holds w = true ∧ w.isNone = false)) := by
  have hflat (hplain : n.kind.isPlain = true) {values : List Value} :=
    @Class.flat_of_isPlain n.kind hplain name values
  have hget : (get : Act Document).run d = .ok d d := rfl
  unfold admitted
  dsimp only
  generalize n.kind.domain name = domain at hflat ⊢
  split
  · exact ⟨d, .inl rfl, .inl ⟨_, rfl⟩⟩
  · rw [run_bind hget]
    split
    · rename_i hany
      refine ⟨d, .inl rfl, .inr ⟨v, d, rfl, rfl, rfl, fun hplain hv => ⟨?_, hv⟩⟩⟩
      obtain ⟨c, hc, hsame⟩ := List.any_eq_true.1 hany
      have hsame' := same_settled d v (Value.mem_of_areFlat (hflat hplain rfl) c hc)
      exact List.any_eq_true.2 ⟨c, hc, hsame' ▸ hsame⟩
    · refine ⟨_, .inr rfl, .inl ?_⟩
      cases hs : (shown v).run d with
      | ok text e =>
        rw [run_bind hs, left_ok hs]
        exact ⟨_, rfl⟩
      | error fault e =>
        rw [run_bind_error hs, left_error hs]
        exact ⟨_, rfl⟩
  · split
    · exact ⟨d, .inl rfl, .inr ⟨_, d, rfl, rfl, rfl, fun _ _ => ⟨rfl, rfl⟩⟩⟩
    · refine ⟨_, .inr rfl, ?_⟩
      cases hs : (shown v).run d with
      | ok text e =>
        have hwhole : (shown v >>= fun s => pure (Value.text s)).run d = .ok (.text text) e := run_bind hs
        rw [left_ok hs]
        refine .inr ⟨.text text, e, ?_, rfl, rfl, fun _ _ => ⟨rfl, rfl⟩⟩
        simp only [EStateM.run, tryCatch, tryCatchThe, MonadExceptOf.tryCatch, EStateM.tryCatch] at hwhole ⊢
        rw [hwhole]
      | error fault e =>
        have hwhole : (shown v >>= fun s => pure (Value.text s)).run d = .error fault e := run_bind_error hs
        rw [left_error hs]
        simp only [EStateM.run, tryCatch, tryCatchThe, MonadExceptOf.tryCatch, EStateM.tryCatch] at hwhole ⊢
        rw [hwhole]
        exact .inl ⟨_, rfl⟩
  · split
    · rename_i hholds
      exact ⟨d, .inl rfl, .inr ⟨v, d, rfl, rfl, rfl, fun _ hv => ⟨hholds, hv⟩⟩⟩
    · rw [run_bind hget]
      split
      · rename_i converted hconvert
        refine ⟨d, .inl rfl, .inr ?_⟩
        cases converted with
        | list items =>
          refine ⟨_, _, rfl, rfl, rfl, fun _ hv => ⟨?_, rfl⟩⟩
          have hholds := (holds_of_convert? hv hconvert).1
          cases domain with
          | list | anything => rfl
          | choice => cases hconvert
          | _ => cases hholds
        | _ => exact ⟨_, d, rfl, rfl, rfl, fun _ hv => holds_of_convert? hv hconvert⟩
      · exact ⟨d, .inl rfl, .inl ⟨_, rfl⟩⟩

theorem admitted_holds {n : Node} {name : Text} {v w : Value} {d e : Document} (hplain : n.kind.isPlain = true)
    (hv : v.isNone = false) (h : (admitted shown n name v).run d = .ok w e) :
    (n.kind.domain name).holds w = true ∧ w.isNone = false := by
  obtain ⟨mid, -, ⟨fault, hfault⟩ | ⟨w', e', hw, -, -, hholds⟩⟩ := admitted_outcome shown n name v d
  · cases hfault.symm.trans h
  · cases hw.symm.trans h
    exact hholds hplain hv

section

variable (hshown : ∀ v, (shown v).Goes Follows)

include hshown

theorem goes_admitted (n : Node) (name : Text) (v : Value) :
    (admitted shown n name v).Goes Follows := by
  intro d
  obtain ⟨mid, hmid, h⟩ := admitted_outcome shown n name v d
  have hfollows : Follows d mid := by
    rcases hmid with rfl | rfl
    · exact refl_of Follows mid
    · exact hshown v d
  rcases h with ⟨fault, hfault⟩ | ⟨w, e, hw, hnodes, hclasses, -⟩
  · exact (left_error hfault).symm ▸ hfollows
  · exact (left_ok hw).symm ▸ trans_of Follows hfollows (follows_of_nodes hclasses hnodes)

theorem goes_setAttribute (id : Nat) (name : Text) (v : Value) :
    (setAttribute shown id name v).Goes Follows := by
  intro d
  refine left_bind ((goes_node id) d) fun n e hnode => ?_
  obtain ⟨hn, rfl⟩ := node_of_ok hnode
  split
  · rename_i hallows
    split
    · exact follows_modify e id (fun _ => rfl) fun m _ _ h => h.erase name
    · rename_i hv
      have hv : v.isNone = false := by
        cases v with
        | none => exact absurd rfl hv
        | _ => rfl
      have hgoes := goes_admitted hshown n name v e
      refine left_bind hgoes fun w f hw => ?_
      rw [left_ok hw] at hgoes
      refine follows_modify f id (fun _ => rfl) fun m hm hplain h => ?_
      -- the element may have changed while the value was converted, but not its class
      obtain ⟨m', hm', hkind⟩ := hgoes.kinds hn
      obtain rfl : m' = m := Option.some_inj.1 (hm'.symm.trans hm)
      obtain ⟨hholds, hnone⟩ := admitted_holds (hkind ▸ hplain) hv hw
      exact h.put (hkind ▸ hallows) hnone (hkind ▸ hholds)
  · exact goes_throw _ _

theorem goes_setAttributes (id : Nat) (pairs : List (Text × Value)) :
    (setAttributes shown id pairs).Goes Follows :=
  goes_forM pairs fun (name, v) _ => goes_setAttribute hshown id name v

theorem goes_transfer (source : Nat) (target : Value) :
    (transfer shown source target).Goes Follows := by
  refine (goes_node source).bind fun n => goes_forM _ fun (name, v) _ => ?_
  refine (quiet_asElement target).goes.bind fun other => (goes_node other).bind fun m => ?_
  split
  · refine (quiet_attributeOf other name .none).goes.bind fun w => ?_
    split
    · exact goes_setAttribute hshown other name v
    · exact goes_pure _
  · exact goes_pure _

theorem goes_identifier (id : Nat) : (identifier shown id).Goes Follows := by
  refine (quiet_attributeOf id _ _).goes.bind fun v => goes_get.bind fun d => ?_
  split
  · exact goes_pure v
  · refine Goes.bind (fun d => follows_of_nodes rfl rfl) fun _ => goes_get.bind fun d => ?_
    exact (goes_setAttribute hshown id _ _).thenPure

theorem goes_addClass (id : Nat) (added : Value) :
    (addClass shown id added).Goes Follows := by
  refine goes_get.bind fun d => ?_
  split
  · refine (quiet_attributeOf id _ _).goes.bind fun current => goes_get.bind fun d => ?_
    dsimp only
    split
    · refine Goes.bind ?_ fun joined => goes_setAttribute hshown id _ joined
      unfold joinClasses
      split
      · exact goes_pure _
      · exact (goes_extend _ _).thenPure
      · exact goes_throw _
    · exact (goes_pure added).bind fun joined => goes_setAttribute hshown id _ joined
  · exact goes_pure _

/-! ### Selecting and adding children -/

theorem goes_isSelected (selector : Text) (child : Value) :
    (isSelected shown selector child).Goes Follows := by
  unfold isSelected
  split
  · exact (quiet_asElement child).goes.bind fun i => (quiet_attributeOf i _ _).goes.bind fun v =>
      goes_get.bind fun _ => (quiet_isFoundIn _ _).goes
  · exact (quiet_asElement child).goes.bind fun i => (goes_identifier hshown i).bind fun v =>
      goes_get.thenPure
  · split
    · exact (goes_node _).thenPure
    · exact goes_pure _

theorem goes_selectFrom (selector : Text) (exclude : Bool) (vs : List Value) :
    (selectFrom shown selector exclude vs).Goes Follows := by
  induction vs with
  | nil => exact goes_pure []
  | cons v vs ih => exact (goes_isSelected hshown selector v).bind fun _ => ih.thenPure

theorem goes_select (id : Nat) (selector : Option Text) (exclude : Bool) :
    (select shown id selector exclude).Goes Follows := by
  refine (goes_node id).bind fun n => ?_
  split
  · exact goes_pure _
  · exact goes_pure _
  · exact (goes_selectFrom hshown _ exclude _).thenPure

end

theorem goes_append (id : Nat) (child : Value) : (append id child).Goes Follows := by
  refine (goes_node id).bind fun n => ?_
  have hadd : (do
      let added := ((← get).opened child).items?.getD [child]
      extend (.children id) (added.filter isChild) : Act Unit).Goes Follows :=
    goes_get.bind fun d => goes_extend _ _
  dsimp only
  split
  · exact (goes_throw _).bind fun _ => hadd
  · exact hadd

theorem goes_prepend (id : Nat) (child : Value) : (prepend id child).Goes Follows := by
  refine (goes_node id).bind fun n => ?_
  split
  · exact goes_update (fun _ => rfl) fun _ => rfl
  · exact goes_pure _

theorem goes_note (what : String) (id : Nat) : (note what id).Goes Follows :=
  (goes_node id).bind fun _ _ => follows_of_nodes rfl rfl

end Act

/-! ### Drawing -/

namespace Drawing

open Act

/-- Drawing goes along what documents may become. -/
structure Goes (draw : Drawing) : Prop where
  tree : ∀ id, (draw.tree id).Goes Follows
  base : ∀ id, (draw.base id).Goes Follows

variable {draw : Drawing}

theorem Goes.shown (h : draw.Goes) (v : Value) : (draw.shown v).Goes Follows := by
  cases v with
  | element id => exact (h.tree id).bind fun _ => (quiet_ofExcept _).goes
  | _ => exact goes_get.thenPure

theorem make_follows (h : draw.Goes) {kind : Class} {arguments : List (Text × Value)} {d : Document}
    (hkind : d.Lawful → kind.isPlain = true) : Follows d ((make draw kind arguments).left d) := by
  unfold make
  dsimp only
  split
  · exact left_bind (goes_throw _ d) fun _ _ h => by cases h
  · refine left_bind (x := create kind) (follows_push d hkind) fun id e _ => ?_
    exact ((goes_setAttributes h.shown id _).thenPure) e

theorem classNamed_of_ok {name : Text} {kind : Class} {d e : Document} (h : (classNamed name).run d = .ok kind e) :
    d.class? name = some kind ∧ e = d := by
  cases hkind : d.class? name with
  | none =>
    have hfail : (classNamed name).run d = .error .unknownName d := by
      unfold classNamed
      simp only [EStateM.run, Bind.bind, EStateM.bind, get, getThe, MonadStateOf.get, EStateM.get, hkind]
      rfl
    cases hfail.symm.trans h
  | some c =>
    have hok : (classNamed name).run d = .ok c d := by
      unfold classNamed
      simp only [EStateM.run, Bind.bind, EStateM.bind, get, getThe, MonadStateOf.get, EStateM.get, hkind]
      rfl
    cases hok.symm.trans h
    exact ⟨rfl, rfl⟩

mutual

theorem Goes.evaluate (h : draw.Goes) (self : Value) : ∀ t : Template, (draw.evaluate self t).Goes Follows
  | .value v => by
    rw [Drawing.evaluate]
    exact goes_pure v
  | .moment fields => by
    rw [Drawing.evaluate]
    split
    · exact goes_throw _
    · split
      · exact goes_pure _
      · exact goes_throw _
  | .list items => by
    rw [Drawing.evaluate]
    exact (h.evaluateAll self items).bind fun _ => goes_share _
  | .tuple items => by
    rw [Drawing.evaluate]
    exact (h.evaluateAll self items).thenPure
  | .table keys values => by
    rw [Drawing.evaluate]
    refine (h.evaluateAll self keys).bind fun _ => (h.evaluateAll self values).bind fun _ => ?_
    split
    · exact goes_pure _
    · exact goes_throw _
  | .variable name => by
    rw [Drawing.evaluate]
    exact (quiet_variableValue name).goes
  | .raw content => by
    rw [Drawing.evaluate]
    refine (h.evaluate self content).bind fun v d => ?_
    refine left_bind ((quiet_classNamed _).goes d) fun kind e hnamed => ?_
    obtain ⟨hkind, rfl⟩ := classNamed_of_ok hnamed
    exact left_bind (make_follows h fun he => he.class? hkind) fun _ f _ => goes_pure _ f
  | .make className names values children => by
    rw [Drawing.evaluate]
    intro d
    refine left_bind ((quiet_classNamed className).goes d) fun kind e hnamed => ?_
    obtain ⟨hkind, rfl⟩ := classNamed_of_ok hnamed
    have hvalues := h.evaluateAll self values e
    refine left_bind hvalues fun vs f hvs => ?_
    rw [left_ok hvs] at hvalues
    -- the class is still known by its name
    refine left_bind (make_follows h fun hf => hf.class? ((hvalues.class? className).trans hkind)) fun id g _ => ?_
    exact ((h.evaluateAll self children).bind fun cs => (goes_forM cs fun c _ => goes_append id c).thenPure) g
  | .ownAttribute name => by
    rw [Drawing.evaluate]
    exact (quiet_asElement self).goes.bind fun id => (quiet_attributeOf id name _).goes
  | .ownChildren selector => by
    rw [Drawing.evaluate]
    exact (quiet_asElement self).goes.bind fun id => (goes_select h.shown id selector false).bind fun _ => goes_share _

theorem Goes.evaluateAll (h : draw.Goes) (self : Value) : ∀ ts : List Template, (draw.evaluateAll self ts).Goes Follows
  | [] => by
    rw [Drawing.evaluateAll]
    exact goes_pure []
  | t :: ts => by
    rw [Drawing.evaluateAll]
    exact (h.evaluate self t).bind fun _ => (h.evaluateAll self ts).thenPure

end

theorem quiet_property (id : Nat) (name : Text) : (property id name).Quiet := by
  refine (quiet_node id).bind fun n => ?_
  split_ifs
  all_goals first
    | exact quiet_pure _
    | exact quiet_throw _
    | exact quiet_ofExcept _

theorem quiet_methodOf {α : Type} (v : Value) (name : String) : (methodOf v name : Act α).Quiet := by
  cases v with
  | element id => exact (quiet_property id _).bind fun _ => quiet_throw _
  | _ => exact quiet_throw _

theorem Goes.onElement (h : draw.Goes) (self : Value) (id : Nat) (step : Step) :
    (draw.onElement self id step).Goes Follows := by
  match step with
  | .append child => exact (h.evaluate self child).bind fun v => (goes_append id v).thenPure
  | .prepend child => exact (h.evaluate self child).bind fun v => (goes_prepend id v).thenPure
  | .appendAll children | .call children =>
    exact (h.evaluateAll self children).bind fun vs => (goes_forM vs fun v _ => goes_append id v).thenPure
  | .setAttribute name value =>
    exact (h.evaluate self value).bind fun v => (goes_setAttribute h.shown id name v).thenPure
  | .setAttributes names values =>
    exact (h.evaluateAll self values).bind fun vs => (goes_setAttributes h.shown id _).thenPure
  | .addClass value =>
    exact (h.evaluate self value).bind fun v => (goes_addClass h.shown id v).thenPure
  | .transfer recipient =>
    exact (quiet_variableValue recipient).goes.bind fun v => (goes_transfer h.shown id v).thenPure
  | .children selector exclude => exact goes_select h.shown id selector exclude
  | .attribute name default => exact (h.evaluate self default).bind fun v => (quiet_attributeOf id name v).goes
  | .property name => exact (quiet_property id name).goes
  | .attributes => exact (goes_node id).thenPure
  | .classes => exact (quiet_attributeOf id _ _).goes
  | .identifier => exact goes_identifier h.shown id
  | .allows name => exact (goes_node id).thenPure
  | .text | .markup => exact (h.shown _).thenPure
  | .base => exact h.base id

theorem Goes.onValue (h : draw.Goes) (self target : Value) (step : Step) :
    (draw.onValue self target step).Goes Follows := by
  unfold Drawing.onValue
  split
  · exact h.onElement self _ step
  · exact (h.evaluate self _).bind fun v => (goes_extend _ _).thenPure
  · exact (h.shown _).thenPure
  · exact (h.evaluateAll self _).bind fun _ => goes_throw _
  · exact goes_throw _

/-! ### Contents and trees -/

def finished (draw : Drawing) (id : Nat) (n : Node) : Act Value := do
  match n.kind.after? with
  | some steps =>
    note "postrender " id
    let made := (← node id).content
    steps.forM fun s => do let _ ← draw.onValue (.element id) made s
  | none => pure ()
  return (← node id).content

def rendered (draw : Drawing) (id : Nat) (n : Node) : Act Value :=
  match n.kind.content? with
  | some content => do
    note "render " id
    let made ← draw.evaluate (.element id) content
    update id fun n => { n with content? := some made }
    draw.finished id n
  | none => throw .unwritable

theorem contentOf_eq (draw : Drawing) (id : Nat) : draw.contentOf id = do
    let n ← node id
    if n.content.isNone then
      match n.kind.before? with
      | some steps =>
        note "prerender " id
        steps.forM fun s => do let _ ← draw.onValue (.element id) (.element id) s
        draw.rendered id n
      | none => draw.rendered id n
    else return (← node id).content := rfl

theorem Goes.contentOf (h : draw.Goes) (id : Nat) : (draw.contentOf id).Goes Follows := by
  have hlast : (node id >>= fun n => pure n.content).Goes Follows :=
    (goes_node id).thenPure
  have hsteps (target : Value) (steps : List Step) :
      (steps.forM fun s => draw.onValue (.element id) target s >>= fun _ => pure ()).Goes Follows :=
    goes_forM steps fun s _ => (h.onValue (.element id) target s).thenPure
  have hfinished (n : Node) : (draw.finished id n).Goes Follows := by
    unfold finished
    dsimp only
    split
    · exact (goes_note _ id).bind fun _ => (goes_node id).bind fun m => (hsteps _ _).bind fun _ => hlast
    · exact hlast
  have hrendered (n : Node) : (draw.rendered id n).Goes Follows := by
    unfold rendered
    split
    · refine (goes_note _ id).bind fun _ => (h.evaluate _ _).bind fun made => ?_
      exact Act.Goes.bind (goes_update (fun _ => rfl) fun _ => rfl) fun _ => hfinished n
    · exact goes_throw _
  rw [contentOf_eq]
  refine (goes_node id).bind fun n => ?_
  split
  · split
    · exact (goes_note _ id).bind fun _ => (hsteps _ _).bind fun _ => hrendered n
    · exact hrendered n
  · exact hlast

theorem quiet_words (v : Value) : (words v).Quiet := by
  unfold words
  split
  · exact quiet_pure _
  · exact quiet_throw _
  · exact quiet_methodOf v "split"

theorem quiet_wordsOf (id : Nat) : (wordsOf id).Quiet := by
  refine quiet_get.bind fun d => (quiet_attributeOf id _ _).bind fun v => ?_
  dsimp only
  split
  · exact quiet_words _
  · exact quiet_pure _

theorem Goes.follow (h : draw.Goes) (limit : Nat) (v : Value) (found : List Text) :
    (draw.follow limit v found).Goes Follows := by
  induction limit generalizing v found with
  | zero =>
    unfold Drawing.follow
    split
    · refine (goes_node _).bind fun n => ?_
      split
      · exact goes_throw _
      · exact goes_pure _
    · exact goes_pure _
  | succ limit ih =>
    unfold Drawing.follow
    split
    · refine (goes_node _).bind fun n => ?_
      split
      · exact (h.contentOf _).bind fun v => (quiet_wordsOf _).goes.bind fun more => ih v _
      · exact goes_pure _
    · exact goes_pure _

theorem Goes.baseOf (h : draw.Goes) (limit id : Nat) : (draw.baseOf limit id).Goes Follows := by
  refine (goes_node id).bind fun n => ?_
  split
  · refine (h.contentOf id).bind fun first => (quiet_wordsOf id).goes.bind fun own => ?_
    refine (h.follow limit first own).bind fun (last, found) => ?_
    dsimp only
    split
    · refine goes_get.bind fun d => (quiet_attributeOf _ _ _).goes.bind fun v => ?_
      exact (quiet_words _).goes.bind fun more => (goes_setAttribute h.shown _ _ _).thenPure
    · exact goes_pure _
  · exact (quiet_property id _).goes

theorem Goes.childTrees (h : draw.Goes) (vs : List Value) : (draw.childTrees vs).Goes Follows := by
  induction vs with
  | nil => exact goes_pure []
  | cons v vs ih =>
    unfold Drawing.childTrees
    split
    · exact goes_pure []
    · rename_i heq
      cases heq
      exact ih
    · rename_i heq
      cases heq
      exact (h.tree _).bind fun _ => ih.thenPure
    · rename_i heq
      cases heq
      exact (h.shown _).bind fun _ => ih.thenPure

theorem Goes.attributeTexts (h : draw.Goes) (attributes : List (Text × Value)) :
    (draw.attributeTexts attributes).Goes Follows := by
  induction attributes with
  | nil => exact goes_pure []
  | cons a rest ih => exact (h.shown a.2).bind fun _ => ih.thenPure

theorem Goes.treeOf (h : draw.Goes) (limit id : Nat) : (draw.treeOf limit id).Goes Follows := by
  have hchildren : (draw.childrenNow id).Goes Follows := (goes_node id).bind fun n => h.childTrees _
  have hdeclaration (name opening closing : String) : (declarationOf id name opening closing).Goes Follows :=
    ((quiet_attributeOf id _ _).bind fun _ => quiet_pure _).goes
  refine (goes_node id).bind fun n => ?_
  split
  · exact goes_throw _
  · exact (h.attributeTexts _).bind fun _ => hchildren.thenPure
  · exact goes_get.bind fun _ => (h.attributeTexts _).bind fun _ => hchildren.thenPure
  · exact (h.attributeTexts _).thenPure
  · exact goes_pure _
  · exact hdeclaration _ _ _
  · exact hdeclaration _ _ _
  · exact hdeclaration _ _ _
  · exact hdeclaration _ _ _
  · refine (quiet_attributeOf id _ _).goes.bind fun v => ?_
    split
    · exact goes_pure _
    · split
      · exact goes_pure _
      · exact goes_throw _
    · exact goes_throw _
  · exact hchildren.thenPure
  · split
    · exact hchildren.thenPure
    · exact goes_throw _
    · exact (quiet_methodOf _ _).goes
  · exact goes_pure _
  · refine (quiet_attributeOf id _ _).goes.bind fun v => ?_
    split
    · exact goes_pure _
    · exact (quiet_methodOf _ _).goes
  · exact hchildren.thenPure
  · refine (h.baseOf limit id).bind fun v => ?_
    split
    · exact goes_pure _
    · exact h.tree _
    · exact (h.shown _).thenPure

theorem goes_ofDepth (depth : Nat) : (ofDepth depth).Goes := by
  induction depth with
  | zero => exact ⟨fun _ => goes_throw _, fun _ => goes_throw _⟩
  | succ depth ih => exact ⟨ih.treeOf chainLimit, ih.baseOf chainLimit⟩

end Drawing

/-! ### Sessions -/

namespace Session

open Act

/-- One document comes after another, with more classes perhaps. -/
structure Extends (d e : Document) : Prop where
  classes : ∀ c ∈ d.classes, c ∈ e.classes
  lawful : d.Lawful → (∀ c ∈ e.classes, c.2.isPlain = true) → e.Lawful

instance : IsPreorder Document Extends where
  refl _ := ⟨fun _ h => h, fun h _ => h⟩
  trans _ _ _ h h' := ⟨fun c hc => h'.classes c (h.classes c hc), fun hd hplain =>
    h'.lawful (h.lawful hd fun c hc => hplain c (h'.classes c hc)) hplain⟩

theorem extends_of_follows {α : Type} {x : Act α} (h : x.Goes Follows) : x.Goes Extends :=
  fun d => ⟨fun _ hc => (h d).classes ▸ hc, fun hd _ => (h d).lawful hd⟩

theorem goes_run (s : Statement) : (run s).Goes Extends := by
  have hdraw : Drawing.standard.Goes := Drawing.goes_ofDepth _
  cases s with
  | assign name value =>
    refine extends_of_follows ((hdraw.evaluate .none value).bind fun v => ?_)
    exact Goes.bind (fun d => follows_of_nodes rfl rfl) fun _ => goes_pure _
  | takeLog =>
    refine extends_of_follows (goes_get.bind fun d => ?_)
    exact Goes.bind (fun d => follows_of_nodes rfl rfl) fun _ => goes_pure _
  | on name step =>
    exact extends_of_follows ((quiet_variableValue name).goes.bind fun v => (hdraw.onValue v v step).thenPure)
  | define name bases attributes content? before? after? =>
    have hdomain (declared : Declared) : (domainOf declared).Goes Extends := by
      cases declared with
      | plain domain => exact goes_pure _
      | oneOf values => exact extends_of_follows ((hdraw.evaluateAll .none values).thenPure)
    refine Goes.bind ?_ fun kind => goes_pure _
    refine (goes_mapM bases fun b => (quiet_classNamed b).goes).bind fun kinds => ?_
    refine (goes_mapM attributes fun (a, d) => (hdomain d).thenPure).bind fun domains => ?_
    refine goes_get.bind fun d => (quiet_ofExcept _).goes.bind fun kind => ?_
    refine Goes.bind (fun d => ?_) fun _ => goes_pure _
    exact ⟨fun c hc => List.mem_cons_of_mem _ hc, fun hd hplain => ⟨hplain, hd.nodes⟩⟩

/-- The document after some statements, each of which may fail. -/
def after (statements : List Statement) (d : Document) : Document :=
  statements.foldl (fun d s => (run s).left d) d

theorem after_extends (statements : List Statement) (d : Document) : Extends d (after statements d) := by
  induction statements generalizing d with
  | nil => exact refl_of Extends d
  | cons s rest ih => exact trans_of Extends (goes_run s d) (ih _)

end Session

/-! ### Setting one attribute -/

theorem lookup_erase (n : Node) {name other : Text} (h : other ≠ name) :
    (n.erase name).attributes.lookup other = n.attributes.lookup other := by
  unfold Node.erase
  generalize n.attributes = attributes
  induction attributes with
  | nil => rfl
  | cons a rest ih =>
    by_cases ha : a.1 = name
    · rw [List.filter_cons_of_neg (by simpa using ha), ih, List.lookup_cons, beq_eq_false_iff_ne.2 (ha ▸ h)]
    · rw [List.filter_cons_of_pos (by simpa using ha), List.lookup_cons, List.lookup_cons, ih]

/-- Between the documents only one attribute of one element differs. -/
structure OnlyAttribute (id : Nat) (name : Text) (d e : Document) : Prop where
  others : ∀ j, j ≠ id → e.nodes[j]? = d.nodes[j]?
  element : ∀ n, d.nodes[id]? = some n → ∃ m, e.nodes[id]? = some m ∧ m.kind = n.kind ∧ m.children = n.children ∧
    m.content? = n.content? ∧ ∀ other, other ≠ name → m.attributes.lookup other = n.attributes.lookup other

theorem onlyAttribute_modify {id : Nat} {name : Text} {d e : Document} {f : Node → Node}
    (hnodes : e.nodes = d.nodes.modify id f) (hkind : ∀ n, (f n).kind = n.kind) (hchildren : ∀ n, (f n).children
    = n.children)
    (hcontent : ∀ n, (f n).content? = n.content?)
    (hlookup : ∀ n other, other ≠ name → (f n).attributes.lookup other = n.attributes.lookup other) :
    OnlyAttribute id name d e := by
  refine ⟨fun j hj => ?_, fun n hn => ⟨f n, ?_, hkind n, hchildren n, hcontent n, hlookup n⟩⟩
  · rw [hnodes, Array.getElem?_modify, if_neg (Ne.symm hj)]
  · rw [hnodes, Array.getElem?_modify, if_pos rfl, hn]
    rfl

namespace Act

/-- Where the conversion of a value ends: only that of an element may change the document. -/
def Converted (draw : Drawing) (v : Value) (d mid : Document) : Prop :=
  mid = d ∨ (∃ i, v = .element i) ∧ mid = (draw.shown v).left d

theorem converted_shown (draw : Drawing) (v : Value) (d : Document) : Converted draw v d ((draw.shown v).left d) := by
  by_cases hv : ∃ i, v = .element i
  · exact .inr ⟨hv, rfl⟩
  · exact .inl (left_ok (shown_run draw (fun i hi => hv ⟨i, hi⟩) d))

/-- Setting an attribute fails with nothing changed, or changes that attribute and nothing else, but for what
converting an element to text has changed before. -/
theorem setAttribute_only (draw : Drawing) {d : Document} {id : Nat} {n : Node} (hn : d.nodes[id]? = some n)
    (name : Text) (v : Value) : ∃ mid, Converted draw v d mid ∧
      ((∃ fault, (setAttribute draw.shown id name v).run d = .error fault mid) ∨
        ∃ e, (setAttribute draw.shown id name v).run d = .ok () e ∧ OnlyAttribute id name mid e) := by
  unfold setAttribute
  rw [run_bind (node_run hn)]
  split
  · split
    · exact ⟨d, .inl rfl, .inr ⟨_, rfl, onlyAttribute_modify (f := (·.erase name)) rfl (fun _ => rfl) (fun _ => rfl)
        (fun _ => rfl) fun n other h => lookup_erase n h⟩⟩
    · obtain ⟨mid, hmid, h⟩ := admitted_outcome draw.shown n name v d
      have hconverted : Converted draw v d mid := hmid.elim .inl fun h => h ▸ converted_shown draw v d
      rcases h with ⟨fault, hfault⟩ | ⟨w, e, hw, hnodes, -⟩
      · exact ⟨mid, hconverted, .inl ⟨fault, run_bind_error hfault⟩⟩
      · refine ⟨mid, hconverted, .inr ⟨_, run_bind hw, onlyAttribute_modify (f := (·.put name w)) (hnodes ▸ rfl)
          (fun _ => rfl) (fun _ => rfl) (fun _ => rfl) fun n other h => ?_⟩⟩
        exact (lookup_putAttribute n.attributes name other w).trans (if_neg h)
  · exact ⟨d, .inl rfl, .inl ⟨_, rfl⟩⟩

end Act

/-- Stored attributes are legal after any session whose classes have no choices with lists: each is allowed
by the class of its element, is not nothing, and is of the sort or one of the choices that are declared. And
setting an attribute fails and changes nothing, or changes only that attribute; where the value is an element,
this is so from the document on that finding its text has left. -/
theorem stored_attributes_legal (statements : List Statement)
    (hplain : ∀ c ∈ (Session.after statements {}).classes, c.2.isPlain = true) :
    (∀ n ∈ (Session.after statements {}).nodes, n.Legal) ∧
    ∀ (draw : Drawing) (d : Document) (id : Nat) (n : Node) (name : Text) (v : Value), d.nodes[id]? = some n →
      ∃ mid, Act.Converted draw v d mid ∧
        ((∃ fault, (Act.setAttribute draw.shown id name v).run d = .error fault mid) ∨
          ∃ e, (Act.setAttribute draw.shown id name v).run d = .ok () e ∧ OnlyAttribute id name mid e) := by
  refine ⟨fun n hn => ?_, fun draw d id n name v hn => Act.setAttribute_only draw hn name v⟩
  have hempty : ({} : Document).Lawful := ⟨nofun, fun h => by simp at h⟩
  obtain ⟨id, hid⟩ := Array.mem_iff_getElem?.1 hn
  exact (((Session.after_extends statements {}).lawful hempty hplain).nodes hid).2

def choosing : List Statement :=
  [.define "foo".toList ["base.base".toList]
      [("value".toList, .oneOf [.value (.text ['a']), .value (.text ['b'])])] none none none,
    .assign ['x'] (.make "foo".toList ["value".toList, "tabindex".toList] [.value (.text ['b']), .value (.text ['7'])] []),
    .on ['x'] (.setAttribute "value".toList (.value (.text ['c']))),
    .on ['x'] (.addClass (.value (.text ['k'])))]

theorem stored_attributes_legal_choosing : (∀ c ∈ (Session.after choosing {}).classes, c.2.isPlain = true) ∧
    (Session.after choosing {}).nodes.size = 1 ∧ ∀ n ∈ (Session.after choosing {}).nodes, n.Legal := by
  have hplain : ∀ c ∈ (Session.after choosing {}).classes, c.2.isPlain = true := by decide +kernel
  exact ⟨hplain, by decide +kernel, (stored_attributes_legal choosing hplain).1⟩

def listedClass : Document :=
  { nodes := #[{ kind := { Class.base with attributes := [("class".toList, .choice [.list [.text ['a']]])] }
                 attributes := [("class".toList, .shared (.made 0))] }]
    lists := #[[.text ['a']]] }

/-- A list that is a choice grows before it is refused, and stays stored. -/
theorem listedClass_outgrows_choice : (listedClass.settled (.shared (.made 0))).same (.list [.text ['a']]) = true ∧
    ∃ fault e, (Act.addClass (Drawing.ofDepth 1).shown 0 (.text ['b'])).run listedClass = .error fault e ∧
      e.nodes[0]?.bind (·.attributes.lookup "class".toList) = some (.shared (.made 0)) ∧
      (e.settled (.shared (.made 0))).same (.list [.text ['a']]) = false :=
  ⟨by decide +kernel, _, _, rfl, rfl, by decide +kernel⟩

end InlineMarkup.Element

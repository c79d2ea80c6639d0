import InlineMarkup.Element.Session
import InlineMarkup.Proofs.Slots

/-!
Work on a document and what it leaves. Work may fail, and what it did before stays done, so a law of
documents is stated of the document that is left in either case: it is related to the one before. If the
relation is a preorder, work made of smaller work goes along it as soon as each part does.
-/
namespace InlineMarkup.Element

namespace Act

variable {α β : Type} {x : Act α} {f : α → Act β} {d : Document}

/-- The document that work leaves, whether or not it fails. -/
def left (x : Act α) (d : Document) : Document :=
  match x.run d with
  | .ok _ e => e
  | .error _ e => e

variable {e : Document} {fault : Fault}

theorem left_ok {a : α} (h : x.run d = .ok a e) : x.left d = e := by
  rw [left, h]

theorem left_error (h : x.run d = .error fault e) : x.left d = e := by
  rw [left, h]

theorem run_bind_error (h : x.run d = .error fault e) :
    (x >>= f).run d = .error fault e := by
  simp only [EStateM.run, bind, EStateM.bind] at h ⊢
  rw [h]

/-- Work that only reads the document. -/
def Quiet (x : Act α) : Prop := ∀ d, x.left d = d

theorem Quiet.run (h : x.Quiet) (d : Document) :
    (∃ a, x.run d = .ok a d) ∨ ∃ fault, x.run d = .error fault d := by
  have hd := h d
  unfold left at hd
  cases hx : x.run d with
  | ok a e =>
    rw [hx] at hd
    exact .inl ⟨a, by rw [← hd]⟩
  | error fault e =>
    rw [hx] at hd
    exact .inr ⟨fault, by rw [← hd]⟩

theorem Quiet.bind (hx : x.Quiet) (hf : ∀ a, (f a).Quiet) : (x >>= f).Quiet := by
  intro d
  rcases hx.run d with ⟨a, ha⟩ | ⟨fault, hfault⟩
  · have hrun : (x >>= f).run d = (f a).run d := run_bind ha
    unfold left
    rw [hrun]
    exact hf a d
  · exact left_error (run_bind_error hfault)

theorem quiet_pure (a : α) : (pure a : Act α).Quiet := fun _ => rfl

theorem quiet_throw (fault : Fault) : (throw fault : Act α).Quiet := fun _ => rfl

theorem quiet_get : (get : Act Document).Quiet := fun _ => rfl

theorem quiet_ofExcept (r : Except Fault α) : (ofExcept r : Act α).Quiet := by
  cases r <;> exact fun _ => rfl

theorem quiet_node (id : Nat) : (node id).Quiet := by
  refine quiet_get.bind fun d => ?_
  split
  · exact quiet_pure _
  · exact quiet_throw _

theorem quiet_variableValue (name : Text) : (variableValue name).Quiet := by
  refine quiet_get.bind fun d => ?_
  split
  · exact quiet_pure _
  · exact quiet_throw _

theorem quiet_classNamed (name : Text) : (classNamed name).Quiet := by
  refine quiet_get.bind fun d => ?_
  split
  · exact quiet_pure _
  · exact quiet_throw _

theorem quiet_asElement (v : Value) : (asElement v).Quiet := by
  cases v <;> exact fun _ => rfl

theorem quiet_attributeOf (id : Nat) (name : Text) (default : Value) : (attributeOf id name default).Quiet :=
  (quiet_node id).bind fun _ => quiet_ofExcept _

theorem quiet_isFoundIn (word : Text) (v : Value) : (isFoundIn word v).Quiet := by
  cases v <;> exact fun _ => rfl

theorem shown_run (draw : Drawing) {v : Value} (h : ∀ i, v ≠ .element i) (d : Document) :
    (draw.shown v).run d = .ok (d.settled v).shown d := by
  cases v with
  | element i => exact absurd rfl (h i)
  | _ => rfl

theorem node_of_ok {id : Nat} {n : Node} (h : (node id).run d = .ok n e) :
    d.nodes[id]? = some n ∧ e = d := by
  cases hn : d.nodes[id]? with
  | none =>
    have hfail : (node id).run d = .error .missingPart d := by
      unfold node
      simp only [EStateM.run, Bind.bind, EStateM.bind, get, getThe, MonadStateOf.get, EStateM.get, hn]
      rfl
    cases hfail.symm.trans h
  | some m =>
    cases (node_run hn).symm.trans h
    exact ⟨rfl, rfl⟩

/-! ### Work along a preorder -/

section Goes

variable {R : Document → Document → Prop}

/-- Whatever the document is, the one that is left is related to it. -/
def Goes (R : Document → Document → Prop) (x : Act α) : Prop := ∀ d, R d (x.left d)

variable [IsPreorder Document R]

theorem Quiet.goes (h : x.Quiet) : x.Goes R := fun d => (h d).symm ▸ refl_of R d

theorem left_bind (hx : R d (x.left d)) (hf : ∀ a e, x.run d = .ok a e → R e ((f a).left e)) :
    R d ((x >>= f).left d) := by
  cases hrun : x.run d with
  | ok a e =>
    have hwhole : (x >>= f).left d = (f a).left e := by
      unfold left
      rw [run_bind hrun]
    rw [left_ok hrun] at hx
    rw [hwhole]
    exact trans_of R hx (hf a e hrun)
  | error fault e =>
    rw [left_error hrun] at hx
    rwa [left_error (run_bind_error hrun)]

theorem Goes.bind (hx : x.Goes R) (hf : ∀ a, (f a).Goes R) : (x >>= f).Goes R :=
  fun d => left_bind (hx d) fun a e _ => hf a e

theorem goes_pure (a : α) : (pure a : Act α).Goes R := (quiet_pure a).goes

theorem goes_throw (fault : Fault) : (throw fault : Act α).Goes R := (quiet_throw fault).goes

theorem goes_node (id : Nat) : (node id).Goes R := (quiet_node id).goes

theorem goes_get : (get : Act Document).Goes R := quiet_get.goes

theorem Goes.thenPure {x : Act α} {f : α → β} (hx : x.Goes R) : (x >>= fun a => pure (f a)).Goes R :=
  hx.bind fun a => goes_pure (f a)

theorem goes_forM {g : α → Act PUnit} (l : List α) (h : ∀ a ∈ l, (g a).Goes R) : (l.forM g).Goes R := by
  induction l with
  | nil => exact goes_pure PUnit.unit
  | cons a rest ih =>
    exact (h a List.mem_cons_self).bind fun _ => ih fun b hb => h b (List.mem_cons_of_mem _ hb)

theorem goes_mapM {g : α → Act β} (l : List α) (h : ∀ a, (g a).Goes R) : (l.mapM g).Goes R := by
  induction l with
  | nil => exact goes_pure []
  | cons a rest ih =>
    rw [List.mapM_cons]
    exact (h a).bind fun _ => ih.thenPure

end Goes

end Act

end InlineMarkup.Element

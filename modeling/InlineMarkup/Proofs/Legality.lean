import InlineMarkup.Proofs.Acts

/-!
The attributes that are stored are legal: each is allowed by the class of its element, and its value is of
the sort, or one of the choices, that the class declares. A list can grow where it is stored, so choices that
hold lists are left out. Main statement: no session, whatever its statements do and wherever they fail, stores
an attribute that is not legal, and setting an attribute touches that attribute only.
-/
namespace InlineMarkup.Element

open List

/-! ### Choices without lists -/

namespace Value

mutual

def isFlat : Value → Bool
  | list _ => false
  | shared _ => false
  | tuple items => areFlat items
  | table keys values => areFlat keys && areFlat values
  | _ => true

def areFlat : List Value → Bool
  | [] => true
  | v :: vs => isFlat v && areFlat vs

end

theorem mem_of_areFlat {vs : List Value} (h : areFlat vs = true) : ∀ v ∈ vs, v.isFlat = true := by
  induction vs with
  | nil => simp
  | cons v vs ih =>
    simp only [areFlat, Bool.and_eq_true] at h
    exact forall_mem_cons.2 ⟨h.1, ih h.2⟩

variable (read? : Place → Option (List Value))

mutual

theorem settle_of_isFlat : ∀ v : Value, v.isFlat = true → v.settle read? = v
  | list _, h | shared _, h => by simp [isFlat] at h
  | tuple items, h => by rw [settle, settleAll_of_areFlat items h]
  | table keys values, h => by
    simp only [isFlat, Bool.and_eq_true] at h
    rw [settle, settleAll_of_areFlat keys h.1, settleAll_of_areFlat values h.2]
  | none, _ | truth _, _ | integer _, _ | decimal _, _ | text _, _ | bytes _, _ | moment _, _ | element _, _ => rfl

theorem settleAll_of_areFlat : ∀ vs : List Value, areFlat vs = true → settleAll read? vs = vs
  | [], _ => rfl
  | v :: vs, h => by
    simp only [areFlat, Bool.and_eq_true] at h
    rw [settleAll, settle_of_isFlat v h.1, settleAll_of_areFlat vs h.2]

end

def Agree (test other : Value → Bool) : Prop := ∀ v : Value, v.isFlat = true → test v = other v

theorem passAll_agree {tests others : List (Value → Bool)} (h : List.Forall₂ Agree tests others) {vs : List Value}
    (hvs : areFlat vs = true) : passAll tests vs = passAll others vs := by
  induction h generalizing vs with
  | nil => rfl
  | cons htest _ ih =>
    cases vs with
    | nil => rfl
    | cons v vs =>
      simp only [areFlat, Bool.and_eq_true] at hvs
      rw [passAll, passAll, htest v hvs.1, ih hvs.2]

theorem findIdx?_agree {test other : Value → Bool} (h : Agree test other) {vs : List Value} (hvs : areFlat vs = true) :
    vs.findIdx? test = vs.findIdx? other := by
  induction vs with
  | nil => rfl
  | cons v vs ih =>
    simp only [areFlat, Bool.and_eq_true] at hvs
    rw [findIdx?_cons, findIdx?_cons, h v hvs.1, ih hvs.2]

theorem passEntries_agree {keys keys' values values' : List (Value → Bool)} (hkeys : List.Forall₂ Agree keys keys')
    (hvalues : List.Forall₂ Agree values values') {others found : List Value} (hothers : areFlat others = true)
    (hfound : areFlat found = true) :
    passEntries keys values others found = passEntries keys' values' others found := by
  induction hkeys generalizing values values' with
  | nil => simp [passEntries]
  | @cons key key' _ _ hkey _ ih =>
    cases hvalues with
    | nil => rfl
    | @cons value value' _ _ hvalue hmore =>
      have hget (i : Nat) : value (found.getD i none) = value' (found.getD i none) := by
        refine hvalue _ ?_
        rw [getD_eq_getElem?_getD]
        cases hi : found[i]? with
        | none => rfl
        | some v => exact mem_of_areFlat hfound v (mem_of_getElem? hi)
      simp only [passEntries, findIdx?_agree hkey hothers, hget, ih hmore]

mutual

theorem same_settle : ∀ v : Value, Agree (v.settle read?).same v.same
  | tuple items => by
    intro c hc
    cases c with
    | tuple others => exact passAll_agree (sameEach_settle items) hc
    | _ => rfl
  | table keys values => by
    intro c hc
    cases c with
    | table others found =>
      simp only [isFlat, Bool.and_eq_true] at hc
      have hlength : (settleAll read? keys).length = keys.length := by
        clear hc
        induction keys with
        | nil => rfl
        | cons k ks ih => simp [settleAll, ih]
      rw [settle, same, same, hlength, passEntries_agree (sameEach_settle keys) (sameEach_settle values) hc.1 hc.2]
    | _ => rfl
  | list _ => by
    intro c hc
    cases c with
    | list _ => simp [isFlat] at hc
    | _ => rfl
  | shared place => by
    intro c hc
    rw [settle]
    split <;> cases c <;> first | rfl | simp [isFlat] at hc
  | none | truth _ | integer _ | decimal _ | text _ | bytes _ | moment _ | element _ => fun _ _ => rfl

theorem sameEach_settle : ∀ vs : List Value, List.Forall₂ Agree (sameEach (settleAll read? vs)) (sameEach vs)
  | [] => .nil
  | v :: vs => .cons (same_settle v) (sameEach_settle vs)

end

end Value

theorem same_settled (d : Document) (v : Value) {c : Value} (hc : c.isFlat = true) :
    (d.settled v).same (d.settled c) = v.same c := by
  have hself : d.settled c = c := Value.settle_of_isFlat _ c hc
  rw [hself]
  exact Value.same_settle _ v c hc

/-- No choice that the class declares is a list or holds one. -/
def Class.isPlain (kind : Class) : Bool :=
  kind.attributes.all fun a => match a.2 with
    | .choice values => Value.areFlat values
    | _ => true

theorem Class.flat_of_isPlain {kind : Class} (h : kind.isPlain = true) {name : Text} {values : List Value}
    (hdomain : kind.domain name = .choice values) : Value.areFlat values = true := by
  unfold domain at hdomain
  cases hlookup : kind.attributes.lookup name with
  | none =>
    rw [hlookup] at hdomain
    cases hdomain
  | some domain =>
    rw [hlookup] at hdomain
    obtain rfl : domain = .choice values := hdomain
    obtain ⟨front, back, hsplit, -⟩ := lookup_eq_some_iff.1 hlookup
    exact all_eq_true.1 h (name, .choice values) (by simp [hsplit])

variable {kind : Class} {tag : Text} {n : Node} {v w : Value} {opened : Value → Value}

theorem Class.isPlain_of_holdsTexts (h : kind.holdsTexts = true) : kind.isPlain = true := by
  refine all_eq_true.2 fun a ha => ?_
  have htexts := all_eq_true.1 h a ha
  obtain ⟨name, domain⟩ := a
  cases domain with
  | choice values => cases htexts
  | _ => rfl

theorem isPlain_of_feed (h : Shelf.feed.class? kindDepth tag = some kind) :
    kind.isPlain = true := by
  have hall : Shelf.feed.entries.all (fun e => (Shelf.feed.class? kindDepth e.tag).all Class.isPlain) = true := by
    decide +kernel
  rcases Shelf.class?_eq_some h with rfl | ⟨e, he, rfl⟩
  · decide
  · simpa [h] using all_eq_true.1 hall e he

theorem isPlain_of_library {home : Text} (h : libraryClass? home tag = some kind) :
    kind.isPlain = true := by
  by_cases hhome : home = "html".toList ∨ home = "browser_hacks".toList
  · exact Class.isPlain_of_holdsTexts (holdsTexts_of_library hhome h)
  · rw [not_or] at hhome
    rw [libraryClass?, if_neg hhome.1] at h
    split at h
    · exact isPlain_of_feed h
    · rw [if_neg hhome.2] at h
      split_ifs at h
      · cases h
        decide
      · cases h
        decide

/-! ### Legal attributes -/

/-- Each attribute is allowed, is not nothing, and is of the sort or one of the choices that are declared. -/
def Node.Legal (n : Node) : Prop :=
  ∀ a ∈ n.attributes, n.kind.allows a.1 = true ∧ a.2.isNone = false ∧ (n.kind.domain a.1).holds a.2 = true

theorem Node.Legal.put (h : n.Legal) {name : Text} {v : Value} (hallows : n.kind.allows name = true)
    (hv : v.isNone = false) (hholds : (n.kind.domain name).holds v = true) : (n.put name v).Legal := by
  intro a ha
  obtain ⟨front, back, hfront, hback, hput⟩ := putAttribute_split n.attributes name
  rw [Node.put, hput, mem_append, mem_cons] at ha
  rcases ha with ha | rfl | ha
  · exact h a (hfront a ha)
  · exact ⟨hallows, hv, hholds⟩
  · exact h a (hback a ha)

theorem Node.Legal.erase (h : n.Legal) (name : Text) : (n.erase name).Legal :=
  fun a ha => h a (mem_of_mem_filter ha)

theorem toInteger?_eq_some (h : v.toInteger? = some w) : ∃ n, w = .integer n := by
  cases v with
  | truth | integer =>
    cases h
    exact ⟨_, rfl⟩
  | decimal | text | bytes =>
    obtain ⟨n, -, rfl⟩ := Option.map_eq_some_iff.1 h
    exact ⟨n, rfl⟩
  | _ => cases h

theorem toDecimal?_eq_some (h : v.toDecimal? = some w) : ∃ x, w = .decimal x := by
  cases v with
  | decimal =>
    cases h
    exact ⟨_, rfl⟩
  | truth | integer | text | bytes =>
    obtain ⟨x, -, rfl⟩ := Option.map_eq_some_iff.1 h
    exact ⟨x, rfl⟩
  | _ => cases h

theorem toBytes?_eq_some (h : v.toBytes? = some w) : ∃ bs, w = .bytes bs := by
  unfold Value.toBytes? at h
  split at h
  · cases h
  · cases h
    exact ⟨_, rfl⟩
  · split at h
    · split_ifs at h
      cases h
      exact ⟨_, rfl⟩
    · obtain ⟨bs, -, rfl⟩ := Option.map_eq_some_iff.1 h
      exact ⟨bs, rfl⟩

theorem toTable?_eq_some (h : v.toTable? opened = some w) :
    ∃ keys values, w = .table keys values := by
  unfold Value.toTable? at h
  split at h
  · cases h
    exact ⟨_, _, rfl⟩
  · obtain ⟨entries, -, rfl⟩ := Option.map_eq_some_iff.1 h
    exact ⟨_, _, rfl⟩

theorem holds_of_convert? {domain : Domain} (hv : v.isNone = false)
    (h : domain.convert? opened v = some w) : domain.holds w = true ∧ w.isNone = false := by
  cases domain with
  | anything =>
    cases h
    exact ⟨rfl, hv⟩
  | text | truth =>
    cases h
    exact ⟨rfl, rfl⟩
  | moment | choice => cases h
  | integer =>
    obtain ⟨n, rfl⟩ := toInteger?_eq_some h
    exact ⟨rfl, rfl⟩
  | decimal =>
    obtain ⟨x, rfl⟩ := toDecimal?_eq_some h
    exact ⟨rfl, rfl⟩
  | bytes =>
    obtain ⟨bs, rfl⟩ := toBytes?_eq_some h
    exact ⟨rfl, rfl⟩
  | table =>
    obtain ⟨keys, values, rfl⟩ := toTable?_eq_some h
    exact ⟨rfl, rfl⟩
  | list =>
    obtain ⟨items, -, rfl⟩ := Option.map_eq_some_iff.1 h
    exact ⟨rfl, rfl⟩

end InlineMarkup.Element

import InlineMarkup.Proofs.Tags
import InlineMarkup.Proofs.Equipped

/-!
The attributes of a tag. `roll` lists the attributes that are begun in the text of a tag, each with the text
that is written after its equals sign.
-/
namespace InlineMarkup.Markup

open Machine (isSpace)

/-! ### The attributes begun in a tag -/

structure Begun where
  name : Text
  value : Option Text := none
  /-- It stands behind an attribute without a value and blanks. -/
  trails : Bool := false
  deriving DecidableEq, Repr

def Begun.attribute (b : Begun) : Attribute := ⟨some b.name, b.value.map textParts⟩

inductive Place where
  | tagName
  | between
  | name
  | afterName
  | beforeValue
  | quoted (mark : Char)
  | bare
  | afterValue
  | slash
  deriving DecidableEq, Repr

/-- How far a tag has been read, and the attributes begun in it, the last one first. -/
structure Roll where
  place : Place := .tagName
  begun : List Begun := []
  deriving DecidableEq, Repr

namespace Roll

def enter (r : Roll) (p : Place) : Roll := { r with place := p }

def begin (r : Roll) (c : Char) (trails : Bool) : Roll := ⟨.name, { name := lowercase c, trails } :: r.begun⟩

def amend (r : Roll) (f : Begun → Begun) : Roll :=
  match r.begun with
  | [] => r
  | b :: rest => { r with begun := f b :: rest }

def lengthen (r : Roll) (s : Text) : Roll := r.amend fun b => { b with name := b.name ++ s }

def write (r : Roll) (s : Text) : Roll := r.amend fun b => { b with value := some (b.value.getD [] ++ s) }

def next (r : Roll) (c : Char) : Roll :=
  match r.place with
  | .tagName => if isSpace c then r.enter .between else if c = '/' then r.enter .slash else r
  | .between => if isSpace c then r else if c = '/' then r.enter .slash else r.begin c false
  | .name =>
    if isSpace c then r.enter .afterName
    else if c = '/' then r.enter .slash
    else if c = '=' then r.enter .beforeValue
    else r.lengthen (lowercase c)
  | .afterName =>
    if isSpace c then r
    else if c = '/' then r.enter .slash
    else if c = '=' then r.enter .beforeValue
    else r.begin c true
  | .beforeValue =>
    if isSpace c then r
    else if c = '"' ∨ c = '\'' then (r.write []).enter (.quoted c)
    else (r.write [c]).enter .bare
  | .quoted mark => if c = mark then r.enter .afterValue else r.write [c]
  | .bare => if isSpace c then r.enter .between else r.write [c]
  | .afterValue => if isSpace c then r.enter .between else r.enter .slash
  | .slash => r

def attributes (r : Roll) : List Attribute := (r.begun.map Begun.attribute).reverse

def joined : List Begun → List Begun
  | [] => []
  | b :: rest =>
    if b.trails then
      match joined rest with
      | [] => []
      | a :: more => { a with value := b.value } :: more
    else b :: joined rest

def endsInName (r : Roll) : Bool := r.place == .name && r.begun.head?.any (!·.trails)

def noted (r : Roll) : List Attribute :=
  (((if r.endsInName then (joined r.begun).tail else joined r.begun)).map Begun.attribute).reverse

end Roll

def roll (tag : Text) : Roll := ((tag.dropWhile (· == '/')).drop 1).foldl Roll.next {}

example : (roll "a b c=\"d\" e".toList).attributes =
    [⟨some ['b'], none⟩, ⟨some ['c'], some [.text ['d']]⟩, ⟨some ['e'], none⟩] := by decide

example : (roll "a b c=\"d\" e".toList).noted = [⟨some ['b'], some [.text ['d']]⟩] := by decide

namespace Roll

variable {b a : Begun} {bs rest : List Begun}

theorem value_of_joined (h : joined (b :: bs) = a :: rest) : a.value = b.value := by
  rw [joined] at h
  grind

theorem joined_value (h : joined (b :: bs) = a :: rest) (v : Option Text) :
    joined ({ b with value := v } :: bs) = { a with value := v } :: rest := by
  rw [joined] at h ⊢
  grind

theorem joined_trailing (h : joined bs = a :: rest) (ha : a.value = none) (name : Text) :
    joined ({ name, trails := true } :: bs) = a :: rest := by
  obtain ⟨first, value, trails⟩ := a
  cases ha
  rw [joined, h]
  rfl

theorem length_joined (bs : List Begun) : (joined bs).length ≤ bs.length := by
  fun_induction joined bs with
  | case1 => rfl
  | case2 => simp
  | case3 b rest _ a more heq ih =>
    rw [heq] at ih
    simp only [List.length_cons] at ih ⊢
    omega
  | case4 b rest _ ih => simpa using ih

theorem length_joined_eq_iff (bs : List Begun) : (joined bs).length = bs.length ↔ ∀ b ∈ bs, b.trails = false := by
  induction bs with
  | nil => simp [joined]
  | cons b rest ih =>
    have hle := length_joined rest
    cases htrails : b.trails with
    | true =>
      have hlt : (joined (b :: rest)).length < (b :: rest).length := by
        rw [joined, if_pos htrails]
        split
        · simp
        · rename_i a more heq
          rw [heq] at hle
          simp only [List.length_cons] at hle ⊢
          omega
      exact ⟨fun h => absurd h hlt.ne, fun h => absurd (h b List.mem_cons_self) (by simp [htrails])⟩
    | false => simp [joined, htrails, ih]

theorem joined_eq_self (h : ∀ b ∈ bs, b.trails = false) : joined bs = bs := by
  induction bs with
  | nil => rfl
  | cons b rest ih =>
    obtain ⟨hb, hrest⟩ := List.forall_mem_cons.1 h
    rw [joined, hb, ih hrest]
    rfl

theorem noted_eq_attributes_iff (r : Roll) :
    r.noted = r.attributes ↔ r.endsInName = false ∧ ∀ b ∈ r.begun, b.trails = false := by
  constructor
  · intro h
    have hlength := congrArg List.length h
    simp only [noted, attributes, List.length_reverse, List.length_map] at hlength
    have hle := length_joined r.begun
    cases hends : r.endsInName with
    | true =>
      rw [hends, if_pos rfl, List.length_tail] at hlength
      have hempty : r.begun = [] := List.eq_nil_of_length_eq_zero (by omega)
      rw [endsInName, hempty] at hends
      simp at hends
    | false =>
      rw [hends, if_neg Bool.false_ne_true] at hlength
      exact ⟨rfl, (length_joined_eq_iff _).1 hlength⟩
  · rintro ⟨hends, htrails⟩
    rw [noted, attributes, hends, if_neg Bool.false_ne_true, joined_eq_self htrails]

end Roll

/-! ### The reader follows the roll -/

/-- The reader is in the middle of an attribute, with the value written so far. -/
structure Pending (m : Machine) (tag : Tag) (r : Roll) (v : Option Text) : Prop where
  begun : ∃ b bs a rest, r.begun = b :: bs ∧ b.value = v ∧ Roll.joined r.begun = a :: rest ∧ m.attributeName = some a.name ∧
    tag.attributes = (rest.map Begun.attribute).reverse
  value : m.attributeValue = v.map textParts

structure Settled (m : Machine) (tag : Tag) (r : Roll) : Prop where
  attributes : tag.attributes = ((Roll.joined r.begun).map Begun.attribute).reverse
  value : m.attributeValue = none

def Follows (m : Machine) (tag : Tag) (r : Roll) : Prop :=
  match m.state with
  | .tagName => r.place = .tagName ∧ r.begun = [] ∧ Settled m tag r
  | .beforeAttributeName => r.place = .between ∧ Settled m tag r
  | .attributeName => r.place = .name ∧ r.endsInName = true ∧ Pending m tag r none
  | .afterAttributeName => (r.place = .afterName ∨ r.place = .name) ∧ r.endsInName = false ∧ Pending m tag r none
  | .beforeAttributeValue => r.place = .beforeValue ∧ Pending m tag r none
  | .valueDoubleQuoted => r.place = .quoted '"' ∧ ∃ v, Pending m tag r (some v)
  | .valueSingleQuoted => r.place = .quoted '\'' ∧ ∃ v, Pending m tag r (some v)
  | .valueUnquoted => r.place = .bare ∧ ∃ v, Pending m tag r (some v)
  | .afterAttributeValue => r.place = .afterValue ∧ ∃ v, Pending m tag r (some v)
  | .selfClosingStartTag => r.place = .slash ∧ Settled m tag r
  | _ => False

def Event.attributes? : Event → Option (List Attribute)
  | .start _ attributes | .startEnd _ attributes => some attributes
  | _ => none

def Step.Follows (r : Roll) (c : Char) : Step → Prop
  | .quiet n => ∃ tag, n.tag = some tag ∧ Markup.Follows n tag (r.next c)
  | .event _ e n => n.state = .data ∧ ∀ attributes, e.attributes? = some attributes → attributes = r.noted
  | .again k => ∃ n, k.step c = .quiet n ∧ ∃ tag, n.tag = some tag ∧ Markup.Follows n tag (r.next c)
  | .fault _ _ => True

section

variable {m : Machine} {tag : Tag} {r : Roll} {v : Option Text}

theorem Settled.enter {s : State} {p : Place} (h : Settled m tag r) : Settled (m.goto s) tag
    (r.enter p) := ⟨h.attributes, h.value⟩

theorem Pending.enter {s : State} {p : Place} (h : Pending m tag r v) : Pending (m.goto s) tag
    (r.enter p) v := ⟨h.begun, h.value⟩

theorem closeTag_follows {t : Tag} (htag : m.tag = some t) (hnoted : t.attributes = r.noted)
    (c : Char) : m.closeTag.Follows r c := by
  rw [Machine.closeTag, htag]
  dsimp only
  split
  · trivial
  refine ⟨rfl, fun attributes h => ?_⟩
  split at h
  · cases h
    exact hnoted
  · split at h
    · cases h
    · cases h
      exact hnoted

theorem Settled.noted (h : Settled m tag r) (hr : r.endsInName = false) : tag.attributes = r.noted := by
  rw [Roll.noted, hr, h.attributes]
  rfl

theorem Pending.noted (h : Pending m tag r v) (hr : r.endsInName = true) : tag.attributes = r.noted := by
  obtain ⟨⟨b, bs, a, rest, -, -, hjoined, -, hattributes⟩, -⟩ := h
  rw [Roll.noted, hr, hattributes, hjoined]
  rfl

theorem Pending.withAttribute {next : Machine → Step} {c : Char} (h : Pending m tag r v) (htag : m.tag = some tag)
    (hnext : ∀ k new, k.tag = some new → Settled k new r → (next k).Follows r c) :
    (m.withAttribute next).Follows r c := by
  obtain ⟨⟨b, bs, a, rest, hbegun, hb, hjoined, hname, hattributes⟩, hvalue⟩ := h
  rw [Machine.withAttribute, Machine.closeAttribute, htag]
  dsimp only
  cases tag.attributes.any (·.name == m.attributeName) with
  | true => trivial
  | false =>
    refine hnext _ _ rfl ⟨?_, rfl⟩
    have ha : a.value = v := by
      rw [hbegun] at hjoined
      rw [Roll.value_of_joined hjoined, hb]
    simp [hjoined, hattributes, hname, hvalue, Begun.attribute, ha]

theorem Pending.write (h : Pending m tag r v) (s : Text) (p : Place) {n : Machine}
    (hname : n.attributeName = m.attributeName) (hvalue : n.attributeValue = some (textParts (v.getD [] ++ s))) :
    Pending n tag ((r.write s).enter p) (some (v.getD [] ++ s)) := by
  obtain ⟨⟨b, bs, a, rest, hbegun, rfl, hjoined, ha, hattributes⟩, -⟩ := h
  obtain ⟨place, begun⟩ := r
  cases hbegun
  exact ⟨⟨_, bs, _, rest, rfl, rfl, Roll.joined_value hjoined _, hname.trans ha, hattributes⟩, hvalue⟩

theorem Pending.rename (h : Pending m tag r none) (hr : r.endsInName = true) {name more : Text} {n : Machine}
    (hname : m.attributeName = some name) (hnew : n.attributeName = some (name ++ more))
    (hsame : n.attributeValue = m.attributeValue) :
    (r.lengthen more).endsInName = true ∧ Pending n tag (r.lengthen more) none := by
  obtain ⟨⟨b, bs, a, rest, hbegun, hb, hjoined, ha, hattributes⟩, hvalue⟩ := h
  obtain ⟨place, begun⟩ := r
  cases hbegun
  obtain ⟨word, value, trails⟩ := b
  have htrails : trails = false := by
    simp only [Roll.endsInName, Bool.and_eq_true] at hr
    simpa using hr.2
  subst htrails
  cases hjoined
  cases hname.symm.trans ha
  exact ⟨hr, ⟨⟨_, bs, _, _, rfl, hb, rfl, hnew, hattributes⟩, hsame.trans hvalue⟩⟩

theorem Pending.trail (h : Pending m tag r none) (c : Char) : Pending m tag (r.begin c true) none := by
  obtain ⟨⟨b, bs, a, rest, hbegun, hb, hjoined, ha, hattributes⟩, hvalue⟩ := h
  have hnone : a.value = none := by
    rw [hbegun] at hjoined
    rw [Roll.value_of_joined hjoined, hb]
  exact ⟨⟨_, r.begun, a, rest, rfl, rfl, Roll.joined_trailing hjoined hnone _, ha, hattributes⟩, hvalue⟩

theorem Pending.lengthen (h : Pending m tag r none) (hplace : r.place = .name) (hr : r.endsInName = false)
    (more : Text) : (r.lengthen more).endsInName = false ∧ Pending m tag (r.lengthen more) none := by
  obtain ⟨⟨b, bs, a, rest, hbegun, hb, hjoined, ha, hattributes⟩, hvalue⟩ := h
  obtain ⟨place, begun⟩ := r
  cases hbegun
  cases hplace
  obtain ⟨word, value, trails⟩ := b
  have htrails : trails = true := by simpa [Roll.endsInName] using hr
  subst htrails
  exact ⟨hr, ⟨⟨_, bs, a, rest, rfl, hb, hjoined, ha, hattributes⟩, hvalue⟩⟩

theorem follows_quiet {c : Char} {n : Machine} {t : Tag} {k : Roll} (hnext : r.next c = k) (htag : n.tag = some t)
    (h : Follows n t k) : Step.Follows r c (.quiet n) :=
  ⟨t, htag, hnext ▸ h⟩

theorem place_amend (r : Roll) (f : Begun → Begun) : (r.amend f).place = r.place := by
  unfold Roll.amend
  split <;> rfl

theorem Pending.extendValue {v : Text} {c : Char} (h : Pending m tag r (some v)) (htag : m.tag = some tag)
    (hnext : r.next c = r.write [c])
    (hstate : ∀ n, n.state = m.state → Pending n tag (r.write [c]) (some (v ++ [c])) → Follows n tag (r.write [c])) :
    (m.extendValue c).Follows r c := by
  have hvalue : m.attributeValue = some (textParts v) := h.value
  rw [Machine.extendValue, hvalue]
  refine follows_quiet hnext htag (hstate _ rfl ?_)
  have hwritten := h.write [c] r.place (n := { m with attributeValue := some (Machine.addChar (textParts v) c) }) rfl
    (congrArg some (addChar_textParts v c))
  rwa [← place_amend r, Roll.enter] at hwritten

theorem step_follows (h : Follows m tag r) (htag : m.tag = some tag) (c : Char) : (m.step c).Follows r c := by
  have hname (hplace : r.place ≠ .name) : r.endsInName = false := by simp [Roll.endsInName, hplace]
  have hstay (hnext : r.next c = r) : Step.Follows r c (.quiet m) := follows_quiet hnext htag h
  unfold Follows at h
  unfold Machine.step
  cases hstate : m.state <;> rw [hstate] at h <;> dsimp only at h ⊢
  case tagName =>
    obtain ⟨hplace, hbegun, hsettled⟩ := h
    rw [htag]
    dsimp only
    split_ifs with hspace hslash hend
    · exact follows_quiet (by simp [Roll.next, hplace, hspace]) htag ⟨rfl, hsettled.enter⟩
    · exact follows_quiet (by simp [Roll.next, hplace, hslash, isSpace]) htag ⟨rfl, hsettled.enter⟩
    · exact closeTag_follows htag (hsettled.noted (hname (by simp [hplace]))) c
    · split
      · trivial
      · exact follows_quiet (k := r) (by simp [Roll.next, hplace, hspace, hslash]) rfl
          ⟨hplace, hbegun, hsettled.attributes, hsettled.value⟩
  case beforeAttributeName =>
    obtain ⟨hplace, hsettled⟩ := h
    split_ifs with hspace hslash hend hbad
    · exact hstay (by simp [Roll.next, hplace, hspace])
    · exact follows_quiet (by simp [Roll.next, hplace, hslash, isSpace]) htag ⟨rfl, hsettled.enter⟩
    · exact closeTag_follows htag (hsettled.noted (hname (by simp [hplace]))) c
    · trivial
    · exact follows_quiet (k := r.begin c false) (by simp [Roll.next, hplace, hslash, hspace]) htag
        ⟨rfl, rfl, ⟨_, r.begun, _, _, rfl, rfl, rfl, rfl, hsettled.attributes⟩, hsettled.value⟩
  case attributeName =>
    obtain ⟨hplace, hends, hpending⟩ := h
    split_ifs with hspace hslash hequals hend hbad
    · exact follows_quiet (by simp [Roll.next, hplace, hspace]) htag ⟨Or.inl rfl, rfl, hpending.enter⟩
    · exact hpending.withAttribute htag fun k new hk hsettled =>
        follows_quiet (by simp [Roll.next, hplace, hslash, isSpace]) hk ⟨rfl, hsettled.enter⟩
    · exact follows_quiet (by simp [Roll.next, hplace, hequals, isSpace]) htag ⟨rfl, hpending.enter⟩
    · exact closeTag_follows htag (hpending.noted hends) c
    · trivial
    · split
      · trivial
      · rename_i name hm
        exact follows_quiet (k := r.lengthen (lowercase c)) (by simp [Roll.next, hplace, hspace, hslash, hequals]) htag
          ⟨(place_amend r _).trans hplace, hpending.rename hends hm rfl rfl⟩
  case afterAttributeName =>
    obtain ⟨hplace, hends, hpending⟩ := h
    split_ifs with hspace hslash hequals hend hbad
    · rcases hplace with hplace | hplace
      · exact hstay (by simp [Roll.next, hplace, hspace])
      · exact follows_quiet (k := r.enter .afterName) (by simp [Roll.next, hplace, hspace]) htag
          (by rw [Follows, hstate]; exact ⟨Or.inl rfl, rfl, hpending.begun, hpending.value⟩)
    · exact hpending.withAttribute htag fun k new hk hsettled =>
        follows_quiet (by rcases hplace with hplace | hplace <;> simp [Roll.next, hplace, hslash, isSpace]) hk ⟨rfl, hsettled.enter⟩
    · exact follows_quiet (by rcases hplace with hplace | hplace <;> simp [Roll.next, hplace, hequals, isSpace]) htag ⟨rfl, hpending.enter⟩
    · exact hpending.withAttribute htag fun k new hk hsettled => closeTag_follows hk (hsettled.noted hends) c
    · trivial
    · rcases hplace with hplace | hplace
      · exact follows_quiet (k := r.begin c true) (by simp [Roll.next, hplace, hspace, hslash, hequals]) htag
          (by rw [Follows, hstate]; exact ⟨Or.inr rfl, rfl, hpending.trail c⟩)
      · exact follows_quiet (k := r.lengthen (lowercase c))
          (by simp [Roll.next, hplace, hspace, hslash, hequals]) htag
          (by rw [Follows, hstate]; exact ⟨Or.inr ((place_amend r _).trans hplace), hpending.lengthen hplace hends _⟩)
  case beforeAttributeValue =>
    obtain ⟨hplace, hpending⟩ := h
    split_ifs with hspace hdouble hagain hsingle hbad
    · exact hstay (by simp [Roll.next, hplace, hspace])
    · exact follows_quiet (by simp [Roll.next, hplace, hdouble, isSpace]) htag ⟨rfl, [], hpending.write [] _ rfl rfl⟩
    · subst hagain
      exact ⟨_, rfl, tag, htag, by
        rw [show r.next '&' = (r.write ['&']).enter .bare by simp [Roll.next, hplace, isSpace]]
        exact ⟨rfl, ['&'], hpending.write ['&'] _ rfl rfl⟩⟩
    · exact follows_quiet (by simp [Roll.next, hplace, hsingle, isSpace]) htag ⟨rfl, [], hpending.write [] _ rfl rfl⟩
    · trivial
    · exact follows_quiet (by simp [Roll.next, hplace, hspace, hdouble, hsingle]) htag ⟨rfl, [c], hpending.write [c] _ rfl rfl⟩
  case valueDoubleQuoted | valueSingleQuoted =>
    obtain ⟨hplace, v, hpending⟩ := h
    split_ifs with hquote
    · exact follows_quiet (by simp [Roll.next, hplace, hquote]) htag ⟨rfl, v, hpending.enter⟩
    · refine hpending.extendValue htag (by simp [Roll.next, hplace, hquote]) fun n hn hwritten => ?_
      rw [Follows, hn, hstate]
      exact ⟨(place_amend r _).trans hplace, _, hwritten⟩
  case valueUnquoted =>
    obtain ⟨hplace, v, hpending⟩ := h
    split_ifs with hspace hend hbad
    · exact hpending.withAttribute htag fun k new hk hsettled =>
        follows_quiet (by simp [Roll.next, hplace, hspace]) hk ⟨rfl, hsettled.enter⟩
    · exact hpending.withAttribute htag fun k new hk hsettled => closeTag_follows hk (hsettled.noted (hname (by simp [hplace]))) c
    · trivial
    · refine hpending.extendValue htag (by simp [Roll.next, hplace, hspace]) fun n hn hwritten => ?_
      rw [Follows, hn, hstate]
      exact ⟨(place_amend r _).trans hplace, _, hwritten⟩
  case afterAttributeValue =>
    obtain ⟨hplace, v, hpending⟩ := h
    refine hpending.withAttribute htag fun k new hk hsettled => ?_
    split_ifs with hspace hslash hend
    · exact follows_quiet (by simp [Roll.next, hplace, hspace]) hk ⟨rfl, hsettled.enter⟩
    · exact follows_quiet (by simp [Roll.next, hplace, hslash, isSpace]) hk ⟨rfl, hsettled.enter⟩
    · exact closeTag_follows hk (hsettled.noted (hname (by simp [hplace]))) c
    · trivial
  case selfClosingStartTag =>
    obtain ⟨hplace, hsettled⟩ := h
    rw [htag]
    dsimp only
    split
    · exact closeTag_follows (t := { tag with selfClosed := true }) rfl (hsettled.noted (hname (by simp [hplace]))) c
    · trivial

end

/-! ### Whole texts -/

def sinceEvent (m : Machine) (read : Text) : Text → Text
  | [] => read
  | c :: rest =>
    match m.wholeStep c with
    | .quiet n => sinceEvent n (read ++ [c]) rest
    | .event _ _ n => sinceEvent n [] rest
    | _ => read

def lastRoll (s : Text) : Roll := roll (sinceEvent {} [] s)

def IsRoll (text : Text) (r : Roll) : Prop :=
  ∃ head c body, text = head ++ c :: body ∧ (head = [] ∨ head = ['/']) ∧ c ≠ '/' ∧ r = body.foldl Roll.next {}

theorem IsRoll.eq {text : Text} {r : Roll} (h : IsRoll text r) : r = roll text := by
  obtain ⟨head, c, body, rfl, hhead, hc, rfl⟩ := h
  rcases hhead with rfl | rfl <;> simp [roll, hc]

theorem IsRoll.snoc {text : Text} {r : Roll} (h : IsRoll text r) (c : Char) : IsRoll (text ++ [c]) (r.next c) := by
  obtain ⟨head, first, body, rfl, hhead, hfirst, rfl⟩ := h
  exact ⟨head, first, body ++ [c], by simp, hhead, hfirst, by rw [List.foldl_append]; rfl⟩

def Tracks (text : Text) (m : Machine) : Prop :=
  match m.state with
  | .tagOpen => text = []
  | .endTagOpen => text = ['/'] ∧ m.tag = some {}
  | state => state.isTag = true → ∃ tag r, m.tag = some tag ∧ IsRoll text r ∧ Follows m tag r

def Step.Tracks (text : Text) (c : Char) : Step → Prop
  | .quiet n => Markup.Tracks (text ++ [c]) n
  | .event _ e n => Markup.Tracks [] n ∧ ∀ attributes, e.attributes? = some attributes → attributes = (roll text).noted
  | .again k => ∃ n, k.step c = .quiet n ∧ Markup.Tracks (text ++ [c]) n
  | .fault _ _ => True

section

variable {m : Machine} {tag : Tag} {text : Text} {c : Char}

theorem tracks_of_isTag {r : Roll} (htag : m.tag = some tag) (hroll : IsRoll text r)
    (h : Follows m tag r) : Tracks text m := by
  have hall : m.state.isTag = true → ∃ tag r, m.tag = some tag ∧ IsRoll text r ∧ Follows m tag r :=
    fun _ => ⟨tag, r, htag, hroll, h⟩
  unfold Tracks
  unfold Follows at h
  split <;> simp_all

theorem openName_tracks (hvalue : m.attributeValue = none) (hattributes : tag.attributes = [])
    (htext : text = [] ∨ text = ['/']) : (m.openName tag c).Tracks text c := by
  unfold Machine.openName
  split
  · rename_i hletter
    have hc : c ≠ '/' := by
      rintro rfl
      exact absurd hletter (by decide +kernel)
    rw [Step.Tracks]
    refine tracks_of_isTag (r := {}) rfl ⟨text, c, [], rfl, htext, hc, rfl⟩ ⟨rfl, rfl, ?_, hvalue⟩
    rw [hattributes]
    rfl
  · trivial

theorem step_tracks (hover : m.Over fun _ => True) (h : Tracks text m) : (m.step c).Tracks text c := by
  by_cases hin : m.state.isTag = true
  · have hall : ∃ tag r, m.tag = some tag ∧ IsRoll text r ∧ Follows m tag r := by
      unfold Tracks at h
      split at h <;> simp_all [State.isTag]
    obtain ⟨tag, r, htag, hroll, hfollows⟩ := hall
    have hstep := step_follows hfollows htag c
    generalize m.step c = step at hstep
    cases step with
    | quiet n =>
      obtain ⟨new, hnew, hnext⟩ := hstep
      exact tracks_of_isTag hnew (hroll.snoc c) hnext
    | event during e n =>
      rw [hroll.eq] at hstep
      refine ⟨?_, hstep.2⟩
      rw [Tracks, hstep.1]
      rintro ⟨⟩
    | again k =>
      obtain ⟨n, hn, new, hnew, hnext⟩ := hstep
      exact ⟨n, hn, tracks_of_isTag hnew (hroll.snoc c) hnext⟩
    | fault => trivial
  unfold Machine.step
  unfold Tracks at h
  cases hstate : m.state <;> rw [hstate] at h hin <;> first | exact absurd rfl hin | dsimp only at h ⊢
  case tagOpen =>
    subst h
    split_ifs with hbang hslash
    · rintro ⟨⟩
    · exact ⟨hslash ▸ rfl, rfl⟩
    · exact openName_tracks (hover.value (hstate ▸ rfl)) rfl (Or.inl rfl)
  case endTagOpen =>
    rw [h.2]
    exact openName_tracks (hover.value (hstate ▸ rfl)) rfl (Or.inr h.1)
  case data =>
    split
    · exact ⟨rfl, by rintro _ ⟨⟩⟩
    · rintro ⟨⟩
  case declarationOpen =>
    unfold Machine.openDeclaration
    split
    · trivial
    · dsimp only
      split_ifs <;> simp [Step.Tracks, Tracks, hstate, Machine.goto, Machine.refuse, State.isTag]
  case cdataSection =>
    unfold Machine.readSection
    split
    · trivial
    · dsimp only
      split
      · exact ⟨by rintro ⟨⟩, by rintro _ ⟨⟩⟩
      · rw [Step.Tracks, Tracks]
        simp [hstate, State.isTag]
  case unknown => trivial
  all_goals
    split_ifs <;> simp [Step.Tracks, Tracks, Machine.extendData, Machine.goto, Machine.closeData, Machine.refuse,
      State.isTag, Event.attributes?]

theorem tracks_run {s : Text} {after : Machine} {heard told : Array Event} (hover : m.Over fun _ => True)
    (h : Tracks text m) (hrun : Machine.hearAll record m heard s = ((after, told), s.length, none)) :
    (after.Over fun _ => True) ∧ Tracks (sinceEvent m text s) after := by
  induction s generalizing m text heard with
  | nil =>
    cases hrun
    exact ⟨hover, h⟩
  | cons c rest ih =>
    have hstep := step_tracks (c := c) hover h
    have hall : Alphabet fun _ => True := ⟨fun _ _ _ _ => trivial, fun _ _ _ _ => trivial⟩
    have hholds := Machine.step_keeps hall hover (c := c) trivial
    have hhear : (Machine.hear record c).run (m, heard) = (m.wholeStep c).heard record heard := Machine.hear_eq record m heard c
    rw [Machine.hearAll, hhear] at hrun
    rw [sinceEvent]
    have hon {k : Machine} {read : Text} {later : Array Event} (hk : k.Over fun _ => True) (htracks : Tracks read k)
        (hrest : (m.wholeStep c).heard record heard = .ok () (k, later)) :
        (after.Over fun _ => True) ∧ Tracks (sinceEvent k read rest) after := by
      rw [hrest] at hrun
      simp only [Prod.mk.injEq, List.length_cons, Nat.add_right_cancel_iff] at hrun
      have hlater : Machine.hearAll record k later rest = ((after, told), rest.length, none) :=
        Prod.ext hrun.1 (Prod.ext hrun.2.1 hrun.2.2)
      exact ih hk htracks hlater
    unfold Machine.wholeStep at hon ⊢
    cases hkind : m.step c with
    | quiet n =>
      rw [hkind] at hstep hholds hon
      exact hon hholds.1 hstep rfl
    | event during e n =>
      rw [hkind] at hstep hholds hon
      exact hon hholds.1 hstep.1 rfl
    | again k =>
      rw [hkind] at hstep hholds hon
      obtain ⟨n, hn, htracks⟩ := hstep
      have hnext := Machine.step_keeps hall hholds.1 (c := c) trivial
      dsimp only at hon ⊢
      rw [hn] at hnext hon ⊢
      exact hon hnext.1 htracks rfl
    | fault k f =>
      rw [Machine.wholeStep, hkind] at hrun
      simp [Step.heard] at hrun

end

/-- Wherever the reader, after any text that it takes in without failure, reports the attributes of a tag: they are
those of which the roll of the tag takes note. These are all that were begun in the tag, each with its own value,
exactly if none was begun after one without a value and blanks, and none right before the end of the tag. -/
theorem attributes_noted {s : Text} {m during after : Machine} {heard : Array Event} {c : Char} {e : Event}
    {attributes : List Attribute} (hrun : Machine.hearAll record {} #[] s = ((m, heard), s.length, none))
    (hstep : m.step c = .event during e after) (he : e.attributes? = some attributes) :
    attributes = (lastRoll s).noted ∧ (attributes = (lastRoll s).attributes ↔
        (lastRoll s).endsInName = false ∧ ∀ b ∈ (lastRoll s).begun, b.trails = false) := by
  have hover : ({} : Machine).Over fun _ => True := Machine.made_empty _ _ _
  have hstart : Tracks [] ({} : Machine) := nofun
  obtain ⟨hover, htracks⟩ := tracks_run hover hstart hrun
  have hnext := step_tracks (c := c) hover htracks
  rw [hstep] at hnext
  have hnoted : attributes = (lastRoll s).noted := hnext.2 attributes he
  rw [hnoted]
  exact ⟨rfl, Roll.noted_eq_attributes_iff _⟩

def loneName : Text := "x<a b='c' D ".toList

theorem attributes_noted_loneName :
    ∃ m heard during after, Machine.hearAll record {} #[] loneName = ((m, heard), loneName.length, none) ∧
      m.step '>' = .event during (.start (some ['a']) (lastRoll loneName).attributes) after := by
  let b : Attribute := ⟨some ['b'], some [.text ['c']]⟩
  let m : Machine :=
    { state := .afterAttributeName, tag := some { name := some ['a'], attributes := [b] }, attributeName := some ['d'] }
  have hrun : Machine.hearAll record {} #[] loneName = ((m, #[.data ['x']]), loneName.length, none) := by decide +kernel
  have hstep : m.step '>' = .event _ (.start (some ['a']) [b, ⟨some ['d'], none⟩]) _ := rfl
  have hall := (attributes_noted hrun hstep rfl).2.2 (by decide +kernel)
  exact ⟨m, _, _, _, hrun, hall ▸ hstep⟩

/-- A name right before the end of the tag is lost, and a value goes to the attribute before its own. -/
theorem attributes_lost : (Machine.hearAll record {} #[] "<a b>".toList).1.2 = #[.data [], .start (some ['a']) []] ∧
      (lastRoll "<a b".toList).attributes = [⟨some ['b'], none⟩] ∧
      (Machine.hearAll record {} #[] "<a b c='d'>".toList).1.2 =
        #[.data [], .start (some ['a']) [⟨some ['b'], some [.text ['d']]⟩]] ∧
      (lastRoll "<a b c='d'".toList).attributes = [⟨some ['b'], none⟩, ⟨some ['c'], some [.text ['d']]⟩] := by
  decide +kernel

end InlineMarkup.Markup

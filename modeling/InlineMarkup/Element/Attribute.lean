import InlineMarkup.Element.Document

/-!
Setting attributes and what rests on it: identifiers, classes, selection of children. The text of a
value is needed to convert it; how an element is made into text is left open here.
-/
namespace InlineMarkup.Element

abbrev Showing := Value → Act Text

namespace Act

def admitted (shown : Showing) (n : Node) (name : Text) (v : Value) : Act Value := do
  let d := n.kind.domain name
  match d with
  | .choice [] => throw .noChoices
  | .choice values =>
    let document ← get
    if values.any fun c => (document.settled v).same (document.settled c) then pure v
    else
      let text ← shown v
      throw (.notChoice n.kind.tag n.kind.name text name
        ((← get).settled (.list values)).quoted)
  | .text =>
    match v with
    | .text _ => pure v
    | _ =>
      let refuse : Act Value := do
        throw (.wrongSort n.kind.tag n.kind.name name d.sortName ((← get).sortName v))
      tryCatch (do pure (.text (← shown v))) fun _ => refuse
  | _ =>
    if d.holds v then pure v
    else match d.convert? (← get).opened v with
      | some w => share w
      | none => throw (.wrongSort n.kind.tag n.kind.name name d.sortName ((← get).sortName v))

def setAttribute (shown : Showing) (id : Nat) (name : Text) (v : Value) : Act Unit := do
  let n ← node id
  if n.kind.allows name then
    match v with
    | .none => update id (·.erase name)
    | v =>
      let w ← admitted shown n name v
      update id (·.put name w)
  else throw (.noAttribute n.kind.tag name)

def setAttributes (shown : Showing) (id : Nat) (pairs : List (Text × Value)) : Act Unit :=
  pairs.forM fun (name, v) => setAttribute shown id name v

/-- Gives the attributes of one element to another one, as far as that allows them and does not
have them. -/
def transfer (shown : Showing) (source : Nat) (target : Value) : Act Unit := do
  (← node source).attributes.forM fun (name, v) => do
    let other ← asElement target
    if (← node other).kind.allows name then
      if (← attributeOf other name .none).isNone then setAttribute shown other name v

/-! ### Identifiers and classes -/

def identifier (shown : Showing) (id : Nat) : Act Value := do
  let v ← attributeOf id "id".toList .none
  if ((← get).opened v).isTrue then pure v
  else
    modify fun d => { d with identifiers := d.identifiers + 1 }
    let drawn := Value.text ("pyxl".toList ++ Text.ofNat (← get).identifiers)
    setAttribute shown id "id".toList drawn
    pure drawn

def classes (id : Nat) : Act Value := attributeOf id "class".toList (.text [])

def joinClasses (current added : Value) : Act Value :=
  match current, added with
  | .text s, .text t => pure (.text (s ++ ' ' :: t))
  | .shared place, .text t => do
    extend place ((' ' :: t).map fun c => .text [c])
    pure current
  | _, _ => throw .unsuitable

def addClass (shown : Showing) (id : Nat) (added : Value) : Act Unit := do
  if ((← get).opened added).isTrue then
    let current ← attributeOf id "class".toList .none
    let joined ←
      if ((← get).opened current).isTrue then joinClasses current added else pure added
    setAttribute shown id "class".toList joined

/-! ### Selection -/

/-- A text is found in a value: as part of a text, or among the values it consists of. -/
def isFoundIn (word : Text) : Value → Act Bool
  | .text s => pure (Text.occurs word s)
  | .list items => pure (items.any (Value.text word).same)
  | .tuple items => pure (items.any (Value.text word).same)
  | .table keys _ => pure (keys.any (Value.text word).same)
  | _ => throw .unsuitable

/-- A child is one that a selector means: by class after a full stop, by identifier after a number
sign, else by tag. -/
def isSelected (shown : Showing) (selector : Text) (child : Value) : Act Bool :=
  match selector with
  | '.' :: word => do
    let v ← classes (← asElement child)
    isFoundIn word ((← get).settled v)
  | '#' :: word => do
    let v ← identifier shown (← asElement child)
    pure ((Value.text word).same ((← get).settled v))
  | tag =>
    match child with
    | .element id => do pure ((← node id).kind.name == "x_".toList ++ tag)
    | _ => pure false

def selectFrom (shown : Showing) (selector : Text) (exclude : Bool) :
    List Value → Act (List Value)
  | [] => pure []
  | child :: rest => do
    let hit ← isSelected shown selector child
    let more ← selectFrom shown selector exclude rest
    pure (if hit != exclude then child :: more else more)

def select (shown : Showing) (id : Nat) (selector : Option Text) (exclude : Bool) : Act Value := do
  let n ← node id
  match selector with
  | none => pure (.shared (.children id))
  | some [] => pure (.shared (.children id))
  | some s => do pure (.list (← selectFrom shown s exclude n.children))

end Act

end InlineMarkup.Element

import InlineMarkup.Element.Library

/-!
Documents: the elements and lists that were made, known by number, so that one of them can stand in
several places, with the names that were given to elements and classes.
-/
namespace InlineMarkup.Element

/-- An element. -/
structure Node where
  kind : Class
  attributes : List (Text × Value) := []
  children : List Value := []
  /-- What the element was made into, if it stands for a content and that was made. -/
  content? : Option Value := none
  deriving Repr, Inhabited

/-- The elements that were made, and all that later work can ask for. -/
structure Document where
  nodes : Array Node := #[]
  lists : Array (List Value) := #[]
  bindings : List (Text × Value) := []
  classes : List (Text × Class) := []
  log : List Text := []
  identifiers : Nat := 0
  deriving Repr, Inhabited

abbrev Act := EStateM Fault Document

/-! ### Elements by themselves -/

/-- The attribute of an element, or a default if it is not set: the first of the choices there are
for it, else the given value. -/
def Node.attribute (n : Node) (name : Text) (default : Value) : Except Fault Value :=
  if n.kind.allows name then
    match n.attributes.lookup name with
    | some v => .ok v
    | none =>
      match n.kind.domain name with
      | .choice [] => .error .noDefault
      | .choice (first :: rest) =>
        if rest.any Value.isNone then .error .lateDefault else .ok first
      | _ => .ok default
  else .error (.noAttribute n.kind.tag name)

def putAttribute (attributes : List (Text × Value)) (name : Text) (v : Value) :
    List (Text × Value) :=
  match attributes with
  | [] => [(name, v)]
  | (n, w) :: rest => if n = name then (n, v) :: rest else (n, w) :: putAttribute rest name v

def Node.put (n : Node) (name : Text) (v : Value) : Node :=
  { n with attributes := putAttribute n.attributes name v }

def Node.erase (n : Node) (name : Text) : Node :=
  { n with attributes := n.attributes.filter (·.1 != name) }

def Node.attributeTable (n : Node) : Value :=
  .table (n.attributes.map fun a => .text a.1) (n.attributes.map Prod.snd)

def Node.content (n : Node) : Value := n.content?.getD .none

def isChild : Value → Bool
  | .none => false
  | .truth false => false
  | _ => true

/-! ### Lists that can grow -/

namespace Value

mutual

def settle (read? : Place → Option (List Value)) : Value → Value
  | list items => list (settleAll read? items)
  | tuple items => tuple (settleAll read? items)
  | table keys values => table (settleAll read? keys) (settleAll read? values)
  | shared place =>
    match read? place with
    | some items => list items
    | Option.none => shared place
  | v => v

def settleAll (read? : Place → Option (List Value)) : List Value → List Value
  | [] => []
  | v :: vs => settle read? v :: settleAll read? vs

end

end Value

namespace Document

def depthLimit : Nat := 490

def childrenOf (d : Document) (id : Nat) : List Value := (d.nodes[id]?.map (·.children)).getD []

def itemsAt (d : Document) : Place → List Value
  | .children id => d.childrenOf id
  | .made n => d.lists.getD n []

/-- A list as it is now, with what is in it as it was put there; other values as they are. -/
def opened (d : Document) : Value → Value
  | .shared place => .list (d.itemsAt place)
  | v => v

/-- The value with every list in it as it is now, inside the lists at some places. -/
def settledWithin (d : Document) : Nat → List Place → Value → Value
  | 0, _, v => v
  | depth + 1, around, v => v.settle fun place =>
    if around.contains place then none
    else some ((d.itemsAt place).map (d.settledWithin depth (place :: around)))

def settled (d : Document) (v : Value) : Value :=
  d.settledWithin (d.nodes.size + d.lists.size + 1) [] v

def sortName (d : Document) : Value → Text
  | .none => "NoneType".toList
  | .truth _ => "bool".toList
  | .integer _ => "int".toList
  | .decimal _ => "float".toList
  | .text _ => "str".toList
  | .bytes _ => "bytes".toList
  | .list _ => "list".toList
  | .tuple _ => "tuple".toList
  | .table _ _ => "dict".toList
  | .moment _ => "datetime.datetime".toList
  | .element id => (d.nodes[id]?.map (·.kind.path)).getD []
  | .shared _ => "list".toList

/-- The class with a name: of the vocabulary if the name has a module in front of it, else one that
was defined. -/
def class? (d : Document) (name : Text) : Option Class :=
  if name.contains '.' then
    libraryClass? (name.takeWhile (· != '.')) ((name.dropWhile (· != '.')).drop 1)
  else d.classes.lookup name

end Document

/-! ### Work on elements -/

namespace Act

def node (id : Nat) : Act Node := do
  match (← get).nodes[id]? with
  | some n => pure n
  | none => throw .missingPart

def update (id : Nat) (f : Node → Node) : Act Unit :=
  modify fun d => { d with nodes := d.nodes.modify id f }

def create (kind : Class) : Act Nat := do
  let d ← get
  set { d with nodes := d.nodes.push { kind } }
  pure d.nodes.size

def variableValue (name : Text) : Act Value := do
  match (← get).bindings.lookup name with
  | some v => pure v
  | none => throw .unknownName

def classNamed (name : Text) : Act Class := do
  match (← get).class? name with
  | some c => pure c
  | none => throw .unknownName

def note (what : String) (id : Nat) : Act Unit := do
  let n ← node id
  modify fun d => { d with log := d.log ++ [what.toList ++ n.kind.tag] }

def asElement : Value → Act Nat
  | .element id => pure id
  | _ => throw .missingPart

def attributeOf (id : Nat) (name : Text) (default : Value) : Act Value := do
  ofExcept ((← node id).attribute name default)

def share : Value → Act Value
  | .list items => do
    let d ← get
    set { d with lists := d.lists.push items }
    pure (.shared (.made d.lists.size))
  | v => pure v

def extend (place : Place) (items : List Value) : Act Unit :=
  match place with
  | .children id => update id fun n => { n with children := n.children ++ items }
  | .made n => modify fun d => { d with lists := d.lists.modify n (· ++ items) }

def append (id : Nat) (child : Value) : Act Unit := do
  let n ← node id
  if n.kind.isChildless then throw (.childless n.kind.tag)
  let added := ((← get).opened child).items?.getD [child]
  extend (.children id) (added.filter isChild)

def prepend (id : Nat) (child : Value) : Act Unit := do
  let _ ← node id
  if isChild child then update id fun n => { n with children := child :: n.children }

end Act

end InlineMarkup.Element

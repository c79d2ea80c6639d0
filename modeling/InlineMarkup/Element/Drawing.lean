import InlineMarkup.Element.Attribute
import InlineMarkup.Element.Tree

/-!
Drawing: how an element becomes a tree of markup. An element may stand for a content, which is made
by a script when it is first needed; the script may in turn need the text of elements. The recursion
is therefore open: one level of drawing is written in terms of the level below, and a drawing of a
given depth is that many levels.
-/
namespace InlineMarkup.Element

/-- How elements become trees, and what those that stand for a content are made into. -/
structure Drawing where
  tree : Nat → Act Tree
  base : Nat → Act Value

namespace Drawing

def shown (draw : Drawing) : Showing
  | .element id => do
    let t ← draw.tree id
    ofExcept t.render
  | v => do pure ((← get).settled v).shown

/-! ### Values -/

def make (draw : Drawing) (kind : Class) (arguments : List (Text × Value)) : Act Nat := do
  if arguments.any (·.1 == "self".toList) then throw .unsuitable
  let id ← Act.create kind
  let arguments := arguments.foldl (fun as (name, v) => putAttribute as name v) []
  Act.setAttributes draw.shown id (arguments.map fun (name, v) => (attributeName name, v))
  pure id

mutual

def evaluate (draw : Drawing) (self : Value) : Template → Act Value
  | .value v => pure v
  | .moment fields =>
    if fields.length < 3 then throw .unsuitable
    else match Moment.ofFields? fields with
      | some m => pure (.moment m)
      | none => throw .notMoment
  | .list items => do Act.share (.list (← evaluateAll draw self items))
  | .tuple items => do pure (.tuple (← evaluateAll draw self items))
  | .table keys values => do
    let keys ← evaluateAll draw self keys
    let values ← evaluateAll draw self values
    if keys.all Value.isKey then pure (Value.ofEntries (keys.zip values)) else throw .unsuitable
  | .variable name => Act.variableValue name
  | .raw content => do
    let v ← evaluate draw self content
    let kind ← Act.classNamed "html.rawhtml".toList
    pure (.element (← make draw kind [("text".toList, v)]))
  | .make className names values children => do
    let kind ← Act.classNamed className
    let values ← evaluateAll draw self values
    let id ← make draw kind (names.zip values)
    (← evaluateAll draw self children).forM (Act.append id)
    pure (.element id)
  | .ownAttribute name => do Act.attributeOf (← Act.asElement self) name .none
  | .ownChildren selector => do
    Act.share (← Act.select draw.shown (← Act.asElement self) selector false)

def evaluateAll (draw : Drawing) (self : Value) : List Template → Act (List Value)
  | [] => pure []
  | t :: ts => do
    let v ← evaluate draw self t
    let vs ← evaluateAll draw self ts
    pure (v :: vs)

end

/-! ### Steps -/

/-- A part of an element by the name it has in code: an attribute with underscores for its hyphens,
or one of the parts that every element has. -/
def property (id : Nat) (name : Text) : Act Value := do
  let n ← Act.node id
  if name = "__tag__".toList then pure (.text n.kind.tag)
  else if name = "__module__".toList then pure (.text n.kind.home)
  else if name = "__doc__".toList then
    pure (((n.kind.lineage.head?.bind (·.note?)).map Value.text).getD .none)
  else if name = "__weakref__".toList then pure .none
  else if name = "__children__".toList then pure (.shared (.children id))
  else if name = "__attributes__".toList then pure n.attributeTable
  else if name = "__dict__".toList then
    let parts := [("__attributes__".toList, n.attributeTable),
      ("__children__".toList, .shared (.children id))] ++
      (n.content?.map fun v => ("_element".toList, v)).toList
    pure (.table (parts.map fun p => .text p.1) (parts.map Prod.snd))
  else if name = "_element".toList ∧ n.kind.isComponent then pure n.content
  else if 4 < name.length ∧ "__".toList.isPrefixOf name ∧ "__".toList.isSuffixOf name then
    throw .missingPart
  else ofExcept (n.attribute (Text.replaceChar '_' ['-'] name) .none)

/-- A value used as though it had a method: an element is asked for an attribute of that name. -/
def methodOf {α : Type} (v : Value) (name : String) : Act α :=
  match v with
  | .element id => do
    let _ ← property id name.toList
    throw .unsuitable
  | _ => throw .missingPart

def onElement (draw : Drawing) (self : Value) (id : Nat) : Step → Act Value
  | .append child => do
    Act.append id (← evaluate draw self child)
    pure (.element id)
  | .prepend child => do
    Act.prepend id (← evaluate draw self child)
    pure (.element id)
  | .appendAll children => do
    (← evaluateAll draw self children).forM (Act.append id)
    pure (.element id)
  | .call arguments => do
    (← evaluateAll draw self arguments).forM (Act.append id)
    pure (.element id)
  | .setAttribute name value => do
    Act.setAttribute draw.shown id name (← evaluate draw self value)
    pure (.element id)
  | .setAttributes names values => do
    let pairs := (names.zip (← evaluateAll draw self values)).foldl
      (fun as (name, v) => putAttribute as name v) []
    Act.setAttributes draw.shown id pairs
    pure (.element id)
  | .addClass value => do
    Act.addClass draw.shown id (← evaluate draw self value)
    pure (.element id)
  | .transfer recipient => do
    let target ← Act.variableValue recipient
    Act.transfer draw.shown id target
    pure target
  | .children selector exclude => Act.select draw.shown id selector exclude
  | .attribute name default => do
    let default ← evaluate draw self default
    Act.attributeOf id name default
  | .property name => property id name
  | .attributes => do
    pure (.list ((← Act.node id).attributes.map fun (name, v) => .list [.text name, v]))
  | .classes => Act.classes id
  | .identifier => Act.identifier draw.shown id
  | .allows name => do pure (.truth ((← Act.node id).kind.allows name))
  | .text | .markup => do pure (.text (← draw.shown (.element id)))
  | .base => draw.base id

def onValue (draw : Drawing) (self target : Value) (step : Step) : Act Value :=
  match target, step with
  | .element id, step => onElement draw self id step
  | .shared place, .append child => do
    Act.extend place [← evaluate draw self child]
    pure target
  | v, .text => do pure (.text (← draw.shown v))
  | _, .call arguments => do
    let _ ← evaluateAll draw self arguments
    throw .unsuitable
  | _, _ => throw .missingPart

/-! ### Contents -/

/-- Makes the content of an element: what is to be done before, the content itself, and what is to be
done to it after. -/
def contentOf (draw : Drawing) (id : Nat) : Act Value := do
  let n ← Act.node id
  if n.content.isNone then
    match n.kind.before? with
    | some steps =>
      Act.note "prerender " id
      steps.forM fun s => do let _ ← onValue draw (.element id) (.element id) s
    | none => pure ()
    match n.kind.content? with
    | some content =>
      Act.note "render " id
      let made ← evaluate draw (.element id) content
      Act.update id fun n => { n with content? := some made }
    | none => throw .unwritable
    match n.kind.after? with
    | some steps =>
      Act.note "postrender " id
      let made := (← Act.node id).content
      steps.forM fun s => do let _ ← onValue draw (.element id) made s
    | none => pure ()
  return (← Act.node id).content

def words : Value → Act (List Text)
  | .text s => pure (Text.splitAt ' ' s)
  | .bytes _ => throw .unsuitable
  | v => methodOf v "split"

def wordsOf (id : Nat) : Act (List Text) := do
  let v := (← get).settled (← Act.classes id)
  if v.isTrue then words v else pure []

def insertWord (word : Text) : List Text → List Text
  | [] => [word]
  | other :: rest =>
    if word = other then other :: rest
    else if word < other then word :: other :: rest
    else other :: insertWord word rest

def joinWords (words : List Text) : Text :=
  Text.join [' '] ((words.filter fun w => !w.isEmpty).foldr insertWord [])

/-- Follows contents that stand for a content themselves, up to `limit` of them, and gathers the
words of their classes. -/
def follow (draw : Drawing) : Nat → Value → List Text → Act (Value × List Text)
  | limit, .element id, found => do
    if (← Act.node id).kind.isComponent then
      match limit with
      | 0 => throw .exhausted
      | limit + 1 =>
        let next ← contentOf draw id
        let more ← wordsOf id
        follow draw limit next (found ++ more)
    else pure (.element id, found)
  | _, v, found => pure (v, found)

/-- What an element is made into in the end. -/
def baseOf (draw : Drawing) (limit : Nat) (id : Nat) : Act Value := do
  if (← Act.node id).kind.isComponent then
    let first ← contentOf draw id
    let own ← wordsOf id
    let (last, found) ← follow draw limit first own
    match found, last with
    | _ :: _, .element b =>
      let v := (← get).settled (← Act.classes b)
      let more ← words v
      Act.setAttribute draw.shown b "class".toList (.text (joinWords (found ++ more)))
    | _, _ => pure ()
    pure last
  else property id "_get_base_element".toList

/-! ### Trees -/

def childTrees (draw : Drawing) : List Value → Act (List Tree)
  | [] => pure []
  | .none :: rest => childTrees draw rest
  | .element id :: rest => do
    let t ← draw.tree id
    let ts ← childTrees draw rest
    pure (t :: ts)
  | v :: rest => do
    let s ← draw.shown v
    let ts ← childTrees draw rest
    pure (.text s :: ts)

def attributeTexts (draw : Drawing) : List (Text × Value) → Act (List (Text × Text))
  | [] => pure []
  | (name, v) :: rest => do
    let s ← draw.shown v
    let more ← attributeTexts draw rest
    pure ((name, s) :: more)

def childrenNow (draw : Drawing) (id : Nat) : Act (List Tree) := do
  childTrees draw (← Act.node id).children

def asText? : Value → Option Text
  | .text s => some s
  | _ => none

def declarationOf (id : Nat) (name : String) (opening closing : String) : Act Tree := do
  let v ← Act.attributeOf id name.toList .none
  pure (.declaration opening.toList (asText? v) closing.toList)

def treeOf (draw : Drawing) (limit : Nat) (id : Nat) : Act Tree := do
  let n ← Act.node id
  match n.kind.form? with
  | none => throw .unwritable
  | some .paired =>
    let attributes ← attributeTexts draw n.attributes
    pure (.paired n.kind.tag attributes (← childrenNow draw id))
  | some .feed =>
    let d ← get
    let renamed := n.attributes.map fun (name, v) =>
      match n.kind.renaming? with
      | some r => r.apply name (d.opened v)
      | none => (name, v)
    let attributes ← attributeTexts draw renamed
    pure (.paired n.kind.tag attributes (← childrenNow draw id))
  | some .single =>
    pure (.single n.kind.tag (← attributeTexts draw n.attributes))
  | some .hidden => pure (.fragment [])
  | some .declaration => declarationOf id "decl" "<!" ">"
  | some .markedDeclaration => declarationOf id "decl" "<![" "]]>"
  | some .conditionDeclaration => declarationOf id "decl" "<![" "]>"
  | some .formError => declarationOf id "name" "<form:error name=\"" "\" />"
  | some .raw =>
    match ← Act.attributeOf id "text".toList .none with
    | .text s => pure (.raw s)
    | .bytes bs =>
      match String.fromUTF8? ⟨bs.toArray⟩ with
      | some s => pure (.raw s.toList)
      | none => throw .notEncoded
    | _ => throw .unsuitable
  | some .fragment => do pure (.fragment (← childrenNow draw id))
  | some (.conditional shown) =>
    match (n.attributes.lookup "cond".toList).getD (.text []) with
    | .text s => pure (.conditional shown s (← childrenNow draw id))
    | .bytes _ => throw .unsuitable
    | v => methodOf v "split"
  | some .feedDeclaration =>
    pure (.raw "<?xml version=\"1.0\" encoding=\"UTF-8\" standalone=\"yes\" ?>".toList)
  | some .feedDate =>
    match ← Act.attributeOf id "date".toList .none with
    | .moment m => pure (.paired n.kind.tag [] [.raw m.stamp])
    | v => methodOf v "strftime"
  | some .feedCreator => do pure (.paired "dc:creator".toList [] (← childrenNow draw id))
  | some .content =>
    match ← baseOf draw limit id with
    | .none => pure (.fragment [])
    | .element b => draw.tree b
    | v => do pure (.text (← draw.shown v))

def chainLimit : Nat := 0x100000

def ofDepth : Nat → Drawing
  | 0 => { tree := fun _ => throw .exhausted, base := fun _ => throw .exhausted }
  | depth + 1 =>
    let below := ofDepth depth
    { tree := treeOf below chainLimit, base := baseOf below chainLimit }

def standard : Drawing := ofDepth Document.depthLimit

end Drawing

end InlineMarkup.Element

import InlineMarkup.Element.Drawing

/-!
Sessions: statements that make elements and classes, give them names, and work on them, one after the
other on one document.
-/
namespace InlineMarkup.Element

/-- What an attribute of a new class is said to hold. -/
inductive Declared where
  | plain (d : Domain)
  | oneOf (values : List Template)
  deriving Repr, Inhabited

inductive Statement where
  | assign (name : Text) (value : Template)
  | define (name : Text) (bases : List Text) (attributes : List (Text × Declared))
      (content? : Option Template) (before? after? : Option (List Step))
  | takeLog
  | on (name : Text) (step : Step)
  deriving Repr, Inhabited

inductive Answer where
  | value (v : Value)
  /-- The tag of a new class and the attributes it allows, in order of their names. -/
  | defined (tag : Text) (attributes : List Text)
  | log (entries : List Text)
  deriving Repr, Inhabited

namespace Session

def domainOf : Declared → Act Domain
  | .plain d => pure d
  | .oneOf values => do pure (.choice (← Drawing.standard.evaluateAll .none values))

def define (name : Text) (bases : List Text) (attributes : List (Text × Declared))
    (content? : Option Template) (before? after? : Option (List Step)) : Act Class := do
  let bases ← bases.mapM Act.classNamed
  let attributes ← attributes.mapM fun (a, d) => do pure (a, ← domainOf d)
  let serial := librarySize + (← get).classes.length
  let kind ← ofExcept
    (Class.extend name "custom".toList bases attributes { serial, content?, before?, after? })
  modify fun d => { d with classes := (name, kind) :: d.classes }
  pure kind

def run : Statement → Act Answer
  | .assign name value => do
    let v ← Drawing.standard.evaluate .none value
    modify fun d => { d with bindings := (name, v) :: d.bindings }
    pure (.value v)
  | .define name bases attributes content? before? after? => do
    let kind ← define name bases attributes content? before? after?
    pure (.defined kind.tag ((kind.attributes.map (·.1)).foldr Drawing.insertWord []))
  | .takeLog => do
    let entries := (← get).log
    modify fun d => { d with log := [] }
    pure (.log entries)
  | .on name step => do
    let target ← Act.variableValue name
    pure (.value (← Drawing.standard.onValue target target step))

end Session

end InlineMarkup.Element

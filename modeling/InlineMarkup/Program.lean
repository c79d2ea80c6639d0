import InlineMarkup.Element.Tree
import InlineMarkup.Markup.Listing
import InlineMarkup.Restore

/-!
The programs of the package, as functions from their arguments and the files around them to what they
write and how they end.
-/
namespace InlineMarkup

inductive Program where
  | translate
  | tokens
  | markup
  | greeting
  | silent
  | launcher
  deriving DecidableEq, Repr

namespace Program

inductive Failure where
  | fault (f : Fault)
  | argumentMissing
  | wrongArguments
  | noFile
  | noProgram
  deriving DecidableEq, Repr

structure Outcome where
  output : Text := []
  failure : Option Failure := none
  /-- The code with which it exited early, and what it wrote about that. -/
  exit : Option (Nat × Text) := none
  deriving DecidableEq, Repr

structure Surroundings where
  file? : Text → Option Text
  input : Text
  program? : Text → Option Program

def failed (f : Failure) : Outcome := { failure := some f }

def Surroundings.read (around : Surroundings) (name : Text) (next : Text → Outcome) : Outcome :=
  match around.file? name with
  | some s => next (Text.universalNewlines s)
  | none => failed .noFile

/-- What is written of a fault in translating. A call that does not end is not reported. -/
def report (f : Fault) : Text := if f = .unfinished then [] else f.message ++ ['\n']

def ofResult : Except Fault Text → Outcome
  | .ok s => { output := s }
  | .error f => { output := report f, failure := some (.fault f) }

def translateFile (around : Surroundings) : List Text → Outcome
  | [] => failed .argumentMissing
  | first :: rest =>
    if first = "-i".toList ∨ first = "-r".toList then
      match rest with
      | [] => failed .argumentMissing
      | name :: _ => around.read name fun s =>
        ofResult (if first = "-r".toList then restore s else
          InlineMarkup.translate { reversible := true } s)
    else around.read first fun s => ofResult (InlineMarkup.translate {} s)

def tokenListing (s : Text) : Outcome :=
  { output := (tokenize (Text.lines s)).flatMap Token.listing }

/-- A listing of what markup consists of; it goes as far as the markup can be read. -/
def markupListing (s : Text) : Outcome :=
  let (output, f) := Markup.listing s
  { output, failure := f.map .fault }

def greetingTree : Element.Tree :=
  .paired "html".toList [] [.paired "body".toList [] [.raw "Hello World!".toList]]

def usage : Text :=
  ("Wraps a python command to allow it to recognize pyxl-coded files with\n" ++
   "no source modifications.\n\nUsage:\n" ++
   "    python -m pyxl.codec.register -m module.to.run [args...]\n" ++
   "    python -m pyxl.codec.register path/to/script.py [args...]\n").toList

def run (around : Surroundings) : Program → List Text → Outcome
  | translate, arguments => translateFile around arguments
  | tokens, [] => tokenListing around.input
  | tokens, name :: _ => around.read name tokenListing
  | markup, [name] => around.read name markupListing
  | markup, _ => failed .wrongArguments
  | greeting, _ => { output := greetingTree.write ++ ['\n'] }
  | silent, _ => {}
  | launcher, [] => { exit := some (1, usage ++ ['\n']) }
  | launcher, [name] => around.read name fun _ => {}
  | launcher, first :: name :: rest =>
    if first = "-m".toList then
      match around.program? name with
      | some p => run around p rest
      | none => failed .noProgram
    else around.read first fun _ => {}

end Program

end InlineMarkup

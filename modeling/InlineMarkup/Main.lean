import InlineMarkup.Program

/-!
The command line: the name of a program and its arguments.
-/
namespace InlineMarkup

def Program.named? (name : Text) : Option Program :=
  [("translate".toList, Program.translate), ("tokens".toList, .tokens), ("markup".toList, .markup),
   ("greeting".toList, .greeting), ("launch".toList, .launcher)].lookup name

def Program.Failure.message : Program.Failure → Text
  | fault f => f.message
  | argumentMissing => "an argument is missing".toList
  | wrongArguments => "one argument is needed".toList
  | noFile => "there is no such file".toList
  | noProgram => "there is no such program".toList

def readFiles (names : List String) : IO (List (Text × Text)) := do
  let mut found := []
  for name in names do
    try
      let content ← IO.FS.readFile name
      found := (name.toList, content.toList) :: found
    catch _ => pure ()
  return found

def readInput : IO Text := do
  return (← (← IO.getStdin).readToEnd).toList

end InlineMarkup

open InlineMarkup in
def main (arguments : List String) : IO UInt32 := do
  match arguments with
  | [] =>
    IO.eprintln "usage: PROGRAM [ARGUMENT ...]"
    return 2
  | name :: rest =>
    match Program.named? name.toList with
    | none =>
      IO.eprintln "there is no such program"
      return 2
    | some program =>
      let files ← readFiles rest
      let input ← if program = .tokens ∧ rest.isEmpty then readInput else pure []
      let around : Program.Surroundings :=
        { file? := fun name => files.lookup name, input, program? := Program.named? }
      let outcome := program.run around (rest.map String.toList)
      IO.print (String.ofList outcome.output)
      match outcome.exit, outcome.failure with
      | some (code, why), _ =>
        IO.eprint (String.ofList why)
        return UInt32.ofNat code
      | none, some f =>
        IO.eprintln (String.ofList f.message)
        return 1
      | none, none => return 0

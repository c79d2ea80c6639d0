import InlineMarkup.Text.Basic

/-!
The package: what it says about itself, and the file that installs the encoding.
-/
namespace InlineMarkup.Package

def name : Text := "pyxl3".toList

def version : Text := "1.4".toList

def address : Text := "http://github.com/gvanrossum/pyxl3".toList

def licence : Text := "http://www.apache.org/licenses/LICENSE-2.0".toList

def fact? (option : Text) : Option Text :=
  if option = "--name".toList then some name
  else if option = "--version".toList then some version
  else if option = "--fullname".toList then some (name ++ ['-'] ++ version)
  else if option = "--url".toList then some address
  else if option = "--license".toList then some licence
  else none

def describe (options : List Text) : Text :=
  (options.filterMap fact?).flatMap fun s => s ++ ['\n']

/-- The file, by name and content, that makes the encoding known whenever Python starts; the first
argument may ask for the reversible encoding. -/
def startupFile (arguments : List Text) : Text × Text :=
  let encoding := if arguments.head? = some "--invertible".toList then "register_invertible"
    else "register"
  ("pyxl.pth".toList, "import pyxl.codec.".toList ++ encoding.toList ++ ['\n'])

end InlineMarkup.Package

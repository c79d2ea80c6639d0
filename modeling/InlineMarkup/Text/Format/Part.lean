import InlineMarkup.Text.Quoted

/-!
What a field of a format text can ask an argument for. Beside its characters a text has a sort and
methods, and these have names and other parts in turn.
-/
namespace InlineMarkup.Format

inductive Part where
  | text (s : Text)
  | sort (name : Text)
  | sorts (names : List Text)
  | method (name : Text) (isOperator : Bool) (owner : Text)
  | label (shown sortName : Text)
  deriving DecidableEq, Repr

namespace Part

/-! ### Names -/

def operators : List Text :=
  ["__add__", "__contains__", "__delattr__", "__eq__", "__ge__", "__getattribute__", "__getitem__",
   "__gt__", "__hash__", "__init__", "__iter__", "__le__", "__len__", "__lt__", "__mod__", "__mul__",
   "__ne__", "__repr__", "__rmod__", "__rmul__", "__setattr__", "__str__"].map String.toList

def methods : List Text :=
  ["__dir__", "__format__", "__getnewargs__", "__getstate__", "__init_subclass__", "__new__",
   "__reduce__", "__reduce_ex__", "__sizeof__", "__subclasshook__", "capitalize", "casefold",
   "center", "count", "encode", "endswith", "expandtabs", "find", "format", "format_map", "index",
   "isalnum", "isalpha", "isascii", "isdecimal", "isdigit", "isidentifier", "islower", "isnumeric",
   "isprintable", "isspace", "istitle", "isupper", "join", "ljust", "lower", "lstrip", "maketrans",
   "partition", "removeprefix", "removesuffix", "replace", "rfind", "rindex", "rjust", "rpartition",
   "rsplit", "rstrip", "split", "splitlines", "startswith", "strip", "swapcase", "title",
   "translate", "upper", "zfill"].map String.toList

def textNote : Text :=
  ("str(object='') -> str\nstr(bytes_or_buffer[, encoding[, errors]]) -> str\n\n" ++
    "Create a new string object from the given object. If encoding or\n" ++
    "errors is specified, then the object must expose a data buffer\n" ++
    "that will be decoded using the given encoding and error handler.\n" ++
    "Otherwise, returns the result of object.__str__() (if defined)\nor repr(object).\n" ++
    "encoding defaults to sys.getdefaultencoding().\nerrors defaults to 'strict'.").toList

def textSort : Text := "str".toList

def anySort : Text := "object".toList

def nothing : Part := label "None".toList "NoneType".toList

def lineage (name : Text) : List Text := if name = anySort then [anySort] else [name, anySort]

/-! ### Texts -/

def sortText (name : Text) : Text := "<class '".toList ++ name ++ "'>".toList

def sortsText (names : List Text) : Text :=
  ['('] ++ Text.join [',', ' '] (names.map sortText) ++ (if names.length = 1 then [','] else []) ++
    [')']

def shown : Part → Text
  | text s => s
  | sort name => sortText name
  | sorts names => sortsText names
  | method name isOperator _ =>
    (if isOperator then "<method-wrapper '".toList ++ name ++ ['\'']
     else "<built-in method ".toList ++ name) ++ " of str object>".toList
  | label s _ => s

def sortName : Part → Text
  | text _ => textSort
  | sort _ => "type".toList
  | sorts _ => "tuple".toList
  | method _ isOperator _ =>
    (if isOperator then "method-wrapper" else "builtin_function_or_method").toList
  | label _ name => name

/-! ### Parts by name -/

def ofText? (s name : Text) : Option Part :=
  if name = "__doc__".toList then some (text textNote)
  else if operators.contains name then some (method name true s)
  else if methods.contains name then some (method name false s)
  else none

def ofSort? (s name : Text) : Option Part :=
  if name = "__name__".toList ∨ name = "__qualname__".toList then some (text s)
  else if name = "__module__".toList then some (text "builtins".toList)
  else if name = "__mro__".toList then some (sorts (lineage s))
  else if name = "__bases__".toList then some (sorts (lineage s).tail)
  else if name = "__base__".toList then
    some (((lineage s).tail.head?.map sort).getD nothing)
  else if s = textSort then
    if name = "__doc__".toList then some (text textNote)
    else if name = "__text_signature__".toList then some nothing
    else if operators.contains name then
      some (label ("<slot wrapper '".toList ++ name ++ "' of 'str' objects>".toList)
        "wrapper_descriptor".toList)
    else if methods.contains name then
      some (label ("<method '".toList ++ name ++ "' of 'str' objects>".toList)
        "method_descriptor".toList)
    else none
  else none

def ofMethod? (method : Text) (isOperator : Bool) (owner name : Text) : Option Part :=
  if name = "__name__".toList then some (text method)
  else if name = "__qualname__".toList then some (text (textSort ++ ['.'] ++ method))
  else if name = "__self__".toList then some (text owner)
  else if name = "__objclass__".toList ∧ isOperator then some (sort textSort)
  else if name = "__module__".toList ∧ !isOperator then some nothing
  else none

def attribute? (p : Part) (name : Text) : Option Part :=
  if name = "__class__".toList then some (sort p.sortName)
  else match p with
    | text s => ofText? s name
    | sort s => ofSort? s name
    | method m isOperator owner => ofMethod? m isOperator owner name
    | _ => none

end Part

end InlineMarkup.Format

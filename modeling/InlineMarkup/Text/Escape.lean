import InlineMarkup.Text.Basic

/-!
Text as it stands in markup: the three characters that mark up, and the double quote, are written
as character references. The ampersand, which begins a reference, is the first to be replaced and
the last to be restored.
-/
namespace InlineMarkup.Text

def escape (s : Text) : Text :=
  replaceChar '"' "&quot;".toList
    (replaceChar '<' "&lt;".toList (replaceChar '>' "&gt;".toList (replaceChar '&' "&amp;".toList s)))

def unescape (s : Text) : Text :=
  replace "&amp;".toList ['&']
    (replace "&quot;".toList ['"']
      (replace "&lt;".toList ['<'] (replace "&gt;".toList ['>'] s)))

end InlineMarkup.Text

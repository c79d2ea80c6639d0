import InlineMarkup.Element.Class

/-!
The classes of the vocabulary, found by the names of their module and of their tag.
-/
namespace InlineMarkup.Element

def Class.base : Class :=
  { name := "x_base".toList, home := "pyxl.base".toList, attributes := Vocabulary.common,
    lineage := [{ serial := 0 }] }

def Class.component : Class :=
  { name := "x_element".toList, home := "pyxl.element".toList, attributes := Vocabulary.common,
    lineage := [{ serial := 1, form? := some .content, isComponent := true }, { serial := 0 }] }

/-- Part of the vocabulary: the classes of one module. -/
structure Shelf where
  home : Text
  first : Nat
  entries : List Entry
  forms : List (Text × Form)
  renamings : List (Text × Renaming) := []
  notes : List (Text × Text) := []

namespace Shelf

def htmlForms : List (Text × Form) :=
  [("html_element".toList, .paired), ("html_element_nochild".toList, .single),
   ("html_comment".toList, .hidden), ("html_decl".toList, .declaration),
   ("html_marked_decl".toList, .markedDeclaration), ("html_ms_decl".toList, .conditionDeclaration),
   ("rawhtml".toList, .raw), ("frag".toList, .fragment), ("form_error".toList, .formError)]

def feedForms : List (Text × Form) :=
  [("rss_element".toList, .feed), ("rss_decl_standalone".toList, .feedDeclaration),
   ("rss_date_element".toList, .feedDate), ("creator".toList, .feedCreator)]

def html : Shelf :=
  { home := "pyxl.html".toList, first := 2, entries := Vocabulary.html, forms := htmlForms }

def feed : Shelf :=
  { home := "pyxl.rss".toList, first := 2 + Vocabulary.html.length, entries := Vocabulary.rss,
    forms := feedForms,
    renamings := [("rss".toList, .dublinCore), ("guid".toList, .permanentLink)] }

def browser : Shelf :=
  { home := "pyxl.browser_hacks".toList,
    first := 2 + Vocabulary.html.length + Vocabulary.rss.length, entries := Vocabulary.browser,
    forms := [("cond_comment".toList, .conditional false),
      ("cond_noncomment".toList, .conditional true)],
    notes := [("cond_noncomment".toList,
      (" This is a conditional comment where browsers which don't support conditional comments\n" ++
        "        will parse the children by default. ").toList)] }

def childlessKind : Text := "html_element_nochild".toList

def class? (s : Shelf) : Nat → Text → Option Class
  | 0, _ => none
  | depth + 1, tag =>
    if tag = "base".toList then some Class.base
    else match s.entries.findIdx? (·.tag == tag) with
      | none => none
      | some i =>
        match s.entries[i]? with
        | none => none
        | some e =>
          match s.class? depth e.kind with
          | none => none
          | some kind =>
            let own : Trait :=
              { serial := s.first + i, form? := s.forms.lookup tag, childless := tag == childlessKind,
                renaming? := s.renamings.lookup tag, note? := s.notes.lookup tag }
            (Class.extend ("x_".toList ++ tag) s.home [kind] e.attributes own).toOption

end Shelf

def librarySize : Nat := Shelf.browser.first + Vocabulary.browser.length

def kindDepth : Nat := 4

def libraryClass? (home tag : Text) : Option Class :=
  if home = "html".toList then
    (Shelf.html.class? kindDepth tag).or
      (if tag = "cond_comment".toList then Shelf.browser.class? kindDepth tag else none)
  else if home = "rss".toList then Shelf.feed.class? kindDepth tag
  else if home = "browser_hacks".toList then Shelf.browser.class? kindDepth tag
  else if tag = "base".toList ∧ (home = "base".toList ∨ home = "element".toList) then
    some Class.base
  else if home = "element".toList ∧ tag = "element".toList then some Class.component
  else none

end InlineMarkup.Element

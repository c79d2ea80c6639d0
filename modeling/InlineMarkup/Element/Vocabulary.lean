import InlineMarkup.Element.Domain

/-!
The vocabulary: every element there is, with the kind of element it belongs to and the attributes
it allows beyond those of its kind.
-/
namespace InlineMarkup.Element

structure Entry where
  tag : Text
  kind : Text
  attributes : List (Text × Domain)
  deriving Repr

namespace Vocabulary

def texts (names : List String) : List (Text × Domain) := names.map fun n => (n.toList, .text)

def integers (names : List String) : List (Text × Domain) := names.map fun n => (n.toList, .integer)

def truths (names : List String) : List (Text × Domain) := names.map fun n => (n.toList, .truth)

def moments (names : List String) : List (Text × Domain) := names.map fun n => (n.toList, .moment)

def entry (tag kind : String) (attributes : List (Text × Domain) := []) : Entry :=
  ⟨tag.toList, kind.toList, attributes⟩

def element (tag : String) (attributes : List (Text × Domain) := []) : Entry := entry tag "html_element" attributes

def childless (tag : String) (attributes : List (Text × Domain) := []) : Entry :=
  entry tag "html_element_nochild" attributes

def common : List (Text × Domain) :=
  texts ["accesskey", "class", "dir", "id", "lang", "maxlength", "role", "style"] ++ integers
    ["tabindex"] ++ texts ["title", "xml:lang", "itemtype", "itemscope", "itemprop", "itemid",
    "itemref", "onabort", "onblur", "onchange", "onclick", "ondblclick", "onerror", "onfocus",
    "onkeydown", "onkeypress", "onkeyup", "onload", "onmousedown", "onmouseenter",
    "onmouseleave", "onmousemove", "onmouseout", "onmouseover", "onmouseup", "onreset",
    "onresize", "onselect", "onsubmit", "onunload"]

def html : List Entry :=
  [entry "html_element" "base", entry "html_element_nochild" "base",
   entry "html_comment" "base" (texts ["comment"]), entry "html_decl" "base" (texts ["decl"]),
   entry "html_marked_decl" "base" (texts ["decl"]), entry "html_ms_decl" "base" (texts ["decl"]),
   childless "rawhtml" (texts ["text"]), entry "frag" "base",
   element "a" (texts ["href", "rel", "type", "name", "target", "download"]), element "abbr",
   element "acronym", element "address",
   childless "area" (texts ["alt", "coords", "href", "nohref", "target"]), element "article", element "aside",
   element "audio" (texts ["src"]), element "b", element "big", element "blockquote" (texts ["cite"]),
   element "body" (texts ["contenteditable"]), childless "br",
   element "button" (texts ["disabled", "name", "type", "value"]),
   element "canvas" (texts ["height", "width"]), element "caption", element "cite", element "code",
   childless "col" (texts ["align", "char"] ++ integers ["charoff", "span"] ++
     texts ["valign", "width"]),
   element "colgroup" (texts ["align", "char"] ++ integers ["charoff", "span"] ++
     texts ["valign", "width"]),
   element "datalist", element "dd", element "del" (texts ["cite", "datetime"]),
   element "div" (texts ["contenteditable"]), element "dfn", element "dl", element "dt", element "em",
   element "embed" (texts ["src", "width", "height", "allowscriptaccess",
     "allowfullscreen", "name", "type"]),
   element "figure", element "figcaption", element "fieldset", element "footer",
   element "form" (texts ["action", "accept", "accept-charset", "autocomplete",
     "enctype", "method", "name", "novalidate", "target"]),
   entry "form_error" "base" (texts ["name"]),
   childless "frame" (texts ["frameborder", "longdesc", "marginheight",
     "marginwidth", "name", "noresize", "scrolling", "src"]),
   element "frameset" (texts ["rows", "cols"]), element "h1", element "h2", element "h3", element "h4",
   element "h5", element "h6", element "head" (texts ["profile"]), element "header", childless "hr",
   element "html" (texts ["content", "scheme", "http-equiv", "xmlns", "xmlns:og",
     "xmlns:fb"]),
   element "i", element "iframe" (texts ["frameborder", "height", "longdesc", "marginheight",
     "marginwidth", "name", "sandbox", "scrolling", "src", "width", "allowtransparency",
     "allowfullscreen"]),
   element "video" (texts ["autoplay", "controls", "height", "loop", "muted",
     "poster", "preload", "src", "width"]),
   childless "img" (texts ["alt", "src", "height", "ismap", "longdesc",
     "usemap", "vspace", "width"]),
   childless "input" (texts ["accept", "align", "alt", "autofocus", "checked",
     "disabled", "list", "max", "maxlength", "min", "name", "pattern", "placeholder", "readonly",
     "size", "src", "step", "type", "value", "autocomplete", "autocorrect", "required",
     "spellcheck", "multiple"]),
   element "ins" (texts ["cite", "datetime"]), element "kbd", element "label" (texts ["for"]),
   element "legend", element "li", childless "link" (texts ["charset", "href", "hreflang", "media", "rel",
     "rev", "sizes", "target", "type"]),
   element "main" (texts ["role"]), element "map" (texts ["name"]),
   childless "meta" (texts ["content", "http-equiv", "name", "property",
     "scheme", "charset"]),
   element "nav", element "noframes", element "noscript",
   element "object" (texts ["align", "archive", "border", "classid", "codebase",
     "codetype", "data", "declare", "height", "hspace", "name", "standby", "type", "usemap",
     "vspace", "width"]),
   element "ol", element "optgroup" (texts ["disabled", "label"]),
   element "option" (texts ["disabled", "label", "selected", "value"]), element "p",
   element "param" (texts ["name", "type", "value", "valuetype"]), element "pre",
   element "progress" (integers ["max", "value"]), element "q" (texts ["cite"]), element "samp",
   element "script" (texts ["async", "charset", "defer", "src", "type"]), element "section",
   element "select" (texts ["disabled", "multiple", "name", "size", "required"]), element "small",
   element "span", element "strong", element "style" (texts ["media", "type"]), element "sub", element "sup",
   element "table" (texts ["border", "cellpadding", "cellspacing", "frame", "rules",
     "summary", "width"]),
   element "tbody" (texts ["align", "char", "charoff", "valign"]),
   element "td" (texts ["abbr", "align", "axis", "char", "charoff", "colspan",
     "headers", "rowspan", "scope", "valign"]),
   element "textarea" (texts ["cols", "rows", "disabled", "placeholder", "name",
     "readonly", "autocorrect", "autocomplete", "autocapitalize", "spellcheck", "autofocus",
     "required"]),
   element "tfoot" (texts ["align", "char", "charoff", "valign"]),
   element "th" (texts ["abbr", "align", "axis", "char", "charoff", "colspan",
     "rowspan", "scope", "valign"]),
   element "thead" (texts ["align", "char", "charoff", "valign"]), element "time" (texts ["datetime"]),
   element "title", element "tr" (texts ["align", "char", "charoff", "valign"]), element "tt", element "u",
   element "ul", element "var"]

def rss : List Entry :=
  [entry "rss_element" "base", entry "rss_decl_standalone" "base",
   entry "rss" "rss_element" (texts ["version"] ++ truths ["uses-dublin-core"]),
   entry "channel" "rss_element", entry "title" "rss_element", entry "link" "rss_element",
   entry "description" "rss_element", entry "language" "rss_element",
   entry "rss_date_element" "base" (moments ["date"]), entry "lastBuildDate" "rss_date_element",
   entry "pubDate" "rss_date_element", entry "ttl" "rss_element", entry "item" "rss_element",
   entry "guid" "rss_element" (truths ["is-perma-link"]), entry "creator" "rss_element"]

def browser : List Entry :=
  [entry "cond_comment" "base" (texts ["cond"]), entry "cond_noncomment" "base" (texts ["cond"])]

/-- The tags that stand for an element of hypertext wherever they are used, with those that are at
hand there from elsewhere. -/
def htmlTags : List Text :=
  ["base".toList, "cond_comment".toList] ++ html.map (·.tag)

end Vocabulary

end InlineMarkup.Element

import CellAlign.Markup.Draft

/-!
# The elements that are open

While markup is read the open elements form a stack, here a list with the current element first and
the root last.  Many rules ask whether an element is open inside some boundary, or close elements up
to one: walks down the list that stop at the first element of a set.
-/

namespace CellAlign.Markup

/-- An open element. -/
structure OpenElement where
  id : ItemId
  name : Name

/-- The open elements, the current one first. -/
abbrev OpenElements : Type := List OpenElement

/-- Sets of names. -/
abbrev NameSet : Type := Name → Bool

namespace NameSet

/-- The elements of HTML with some local names. -/
def html (localNames : List String) : NameSet := fun name => name.isHtmlIn localNames

/-- The elements of MathML in which text is read as that of HTML. -/
def mathText : NameSet := fun name =>
  name.space == .mathml && ["mi", "mo", "mn", "ms", "mtext"].contains name.localName

/-- The elements of SVG in which everything is read as HTML. -/
def svgHtml : NameSet := fun name =>
  name.space == .svg && ["foreignObject", "desc", "title"].contains name.localName

/-- The boundary of most searches. -/
def defaultScope : NameSet := fun name =>
  html ["applet", "caption", "html", "table", "td", "th", "marquee", "object", "template"] name ||
    mathText name || svgHtml name

/-- The boundary of searches for a list item. -/
def listScope : NameSet := fun name => defaultScope name || html ["ol", "ul"] name

/-- The boundary of searches for a paragraph. -/
def buttonScope : NameSet := fun name => defaultScope name || html ["button"] name

/-- The boundary of searches within a table. -/
def tableScope : NameSet := html ["html", "table", "template"]

/-- The boundary of searches for a select: anything but its options. -/
def selectScope : NameSet := fun name => !html ["optgroup", "option"] name

/-- What rows of a table stand in. -/
def bodyContext : NameSet := html ["tbody", "tfoot", "thead", "template", "html"]

/-- What cells of a row stand in. -/
def rowContext : NameSet := html ["tr", "template", "html"]

/-- Cells. -/
def cell : NameSet := html ["td", "th"]

/-- Headings. -/
def heading : NameSet := html ["h1", "h2", "h3", "h4", "h5", "h6"]

/-- The elements whose end tag may be left out. -/
def impliedEnd : NameSet :=
  html ["dd", "dt", "li", "option", "optgroup", "p", "rb", "rp", "rt", "rtc"]

/-- The elements that the end of a template closes without more ado. -/
def thoroughEnd : NameSet := fun name =>
  impliedEnd name ||
    html ["caption", "colgroup", "tbody", "td", "tfoot", "th", "thead", "tr"] name

/-- The elements next to which text is moved out of a table. -/
def fosterTarget : NameSet := html ["table", "tbody", "tfoot", "thead", "tr"]

/-- The elements that an end tag does not look past. -/
def special : NameSet :=
  html ["address", "applet", "area", "article", "aside", "base", "basefont", "bgsound",
    "blockquote", "body", "br", "button", "caption", "center", "col", "colgroup", "dd", "details",
    "dir", "div", "dl", "dt", "embed", "fieldset", "figcaption", "figure", "footer", "form",
    "frame", "frameset", "h1", "h2", "h3", "h4", "h5", "h6", "head", "header", "hgroup", "hr",
    "html", "iframe", "img", "input", "isindex", "li", "link", "listing", "main", "marquee",
    "menu", "meta", "nav", "noembed", "noframes", "noscript", "object", "ol", "p", "param",
    "plaintext", "pre", "script", "section", "select", "source", "style", "summary", "table",
    "tbody", "td", "template", "textarea", "tfoot", "th", "thead", "title", "tr", "track", "ul",
    "wbr", "xmp"]

/-- A set without an element of HTML. -/
def without (set : NameSet) (localName : String) : NameSet := fun name =>
  set name && !name.isHtml localName

end NameSet

namespace OpenElements

/-- Whether an element that satisfies `target` is open and no element of the boundary lies between
it and the current element.  The target itself may belong to the boundary. -/
def inScope (boundary : NameSet) (target : OpenElement → Bool) : OpenElements → Bool
  | [] => false
  | e :: rest => if target e then true else if boundary e.name then false else inScope boundary target rest

/-- Whether an element of HTML is open inside a boundary. -/
def hasInScope (elements : OpenElements) (boundary : NameSet) (localName : String) : Bool :=
  elements.inScope boundary fun e => e.name.isHtml localName

/-- Whether an element of HTML is open. -/
def has (elements : OpenElements) (localName : String) : Bool :=
  elements.any fun e => e.name.isHtml localName

/-- Closes elements up to the first one of a set, and that one too. -/
def closeThrough (set : NameSet) (elements : OpenElements) : OpenElements :=
  (elements.dropWhile fun e => !set e.name).drop 1

/-- Closes elements until one of a set is current. -/
def closeTo (set : NameSet) (elements : OpenElements) : OpenElements :=
  elements.dropWhile fun e => !set e.name

/-- Closes elements as long as they belong to a set. -/
def closeImplied (set : NameSet) (elements : OpenElements) : OpenElements :=
  elements.dropWhile fun e => set e.name

/-- Takes an element out wherever it stands. -/
def remove (elements : OpenElements) (id : ItemId) : OpenElements :=
  elements.filter fun e => e.id != id

/-- Whether an element is open. -/
def contains (elements : OpenElements) (id : ItemId) : Bool := elements.any fun e => e.id == id

/-- Whether the current element belongs to a set. -/
def currentIn (elements : OpenElements) (set : NameSet) : Bool :=
  match elements with
  | [] => false
  | e :: _ => set e.name

/-- Whether the current element is an element of HTML. -/
def currentIs (elements : OpenElements) (localName : String) : Bool :=
  elements.currentIn fun name => name.isHtml localName

end OpenElements

end CellAlign.Markup

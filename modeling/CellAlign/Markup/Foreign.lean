import CellAlign.Markup.Builder

/-!
# Foreign elements

Drawings and formulas in markup have elements and attributes whose names are not in lower case, and
attributes in namespaces of their own.  Tags are read in lower case, so the names are put right when
the elements are created.
-/

namespace CellAlign.Markup.Foreign

/-- The names of SVG elements with capitals. -/
def svgElements : List String :=
  ["altGlyph", "altGlyphDef", "altGlyphItem", "animateColor", "animateMotion", "animateTransform",
    "clipPath", "feBlend", "feColorMatrix", "feComponentTransfer", "feComposite",
    "feConvolveMatrix", "feDiffuseLighting", "feDisplacementMap", "feDistantLight", "feDropShadow",
    "feFlood", "feFuncA", "feFuncB", "feFuncG", "feFuncR", "feGaussianBlur", "feImage", "feMerge",
    "feMergeNode", "feMorphology", "feOffset", "fePointLight", "feSpecularLighting", "feSpotLight",
    "feTile", "feTurbulence", "foreignObject", "glyphRef", "linearGradient", "radialGradient",
    "textPath"]

/-- The names of SVG attributes with capitals. -/
def svgAttributes : List String :=
  ["attributeName", "attributeType", "baseFrequency", "baseProfile", "calcMode", "clipPathUnits",
    "diffuseConstant", "edgeMode", "filterUnits", "glyphRef", "gradientTransform", "gradientUnits",
    "kernelMatrix", "kernelUnitLength", "keyPoints", "keySplines", "keyTimes", "lengthAdjust",
    "limitingConeAngle", "markerHeight", "markerUnits", "markerWidth", "maskContentUnits",
    "maskUnits", "numOctaves", "pathLength", "patternContentUnits", "patternTransform",
    "patternUnits", "pointsAtX", "pointsAtY", "pointsAtZ", "preserveAlpha", "preserveAspectRatio",
    "primitiveUnits", "refX", "refY", "repeatCount", "repeatDur", "requiredExtensions",
    "requiredFeatures", "specularConstant", "specularExponent", "spreadMethod", "startOffset",
    "stdDeviation", "stitchTiles", "surfaceScale", "systemLanguage", "tableValues", "targetX",
    "targetY", "textLength", "viewBox", "viewTarget", "xChannelSelector", "yChannelSelector",
    "zoomAndPan"]

/-- The attributes in namespaces of their own. -/
def qualified : List (String × Name) :=
  let xlink (n : String) : String × Name :=
    ("xlink:" ++ n, { qualifier := some "xlink", space := .xlink, localName := n })
  [xlink "actuate", xlink "arcrole", xlink "href", xlink "role", xlink "show", xlink "title",
    xlink "type",
    ("xml:lang", { qualifier := some "xml", space := .xml, localName := "lang" }),
    ("xml:space", { qualifier := some "xml", space := .xml, localName := "space" }),
    ("xmlns", { qualifier := some "", space := .xmlns, localName := "xmlns" }),
    ("xmlns:xlink", { qualifier := some "xmlns", space := .xmlns, localName := "xlink" })]

/-- The name from a list that a name in lower case stands for. -/
def restored (names : List String) (name : String) : String :=
  (names.find? fun n => n.toLower == name).getD name

/-- The local name of an attribute in a namespace of elements. -/
def attributeName (space : Namespace) (name : String) : String :=
  match space with
  | .svg => restored svgAttributes name
  | .mathml => restored ["definitionURL"] name
  | _ => name

/-- The attributes of a tag in a namespace of elements. -/
def attributes (space : Namespace) (tag : Tag) : List Attribute :=
  tag.attributes.map fun (name, value) =>
    match qualified.find? fun entry => entry.1 == name with
    | some (_, name) => { name, value }
    | none => { name := .plain (attributeName space name), value }

/-- The name of the element of a tag in a namespace of elements. -/
def elementName (space : Namespace) (name : String) : Name :=
  { space, localName := if space = .svg then restored svgElements name else name }

/-- The tags that end foreign content. -/
def breakouts : List String :=
  ["b", "big", "blockquote", "body", "br", "center", "code", "dd", "div", "dl", "dt", "em",
    "embed", "h1", "h2", "h3", "h4", "h5", "h6", "head", "hr", "i", "img", "li", "listing", "menu",
    "meta", "nobr", "ol", "p", "pre", "ruby", "s", "small", "span", "strong", "strike", "sub",
    "sup", "table", "tt", "u", "ul", "var"]

/-- Whether a start tag ends foreign content. -/
def breaksOut (tag : Tag) : Bool :=
  breakouts.contains tag.name ||
    (tag.name == "font" &&
      tag.attributes.any fun (name, _) => ["color", "face", "size"].contains name)

/-- Whether an element is one of HTML or one in which HTML may stand. -/
def holdsHtml : NameSet := fun name =>
  name.space == .html || NameSet.mathText name || NameSet.svgHtml name

/-- The current element for the purposes of foreign content: a fragment stands in a body. -/
def currentName (b : Builder) : Option Name :=
  match b.opened with
  | [] => none
  | [e] => if b.isFragment then some (.html "body") else some e.name
  | e :: _ => some e.name

/-- Whether markup at this place stands in a foreign element. -/
def isInside (b : Builder) : Bool :=
  match currentName b with
  | none => false
  | some name => name.space != .html

/-- Whether a token is text. -/
def isText : Token → Bool
  | .space _ => true
  | .text _ => true
  | .zero => true
  | _ => false

/-- Whether a token is to be treated by the rules of foreign content. -/
def governs (b : Builder) (token : Token) : Bool :=
  match token with
  | .finish => false
  | _ =>
    match currentName b with
    | none => false
    | some name =>
      if name.space = .html then false
      else if NameSet.mathText name then
        match token with
        | .startTag tag => ["mglyph", "malignmark"].contains tag.name
        | _ => !isText token
      else if NameSet.svgHtml name then
        match token with
        | .startTag _ => false
        | _ => !isText token
      else if name.space = .mathml ∧ name.localName = "annotation-xml" then
        match token with
        | .startTag tag => tag.name != "svg"
        | _ => true
      else true

/-- Adds the element of a tag in a namespace, and opens it unless the tag closes it. -/
def add (space : Namespace) (name : Name) (tag : Tag) : Build Unit := do
  let e ← Build.addElement name (attributes space tag)
  if !tag.selfClosing then Build.push e

/-- Starts foreign content. -/
def enter (space : Namespace) (tag : Tag) : Build Unit :=
  add space { space, localName := tag.name } tag

/-- Adds an element inside foreign content. -/
def addInside (tag : Tag) : Build Unit := do
  match currentName (← get) with
  | none => return
  | some current => add current.space (elementName current.space tag.name) tag

end CellAlign.Markup.Foreign

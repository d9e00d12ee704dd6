/-!
# Qualified names

Elements and attributes of parsed markup have names in namespaces.  An attribute may have a
namespace prefix besides; the attributes of an element are kept in the order of prefix, namespace
and local name, one for each name.
-/

namespace CellAlign.Markup

/-- The namespaces that markup can put a name into. -/
inductive Namespace where
  | none
  | html
  | svg
  | mathml
  | xlink
  | xml
  | xmlns
deriving DecidableEq

/-- The identifier of a namespace, by which names are ordered. -/
def Namespace.identifier : Namespace → String
  | none => ""
  | html => "http://www.w3.org/1999/xhtml"
  | svg => "http://www.w3.org/2000/svg"
  | mathml => "http://www.w3.org/1998/Math/MathML"
  | xlink => "http://www.w3.org/1999/xlink"
  | xml => "http://www.w3.org/XML/1998/namespace"
  | xmlns => "http://www.w3.org/2000/xmlns/"

/-- A qualified name. -/
structure Name where
  qualifier : Option String := .none
  space : Namespace
  localName : String
deriving DecidableEq

namespace Name

/-- The name of an element of HTML. -/
def html (localName : String) : Name := { space := .html, localName }

/-- The name of an attribute outside of all namespaces. -/
def plain (localName : String) : Name := { space := .none, localName }

/-- Whether a name is that of the element `localName` of HTML. -/
def isHtml (name : Name) (localName : String) : Bool :=
  name.space == .html && name.localName == localName

/-- Whether a name is that of one of some elements of HTML. -/
def isHtmlIn (name : Name) (localNames : List String) : Bool :=
  name.space == .html && localNames.contains name.localName

/-- Whether a prefix comes before another; no prefix comes first. -/
def qualifierLt : Option String → Option String → Bool
  | .none, some _ => true
  | some a, some b => a < b
  | _, .none => false

/-- The order of the attributes of an element. -/
def lt (a b : Name) : Bool :=
  if a.qualifier ≠ b.qualifier then qualifierLt a.qualifier b.qualifier
  else if a.space ≠ b.space then a.space.identifier < b.space.identifier
  else a.localName < b.localName

end Name

/-- An attribute of an element. -/
structure Attribute where
  name : Name
  value : String

/-- Puts an attribute in its place among sorted ones, unless one has its name already. -/
def insertAttribute (new : Attribute) : List Attribute → List Attribute
  | [] => [new]
  | a :: rest =>
    if a.name = new.name then a :: rest
    else if new.name.lt a.name then new :: a :: rest
    else a :: insertAttribute new rest

/-- The attributes in their order, the first of each name. -/
def sortAttributes (attributes : List Attribute) : List Attribute :=
  attributes.foldl (fun sorted a => insertAttribute a sorted) []

end CellAlign.Markup

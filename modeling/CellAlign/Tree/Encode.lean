import CellAlign.Json.Writer
import CellAlign.Tree.Node

/-!
# Trees as JSON values

A node is written as an object: first its type, then its fields.  Properties that are absent are
left out, as is the whole properties object of an element that has none.
-/

namespace CellAlign

open Json (Value)

namespace PropertyValue

mutual

/-- The value as JSON. -/
def encode : PropertyValue → Value
  | .null => .null
  | .bool b => .bool b
  | .number n => .number n
  | .string s => .string s
  | .list items => .array (encodeList items)

/-- The items of a list as JSON. -/
def encodeList : List PropertyValue → List Value
  | [] => []
  | item :: items => item.encode :: encodeList items

end

/-- The value as JSON text without gaps. -/
def toJson (value : PropertyValue) : String := value.encode.toCompact

end PropertyValue

/-- The class as JSON; an absent class is null where it has to be written. -/
def ClassName.encode : ClassName → Value
  | .absent => .null
  | .single token => .string token
  | .list tokens => .array (tokens.map .string)

namespace Properties

/-- The members of the properties object. -/
def members (properties : Properties) : List (String × Value) :=
  (properties.align.map fun v => ("align", v.encode)).toList ++
    (if properties.className.isAbsent then [] else [("className", properties.className.encode)]) ++
    (properties.style.map fun v => ("style", v.encode)).toList ++
    properties.other.map fun entry => (entry.1, entry.2.encode)

/-- The properties as JSON. -/
def encode (properties : Properties) : Value := .object properties.members

/-- The properties as JSON text without gaps. -/
def toJson (properties : Properties) : String := properties.encode.toCompact

end Properties

namespace Node

mutual

/-- The node as JSON. -/
def encode : Node → Value
  | .root children =>
    .object [("type", .string "root"), ("children", .array (encodeList children))]
  | .element tag properties children =>
    .object (("type", .string "element") :: ("tagName", .string tag) ::
      (properties.map fun p => ("properties", p.encode)).toList ++
        [("children", .array (encodeList children))])
  | .text value => .object [("type", .string "text"), ("value", .string value)]
  | .comment value => .object [("type", .string "comment"), ("value", .string value)]
  | .doctype => .object [("type", .string "doctype")]

/-- A list of nodes as JSON. -/
def encodeList : List Node → List Value
  | [] => []
  | node :: nodes => node.encode :: encodeList nodes

end

/-- The tree as JSON text over several lines. -/
def toJson (node : Node) : String := node.encode.toPretty

end Node

end CellAlign

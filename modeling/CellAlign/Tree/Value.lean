import CellAlign.Json.Value
import CellAlign.Text.Blank

/-!
# Property values

The value of a property is null, a boolean, a number, a string or a list of values.  Its text is
what a reader of the property would compare or print: null has the empty text, and a list joins the
texts of its items by commas, lists inside it included.
-/

namespace CellAlign

/-- The value of a property of an element. -/
inductive PropertyValue where
  | null
  | bool (value : Bool)
  | number (value : Json.Number)
  | string (value : String)
  | list (items : List PropertyValue)

namespace PropertyValue

/-- Numbers in the text of a value have the fewest digits that identify them, never an exponent,
and neither a fraction nor a sign that says nothing. -/
def layout : Decimal.Layout where
  tie := .up
  positional := fun _ => true
  keepFraction := false
  signedZero := false

/-- The text of a number. -/
def numberText : Json.Number → String
  | .whole i => Decimal.wholeText i.val
  | .binary x => layout.render x

mutual

/-- The text of a value. -/
def text : PropertyValue → String
  | .null => ""
  | .bool true => "true"
  | .bool false => "false"
  | .number n => numberText n
  | .string s => s
  | .list items => Text.join "," (texts items)

/-- The texts of the items of a list. -/
def texts : List PropertyValue → List String
  | [] => []
  | item :: items => item.text :: texts items

end

/-- The string, if the value is one. -/
def string? : PropertyValue → Option String
  | .string s => some s
  | _ => none

mutual

/-- Equality of values: numbers are compared by value within their kind. -/
def same : PropertyValue → PropertyValue → Bool
  | .null, .null => true
  | .bool a, .bool b => a == b
  | .number a, .number b => a.same b
  | .string a, .string b => a == b
  | .list a, .list b => sameItems a b
  | _, _ => false

/-- Equality of lists, item by item. -/
def sameItems : List PropertyValue → List PropertyValue → Bool
  | [], [] => true
  | a :: as, b :: bs => a.same b && sameItems as bs
  | _, _ => false

end

end PropertyValue

end CellAlign

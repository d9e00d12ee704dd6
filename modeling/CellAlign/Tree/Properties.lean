import CellAlign.Tree.ClassName
import CellAlign.Tree.Value

/-!
# Properties of an element

Alignment, class and style are known properties; all others are kept in the order in which their
names first appeared, each name with the value it was given last.  Properties render as HTML
attributes, the known ones first, and are built up again by setting attributes one by one.
-/

namespace CellAlign

/-- The entries of an open-ended set of properties, in the order of first appearance. -/
abbrev Entries (α : Type) : Type := List (String × α)

namespace Entries

variable {α : Type}

/-- Gives `key` a value: in place if it has one already, at the end if not. -/
def put (key : String) (value : α) : Entries α → Entries α
  | [] => [(key, value)]
  | (k, v) :: rest => if k = key then (k, value) :: rest else (k, v) :: put key value rest

/-- The value of a key. -/
def get? (key : String) : Entries α → Option α
  | [] => none
  | (k, v) :: rest => if k = key then some v else get? key rest

/-- The keys in order. -/
def keys (entries : Entries α) : List String := entries.map Prod.fst

/-- A key has the value it was given last. -/
theorem get?_put (key other : String) (value : α) (entries : Entries α) :
    get? other (put key value entries) = if key = other then some value else get? other entries := by
  induction entries with
  | nil => simp [put, get?]
  | cons entry rest ih =>
    obtain ⟨k, v⟩ := entry
    by_cases hk : k = key
    · subst hk
      by_cases ho : k = other <;> simp [put, get?, ho]
    · by_cases ho : k = other
      · subst ho
        simp [put, get?, hk, Ne.symm hk]
      · simp [put, get?, hk, ho, ih]

end Entries

/-- The properties of an element. -/
structure Properties where
  align : Option PropertyValue := none
  className : ClassName := .absent
  style : Option PropertyValue := none
  other : Entries PropertyValue := []

namespace Properties

/-- The value of the attribute that a property renders as; null and false render as none. -/
def attributeValue? : PropertyValue → Option String
  | .null => none
  | .bool false => none
  | .bool true => some ""
  | .list items => some (Text.join " " (PropertyValue.texts items))
  | value => some value.text

/-- The attribute that a property renders as. -/
def attribute? (name : String) (value : PropertyValue) : Option (String × String) :=
  (attributeValue? value).map fun text => (name, text)

/-- The attribute that the class renders as. -/
def classAttribute? (class_ : ClassName) : Option (String × String) :=
  if class_.isAbsent then none else some ("class", Text.join " " class_.tokens)

/-- The properties as attributes: alignment, class, style and then the others in order. -/
def attributes (properties : Properties) : List (String × String) :=
  (properties.align.bind (attribute? "align")).toList ++
    (classAttribute? properties.className).toList ++
    (properties.style.bind (attribute? "style")).toList ++
    properties.other.filterMap fun entry => attribute? entry.1 entry.2

/-- Takes in an attribute that was read from markup. -/
def setAttribute (properties : Properties) (name value : String) : Properties :=
  if name = "align" then { properties with align := some (.string value) }
  else if name = "class" then { properties with className := .ofAttribute value }
  else if name = "style" then { properties with style := some (.string value) }
  else { properties with other := properties.other.put name (.string value) }

/-- The properties given by a list of attributes. -/
def ofAttributes (attributes : List (String × String)) : Properties :=
  attributes.foldl (fun properties a => properties.setAttribute a.1 a.2) {}

/-- Equality of optional values. -/
def sameOption : Option PropertyValue → Option PropertyValue → Bool
  | none, none => true
  | some a, some b => a.same b
  | _, _ => false

/-- Whether each entry of `a` has an equal value in `b`, and `b` has as many entries. -/
def sameEntries (a b : Entries PropertyValue) : Bool :=
  a.length == b.length && a.all fun entry =>
    match Entries.get? entry.1 b with
    | some value => entry.2.same value
    | none => false

/-- Equality of properties, which does not look at the order of the open-ended ones. -/
def same (a b : Properties) : Bool :=
  sameOption a.align b.align && a.className == b.className && sameOption a.style b.style &&
    sameEntries a.other b.other

end Properties

end CellAlign

import CellAlign.Json.Text

/-!
# Writing values

A value is written either without any gaps or over several lines, two more spaces of indentation
for each level; an empty array or object stays on one line in both.

Everything is written in front of the text `rest` that follows it, so each character of a value is
written once, however deep the value is nested.
-/

namespace CellAlign.Json

namespace Value

mutual

/-- The value without gaps, in front of a text. -/
def compact (rest : List Char) : Value → List Char
  | .null => 'n' :: 'u' :: 'l' :: 'l' :: rest
  | .bool true => 't' :: 'r' :: 'u' :: 'e' :: rest
  | .bool false => 'f' :: 'a' :: 'l' :: 's' :: 'e' :: rest
  | .number n => n.text.toList ++ rest
  | .string s => Text.encode s.toList ++ rest
  | .array [] => '[' :: ']' :: rest
  | .array (item :: items) => '[' :: compact (compactItems (']' :: rest) items) item
  | .object [] => '\x7b' :: '\x7d' :: rest
  | .object ((key, value) :: members) =>
    '\x7b' :: Text.encode key.toList ++
      ':' :: compact (compactMembers ('\x7d' :: rest) members) value

/-- Further items, each behind a comma, in front of a text. -/
def compactItems (rest : List Char) : List Value → List Char
  | [] => rest
  | item :: items => ',' :: compact (compactItems rest items) item

/-- Further members, each behind a comma, in front of a text. -/
def compactMembers (rest : List Char) : List (String × Value) → List Char
  | [] => rest
  | (key, value) :: members =>
    ',' :: Text.encode key.toList ++ ':' :: compact (compactMembers rest members) value

end

/-- The start of a line at a level of nesting, in front of a text. -/
def newline (level : Nat) (rest : List Char) : List Char :=
  '\n' :: (List.replicate (2 * level) ' ' ++ rest)

mutual

/-- The value over several lines, for a place at a level of nesting, in front of a text. -/
def pretty (level : Nat) (rest : List Char) : Value → List Char
  | .null => 'n' :: 'u' :: 'l' :: 'l' :: rest
  | .bool true => 't' :: 'r' :: 'u' :: 'e' :: rest
  | .bool false => 'f' :: 'a' :: 'l' :: 's' :: 'e' :: rest
  | .number n => n.text.toList ++ rest
  | .string s => Text.encode s.toList ++ rest
  | .array [] => '[' :: ']' :: rest
  | .array (item :: items) =>
    '[' :: newline (level + 1)
      (pretty (level + 1) (prettyItems (level + 1) (newline level (']' :: rest)) items) item)
  | .object [] => '\x7b' :: '\x7d' :: rest
  | .object ((key, value) :: members) =>
    '\x7b' :: newline (level + 1) (Text.encode key.toList ++ ':' :: ' ' ::
      pretty (level + 1) (prettyMembers (level + 1) (newline level ('\x7d' :: rest)) members) value)

/-- Further items, each behind a comma and on a line of its own, in front of a text. -/
def prettyItems (level : Nat) (rest : List Char) : List Value → List Char
  | [] => rest
  | item :: items => ',' :: newline level (pretty level (prettyItems level rest items) item)

/-- Further members, each behind a comma and on a line of its own, in front of a text. -/
def prettyMembers (level : Nat) (rest : List Char) : List (String × Value) → List Char
  | [] => rest
  | (key, value) :: members =>
    ',' :: newline level (Text.encode key.toList ++ ':' :: ' ' ::
      pretty level (prettyMembers level rest members) value)

end

/-- The JSON text of a value without gaps. -/
def toCompact (value : Value) : String := String.ofList (value.compact [])

/-- The JSON text of a value over several lines. -/
def toPretty (value : Value) : String := String.ofList (value.pretty 0 [])

end Value

end CellAlign.Json

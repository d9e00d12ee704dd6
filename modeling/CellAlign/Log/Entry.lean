import CellAlign.Text.Blank

/-!
# Log entries and their levels

An entry comes from a part of the program, its target, says something at a level, and may add
details by name.

A level says how much a log entry matters.  A threshold lets all levels through from one up, or
none at all.  It is read from the name of its level in any case of the letters, from `off`, or from
a number: 0 for nothing, 1 for errors alone, and so on up to 5 for everything.  Leading zeros and a
plus sign do not matter.
-/

namespace CellAlign

/-- How much an entry matters, from the least to the most. -/
inductive Level where
  | trace
  | debug
  | info
  | warn
  | error
deriving DecidableEq

namespace Level

/-- The name of a level. -/
def name : Level → String
  | trace => "TRACE"
  | debug => "DEBUG"
  | info => "INFO"
  | warn => "WARN"
  | error => "ERROR"

/-- How much of the detail of a run the entries of a level are about. -/
def detail : Level → Nat
  | error => 1
  | warn => 2
  | info => 3
  | debug => 4
  | trace => 5

end Level

/-- The level of the most detail that is let through, if any is. -/
structure Threshold where
  level : Option Level
deriving DecidableEq

namespace Threshold

/-- Whether a threshold lets a level through. -/
def allows (threshold : Threshold) (level : Level) : Bool :=
  match threshold.level with
  | none => false
  | some limit => level.detail ≤ limit.detail

/-- The names of the thresholds. -/
def spellings : List (String × Threshold) :=
  [("OFF", ⟨none⟩), ("ERROR", ⟨some .error⟩), ("WARN", ⟨some .warn⟩), ("INFO", ⟨some .info⟩),
    ("DEBUG", ⟨some .debug⟩), ("TRACE", ⟨some .trace⟩)]

/-- The number that decimal digits stand for. -/
def number? (digits : List Char) : Option Nat :=
  if digits.isEmpty || !digits.all Char.isDigit then none
  else some (digits.foldl (fun n c => 10 * n + (c.toNat - '0'.toNat)) 0)

/-- The threshold of a number: how many of the levels it lets through, from the top. -/
def ofNumber? (text : String) : Option Threshold :=
  let digits :=
    match text.toList with
    | '+' :: rest => rest
    | chars => chars
  ((number? digits).bind fun n => spellings[n]?).map Prod.snd

/-- The threshold of a text. -/
def ofText? (text : String) : Option Threshold :=
  ofNumber? text <|> spellings.lookup text.toUpper

end Threshold

end CellAlign

namespace CellAlign.Log

/-- An entry of a log. -/
structure Entry where
  level : Level
  target : String
  message : String
  fields : List (String × String)

/-- The names of what an entry holds: its message and its details. -/
def Entry.names (entry : Entry) : List String := "message" :: entry.fields.map Prod.fst

/-- An entry as a line of a log, without the line's end. -/
def Entry.line (entry : Entry) : String :=
  entry.level.name ++ " " ++ entry.target ++ ": " ++
    Text.join " " (entry.message :: entry.fields.map fun (name, value) => name ++ "=" ++ value)

end CellAlign.Log

import CellAlign.Json.Value
import CellAlign.Text.Quoted

/-!
# What can be wrong with a JSON text

A fault has a cause and, unless it was found in a value that had been read before, a place: a line
and a count of bytes on that line.  Readers report the place as the text that was left when they
stopped, so that they need not count; `Fault.inText` turns it into line and column.
-/

namespace CellAlign.Json

/-- A kind of value, as messages describe what was found. -/
inductive Found where
  | null
  | bool (value : Bool)
  | number (value : Number)
  | string (value : String)
  | sequence
  | map

/-- The causes that make a text no JSON, or a JSON text no tree, property list or settings. -/
inductive Cause where
  | endInValue
  | endInList
  | endInObject
  | endInString
  | expectedColon
  | expectedListCommaOrEnd
  | expectedObjectCommaOrEnd
  | expectedIdent
  | expectedValue
  | invalidEscape
  | invalidNumber
  | numberOutOfRange
  | loneSurrogate
  | unexpectedHexEnd
  | controlCharacter
  | keyNotString
  | trailingComma
  | trailingCharacters
  | nestingLimit
  | wrongType (found : Found) (expected : String)
  | wrongIndex (index : Int) (expected : String)
  | wrongLength (length : Nat) (expected : String)
  | missingField (name : String)
  | duplicateField (name : String)
  | unknownVariant (name : String) (known : String)
  | noVariant (type : String)

/-- How a message names what was found. -/
def Found.text : Found → String
  | null => "null"
  | bool true => "boolean `true`"
  | bool false => "boolean `false`"
  | number (.whole i) => "integer `" ++ Decimal.wholeText i.val ++ "`"
  | number (.binary x) => "floating point `" ++ (Number.binary x).text ++ "`"
  | string s => "string " ++ Text.quoted s
  | sequence => "sequence"
  | map => "map"

/-- What a value shows itself as. -/
def Value.found : Value → Found
  | .null => .null
  | .bool b => .bool b
  | .number n => .number n
  | .string s => .string s
  | .array _ => .sequence
  | .object _ => .map

/-- The message of a cause, without a place. -/
def Cause.text : Cause → String
  | endInValue => "EOF while parsing a value"
  | endInList => "EOF while parsing a list"
  | endInObject => "EOF while parsing an object"
  | endInString => "EOF while parsing a string"
  | expectedColon => "expected `:`"
  | expectedListCommaOrEnd => "expected `,` or `]`"
  | expectedObjectCommaOrEnd => "expected `,` or `\x7d`"
  | expectedIdent => "expected ident"
  | expectedValue => "expected value"
  | invalidEscape => "invalid escape"
  | invalidNumber => "invalid number"
  | numberOutOfRange => "number out of range"
  | loneSurrogate => "lone leading surrogate in hex escape"
  | unexpectedHexEnd => "unexpected end of hex escape"
  | controlCharacter => "control character (\\u0000-\\u001F) found while parsing a string"
  | keyNotString => "key must be a string"
  | trailingComma => "trailing comma"
  | trailingCharacters => "trailing characters"
  | nestingLimit => "recursion limit exceeded"
  | wrongType found expected => "invalid type: " ++ found.text ++ ", expected " ++ expected
  | wrongIndex index expected =>
    "invalid value: integer `" ++ Decimal.wholeText index ++ "`, expected " ++ expected
  | wrongLength length expected =>
    "invalid length " ++ Decimal.wholeText length ++ ", expected " ++ expected
  | missingField name => "missing field `" ++ name ++ "`"
  | duplicateField name => "duplicate field `" ++ name ++ "`"
  | unknownVariant name known => "unknown variant `" ++ name ++ "`, expected " ++ known
  | noVariant type => "data did not match any variant of untagged enum " ++ type

/-- A place in a text: a line, counted from one, and the bytes of that line before the place. -/
structure Position where
  line : Nat
  column : Nat
deriving DecidableEq

/-- The start of a text. -/
def Position.start : Position := ⟨1, 0⟩

/-- The place `bytes` bytes further, or the end of the text if that is nearer. -/
def Position.advance : Position → Nat → List Char → Position
  | p, _, [] => p
  | p, bytes, c :: rest =>
    if bytes = 0 then p
    else if bytes < c.utf8Size then { p with column := p.column + bytes }
    else if c = '\n' then advance ⟨p.line + 1, 0⟩ (bytes - 1) rest
    else advance { p with column := p.column + c.utf8Size } (bytes - c.utf8Size) rest

/-- The size of a text in bytes. -/
def byteSize (text : List Char) : Nat :=
  text.foldr (fun c size => c.utf8Size + size) 0

/-- A reader's report: the cause, the text that was left, and how many bytes of that text the place
lies behind its start. -/
structure Stop where
  cause : Cause
  rest : List Char
  ahead : Nat := 0

/-- A fault as it is shown. -/
structure Fault where
  cause : Cause
  position : Option Position

/-- A fault found in a value read before. -/
def Fault.ofCause (cause : Cause) : Fault := ⟨cause, none⟩

/-- The place of a report, for the text that the reader began with. -/
def Stop.inText (stop : Stop) (text : List Char) : Fault where
  cause := stop.cause
  position := some (Position.start.advance (byteSize text - byteSize stop.rest + stop.ahead) text)

/-- The message of a fault. -/
def Fault.message (fault : Fault) : String :=
  match fault.position with
  | none => fault.cause.text
  | some p =>
    fault.cause.text ++ " at line " ++ Decimal.wholeText p.line ++ " column " ++
      Decimal.wholeText p.column

/-- What readers answer: a result and the text that is left, or a report. -/
abbrev Outcome (α : Type) : Type := Except Stop (α × List Char)

/-- Applies `f` to what was read. -/
def mapRead {α β : Type} (f : α → β) (outcome : Outcome α) : Outcome β :=
  match outcome with
  | .ok (value, rest) => .ok (f value, rest)
  | .error stop => .error stop

/-- A report at the place reached. -/
def stopHere {α : Type} (cause : Cause) (rest : List Char) : Except Stop α :=
  .error { cause, rest }

/-- A report that counts the next byte as well. -/
def stopAtNext {α : Type} (cause : Cause) (rest : List Char) : Except Stop α :=
  .error { cause, rest, ahead := 1 }

end CellAlign.Json

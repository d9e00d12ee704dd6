import CellAlign.Json.Reader
import CellAlign.Tree.Decode

/-!
# Trees from JSON texts

The outermost value of a text is read member by member, so that the first fault in the order of the
text is the one reported: a wrong `type` before a broken bracket further on.  All other fields of
the outermost node, and everything below it, are read into values first and then decoded.

Once the outermost value has been decoded, nothing but a gap may follow it.
-/

namespace CellAlign

open Json

/-- Accepts what was decoded from the start of a text if only a gap follows it. -/
def atEnd {α : Type} (text : List Char) (value : α) (rest : List Char) : Except Fault α :=
  match readEnd rest with
  | .ok () => .ok value
  | .error stop => .error (stop.inText text)

/-- Reads a value and decodes it; a fault found in decoding has no place. -/
def readAndDecode {α : Type} (decode : Value → Except Cause α) (text : List Char) :
    Except Fault α :=
  match readValue nestingLimit text with
  | .error stop => .error (stop.inText text)
  | .ok (value, rest) =>
    match decode value with
    | .ok x => atEnd text x rest
    | .error cause => .error (.ofCause cause)

/-- The property value of a JSON text. -/
def PropertyValue.ofJson (text : String) : Except Fault PropertyValue :=
  readAndDecode PropertyValue.decode text.toList

/-- The class of a JSON text. -/
def ClassName.ofJson (text : String) : Except Fault ClassName :=
  readAndDecode ClassName.decode text.toList

namespace Properties

/-- Reads a member of the outermost object.  A fault in a known property is reported at once. -/
def readMember (draft : Draft) (key : String) (text : List Char) : Outcome Draft :=
  match draft.checkKey key with
  | .error cause => stopHere cause (afterObject text)
  | .ok () =>
    match readColon text with
    | .error stop => .error stop
    | .ok text =>
      match readValue (nestingLimit - 1) text with
      | .error stop => .error stop
      | .ok (value, rest) =>
        match draft.take key value with
        | .error cause => stopHere cause (afterObject rest)
        | .ok draft => .ok (draft, rest)

/-- Reads a properties object. -/
def read (text : List Char) : Outcome Properties :=
  match skipGap text with
  | '\x7b' :: rest =>
    match walkObject readMember {} rest with
    | .error stop => .error stop
    | .ok (draft, rest) =>
      match draft.finish with
      | .error cause => stopHere cause rest
      | .ok properties => .ok (properties, rest)
  | rest => readUnwanted "struct Properties" rest

/-- The properties of a JSON text. -/
def ofJson (text : String) : Except Fault Properties :=
  match read text.toList with
  | .error stop => .error (stop.inText text.toList)
  | .ok (properties, rest) => atEnd text.toList properties rest

end Properties

namespace Node

/-- The outermost node while it is read: its kind, once that is known, and its other members or
fields, last first. -/
structure Draft (α : Type) where
  kind : Option Kind := none
  fields : List α := []

/-- Reads the kind of the outermost node, which must be given by name. -/
def readKind (text : List Char) : Outcome Kind :=
  match readString Kind.expected text with
  | .error stop => .error stop
  | .ok (name, rest) =>
    match Kind.ofName name with
    | .ok kind => .ok (kind, rest)
    | .error cause => stopHere cause rest

/-- Reads a member of the outermost node. -/
def readMember (draft : Draft (String × Value)) (key : String) (text : List Char) :
    Outcome (Draft (String × Value)) :=
  if key = "type" then
    match draft.kind with
    | some _ => stopHere (.duplicateField "type") (afterObject text)
    | none =>
      match readColon text with
      | .error stop => .error stop
      | .ok text => mapRead (fun kind => { draft with kind := some kind }) (readKind text)
  else
    match readColon text with
    | .error stop => .error stop
    | .ok text =>
      mapRead (fun value => { draft with fields := (key, value) :: draft.fields })
        (readValue (nestingLimit - 1) text)

/-- Reads an item of the outermost node given as an array. -/
def readItem (draft : Draft Value) (text : List Char) : Outcome (Draft Value) :=
  match draft.kind with
  | none => mapRead (fun kind => { draft with kind := some kind }) (readKind text)
  | some _ =>
    mapRead (fun value => { draft with fields := value :: draft.fields })
      (readValue (nestingLimit - 1) text)

/-- Decodes the outermost node once it has been read. -/
def finish {α : Type} (decode : Kind → List α → Except Cause Node) (text : List Char)
    (outcome : Outcome (Draft α)) : Except Fault Node :=
  match outcome with
  | .error stop => .error (stop.inText text)
  | .ok (draft, rest) =>
    match draft.kind with
    | none => .error (Stop.inText { cause := .missingField "type", rest } text)
    | some kind =>
      match decode kind draft.fields.reverse with
      | .error cause => .error (.ofCause cause)
      | .ok node => atEnd text node rest

/-- The tree of a JSON text. -/
def ofJson (text : String) : Except Fault Node :=
  match skipGap text.toList with
  | '\x7b' :: rest => finish ofMembers text.toList (walkObject readMember {} rest)
  | '[' :: rest => finish ofItems text.toList (walkList readItem {} rest)
  | rest =>
    match readUnwanted expected rest with
    | .ok node => .ok node
    | .error stop => .error (stop.inText text.toList)

end Node

end CellAlign

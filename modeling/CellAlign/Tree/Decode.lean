import CellAlign.Json.Fault
import CellAlign.Tree.Node

/-!
# Trees from JSON values

A node is an object with a member `type`, or an array that starts with the type and goes on with
the fields in their order.  Here a value that has been read already is turned into a tree, so that
faults have no place; which one is reported is still fixed: members are looked at in their order,
children before the members behind them.

Known keys must not be repeated.  Keys that mean nothing to a node are ignored whatever their
value, while the unknown keys of a properties object are the open-ended properties.
-/

namespace CellAlign

open Json (Value Cause)

namespace PropertyValue

mutual

/-- The property value that a JSON value stands for; an object stands for none. -/
def ofValue? : Value → Option PropertyValue
  | .null => some .null
  | .bool b => some (.bool b)
  | .number n => some (.number n)
  | .string s => some (.string s)
  | .array items =>
    match ofValues? items with
    | some items => some (.list items)
    | none => none
  | .object _ => none

/-- The property values that the items of an array stand for, if all stand for one. -/
def ofValues? : List Value → Option (List PropertyValue)
  | [] => some []
  | value :: values =>
    match ofValue? value, ofValues? values with
    | some item, some items => some (item :: items)
    | _, _ => none

end

/-- The property value that a JSON value stands for. -/
def decode (value : Value) : Except Cause PropertyValue :=
  match ofValue? value with
  | some v => .ok v
  | none => .error (.noVariant "PropertyValue")

/-- The value of a known property, for which null is the same as absence. -/
def decodeKnown (value : Value) : Except Cause (Option PropertyValue) :=
  match value with
  | .null => .ok none
  | value => (decode value).map some

end PropertyValue

namespace ClassName

/-- The strings of an array that holds nothing else. -/
def strings? : List Value → Option (List String)
  | [] => some []
  | .string s :: values => (strings? values).map (s :: ·)
  | _ :: _ => none

/-- The class that a JSON value stands for. -/
def decode (value : Value) : Except Cause ClassName :=
  match value with
  | .null => .ok .absent
  | .string token => .ok (.single token)
  | .array items =>
    match strings? items with
    | some tokens => .ok (.list tokens)
    | none => .error (.noVariant "ClassName")
  | _ => .error (.noVariant "ClassName")

end ClassName

namespace Properties

/-- What is known of a properties object while its members are looked at.  The open-ended members
are kept, last first, until the object is at its end. -/
structure Draft where
  align : Option (Option PropertyValue) := none
  className : Option ClassName := none
  style : Option (Option PropertyValue) := none
  other : List (String × Value) := []

namespace Draft

/-- Refuses a known key that was there before. -/
def checkKey (draft : Draft) (key : String) : Except Cause Unit :=
  if key = "align" ∧ draft.align.isSome then .error (.duplicateField "align")
  else if key = "className" ∧ draft.className.isSome then .error (.duplicateField "className")
  else if key = "style" ∧ draft.style.isSome then .error (.duplicateField "style")
  else .ok ()

/-- Takes in a member whose key passed `checkKey`. -/
def take (draft : Draft) (key : String) (value : Value) : Except Cause Draft :=
  if key = "align" then
    (PropertyValue.decodeKnown value).map fun v => { draft with align := some v }
  else if key = "className" then
    (ClassName.decode value).map fun c => { draft with className := some c }
  else if key = "style" then
    (PropertyValue.decodeKnown value).map fun v => { draft with style := some v }
  else .ok { draft with other := (key, value) :: draft.other }

/-- The open-ended properties of members in their order, each looked at even if a later member of
the same key replaces it. -/
def entries (seen : Entries PropertyValue) :
    List (String × Value) → Except Cause (Entries PropertyValue)
  | [] => .ok seen
  | (key, value) :: members =>
    match PropertyValue.decode value with
    | .ok v => entries (seen.put key v) members
    | .error cause => .error cause

/-- The properties of an object at its end. -/
def finish (draft : Draft) : Except Cause Properties :=
  (entries [] draft.other.reverse).map fun other =>
    { align := draft.align.getD none
      className := draft.className.getD .absent
      style := draft.style.getD none
      other }

/-- Takes in members in their order. -/
def takeAll (draft : Draft) : List (String × Value) → Except Cause Draft
  | [] => .ok draft
  | (key, value) :: members =>
    match draft.checkKey key with
    | .error cause => .error cause
    | .ok () =>
      match draft.take key value with
      | .error cause => .error cause
      | .ok draft => draft.takeAll members

end Draft

/-- The properties that the members of an object stand for. -/
def ofMembers (members : List (String × Value)) : Except Cause Properties :=
  match ({} : Draft).takeAll members with
  | .ok draft => draft.finish
  | .error cause => .error cause

/-- The properties of an element; null is the same as absence. -/
def decode (value : Value) : Except Cause (Option Properties) :=
  match value with
  | .null => .ok none
  | .object members => (ofMembers members).map some
  | value => .error (.wrongType value.found "struct Properties")

end Properties

namespace Node

/-- The kinds of node. -/
inductive Kind where
  | root
  | element
  | text
  | comment
  | doctype
deriving DecidableEq

namespace Kind

/-- The kind of a `type` written out. -/
def ofName (name : String) : Except Cause Kind :=
  if name = "root" then .ok .root
  else if name = "element" then .ok .element
  else if name = "text" then .ok .text
  else if name = "comment" then .ok .comment
  else if name = "doctype" then .ok .doctype
  else
    .error (.unknownVariant name "one of `root`, `element`, `text`, `comment`, `doctype`")

/-- The kind of a `type` given by number. -/
def ofIndex (index : Int) : Except Cause Kind :=
  if index = 0 then .ok .root
  else if index = 1 then .ok .element
  else if index = 2 then .ok .text
  else if index = 3 then .ok .comment
  else if index = 4 then .ok .doctype
  else .error (.wrongIndex index "variant index 0 <= i < 5")

/-- What a `type` should be. -/
def expected : String := "variant identifier"

/-- The kind of a `type` below the top of a text: its name or its number. -/
def decode (value : Value) : Except Cause Kind :=
  match value with
  | .string name => ofName name
  | .number (.whole i) =>
    if 0 ≤ i.val then ofIndex i.val else .error (.wrongType value.found expected)
  | value => .error (.wrongType value.found expected)

/-- The kind given by the members of an object, of which exactly one must have the key `type`. -/
def ofMembers (seen : Option Kind) : List (String × Value) → Except Cause Kind
  | [] =>
    match seen with
    | some kind => .ok kind
    | none => .error (.missingField "type")
  | (key, value) :: members =>
    if key = "type" then
      match seen with
      | some _ => .error (.duplicateField "type")
      | none =>
        match decode value with
        | .ok kind => ofMembers (some kind) members
        | .error cause => .error cause
    else ofMembers seen members

end Kind

/-- What a node should be. -/
def expected : String := "internally tagged enum Node"

/-- A field that must be a string. -/
def decodeString (value : Value) : Except Cause String :=
  match value with
  | .string s => .ok s
  | value => .error (.wrongType value.found "a string")

/-- The member `value` of a text or a comment. -/
def decodeContent (seen : Option String) : List (String × Value) → Except Cause String
  | [] =>
    match seen with
    | some content => .ok content
    | none => .error (.missingField "value")
  | (key, value) :: members =>
    if key = "value" then
      match seen with
      | some _ => .error (.duplicateField "value")
      | none =>
        match decodeString value with
        | .ok content => decodeContent (some content) members
        | .error cause => .error cause
    else decodeContent seen members

/-- The fields of a text or a comment by position. -/
def decodeContentItems (name : String) : List Value → Except Cause String
  | [] => .error (.wrongLength 0 ("struct variant Node::" ++ name ++ " with 1 element"))
  | value :: more =>
    match decodeString value with
    | .error cause => .error cause
    | .ok content =>
      if more.isEmpty then .ok content
      else .error (.wrongLength (more.length + 1) "1 element in sequence")

/-- What is known of an element while its members are looked at. -/
structure ElementDraft where
  tag : Option String := none
  properties : Option (Option Properties) := none
  children : Option (List Node) := none

/-- The element of an object at its end. -/
def ElementDraft.finish (draft : ElementDraft) : Except Cause Node :=
  match draft.tag with
  | some tag => .ok (.element tag (draft.properties.getD none) (draft.children.getD []))
  | none => .error (.missingField "tagName")

mutual

/-- The node that a JSON value below the top of a text stands for. -/
def decode : Value → Except Cause Node
  | .object members =>
    match Kind.ofMembers none members with
    | .error cause => .error cause
    | .ok .root => decodeRoot none members
    | .ok .element => decodeElement {} members
    | .ok .text => (decodeContent none members).map .text
    | .ok .comment => (decodeContent none members).map .comment
    | .ok .doctype => .ok .doctype
  | .array [] => .error (.missingField "type")
  | .array (value :: fields) =>
    match Kind.decode value with
    | .error cause => .error cause
    | .ok .root => decodeRootItems fields
    | .ok .element => decodeElementItems fields
    | .ok .text => (decodeContentItems "Text" fields).map .text
    | .ok .comment => (decodeContentItems "Comment" fields).map .comment
    | .ok .doctype =>
      if fields.isEmpty then .ok .doctype
      else .error (.wrongLength fields.length "0 elements in sequence")
  | value => .error (.wrongType value.found expected)

/-- The nodes that the items of an array stand for. -/
def decodeList : List Value → Except Cause (List Node)
  | [] => .ok []
  | value :: values =>
    match decode value with
    | .error cause => .error cause
    | .ok node =>
      match decodeList values with
      | .error cause => .error cause
      | .ok nodes => .ok (node :: nodes)

/-- The member `children`. -/
def decodeChildren : Value → Except Cause (List Node)
  | .array items => decodeList items
  | value => .error (.wrongType value.found "a sequence")

/-- A root given by the members of an object. -/
def decodeRoot (seen : Option (List Node)) : List (String × Value) → Except Cause Node
  | [] => .ok (.root (seen.getD []))
  | (key, value) :: members =>
    if key = "children" then
      match seen with
      | some _ => .error (.duplicateField "children")
      | none =>
        match decodeChildren value with
        | .ok children => decodeRoot (some children) members
        | .error cause => .error cause
    else decodeRoot seen members

/-- An element given by the members of an object. -/
def decodeElement (draft : ElementDraft) : List (String × Value) → Except Cause Node
  | [] => draft.finish
  | (key, value) :: members =>
    if key = "tagName" then
      if draft.tag.isSome then .error (.duplicateField "tagName")
      else
        match decodeString value with
        | .ok tag => decodeElement { draft with tag := some tag } members
        | .error cause => .error cause
    else if key = "properties" then
      if draft.properties.isSome then .error (.duplicateField "properties")
      else
        match Properties.decode value with
        | .ok properties => decodeElement { draft with properties := some properties } members
        | .error cause => .error cause
    else if key = "children" then
      if draft.children.isSome then .error (.duplicateField "children")
      else
        match decodeChildren value with
        | .ok children => decodeElement { draft with children := some children } members
        | .error cause => .error cause
    else decodeElement draft members

/-- A root given by position: its children, if they are there. -/
def decodeRootItems : List Value → Except Cause Node
  | [] => .ok (.root [])
  | value :: more =>
    match decodeChildren value with
    | .error cause => .error cause
    | .ok children =>
      if more.isEmpty then .ok (.root children)
      else .error (.wrongLength (more.length + 1) "1 element in sequence")

/-- An element given by position: its tag and then, if they are there, properties and children. -/
def decodeElementItems : List Value → Except Cause Node
  | [] => .error (.wrongLength 0 "struct Element with 3 elements")
  | tag :: more =>
    match decodeString tag with
    | .error cause => .error cause
    | .ok tag =>
      match more with
      | [] => .ok (.element tag none [])
      | properties :: more =>
        match Properties.decode properties with
        | .error cause => .error cause
        | .ok properties =>
          match more with
          | [] => .ok (.element tag properties [])
          | children :: more =>
            match decodeChildren children with
            | .error cause => .error cause
            | .ok children =>
              if more.isEmpty then .ok (.element tag properties children)
              else .error (.wrongLength (more.length + 3) "3 elements in sequence")

end

/-- The node of a kind that the members of an object stand for. -/
def ofMembers (kind : Kind) (members : List (String × Value)) : Except Cause Node :=
  match kind with
  | .root => decodeRoot none members
  | .element => decodeElement {} members
  | .text => (decodeContent none members).map .text
  | .comment => (decodeContent none members).map .comment
  | .doctype => .ok .doctype

/-- The node of a kind that fields by position stand for. -/
def ofItems (kind : Kind) (fields : List Value) : Except Cause Node :=
  match kind with
  | .root => decodeRootItems fields
  | .element => decodeElementItems fields
  | .text => (decodeContentItems "Text" fields).map .text
  | .comment => (decodeContentItems "Comment" fields).map .comment
  | .doctype =>
    if fields.isEmpty then .ok .doctype
    else .error (.wrongLength fields.length "0 elements in sequence")

/-- A node given by an object is the node of the kind that the object names. -/
theorem decode_object (members : List (String × Value)) :
    decode (.object members) =
      match Kind.ofMembers none members with
      | .error cause => .error cause
      | .ok kind => ofMembers kind members := by
  rw [decode]
  cases Kind.ofMembers none members with
  | error cause => rfl
  | ok kind => cases kind <;> rfl

/-- A node given by an array is the node of the kind that the array starts with. -/
theorem decode_array (value : Value) (fields : List Value) :
    decode (.array (value :: fields)) =
      match Kind.decode value with
      | .error cause => .error cause
      | .ok kind => ofItems kind fields := by
  rw [decode]
  cases Kind.decode value with
  | error cause => rfl
  | ok kind => cases kind <;> rfl

end Node

end CellAlign

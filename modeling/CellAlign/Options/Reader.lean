import CellAlign.Json.Skip
import CellAlign.Options.Basic

/-!
# Options from JSON texts

Options and tokens are objects whose known members replace the defaults; other members are skipped.
Both may also be given as arrays, the fields in alphabetical order and missing ones at the end left
at their defaults.  Known members are read as they come, so that the first fault in the order of
the text is the one reported.
-/

namespace CellAlign

open Json

/-- Skips a member that means nothing here. -/
def skipMember {σ : Type} (state : σ) (text : List Char) : Outcome σ :=
  match readColon text with
  | .error stop => .error stop
  | .ok text =>
    match skipValue text with
    | .ok rest => .ok (state, rest)
    | .error stop => .error stop

/-- Reads a known member, which must not have been there before. -/
def knownMember {σ α : Type} (key : String) (seen : Option α) (read : List Char → Outcome α)
    (store : α → σ) (text : List Char) : Outcome σ :=
  match seen with
  | some _ => stopHere (.duplicateField key) (afterObject text)
  | none =>
    match readColon text with
    | .error stop => .error stop
    | .ok text => mapRead store (read text)

/-- Reads a record with the fields `fields`: from the members of an object, or from the items of an
array by position. -/
def readRecord {σ : Type} (depth : Nat) (expected : String) (start : σ)
    (member : σ → String → List Char → Outcome σ) (fields : List (σ → List Char → Outcome σ))
    (text : List Char) : Outcome σ :=
  match skipGap text with
  | [] => readUnwanted expected []
  | c :: rest =>
    if c = '\x7b' then
      match depth with
      | 0 => stopAtNext .nestingLimit (c :: rest)
      | _ + 1 => walkObject member start rest
    else if c = '[' then
      match depth with
      | 0 => stopAtNext .nestingLimit (c :: rest)
      | _ + 1 => readFields fields true start rest
    else readUnwanted expected (c :: rest)
where
  /-- Reads the fields that are there, up to and with the closing bracket. -/
  readFields : List (σ → List Char → Outcome σ) → Bool → σ → List Char → Outcome σ
    | [], _, state, text =>
      match skipGap text with
      | [] => stopHere .endInList []
      | c :: rest =>
        if c = ']' then .ok (state, rest)
        else if c = ',' then
          match skipGap rest with
          | ']' :: more => stopAtNext .trailingComma (']' :: more)
          | more => stopAtNext .trailingCharacters more
        else stopAtNext .trailingCharacters (c :: rest)
    | field :: fields, first, state, text =>
      match skipGap text with
      | [] => stopHere .endInList []
      | c :: rest =>
        if c = ']' then .ok (state, rest)
        else if first then
          match field state (c :: rest) with
          | .ok (state, rest) => readFields fields false state rest
          | .error stop => .error stop
        else if c = ',' then
          match skipGap rest with
          | [] => stopHere .endInValue []
          | ']' :: more => stopAtNext .trailingComma (']' :: more)
          | more =>
            match field state more with
            | .ok (state, rest) => readFields fields false state rest
            | .error stop => .error stop
        else stopAtNext .expectedListCommaOrEnd (c :: rest)

namespace ClassNames

/-- Tokens while they are read. -/
structure Draft where
  center : Option String := none
  left : Option String := none
  right : Option String := none

/-- The tokens read, with the defaults for the others. -/
def Draft.finish (draft : Draft) : ClassNames where
  center := draft.center.getD ({} : ClassNames).center
  left := draft.left.getD ({} : ClassNames).left
  right := draft.right.getD ({} : ClassNames).right

/-- Reads a token. -/
def readToken (text : List Char) : Outcome String := readString "a string" text

/-- Reads a member of the tokens. -/
def readMember (draft : Draft) (key : String) (text : List Char) : Outcome Draft :=
  if key = "center" then
    knownMember key draft.center readToken (fun t => { draft with center := some t }) text
  else if key = "left" then
    knownMember key draft.left readToken (fun t => { draft with left := some t }) text
  else if key = "right" then
    knownMember key draft.right readToken (fun t => { draft with right := some t }) text
  else skipMember draft text

/-- Reads tokens. -/
def read (depth : Nat) (text : List Char) : Outcome ClassNames :=
  mapRead Draft.finish <|
    readRecord depth "struct ClassNames" {} readMember
      [fun draft text => mapRead (fun t => { draft with center := some t }) (readToken text),
       fun draft text => mapRead (fun t => { draft with left := some t }) (readToken text),
       fun draft text => mapRead (fun t => { draft with right := some t }) (readToken text)]
      text

end ClassNames

namespace Method

/-- The methods that an object can hold, under the names that they have there. -/
def variants : List (String × Method) := [("class", .byClass), ("style", .byStyle)]

/-- Methods have the same names in an object as elsewhere. -/
theorem lookup_variants (name : String) : variants.lookup name = ofName? name := by
  unfold ofName?
  split
  · next h =>
    subst h
    rfl
  split
  · next h =>
    subst h
    rfl
  · next hclass hstyle =>
    simp [variants, List.lookup_cons, beq_false_of_ne hclass, beq_false_of_ne hstyle]

/-- Reads the name of a method. -/
def readName (text : List Char) : Outcome Method :=
  match readString "variant identifier" text with
  | .error stop => .error stop
  | .ok (name, rest) =>
    match variants.lookup name with
    | some method => .ok (method, rest)
    | none => stopHere (.unknownVariant name "`class` or `style`") rest

/-- Reads the null that stands behind the name of a method in an object. -/
def readNull (text : List Char) : Except Stop (List Char) :=
  match skipGap text with
  | 'n' :: rest => Json.readName ['u', 'l', 'l'] rest
  | rest => readUnwanted "unit" rest

/-- Reads the closing bracket of an object that held a method. -/
def readClosing (method : Method) (text : List Char) : Outcome Method :=
  match skipGap text with
  | [] => stopHere .endInObject []
  | c :: rest =>
    if c = '\x7d' then .ok (method, rest) else stopHere .expectedValue (c :: rest)

/-- Reads the key of an object that holds a method. -/
def readKey (text : List Char) : Outcome Method :=
  match skipGap text with
  | [] => stopHere .endInObject []
  | c :: rest =>
    if c = '"' then readName (c :: rest)
    else if c = '\x7d' then stopAtNext .expectedValue (c :: rest)
    else stopAtNext .keyNotString (c :: rest)

/-- Reads a method: its name, or an object with the name as its only key and a null. -/
def read (depth : Nat) (text : List Char) : Outcome Method :=
  match skipGap text with
  | [] => stopHere .endInValue []
  | c :: rest =>
    if c = '"' then readName (c :: rest)
    else if c = '\x7b' then
      match depth with
      | 0 => stopAtNext .nestingLimit (c :: rest)
      | _ + 1 =>
        match readKey rest with
        | .error stop => .error stop
        | .ok (method, rest) =>
          match readColon rest with
          | .error stop => .error stop
          | .ok rest =>
            match readNull rest with
            | .error stop => .error stop
            | .ok rest => readClosing method rest
    else stopAtNext .expectedValue (c :: rest)

end Method

namespace Options

/-- Options while they are read. -/
structure Draft where
  classes : Option ClassNames := none
  method : Option Method := none

/-- The options read, with the defaults for the others. -/
def Draft.finish (draft : Draft) : Options where
  classes := draft.classes.getD ({} : Options).classes
  method := draft.method.getD ({} : Options).method

/-- Reads a member of the options. -/
def readMember (depth : Nat) (draft : Draft) (key : String) (text : List Char) : Outcome Draft :=
  if key = "classes" then
    knownMember key draft.classes (ClassNames.read depth)
      (fun c => { draft with classes := some c }) text
  else if key = "method" then
    knownMember key draft.method (Method.read depth)
      (fun m => { draft with method := some m }) text
  else skipMember draft text

/-- Reads options. -/
def read (depth : Nat) (text : List Char) : Outcome Options :=
  mapRead Draft.finish <|
    readRecord depth "struct TableAlignOptions" {} (readMember (depth - 1))
      [fun draft text =>
         mapRead (fun c => { draft with classes := some c }) (ClassNames.read (depth - 1) text),
       fun draft text =>
         mapRead (fun m => { draft with method := some m }) (Method.read (depth - 1) text)]
      text

end Options

/-- Reads the only value of a text. -/
def readWhole {α : Type} (read : Nat → List Char → Outcome α) (text : String) : Except Fault α :=
  match read nestingLimit text.toList with
  | .error stop => .error (stop.inText text.toList)
  | .ok (value, rest) =>
    match readEnd rest with
    | .ok () => .ok value
    | .error stop => .error (stop.inText text.toList)

/-- The tokens of a JSON text. -/
def ClassNames.ofJson (text : String) : Except Fault ClassNames := readWhole ClassNames.read text

/-- The options of a JSON text. -/
def Options.ofJson (text : String) : Except Fault Options := readWhole Options.read text

end CellAlign

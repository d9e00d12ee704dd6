import CellAlign.Json.Numeral
import CellAlign.Json.Text

/-!
# Reading values

Values are read strictly: no comments, no trailing commas, no text behind the value, and a bound on
how deeply arrays and objects nest.  The walks through a list and through an object take the reader
of an item or a member as a parameter, since some objects are not read into a value first but
member by member, and then the first fault in the order of the text is the one reported.
-/

namespace CellAlign.Json

/-- How many arrays and objects may be open at once. -/
def nestingLimit : Nat := 127

/-- The characters that may stand between the parts of a JSON text. -/
def isGap (c : Char) : Bool := c == ' ' || c == '\n' || c == '\t' || c == '\r'

/-- Leaves out the gap at the start of a text. -/
def skipGap (text : List Char) : List Char := text.dropWhile isGap

/-- Reads the rest of a literal name. -/
def readName : List Char → List Char → Except Stop (List Char)
  | [], rest => .ok rest
  | _ :: _, [] => stopHere .endInValue []
  | c :: name, d :: rest =>
    if c = d then readName name rest else stopAtNext .expectedIdent (d :: rest)

/-- Reads a literal name that stands for `value`. -/
def readLiteral {α : Type} (name : List Char) (value : α) (rest : List Char) : Outcome α :=
  match readName name rest with
  | .ok rest => .ok (value, rest)
  | .error stop => .error stop

section Walks

variable {σ : Type}

/-- Walks through a list behind one of its items. -/
def walkItems (item : σ → List Char → Outcome σ) : Nat → σ → List Char → Outcome σ
  | 0, _, text => stopHere .endInList text
  | fuel + 1, state, text =>
    match skipGap text with
    | [] => stopHere .endInList []
    | c :: rest =>
      if c = ']' then .ok (state, rest)
      else if c = ',' then
        match skipGap rest with
        | [] => stopHere .endInValue []
        | d :: more =>
          if d = ']' then stopAtNext .trailingComma (d :: more)
          else
            match item state (d :: more) with
            | .ok (state, rest) => walkItems item fuel state rest
            | .error stop => .error stop
      else stopAtNext .expectedListCommaOrEnd (c :: rest)

/-- Walks through a list behind its opening bracket, up to and with the closing one. -/
def walkList (item : σ → List Char → Outcome σ) (state : σ) (text : List Char) : Outcome σ :=
  match skipGap text with
  | [] => stopHere .endInList []
  | c :: rest =>
    if c = ']' then .ok (state, rest)
    else
      match item state (c :: rest) with
      | .ok (state, rest) => walkItems item rest.length.succ state rest
      | .error stop => .error stop

/-- Reads a key behind its quote and hands it, with the text behind it, to the reader of members. -/
def readMember (member : σ → String → List Char → Outcome σ) (state : σ) (text : List Char) :
    Outcome σ :=
  match Text.read text with
  | .ok (key, rest) => member state key rest
  | .error stop => .error stop

/-- Walks through an object behind one of its members. -/
def walkMembers (member : σ → String → List Char → Outcome σ) :
    Nat → σ → List Char → Outcome σ
  | 0, _, text => stopHere .endInObject text
  | fuel + 1, state, text =>
    match skipGap text with
    | [] => stopHere .endInObject []
    | c :: rest =>
      if c = '\x7d' then .ok (state, rest)
      else if c = ',' then
        match skipGap rest with
        | [] => stopHere .endInValue []
        | d :: more =>
          if d = '"' then
            match readMember member state more with
            | .ok (state, rest) => walkMembers member fuel state rest
            | .error stop => .error stop
          else if d = '\x7d' then stopAtNext .trailingComma (d :: more)
          else stopAtNext .keyNotString (d :: more)
      else stopAtNext .expectedObjectCommaOrEnd (c :: rest)

/-- Walks through an object behind its opening brace, up to and with the closing one. -/
def walkObject (member : σ → String → List Char → Outcome σ) (state : σ) (text : List Char) :
    Outcome σ :=
  match skipGap text with
  | [] => stopHere .endInObject []
  | c :: rest =>
    if c = '\x7d' then .ok (state, rest)
    else if c = '"' then
      match readMember member state rest with
      | .ok (state, rest) => walkMembers member rest.length.succ state rest
      | .error stop => .error stop
    else stopAtNext .keyNotString (c :: rest)

/-- Reads the colon behind a key. -/
def readColon (text : List Char) : Except Stop (List Char) :=
  match skipGap text with
  | [] => stopHere .endInObject []
  | c :: rest => if c = ':' then .ok rest else stopAtNext .expectedColon (c :: rest)

end Walks

/-- Reads a number, a string or a literal name; `none` if the text starts with none of them. -/
def readScalar? (c : Char) (rest : List Char) : Option (Outcome Value) :=
  if c = 'n' then some (readLiteral ['u', 'l', 'l'] .null rest)
  else if c = 't' then some (readLiteral ['r', 'u', 'e'] (.bool true) rest)
  else if c = 'f' then some (readLiteral ['a', 'l', 's', 'e'] (.bool false) rest)
  else if c = '-' then
    some (mapRead .number (Numeral.afterSign true rest))
  else if c.isDigit then
    some (mapRead .number (Numeral.afterSign false (c :: rest)))
  else if c = '"' then some (mapRead .string (Text.read rest))
  else none

/-- Reads a value within which `depth` more arrays and objects may be open at once. -/
def readValue (depth : Nat) (text : List Char) : Outcome Value :=
  match skipGap text with
  | [] => stopHere .endInValue []
  | c :: rest =>
    match readScalar? c rest with
    | some outcome => outcome
    | none =>
      if c = '[' then
        match depth with
        | 0 => stopAtNext .nestingLimit (c :: rest)
        | depth + 1 =>
          mapRead (fun items => .array items.reverse)
            (walkList (fun items text => mapRead (· :: items) (readValue depth text)) [] rest)
      else if c = '\x7b' then
        match depth with
        | 0 => stopAtNext .nestingLimit (c :: rest)
        | depth + 1 =>
          mapRead (fun members => .object members.reverse)
            (walkObject (fun members key text =>
              match readColon text with
              | .ok text => mapRead (fun value => (key, value) :: members) (readValue depth text)
              | .error stop => .error stop) [] rest)
      else stopAtNext .expectedValue (c :: rest)

/-- Accepts a text of which only a gap is left. -/
def readEnd (text : List Char) : Except Stop Unit :=
  match skipGap text with
  | [] => .ok ()
  | c :: rest => stopAtNext .trailingCharacters (c :: rest)

/-- The place behind the closing bracket of an object, if that comes next, and else the place behind
the gap: here a fault is placed that was found in an object while its members were read. -/
def afterObject (text : List Char) : List Char :=
  match skipGap text with
  | '\x7d' :: rest => rest
  | rest => rest

/-- Reads a value of which only its kind matters, for it is none of those expected: a number, a
string or a literal name is read to its end, an array or an object is only looked at. -/
def readUnwanted {α : Type} (expected : String) (text : List Char) : Except Stop α :=
  match skipGap text with
  | [] => stopHere .endInValue []
  | c :: rest =>
    match readScalar? c rest with
    | some (.ok (value, rest)) => stopHere (.wrongType value.found expected) rest
    | some (.error stop) => .error stop
    | none =>
      if c = '[' then stopHere (.wrongType .sequence expected) (c :: rest)
      else if c = '\x7b' then stopHere (.wrongType .map expected) (c :: rest)
      else stopAtNext .expectedValue (c :: rest)

/-- Reads a string. -/
def readString (expected : String) (text : List Char) : Outcome String :=
  match skipGap text with
  | '"' :: rest => Text.read rest
  | rest => readUnwanted expected rest

end CellAlign.Json

import CellAlign.Json.Reader

/-!
# Skipping values

Settings may hold members that mean nothing here.  Their values are skipped and not read: the
grammar is checked, but there is no bound on nesting or on the size of numbers, and an escaped
surrogate needs no partner.  The frames of the arrays and objects that are open stand on a list,
the innermost first.
-/

namespace CellAlign.Json.Skip

/-- What is open around the place reached. -/
inductive Frame where
  | list
  | object

/-- Skips a string behind its opening quote. -/
def skipString : List Char → Except Stop (List Char)
  | [] => stopHere .endInString []
  | c :: rest =>
    if c = '"' then .ok rest
    else if c = '\\' then
      match rest with
      | [] => stopHere .endInString []
      | e :: rest =>
        if e = 'u' then
          match rest with
          | h₁ :: h₂ :: h₃ :: h₄ :: rest' =>
            match Text.hex? h₁ h₂ h₃ h₄ with
            | none => Text.badHex rest
            | some _ => skipString rest'
          | _ => Text.badHex rest
        else
          match Text.letterEscape? e with
          | some _ => skipString rest
          | none => stopAtNext .invalidEscape (e :: rest)
    else if c.toNat < 0x20 then stopHere .controlCharacter (c :: rest)
    else skipString rest

/-- Skips what follows the letter of an exponent. -/
def skipExponent (text : List Char) : Except Stop (List Char) :=
  let text :=
    match text with
    | '+' :: rest => rest
    | '-' :: rest => rest
    | _ => text
  match text with
  | [] => stopHere .invalidNumber []
  | c :: rest =>
    if c.isDigit then .ok (Numeral.skipDigits rest) else stopAtNext .invalidNumber text

/-- Skips an exponent, if there is one. -/
def skipExponentPart (text : List Char) : Except Stop (List Char) :=
  match text with
  | 'e' :: rest => skipExponent rest
  | 'E' :: rest => skipExponent rest
  | _ => .ok text

/-- Skips a fraction and an exponent, if there are any. -/
def skipFraction (text : List Char) : Except Stop (List Char) :=
  match text with
  | '.' :: rest =>
    match rest with
    | [] => stopHere .invalidNumber []
    | c :: more =>
      if c.isDigit then skipExponentPart (Numeral.skipDigits more)
      else stopAtNext .invalidNumber rest
  | _ => skipExponentPart text

/-- Skips a numeral behind its sign. -/
def skipNumeral (text : List Char) : Except Stop (List Char) :=
  match text with
  | [] => stopHere .invalidNumber []
  | c :: rest =>
    if c = '0' then
      match rest with
      | [] => .ok []
      | d :: _ => if d.isDigit then stopAtNext .invalidNumber rest else skipFraction rest
    else if c.isDigit then skipFraction (Numeral.skipDigits rest)
    else stopAtNext .invalidNumber text

/-- Skips a number, a string or a literal name; `none` if the text starts with none of them. -/
def skipScalar? (c : Char) (rest : List Char) : Option (Except Stop (List Char)) :=
  if c = 'n' then some (readName ['u', 'l', 'l'] rest)
  else if c = 't' then some (readName ['r', 'u', 'e'] rest)
  else if c = 'f' then some (readName ['a', 'l', 's', 'e'] rest)
  else if c = '-' then some (skipNumeral rest)
  else if c.isDigit then some (skipNumeral (c :: rest))
  else if c = '"' then some (skipString rest)
  else none

/-- Skips the key of a member and its colon. -/
def skipKey (text : List Char) : Except Stop (List Char) :=
  match skipGap text with
  | [] => stopHere .endInObject []
  | c :: rest =>
    if c = '"' then
      match skipString rest with
      | .ok rest => readColon rest
      | .error stop => .error stop
    else stopAtNext .keyNotString (c :: rest)

/-- Goes on to the next value inside the frame reached. -/
def enter (frame : Frame) (outer : List Frame) (text : List Char) :
    Except Stop (List Frame × List Char) :=
  match frame with
  | .list => .ok (.list :: outer, text)
  | .object =>
    match skipKey text with
    | .ok rest => .ok (.object :: outer, rest)
    | .error stop => .error stop

/-- Closes the frames that end here and goes on to the next value.  An empty list of frames means
that the value is at its end.  `behind` says whether the place is behind a value and not behind an
opening bracket. -/
def close : List Frame → Bool → List Char → Except Stop (List Frame × List Char)
  | [], _, text => .ok ([], text)
  | frame :: outer, behind, text =>
    match skipGap text, frame with
    | [], .list => stopHere .endInList []
    | [], .object => stopHere .endInObject []
    | c :: rest, frame =>
      if c = ',' ∧ behind then enter frame outer rest
      else
        match frame with
        | .list =>
          if c = ']' then close outer true rest
          else if behind then stopAtNext .expectedListCommaOrEnd (c :: rest)
          else enter .list outer (c :: rest)
        | .object =>
          if c = '\x7d' then close outer true rest
          else if behind then stopAtNext .expectedObjectCommaOrEnd (c :: rest)
          else enter .object outer (c :: rest)

/-- Skips values until no frame is open. -/
def skipValues : Nat → List Frame → List Char → Except Stop (List Char)
  | 0, _, text => stopHere .endInValue text
  | fuel + 1, frames, text =>
    match skipGap text with
    | [] => stopHere .endInValue []
    | c :: rest =>
      let next :=
        match skipScalar? c rest with
        | some (.ok rest) => close frames true rest
        | some (.error stop) => .error stop
        | none =>
          if c = '[' then close (.list :: frames) false rest
          else if c = '\x7b' then close (.object :: frames) false rest
          else stopAtNext .expectedValue (c :: rest)
      match next with
      | .ok ([], rest) => .ok rest
      | .ok (frames, rest) => skipValues fuel frames rest
      | .error stop => .error stop

end CellAlign.Json.Skip

namespace CellAlign.Json

/-- Skips a value. -/
def skipValue (text : List Char) : Except Stop (List Char) :=
  Skip.skipValues text.length.succ [] text

end CellAlign.Json

import CellAlign.Json.Fault

/-!
# Reading and writing strings

A string stands between double quotes.  The quote, the backslash and the control characters are
written as escapes; every other character stands for itself.  A reader also takes any character
as a four-digit escape, one beyond the first plane as an escaped surrogate pair.
-/

namespace CellAlign.Json.Text

/-- The value of a hexadecimal digit. -/
def hexDigit? (c : Char) : Option Nat :=
  if c.isDigit then some (c.toNat - '0'.toNat)
  else if 'a' ≤ c ∧ c ≤ 'f' then some (c.toNat - 'a'.toNat + 10)
  else if 'A' ≤ c ∧ c ≤ 'F' then some (c.toNat - 'A'.toNat + 10)
  else none

/-- The value of four hexadecimal digits. -/
def hex? (a b c d : Char) : Option Nat := do
  return (((← hexDigit? a) * 16 + (← hexDigit? b)) * 16 + (← hexDigit? c)) * 16 + (← hexDigit? d)

/-- The character of a one-letter escape. -/
def letterEscape? (c : Char) : Option Char :=
  if c = '"' then some '"'
  else if c = '\\' then some '\\'
  else if c = '/' then some '/'
  else if c = 'b' then some '\x08'
  else if c = 'f' then some '\x0c'
  else if c = 'n' then some '\n'
  else if c = 'r' then some '\r'
  else if c = 't' then some '\t'
  else none

/-- The report of an escape without four hexadecimal digits: either the text ends before four more
bytes, or the escape is invalid. -/
def badHex {α : Type} (rest : List Char) : Except Stop α :=
  if byteSize (rest.take 4) < 4 then stopHere .endInString []
  else .error { cause := .invalidEscape, rest, ahead := 4 }

/-- Reads a string behind its opening quote. -/
def readBody : List Char → Outcome (List Char)
  | [] => stopHere .endInString []
  | c :: rest =>
    if c = '"' then .ok ([], rest)
    else if c = '\\' then
      match rest with
      | [] => stopHere .endInString []
      | e :: rest =>
        if e = 'u' then
          match rest with
          | h₁ :: h₂ :: h₃ :: h₄ :: rest' =>
            match hex? h₁ h₂ h₃ h₄ with
            | none => badHex rest
            | some n =>
              if 0xDC00 ≤ n ∧ n ≤ 0xDFFF then stopHere .loneSurrogate rest'
              else if n < 0xD800 ∨ 0xDBFF < n then mapRead (Char.ofNat n :: ·) (readBody rest')
              else
                match rest' with
                | [] => stopHere .endInString []
                | b :: low =>
                  if b ≠ '\\' then stopAtNext .unexpectedHexEnd rest'
                  else
                    match low with
                    | [] => stopHere .endInString []
                    | u :: digits =>
                      if u ≠ 'u' then stopAtNext .unexpectedHexEnd low
                      else
                        match digits with
                        | l₁ :: l₂ :: l₃ :: l₄ :: rest'' =>
                          match hex? l₁ l₂ l₃ l₄ with
                          | none => badHex digits
                          | some m =>
                            if m < 0xDC00 ∨ 0xDFFF < m then stopHere .loneSurrogate rest''
                            else
                              mapRead
                                (Char.ofNat (0x10000 + (n - 0xD800) * 0x400 + (m - 0xDC00)) :: ·)
                                (readBody rest'')
                        | _ => badHex digits
          | _ => badHex rest
        else
          match letterEscape? e with
          | some x => mapRead (x :: ·) (readBody rest)
          | none => stopAtNext .invalidEscape (e :: rest)
    else if c.toNat < 0x20 then stopAtNext .controlCharacter (c :: rest)
    else mapRead (c :: ·) (readBody rest)

/-- Reads a string behind its opening quote. -/
def read (text : List Char) : Outcome String := mapRead String.ofList (readBody text)

/-- One character of a written string. -/
def encodeChar (c : Char) : List Char :=
  if c = '"' then ['\\', '"']
  else if c = '\\' then ['\\', '\\']
  else if c = '\x08' then ['\\', 'b']
  else if c = '\x0c' then ['\\', 'f']
  else if c = '\n' then ['\\', 'n']
  else if c = '\r' then ['\\', 'r']
  else if c = '\t' then ['\\', 't']
  else if c.toNat < 0x20 then
    ['\\', 'u', '0', '0', Nat.digitChar (c.toNat / 16), Nat.digitChar (c.toNat % 16)]
  else [c]

/-- A string as it is written, between double quotes. -/
def encode (text : List Char) : List Char := '"' :: text.flatMap encodeChar ++ ['"']

end CellAlign.Json.Text

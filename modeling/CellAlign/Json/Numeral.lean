import CellAlign.Json.Fault

/-!
# Reading numbers

A numeral is read in one pass.  Its digits are collected into a significand as long as that fits an
unsigned 64-bit word; digits of the whole part that no longer fit raise the exponent, digits of the
fraction that no longer fit are dropped.  A numeral without fraction and exponent that fits a word
is a whole number, anything else a binary number, and so is `-0`.
-/

namespace CellAlign.Json.Numeral

/-- The greatest significand. -/
def wordLimit : Nat := 0xFFFFFFFFFFFFFFFF

/-- The greatest exponent that is added up. -/
def exponentLimit : Nat := 0x7FFFFFFF

/-- The value of a decimal digit. -/
def digit? (c : Char) : Option Nat :=
  if c.isDigit then some (c.toNat - '0'.toNat) else none

/-- Leaves out the digits at the start of a text. -/
def skipDigits (text : List Char) : List Char := text.dropWhile Char.isDigit

/-- The binary number `significand · 10 ^ exponent` with a sign, or a report if it is too large. -/
def finish (negative : Bool) (significand : Nat) (exponent : Int) (rest : List Char) :
    Outcome Number :=
  match Decimal.Binary.ofDecimal? significand exponent with
  | some x => .ok (.binary { x with negative }, rest)
  | none => stopHere .numberOutOfRange rest

/-- Adds up the digits of an exponent; nothing if it passes the limit, which a text can only do
with digits to spare. -/
def exponentDigits : Nat → List Char → Option Nat × List Char
  | n, [] => (some n, [])
  | n, c :: rest =>
    match digit? c with
    | none => (some n, c :: rest)
    | some d => if exponentLimit < 10 * n + d then (none, rest) else exponentDigits (10 * n + d) rest

/-- Reads what follows the letter of an exponent. -/
def afterLetter (negative : Bool) (significand : Nat) (exponent : Int) (text : List Char) :
    Outcome Number :=
  let (lower, text) :=
    match text with
    | '+' :: rest => (false, rest)
    | '-' :: rest => (true, rest)
    | _ => (false, text)
  match text with
  | [] => stopHere .endInValue []
  | c :: rest =>
    match digit? c with
    | none => stopAtNext .invalidNumber text
    | some d =>
      match exponentDigits d rest with
      | (some n, rest) =>
        finish negative significand (if lower then exponent - n else exponent + n) rest
      | (none, rest) =>
        if significand ≠ 0 ∧ !lower then stopHere .numberOutOfRange rest
        else .ok (.binary (.zero negative), skipDigits rest)

/-- Reads an exponent, if there is one. -/
def exponentPart (negative : Bool) (significand : Nat) (exponent : Int) (text : List Char) :
    Outcome Number :=
  match text with
  | 'e' :: rest => afterLetter negative significand exponent rest
  | 'E' :: rest => afterLetter negative significand exponent rest
  | _ => finish negative significand exponent text

/-- Collects the digits of a fraction: the significand, how many digits were kept, and the text
behind all digits. -/
def fractionDigits : Nat → Nat → List Char → Nat × Nat × List Char
  | significand, kept, [] => (significand, kept, [])
  | significand, kept, c :: rest =>
    match digit? c with
    | none => (significand, kept, c :: rest)
    | some d =>
      if wordLimit < 10 * significand + d then (significand, kept, skipDigits rest)
      else fractionDigits (10 * significand + d) (kept + 1) rest

/-- Reads what follows the point. -/
def afterPoint (negative : Bool) (significand : Nat) (exponent : Int) (text : List Char) :
    Outcome Number :=
  match text with
  | [] => stopHere .endInValue []
  | c :: _ =>
    if c.isDigit then
      let (significand, kept, rest) := fractionDigits significand 0 text
      exponentPart negative significand (exponent - kept) rest
    else stopAtNext .invalidNumber text

/-- Reads what follows a whole part that no longer fits a word. -/
def afterLong (negative : Bool) (significand : Nat) : Int → List Char → Outcome Number
  | exponent, [] => finish negative significand exponent []
  | exponent, c :: rest =>
    if c.isDigit then afterLong negative significand (exponent + 1) rest
    else if c = '.' then afterPoint negative significand exponent rest
    else exponentPart negative significand exponent (c :: rest)

/-- The number of a numeral without fraction and exponent. -/
def whole (negative : Bool) (significand : Nat) (rest : List Char) : Outcome Number :=
  if negative ∧ significand = 0 then finish true 0 0 rest
  else
    match Whole.ofInt? (if negative then -(significand : Int) else significand) with
    | some i => .ok (.whole i, rest)
    | none => finish negative significand 0 rest

/-- Reads what follows a whole part. -/
def afterWhole (negative : Bool) (significand : Nat) (text : List Char) : Outcome Number :=
  match text with
  | '.' :: rest => afterPoint negative significand 0 rest
  | 'e' :: rest => afterLetter negative significand 0 rest
  | 'E' :: rest => afterLetter negative significand 0 rest
  | _ => whole negative significand text

/-- Reads the further digits of a whole part. -/
def wholeDigits (negative : Bool) : Nat → List Char → Outcome Number
  | significand, [] => whole negative significand []
  | significand, c :: rest =>
    match digit? c with
    | none => afterWhole negative significand (c :: rest)
    | some d =>
      if wordLimit < 10 * significand + d then afterLong negative significand 1 rest
      else wholeDigits negative (10 * significand + d) rest

/-- Reads a numeral behind its sign. -/
def afterSign (negative : Bool) (text : List Char) : Outcome Number :=
  match text with
  | [] => stopHere .endInValue []
  | c :: rest =>
    match digit? c with
    | none => stopAtNext .invalidNumber text
    | some 0 =>
      match rest with
      | [] => whole negative 0 []
      | d :: _ =>
        if d.isDigit then stopAtNext .invalidNumber rest else afterWhole negative 0 rest
    | some d => wholeDigits negative d rest

end CellAlign.Json.Numeral

import CellAlign.Markup.CharacterNames
import CellAlign.Text.Blank
import Std.Data.HashMap

/-!
# Character references

An ampersand may start a reference to a character, by number or by name.  A reference by number
may lack its semicolon, one by name only if the name is among the bare ones; of several names that
could be meant the longest counts.  Inside the value of an attribute a bare name that goes on with a
letter, a digit or an equals sign is no reference.
-/

namespace CellAlign.Markup

/-- The value of a hexadecimal digit in either case. -/
def hexValue? (c : Char) : Option Nat :=
  if c.isDigit then some (c.toNat - '0'.toNat)
  else if 'a' ≤ c ∧ c ≤ 'f' then some (c.toNat - 'a'.toNat + 10)
  else if 'A' ≤ c ∧ c ≤ 'F' then some (c.toNat - 'A'.toNat + 10)
  else none

/-- The value of a decimal digit. -/
def decimalValue? (c : Char) : Option Nat :=
  if c.isDigit then some (c.toNat - '0'.toNat) else none

/-- The characters of a code point list such as `2242+338`. -/
def expansion (codes : List Char) : List Char :=
  (Text.words (· == '+') codes).map fun code =>
    Char.ofNat (code.foldl (fun n c => 16 * n + (hexValue? c).getD 0) 0)

/-- Pairs up names with what they stand for. -/
def nameEntries : List (List Char) → List (String × List Char)
  | name :: codes :: more => (String.ofList name, expansion codes) :: nameEntries more
  | _ => []

/-- What each name stands for. -/
def characterNames : Std.HashMap String (List Char) :=
  Std.HashMap.ofList (nameTable.flatMap fun line => nameEntries (Text.words (· == ' ') line.toList))

/-- The names that need no semicolon, each as its characters. -/
def bareNameChars : List (List Char) :=
  bareNames.flatMap fun line => Text.words (· == ' ') line.toList

/-- The characters that replace the code points from 0x80 to 0x9F, in their order; zero leaves a
code point as it is. -/
def windowsCharacters : List Nat :=
  [0x20AC, 0, 0x201A, 0x0192, 0x201E, 0x2026, 0x2020, 0x2021, 0x02C6, 0x2030, 0x0160, 0x2039,
    0x0152, 0, 0x017D, 0, 0, 0x2018, 0x2019, 0x201C, 0x201D, 0x2022, 0x2013, 0x2014, 0x02DC,
    0x2122, 0x0161, 0x203A, 0x0153, 0, 0x017E, 0x0178]

/-- The character that stands for what cannot be shown. -/
def replacement : Char := '\uFFFD'

/-- The character of a reference by number. -/
def numbered (n : Nat) : Char :=
  if n = 0 ∨ 0x10FFFF < n ∨ (0xD800 ≤ n ∧ n ≤ 0xDFFF) then replacement
  else if 0x80 ≤ n ∧ n ≤ 0x9F then
    match windowsCharacters[n - 0x80]? with
    | some 0 => Char.ofNat n
    | some m => Char.ofNat m
    | none => Char.ofNat n
  else Char.ofNat n

/-- Reads the digits of a number, and whether there were any. -/
def readDigits (value? : Char → Option Nat) (base : Nat) : Nat → List Char → Nat × List Char
  | n, [] => (n, [])
  | n, c :: rest =>
    match value? c with
    | some d => readDigits value? base (base * n + d) rest
    | none => (n, c :: rest)

/-- Reads a reference by number behind its mark and, for hexadecimal, its letter. -/
def readNumbered (value? : Char → Option Nat) (base : Nat) (text : List Char) :
    Option (List Char × List Char) :=
  match text with
  | [] => none
  | c :: _ =>
    if (value? c).isNone then none
    else
      let (n, rest) := readDigits value? base 0 text
      match rest with
      | ';' :: rest => some ([numbered n], rest)
      | _ => some ([numbered n], rest)

/-- Whether a text starts with a reference by number that lacks its semicolon. -/
def lacksSemicolon (text : List Char) : Bool :=
  let endsBare (value? : Char → Option Nat) (digits : List Char) : Bool :=
    (digits.dropWhile fun c => (value? c).isSome).head? != some ';'
  match text with
  | '&' :: '#' :: 'x' :: digits => endsBare hexValue? digits
  | '&' :: '#' :: 'X' :: digits => endsBare hexValue? digits
  | '&' :: '#' :: digits => endsBare decimalValue? digits
  | _ => false

/-- The rest of a text behind a beginning that it may have. -/
def afterStart? : List Char → List Char → Option (List Char)
  | [], rest => some rest
  | _ :: _, [] => none
  | c :: start, d :: rest => if c = d then afterStart? start rest else none

/-- The longest of the bare names at the start of a text, and the text behind it. -/
def longestBare (text : List Char) : Option (List Char × List Char) :=
  bareNameChars.foldl (fun best name =>
    match afterStart? name text with
    | none => best
    | some rest =>
      match best with
      | none => some (name, rest)
      | some (other, _) => if other.length < name.length then some (name, rest) else best) none

/-- Whether a bare name followed by this text is left alone inside the value of an attribute. -/
def continuesName : List Char → Bool
  | [] => false
  | c :: _ => c == '=' || c.isAlphanum

/-- Reads a reference by name behind the ampersand. -/
def readNamed (inValue : Bool) (text : List Char) : Option (List Char × List Char) :=
  let name := text.takeWhile Char.isAlphanum
  let whole :=
    match text.dropWhile Char.isAlphanum with
    | ';' :: rest => (characterNames[String.ofList name]?).map fun chars => (chars, rest)
    | _ => none
  match whole with
  | some found => some found
  | none =>
    match longestBare text with
    | none => none
    | some (name, rest) =>
      if inValue && continuesName rest then none
      else (characterNames[String.ofList name]?).map fun chars => (chars, rest)

/-- Reads a reference behind the ampersand: the characters that it stands for and the text behind
it, or nothing if there is no reference. -/
def readReference (inValue : Bool) (text : List Char) : Option (List Char × List Char) :=
  match text with
  | '#' :: 'x' :: rest => readNumbered hexValue? 16 rest
  | '#' :: 'X' :: rest => readNumbered hexValue? 16 rest
  | '#' :: rest => readNumbered decimalValue? 10 rest
  | _ => readNamed inValue text

end CellAlign.Markup

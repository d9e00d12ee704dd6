/-!
# Texts from bytes

Bytes are read as UTF-8.  Where they are no character, a replacement character stands for them: one
for the bytes that could have begun a character up to the place where they cannot go on, and at least
one byte.
-/

namespace CellAlign.Text.Utf8

/-- The character that stands for bytes that are none. -/
def replacement : Char := '\uFFFD'

/-- Whether a byte can only go on with a character. -/
def isContinuation (byte : UInt8) : Bool := 0x80 ≤ byte && byte ≤ 0xBF

/-- Whether a byte can be the second one of a character that has more than two. -/
def isSecond (first second : UInt8) : Bool :=
  if first = 0xE0 then 0xA0 ≤ second && second ≤ 0xBF
  else if first = 0xED then 0x80 ≤ second && second ≤ 0x9F
  else if first = 0xF0 then 0x90 ≤ second && second ≤ 0xBF
  else if first = 0xF4 then 0x80 ≤ second && second ≤ 0x8F
  else 0xE1 ≤ first && first ≤ 0xF3 && isContinuation second

/-- Whether a byte is the first one of a character of four. -/
def isFirstOfFour (byte : UInt8) : Bool := 0xF0 ≤ byte && byte ≤ 0xF4

/-- How many bytes at the start of a list that starts with no character stand together for one. -/
def brokenLength : List UInt8 → Nat
  | first :: second :: third :: _ =>
    if !isSecond first second then 1
    else if isFirstOfFour first && isContinuation third then 3
    else 2
  | [first, second] => if isSecond first second then 2 else 1
  | _ => 1

/-- What stands for no character is at least one byte. -/
theorem brokenLength_pos (bytes : List UInt8) : 0 < brokenLength bytes := by
  fun_cases brokenLength <;> simp [*]

/-- The bytes at a place, four of them at most. -/
def window (bytes : ByteArray) (i : Nat) : List UInt8 := (bytes.extract i (i + 4)).data.toList

/-- Reads bytes from a place on and adds the characters to a text. -/
def decodeFrom (text : String) (bytes : ByteArray) (i : Nat) : String :=
  if i < bytes.size then
    match bytes.utf8DecodeChar? i with
    | some c => decodeFrom (text.push c) bytes (i + c.utf8Size)
    | none => decodeFrom (text.push replacement) bytes (i + brokenLength (window bytes i))
  else text
termination_by bytes.size - i
decreasing_by
  · have := c.utf8Size_pos
    omega
  · have := brokenLength_pos (window bytes i)
    omega

/-- The text of bytes, with replacement characters where they are no text. -/
def decode (bytes : ByteArray) : String := decodeFrom "" bytes 0

end CellAlign.Text.Utf8

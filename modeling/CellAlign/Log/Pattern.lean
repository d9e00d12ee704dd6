import CellAlign.Json.Text
import CellAlign.Text.Alphanumeric

/-!
# Patterns and numbers in directives

A directive may ask for the value of a detail, with a number or with a pattern in the notation of
regular expressions.  No entry is ever held against such a value, since only the details of a scope
have values that are compared, and a run opens no scopes.  But a value that cannot be read spoils
its directive, so this module says which can be.

A pattern is read in one pass.  A repetition needs something in front of it, groups and sets have to
be closed, and a backslash stands before a character with a meaning of its own or before the name of
a character.  What would need a table of characters, such as the letters or the ends of words, is
not available.  The closing brace, the comma and the equals sign cannot occur in a value at all, so
a brace that opens a count is never closed.
-/

namespace CellAlign.Log

namespace Pattern

/-- What a backslash stands for with the characters behind it. -/
inductive Escape where
  | character (c : Char)
  | position

/-- The character whose code point hexadecimal digits are. -/
def ofHex? (digits : List Char) : Option Char :=
  let code? := digits.foldlM (fun n c => (Json.Text.hexDigit? c).map (16 * n + ·)) 0
  code?.bind fun code => if Nat.isValidChar code then some (Char.ofNat code) else none

/-- Reads a code point of so many digits. -/
def readHex (count : Nat) (text : List Char) : Option (Escape × List Char) :=
  if text.length < count then none
  else (ofHex? (text.take count)).map fun c => (.character c, text.drop count)

/-- Reads what is behind a backslash. -/
def readEscape : List Char → Option (Escape × List Char)
  | [] => none
  | c :: rest =>
    match c with
    | 'a' => some (.character '\x07', rest)
    | 'f' => some (.character '\x0C', rest)
    | 'n' => some (.character '\n', rest)
    | 'r' => some (.character '\r', rest)
    | 't' => some (.character '\t', rest)
    | 'v' => some (.character '\x0B', rest)
    | 'A' | 'z' => some (.position, rest)
    | 'x' => readHex 2 rest
    | 'u' => readHex 4 rest
    | 'U' => readHex 8 rest
    | _ =>
      if 128 ≤ c.toNat || c.isAlphanum || c == '<' || c == '>' then none
      else some (.character c, rest)

/-- The sets of ASCII characters with a name. -/
def setNames : List String :=
  ["alnum", "alpha", "ascii", "blank", "cntrl", "digit", "graph", "lower", "print", "punct",
    "space", "upper", "word", "xdigit"]

/-- Leaves out a named set, behind its opening bracket. -/
def afterNamedSet? : List Char → Option (List Char)
  | ':' :: text =>
    let text := if text.head? = some '^' then text.tail else text
    let name := text.takeWhile (· != ':')
    match text.dropWhile (· != ':') with
    | ':' :: ']' :: rest => if setNames.contains (String.ofList name) then some rest else none
    | _ => none
  | _ => none

/-- Reads the opening of a set, behind its bracket: a sign of negation, and the characters that
stand for themselves only here. -/
def afterOpening (text : List Char) : List Char :=
  let text := if text.head? = some '^' then text.tail else text
  match text with
  | ']' :: rest => rest
  | _ => text.dropWhile (· == '-')

/-- Reads a member of a set. -/
def readMember : List Char → Option (Char × List Char)
  | [] => none
  | '\\' :: rest =>
    match readEscape rest with
    | some (.character c, rest) => some (c, rest)
    | _ => none
  | c :: rest => some (c, rest)

/-- Reads a member of a set, or a range of them: the text behind it. -/
def afterRange? (text : List Char) : Option (List Char) :=
  match readMember text with
  | none => none
  | some (first, rest) =>
    match rest with
    | '-' :: ']' :: _ | '-' :: '-' :: _ => some rest
    | '-' :: rest =>
      match readMember rest with
      | some (last, rest) => if first ≤ last then some rest else none
      | none => none
    | _ => some rest

/-- Reads the members of a set to its end, `depth` sets being open around it.  `fuel` bounds the
steps. -/
def afterSet? : Nat → Nat → List Char → Option (List Char)
  | 0, _, _ => none
  | fuel + 1, depth, text =>
    match text with
    | [] => none
    | '[' :: rest =>
      match afterNamedSet? rest with
      | some rest => afterSet? fuel depth rest
      | none => afterSet? fuel (depth + 1) (afterOpening rest)
    | ']' :: rest =>
      match depth with
      | 0 => some rest
      | depth + 1 => afterSet? fuel depth rest
    | '&' :: '&' :: rest | '-' :: '-' :: rest | '~' :: '~' :: rest => afterSet? fuel depth rest
    | _ => (afterRange? text).bind (afterSet? fuel depth)

/-- Whether a group can have a name. -/
def isGroupName : List Char → Bool
  | [] => false
  | c :: rest =>
    (c == '_' || (Text.isAlphanumeric c && !c.isDigit)) &&
      rest.all fun d => Text.isAlphanumeric d || d == '_' || d == '.' || d == '[' || d == ']'

/-- Whether letters, with a minus sign at most before the last, switch the way of matching. -/
def areFlags (flags : List Char) : Bool :=
  flags.all (fun c => "imsUuRx-".toList.contains c) && decide flags.Nodup &&
    flags.getLast? != some '-'

/-- What stands behind the opening of a group. -/
inductive Opening where
  /-- The contents of a group, which may have a name. -/
  | group (name : Option (List Char)) (rest : List Char)
  /-- Nothing: the flags alone are in parentheses. -/
  | flags (rest : List Char)

/-- Reads the name of a group. -/
def readName (text : List Char) : Option Opening :=
  let name := text.takeWhile (· != '>')
  match text.dropWhile (· != '>') with
  | _ :: rest => if isGroupName name then some (.group (some name) rest) else none
  | [] => none

/-- Reads the opening of a group, behind its parenthesis. -/
def readOpening : List Char → Option Opening
  | '?' :: 'P' :: '<' :: text => readName text
  | '?' :: '<' :: text => readName text
  | '?' :: text =>
    let flags := text.takeWhile fun c => c != ':' && c != ')'
    if !areFlags flags then none
    else
      match text.dropWhile fun c => c != ':' && c != ')' with
      | ':' :: rest => some (.group none rest)
      | ')' :: rest => if flags.isEmpty then none else some (.flags rest)
      | _ => none
  | text => some (.group none text)

/-- Reads on inside `depth` groups, where the groups with `names` have been opened.  `repeatable`
says whether something is in front that can be repeated; `fuel` bounds the steps. -/
def isReadable : Nat → Nat → List (List Char) → Bool → List Char → Bool
  | 0, _, _, _, _ => false
  | fuel + 1, depth, names, repeatable, text =>
    match text with
    | [] => depth == 0
    | '(' :: rest =>
      match readOpening rest with
      | none => false
      | some (.flags rest) => isReadable fuel depth names false rest
      | some (.group none rest) => isReadable fuel (depth + 1) names false rest
      | some (.group (some name) rest) =>
        !names.contains name && isReadable fuel (depth + 1) (name :: names) false rest
    | ')' :: rest =>
      match depth with
      | 0 => false
      | depth + 1 => isReadable fuel depth names true rest
    | '|' :: rest => isReadable fuel depth names false rest
    | '[' :: rest =>
      match afterSet? (rest.length + 1) 0 (afterOpening rest) with
      | some rest => isReadable fuel depth names true rest
      | none => false
    | '\\' :: rest =>
      match readEscape rest with
      | some (_, rest) => isReadable fuel depth names true rest
      | none => false
    | '{' :: _ => false
    | c :: rest =>
      if c == '*' || c == '+' || c == '?' then
        let rest := if rest.head? = some '?' then rest.tail else rest
        repeatable && isReadable fuel depth names true rest
      else isReadable fuel depth names true rest

end Pattern

/-- Whether a text is a pattern. -/
def isPattern (text : List Char) : Bool := Pattern.isReadable (text.length + 1) 0 [] false text

/-- Whether a text is a number without a sign, in decimal notation or by name. -/
def isNumber (text : List Char) : Bool :=
  let lower := text.map Char.toLower
  let names := ["inf", "infinity", "nan"].map String.toList
  let isWhole := fun (digits : List Char) => !digits.isEmpty && digits.all Char.isDigit
  let base := lower.takeWhile (· != 'e')
  let whole := base.takeWhile (· != '.')
  let fraction := (base.dropWhile (· != '.')).drop 1
  let exponentFits :=
    match lower.dropWhile (· != 'e') with
    | [] => true
    | _ :: '+' :: digits | _ :: '-' :: digits | _ :: digits => isWhole digits
  names.contains lower || (isWhole (whole ++ fraction) && exponentFits)

/-- Whether a value in a directive can be read.  A plus sign can stand only before a number, where
a pattern would have nothing to repeat. -/
def isReadableValue (text : List Char) : Bool :=
  match text with
  | '+' :: rest => isNumber rest
  | _ => isPattern text

end CellAlign.Log

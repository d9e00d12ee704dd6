import CellAlign.Log.Entry
import CellAlign.Log.Pattern
import CellAlign.Text.Blank

/-!
# Directives for log entries

A directive sets a threshold for some entries.  It can ask for a target, which is the beginning of
theirs, for a scope that they are written in, and for a detail that they have, perhaps with a value.
Where several directives ask for nothing that an entry lacks, the most precise one decides, as
`Directive.le` says.

As a text a directive is `debug` for all entries, `parser=trace`, or `parser` with no limit; behind
the target, brackets enclose a scope and, in braces, a detail: `parser[{tag}]=info`.  A run opens no
scopes, so a directive that asks for one, or for a value, which is compared for scopes only, decides
on nothing.

Blanks at the ends of a text do not count when its signs are looked for.  But the positions found in
this way are used for the whole text, so blanks in front shift what is cut out of it.
-/

namespace CellAlign.Log

/-- A detail that is asked for. -/
structure Detail where
  name : String
  /-- Whether it has to have a certain value. -/
  valued : Bool
deriving DecidableEq

/-- A threshold for the entries that have what is asked for. -/
structure Directive where
  target : Option String := none
  scope : Option String := none
  detail : Option Detail := none
  threshold : Threshold := ⟨some .trace⟩
deriving DecidableEq

namespace Directive

/-- Whether a directive decides on entries at all. -/
def isActive (directive : Directive) : Bool :=
  directive.scope.isNone && !(directive.detail.any Detail.valued)

/-- Whether an entry has what a directive asks for. -/
def covers (directive : Directive) (entry : Entry) : Bool :=
  directive.isActive &&
    directive.target.all (fun start => start.toList.isPrefixOf entry.target.toList) &&
    directive.detail.all (fun detail => entry.names.contains detail.name)

/-- How much of a target a directive names, in bytes. -/
def reach (directive : Directive) : Nat :=
  match directive.target with
  | none => 0
  | some start => 1 + start.utf8ByteSize

/-- The name of the detail that a directive asks for; no detail has the empty name. -/
def detailName (directive : Directive) : String := (directive.detail.map Detail.name).getD ""

/-- Whether a directive is at most as precise as another one: it names less of the target, or as
much of it and a detail that comes no later in the order of names. -/
def le (a b : Directive) : Bool :=
  a.reach < b.reach || (a.reach == b.reach && decide (a.detailName ≤ b.detailName))

/-- Drops so many bytes at the start of a text; nothing if that would part a character. -/
def dropBytes? : Nat → List Char → Option (List Char)
  | 0, text => some text
  | _ + 1, [] => none
  | n + 1, c :: rest => if n + 1 < c.utf8Size then none else dropBytes? (n + 1 - c.utf8Size) rest

/-- The bytes of a text from one position up to another; nothing if that would part a character. -/
def cut? (text : List Char) (first last : Nat) : Option String := do
  let rest ← dropBytes? first text
  let behind ← dropBytes? (last - first) rest
  return String.ofList (rest.take (rest.length - behind.length))

/-- The number of bytes of a text. -/
def size (text : List Char) : Nat :=
  text.foldr (fun c size => c.utf8Size + size) 0

/-- Whether a text can begin with a character. -/
def canStart (c : Char) : Bool :=
  c == '-' || c == ':' || c == '_' || Text.isAlphanumeric c

/-- The detail of the text between braces. -/
def detail? (text : String) : Option Detail :=
  match text.toList.dropWhile (· != '=') with
  | [] => if text.isEmpty then none else some { name := text, valued := false }
  | _ :: rest =>
    if isReadableValue (rest.takeWhile (· != '=')) then
      some { name := String.ofList (text.toList.takeWhile (· != '=')), valued := true }
    else none

/-- The threshold behind the equals sign of a directive; nothing there sets no limit. -/
def limit? (text : String) : Option Threshold :=
  if text.isEmpty then some ⟨some .trace⟩ else Threshold.ofText? text

/-- Adds the threshold that begins at a position of the whole text. -/
def withLimit? (directive : Directive) (whole : List Char) (position : Nat) : Option Directive := do
  let rest ← dropBytes? position whole
  let threshold ← limit? (String.ofList rest)
  return { directive with threshold }

/-- Reads what is behind the brackets, from a position on. -/
def closed? (directive : Directive) (whole : List Char) (position : Nat) (text : List Char) :
    Option Directive :=
  match text with
  | [] => some directive
  | '=' :: _ => directive.withLimit? whole (position + 1)
  | _ => none

/-- Reads on inside the brackets, from a position on. -/
def scoped? (directive : Directive) (whole : List Char) (position : Nat) (text : List Char) :
    Option Directive := do
  let name := text.takeWhile fun c => c != ']' && c != '{'
  let next := position + size name
  let scope ← cut? whole position next
  match text.drop name.length with
  | ']' :: rest => closed? { directive with scope := some scope } whole (next + 1) rest
  | _ :: rest =>
    let inside := rest.takeWhile (· != '}')
    let behind := next + 1 + size inside
    let detail ← detail? (← cut? whole (next + 1) behind)
    let scope := if scope.isEmpty then none else some scope
    match rest.drop inside.length with
    | '}' :: ']' :: rest =>
      closed? { directive with scope, detail := some detail } whole (behind + 2) rest
    | _ => none
  | [] => none

/-- The directive of a text. -/
def ofText? (text : String) : Option Directive := do
  let whole := text.toList
  let shown := Text.trim Text.isBlank whole
  let name := shown.takeWhile fun c => c != '=' && c != '['
  let rest := shown.drop name.length
  if name.isEmpty then
    match rest with
    | '[' :: rest => scoped? {} whole 1 rest
    | _ => none
  else if !(name.head?.any canStart) then none
  else
    match rest with
    | [] =>
      match Threshold.ofText? text with
      | some threshold => some { threshold }
      | none => some { target := some text }
    | '[' :: rest =>
      let target ← cut? whole 0 (size name)
      scoped? { target := some target } whole (size name + 1) rest
    | _ =>
      let target ← cut? whole 0 (size name)
      withLimit? { target := some target } whole (size name + 1)

end Directive

end CellAlign.Log

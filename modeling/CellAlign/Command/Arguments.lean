import CellAlign.Command.Settings
import CellAlign.Text.Likeness

/-!
# Reading the arguments

The texts behind the command's name are read one after the other.  A text with two dashes in front
names an argument and may bring its value behind an equals sign; one dash stands before arguments of
one letter; any other text is the value of the argument before it, or the file.  Behind a text of
two dashes alone all texts are values.

A value that comes as a text of its own is looked at only when the text after it has been
understood.  So an argument that does not exist is reported before a wrong value in front of it.
-/

namespace CellAlign.Command

/-- Why reading stops: help is wanted, or something is wrong. -/
inductive Stop where
  | help
  | usage (e : UsageError)
deriving DecidableEq

/-- An argument that waits for its value, or whose value has not been looked at. -/
structure Pending where
  argument : Argument
  value : Option String

/-- What has been read: the settings so far, the arguments they come from in their order, whether
there was a text for the file, and whether all further texts are values. -/
structure Reading where
  settings : Settings := {}
  taken : List Argument := []
  pending : Option Pending := none
  hasFile : Bool := false
  valuesOnly : Bool := false

namespace Reading

/-- Takes an argument with its value. -/
def take (reading : Reading) (argument : Argument) (value : String) : Except Stop Reading :=
  if reading.taken.contains argument then .error (.usage (.repeated argument))
  else
    match reading.settings.set argument value with
    | .ok settings => .ok { reading with settings, taken := reading.taken ++ [argument] }
    | .error e => .error (.usage e)

/-- Takes the pending argument. -/
def settle (reading : Reading) : Except Stop Reading :=
  match reading.pending with
  | none => .ok reading
  | some { argument, value := none } => .error (.usage (.missingValue argument))
  | some { argument, value := some value } => { reading with pending := none }.take argument value

/-- The arguments that a usage line shows.  The pending one is among them even if its value is
wrong, but not without a value, and not at all if it had been given before. -/
def used (reading : Reading) : List Argument :=
  match reading.pending with
  | some { argument, value := some _ } =>
    if reading.taken.contains argument then reading.taken.erase argument
    else reading.taken ++ [argument]
  | _ => reading.taken

/-- Reads a name that no argument has. -/
def unknownName {α : Type} (reading : Reading) (name : String) : Except Stop α :=
  let names := Argument.named.filterMap Argument.name?
  match (Text.closest? name names).bind Argument.ofName? with
  | some argument =>
    let used := if reading.used.contains argument then reading.used else reading.used ++ [argument]
    .error (.usage (.unexpected ("--" ++ name) (.similar argument) used))
  | none => .error (.usage (.unexpected ("--" ++ name) .asValue reading.used))

/-- Reads an argument that takes no value. -/
def flag (reading : Reading) (argument : Argument) : Except Stop Reading :=
  match reading.settle with
  | .error stop => .error stop
  | .ok reading => if argument = .help then .error .help else reading.take argument ""

/-- Reads an argument by its name, with the value behind the equals sign if there is one. -/
def named (reading : Reading) (name : String) (value : Option String) : Except Stop Reading :=
  match Argument.ofName? name with
  | none => reading.unknownName name
  | some argument =>
    match argument.value?, value with
    | none, none => reading.flag argument
    | none, some value =>
      .error (.usage (.needlessValue value argument (!reading.taken.isEmpty)))
    | some _, some value =>
      match reading.settle with
      | .error stop => .error stop
      | .ok reading => reading.take argument value
    | some _, none =>
      match reading.settle with
      | .error stop => .error stop
      | .ok reading => .ok { reading with pending := some { argument, value := none } }

/-- Reads arguments of one letter. -/
def letters (reading : Reading) : List Char → Except Stop Reading
  | [] => .ok reading
  | c :: rest =>
    let argument? := if c = 'v' then some Argument.verbose else if c = 'h' then some .help else none
    match argument? with
    | none => .error (.usage (.unexpected (String.ofList ['-', c]) .asValue []))
    | some argument =>
      match reading.flag argument with
      | .error stop => .error stop
      | .ok reading => reading.letters rest

/-- Reads a text that can only be the file. -/
def plain (reading : Reading) (text : String) : Except Stop Reading :=
  if reading.hasFile then .error (.usage (.unexpected text .none []))
  else
    match reading.settle with
    | .error stop => .error stop
    | .ok reading =>
      .ok { reading with pending := some { argument := .file, value := some text }, hasFile := true }

/-- Reads a text that begins with no dash. -/
def value (reading : Reading) (text : String) : Except Stop Reading :=
  match reading.pending with
  | some { argument, value := none } =>
    .ok { reading with pending := some { argument, value := some text } }
  | _ => reading.plain text

/-- Reads a text. -/
def text (reading : Reading) (text : String) : Except Stop Reading :=
  if reading.valuesOnly then reading.plain text
  else
    match text.toList with
    | ['-', '-'] => .ok { reading with valuesOnly := true }
    | '-' :: '-' :: rest =>
      let name := String.ofList (rest.takeWhile (· != '='))
      match rest.dropWhile (· != '=') with
      | [] => reading.named name none
      | _ :: value => reading.named name (some (String.ofList value))
    | '-' :: c :: rest => reading.letters (c :: rest)
    | _ => reading.value text

/-- Reads texts in their order. -/
def texts (reading : Reading) : List String → Except Stop Reading
  | [] => .ok reading
  | text :: more =>
    match reading.text text with
    | .error stop => .error stop
    | .ok reading => reading.texts more

/-- The arguments that do not go with an argument. -/
def rival? : Argument → Option Argument
  | .fragment => some .json
  | .json => some .fragment
  | _ => none

/-- The settings at the end of the texts. -/
def finish (reading : Reading) : Except Stop Settings :=
  match reading.settle with
  | .error stop => .error stop
  | .ok reading =>
    let conflict := reading.taken.findSome? fun argument =>
      (rival? argument).bind fun rival =>
        if reading.taken.contains rival then some (argument, rival) else none
    match conflict with
    | some (argument, rival) =>
      .error (.usage (.conflict argument rival (reading.taken.filter (· ≠ rival))))
    | none => .ok reading.settings

end Reading

/-- The settings of a list of arguments. -/
def Settings.ofTexts (texts : List String) : Except Stop Settings :=
  match Reading.texts {} texts with
  | .error stop => .error stop
  | .ok reading => reading.finish

end CellAlign.Command

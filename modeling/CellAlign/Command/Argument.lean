import CellAlign.Text.Blank

/-!
# The arguments of the command

The command takes one file and a few named arguments, some of them with a value.  This module says
how each is spelled, and how the usage line shows those that matter.
-/

namespace CellAlign.Command

/-- An argument of the command. -/
inductive Argument where
  | classCenter
  | classLeft
  | classRight
  | config
  | fragment
  | file
  | json
  | method
  | verbose
  | help
deriving DecidableEq

namespace Argument

/-- The arguments that a run can be given. -/
def settings : List Argument :=
  [classCenter, classLeft, classRight, config, fragment, file, json, method, verbose]

/-- The name that stands behind two dashes; the file has none. -/
def name? : Argument → Option String
  | classCenter => some "class-center"
  | classLeft => some "class-left"
  | classRight => some "class-right"
  | config => some "config"
  | fragment => some "fragment"
  | file => none
  | json => some "json"
  | method => some "method"
  | verbose => some "verbose"
  | help => some "help"

/-- What the value of an argument is called, if it takes one. -/
def value? : Argument → Option String
  | classCenter | classLeft | classRight => some "CLASS"
  | config | file => some "FILE"
  | method => some "METHOD"
  | fragment | json | verbose | help => none

/-- The arguments with a name. -/
def named : List Argument := (settings ++ [help]).filter fun argument => argument.name?.isSome

/-- The argument of a name. -/
def ofName? (name : String) : Option Argument :=
  named.find? fun argument => argument.name? = some name

/-- An argument as messages show it. -/
def shown (argument : Argument) : String :=
  match argument.name?, argument.value? with
  | some name, some value => "--" ++ name ++ " <" ++ value ++ ">"
  | some name, none => "--" ++ name
  | none, some value => "[" ++ value ++ "]"
  | none, none => ""

/-- An argument among others, one of which is to be chosen. -/
def alternative (argument : Argument) : String :=
  match argument.name? with
  | some _ => argument.shown
  | none => argument.value?.getD ""

end Argument

/-- The usage line for a list of arguments: it shows them if there are any, and the file at the end,
in angle brackets if it is one of them. -/
def usage (arguments : List Argument) : String :=
  if arguments.isEmpty then "Usage: table-align [OPTIONS] [FILE]"
  else
    let file := if arguments.contains .file then "<FILE>" else "[FILE]"
    "Usage: table-align " ++
      Text.join " " ((arguments.filter (· ≠ .file)).map Argument.shown ++ [file])

/-- The usage line that leaves the choice among all arguments of a run, behind those listed. -/
def usageOfAny (arguments : List Argument) : String :=
  "Usage: table-align " ++
    Text.join " " (arguments.map Argument.shown ++
      ["<" ++ Text.join "|" (Argument.settings.map Argument.alternative) ++ ">"])

/-- What the command says when it is asked for help. -/
def helpText : String := Text.join "\n"
  ["Rewrite align attributes on table cells into styles or classes",
    "",
    usage [],
    "",
    "Arguments:",
    "  [FILE]  Input file, read from stdin when omitted",
    "",
    "Options:",
    "      --class-center <CLASS>  Class token for centered cells in class mode",
    "      --class-left <CLASS>    Class token for left-aligned cells in class mode",
    "      --class-right <CLASS>   Class token for right-aligned cells in class mode",
    "      --config <FILE>         JSON file with `method` and `classes` options",
    "      --fragment              Parse HTML input as a fragment instead of a document",
    "      --json                  Read and write a hast JSON tree instead of HTML",
    "      --method <METHOD>       Rewrite strategy: `style` or `class`",
    "  -v, --verbose               Log every rewritten cell to stderr",
    "  -h, --help                  Print help",
    ""]

end CellAlign.Command

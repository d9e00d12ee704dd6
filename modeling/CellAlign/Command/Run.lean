import CellAlign.Align.Pass
import CellAlign.Command.Arguments
import CellAlign.Command.World
import CellAlign.Markup.Render
import CellAlign.Tree.Encode

/-!
# Running the command

A run reads the configuration, then the input, realigns the cells of its tree and prints the tree.
It either comes to its end, with log entries and an output, or fails at the first step that cannot
be taken.  `outcome` is all that is seen of it.
-/

namespace CellAlign.Command

/-- Why a run fails. -/
inductive Failure where
  | configUnread (path : String) (fault : ReadFault)
  | configInvalid (path : String) (e : Error)
  | fileUnread (path : String) (fault : ReadFault)
  | inputUnread (fault : ReadFault)
  | treeInvalid (e : Error)

/-- An error with its cause, which the message of a JSON error already ends with. -/
def withCause : Error → String
  | .json fault => (Error.json fault).message ++ ": " ++ fault.message
  | e => e.message

/-- The message of a failure: what was tried, and why it did not work. -/
def Failure.message : Failure → String
  | configUnread path fault => "failed to read config from `" ++ path ++ "`: " ++ fault.message
  | configInvalid path e => "invalid config in `" ++ path ++ "`: " ++ withCause e
  | fileUnread path fault => "failed to read file from `" ++ path ++ "`: " ++ fault.message
  | inputUnread fault => "failed to read stdin: " ++ fault.message
  | treeInvalid e => "failed to parse hast tree: " ++ withCause e

/-- What a run leaves: its log and its output. -/
structure Report where
  log : List Log.Entry
  output : String

namespace Settings

/-- The files that a run may read. -/
def paths (settings : Settings) : List String := settings.config.toList ++ settings.file.toList

/-- The options of a run. -/
def readOptions (settings : Settings) (world : World) : Except Failure Options :=
  match settings.config with
  | none => .ok (settings.options {})
  | some path =>
    match world.fileText path with
    | .error fault => .error (.configUnread path fault)
    | .ok text =>
      match Options.ofText (some text) with
      | .error e => .error (.configInvalid path e)
      | .ok base => .ok (settings.options base)

/-- The input of a run. -/
def readInput (settings : Settings) (world : World) : Except Failure String :=
  match settings.file with
  | some path => (world.fileText path).mapError (Failure.fileUnread path)
  | none => (textOf world.input).mapError Failure.inputUnread

/-- The tree of an input. -/
def readTree (settings : Settings) (text : String) : Except Failure Node :=
  (Node.ofText settings.format text).mapError Failure.treeInvalid

/-- A tree as it is printed. -/
def render (settings : Settings) (tree : Node) : String :=
  if settings.json then tree.toJson else tree.toHtml

/-- The last entry of a log, which says how many cells were realigned. -/
def summary (count : Nat) : Log.Entry where
  level := .info
  target := "table_align::arguments"
  message := "rewrote table cell alignments"
  fields := [("rewritten", Decimal.wholeText count)]

/-- Runs with settings. -/
def execute (settings : Settings) (world : World) : Except Failure Report :=
  match settings.readOptions world with
  | .error failure => .error failure
  | .ok options =>
    match settings.readInput world with
    | .error failure => .error failure
    | .ok text =>
      match settings.readTree text with
      | .error failure => .error failure
      | .ok tree =>
        let pass := run options tree
        .ok
          { log := pass.events.map Event.entry ++ [summary pass.count]
            output := settings.render pass.tree }

end Settings

/-- What is seen of a run: its exit code and what it prints. -/
structure Outcome where
  exitCode : Nat
  output : String := ""
  errors : String := ""
deriving DecidableEq

/-- A log as it is printed. -/
def logText (filter : Log.Filter) (log : List Log.Entry) : String :=
  String.join ((log.filter filter.passes).map fun entry => entry.line ++ "\n")

/-- The outcome of a run with settings. -/
def Settings.outcome (settings : Settings) (world : World) : Outcome :=
  match settings.execute world with
  | .error failure => { exitCode := 1, errors := "error: " ++ failure.message ++ "\n" }
  | .ok report =>
    { exitCode := 0
      output := report.output ++ "\n"
      errors := logText (settings.filter world.logFilter) report.log }

/-- The outcome of the command for a list of arguments. -/
def outcome (arguments : List String) (world : World) : Outcome :=
  match Settings.ofTexts arguments with
  | .error .help => { exitCode := 0, output := helpText }
  | .error (.usage e) => { exitCode := 2, errors := e.text }
  | .ok settings => settings.outcome world

end CellAlign.Command

import CellAlign.Command.UsageError
import CellAlign.Log.Filter
import CellAlign.Source

/-!
# The settings of a run

A run is described by the arguments that were given.  The method and the three tokens may also come
from a configuration; an argument goes before the configuration, and each of the four settings is
decided on its own.
-/

namespace CellAlign.Command

/-- What the arguments of a run say. -/
structure Settings where
  classCenter : Option String := none
  classLeft : Option String := none
  classRight : Option String := none
  config : Option String := none
  fragment : Bool := false
  file : Option String := none
  json : Bool := false
  method : Option Method := none
  verbose : Bool := false
deriving DecidableEq

namespace Settings

/-- A path, which must not be empty. -/
def path (argument : Argument) (value : String) : Except UsageError String :=
  if value.isEmpty then .error (.missingValue argument) else .ok value

/-- The settings with another argument; the value of one that takes none does not matter. -/
def set (settings : Settings) (argument : Argument) (value : String) :
    Except UsageError Settings :=
  match argument with
  | .classCenter => .ok { settings with classCenter := some value }
  | .classLeft => .ok { settings with classLeft := some value }
  | .classRight => .ok { settings with classRight := some value }
  | .config => (path .config value).map fun config => { settings with config := some config }
  | .fragment => .ok { settings with fragment := true }
  | .file => (path .file value).map fun file => { settings with file := some file }
  | .json => .ok { settings with json := true }
  | .method =>
    match Method.ofName? value with
    | some method => .ok { settings with method := some method }
    | none => .error (.unknownMethod value)
  | .verbose => .ok { settings with verbose := true }
  | .help => .ok settings

/-- The form of the input. -/
def format (settings : Settings) : Format :=
  if settings.json then .json else if settings.fragment then .fragment else .document

/-- The options of a run whose configuration gives `base`. -/
def options (settings : Settings) (base : Options) : Options where
  classes :=
    { center := settings.classCenter.getD base.classes.center
      left := settings.classLeft.getD base.classes.left
      right := settings.classRight.getD base.classes.right }
  method := settings.method.getD base.method

/-- Which log entries of a run are shown: with `verbose` all but traces, otherwise what the text of
a filter says, and without a readable one only warnings and errors. -/
def filter (settings : Settings) (text : Option String) : Log.Filter :=
  if settings.verbose then Log.Filter.upTo .debug
  else (text.bind Log.Filter.ofText?).getD (Log.Filter.upTo .warn)

end Settings

end CellAlign.Command

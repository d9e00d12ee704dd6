import CellAlign.Command.Argument
import CellAlign.Source
import CellAlign.Text.Visible

/-!
# Arguments that cannot be used

What can be wrong with the arguments of the command, and how it is told: the mistake, sometimes a
tip and a usage line, and where to find help.  What is quoted from the arguments may hold control
sequences, and only the visible part of a message is printed.
-/

namespace CellAlign.Command

/-- What is suggested to someone whose argument is unknown. -/
inductive Tip where
  | none
  /-- To pass the text as a value, behind two dashes. -/
  | asValue
  /-- To use a similar argument. -/
  | similar (argument : Argument)
deriving DecidableEq

/-- What is wrong with the arguments.  `used` are the arguments for the usage line. -/
inductive UsageError where
  /-- There is no such argument. -/
  | unexpected (text : String) (tip : Tip) (used : List Argument)
  /-- There is no such method. -/
  | unknownMethod (name : String)
  /-- The value is missing or empty. -/
  | missingValue (argument : Argument)
  /-- The argument takes no value. -/
  | needlessValue (value : String) (argument : Argument) (others : Bool)
  /-- The argument has been given before. -/
  | repeated (argument : Argument)
  /-- The argument does not go with another one. -/
  | conflict (argument other : Argument) (used : List Argument)
deriving DecidableEq

/-- A piece of a message.  Pieces that stand out come between codes for the terminal, and a control
sequence that a piece leaves open ends there. -/
inductive Piece where
  | plain (text : String)
  | outstanding (text : String)
deriving DecidableEq

namespace Piece

/-- The visible part of a message whose last plain text is `before`. -/
def visibleFrom (before : String) : List Piece → String
  | [] => Text.visible before
  | plain text :: rest => visibleFrom (before ++ text) rest
  | outstanding text :: rest => Text.visible before ++ Text.visible text ++ visibleFrom "" rest

end Piece

/-- The tip for a text. -/
def Tip.message (text : String) : Tip → List Piece
  | none => []
  | asValue =>
    [.plain "\n\n  ", .outstanding "tip:", .plain " to pass '", .outstanding text,
      .plain "' as a value, use '", .outstanding ("-- " ++ text), .plain "'"]
  | similar argument =>
    [.plain "\n\n  ", .outstanding "tip:", .plain " a similar argument exists: '",
      .outstanding ("--" ++ argument.name?.getD ""), .plain "'"]

namespace UsageError

/-- What is wrong, in a sentence. -/
def message : UsageError → List Piece
  | unexpected text _ _ =>
    [.plain "unexpected argument '", .outstanding text, .plain "' found"]
  | unknownMethod name =>
    [.plain "invalid value '", .outstanding name, .plain "' for '",
      .outstanding Argument.method.shown, .plain ("': " ++ (Error.unknownMethod name).message)]
  | missingValue argument =>
    [.plain "a value is required for '", .outstanding argument.shown,
      .plain "' but none was supplied"]
  | needlessValue value argument _ =>
    [.plain "unexpected value '", .outstanding value, .plain "' for '",
      .outstanding argument.shown, .plain "' found; no more were expected"]
  | repeated argument =>
    [.plain "the argument '", .outstanding argument.shown,
      .plain "' cannot be used multiple times"]
  | conflict argument other _ =>
    [.plain "the argument '", .outstanding argument.shown, .plain "' cannot be used with '",
      .outstanding other.shown, .plain "'"]

/-- The tip that comes with an error. -/
def tip : UsageError → List Piece
  | unexpected text tip _ => tip.message text
  | _ => []

/-- The usage line that comes with an error. -/
def usage? : UsageError → Option String
  | unexpected _ _ used => some (usage used)
  | unknownMethod _ => none
  | missingValue _ => none
  | needlessValue _ argument others =>
    some (if others then usageOfAny ([argument].filter (· = .help)) else usage [argument])
  | repeated _ => some (usage [])
  | conflict _ _ used => some (usage used)

/-- The pieces of all that is printed of an error. -/
def pieces (e : UsageError) : List Piece :=
  .outstanding "error:" :: .plain " " :: e.message ++ e.tip ++
    e.usage?.toList.map (fun line => .plain ("\n\n" ++ line)) ++
    [.plain "\n\nFor more information, try '", .outstanding "--help", .plain "'.\n"]

/-- All that is printed of an error. -/
def text (e : UsageError) : String := Piece.visibleFrom "" e.pieces

end UsageError

end CellAlign.Command

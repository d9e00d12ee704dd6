import CellAlign.Align.Cell
import CellAlign.Log.Entry

/-!
# What a pass reports

A pass reports each cell it realigns, before that the fallback to a style where class mode has no
token, and at its end the number of cells.
-/

namespace CellAlign

/-- An event of a pass. -/
inductive Event where
  | fallback (alignment : String)
  | realigned (tag alignment : String) (method : Method)
  | finished (cells : Nat) (method : Method)
deriving DecidableEq

namespace Event

/-- The level of an event. -/
def level : Event → Level
  | fallback _ => .trace
  | realigned _ _ _ => .debug
  | finished _ _ => .debug

/-- What an event says. -/
def message : Event → String
  | fallback _ => "no class token for alignment, falling back to style"
  | realigned _ _ _ => "rewrote table cell alignment"
  | finished _ _ => "table alignment pass finished"

/-- The details of an event, by name. -/
def fields : Event → List (String × String)
  | fallback alignment => [("alignment", alignment)]
  | realigned tag alignment method =>
    [("tag", tag), ("alignment", alignment), ("method", method.name)]
  | finished cells method =>
    [("rewritten", Decimal.wholeText cells), ("method", method.name)]

/-- The log entry of an event. -/
def entry (event : Event) : Log.Entry where
  level := event.level
  target := "table_align::rewriter"
  message := event.message
  fields := event.fields

/-- The events of realigning a cell, in their order. -/
def ofCell (options : Options) (tag alignment : String) : List Event :=
  (if options.method = .byClass ∧ options.classes.get? alignment = none then [fallback alignment]
    else []) ++
    [realigned tag alignment options.method]

end Event

end CellAlign

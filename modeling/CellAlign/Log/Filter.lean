import CellAlign.Log.Directive

/-!
# Choosing log entries

A filter is a list of directives.  Of those that cover an entry the most precise decides, and of two
equally precise ones the later; an entry that none covers is left out.

As a text a filter is a list of directives with commas between them.  Empty directives are skipped,
but a filter without any directive lets errors through.
-/

namespace CellAlign.Log

/-- A filter for log entries. -/
structure Filter where
  directives : List Directive

namespace Filter

/-- The filter with one threshold for all entries. -/
def upTo (level : Level) : Filter := { directives := [{ threshold := ⟨some level⟩ }] }

/-- The more precise of two directives, or the second if there is no difference. -/
def prefer (known : Option Directive) (directive : Directive) : Option Directive :=
  match known with
  | none => some directive
  | some other => if other.le directive then some directive else some other

/-- The directive that decides on an entry. -/
def directive? (filter : Filter) (entry : Entry) : Option Directive :=
  (filter.directives.filter fun directive => directive.covers entry).foldl prefer none

/-- Whether a filter lets an entry through. -/
def passes (filter : Filter) (entry : Entry) : Bool :=
  match filter.directive? entry with
  | some directive => directive.threshold.allows entry.level
  | none => false

/-- The filter of a text. -/
def ofText? (text : String) : Option Filter :=
  let parts := (Text.words (· == ',') text.toList).map String.ofList
  match parts.mapM Directive.ofText? with
  | none => none
  | some [] => some (upTo .error)
  | some directives => some { directives }

end Filter

end CellAlign.Log

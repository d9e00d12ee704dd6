import CellAlign.Options.Basic
import CellAlign.Tree.Properties

/-!
# Realigning one cell

A cell is an element `td` or `th` whose properties hold an alignment that is not null.  Realigning
it takes the alignment away and says the same with a class token or with a style.  The class is
chosen in class mode for the three alignments that have tokens, the style in every other case.
-/

namespace CellAlign

/-- Whether the elements of a tag can be cells. -/
def isCellTag (tag : String) : Bool := tag == "td" || tag == "th"

namespace Properties

/-- The text of the alignment; null is no alignment. -/
def alignment? (properties : Properties) : Option String :=
  match properties.align with
  | none => none
  | some .null => none
  | some value => some value.text

/-- A style declaration for an alignment. -/
def declaration (alignment : String) : String := "text-align: " ++ alignment ++ ";"

/-- A declaration behind those of an existing style.  The existing style is trimmed, and it is closed
with a semicolon if it does not end with one; a style that is no string, or blank, counts for
nothing. -/
def mergeStyle (existing : Option PropertyValue) (alignment : String) : String :=
  match existing.bind PropertyValue.string? with
  | none => declaration alignment
  | some style =>
    let trimmed := Text.trimBlank style
    if trimmed.isEmpty then declaration alignment
    else if trimmed.toList.getLast? = some ';' then trimmed ++ " " ++ declaration alignment
    else trimmed ++ "; " ++ declaration alignment

/-- The token that an alignment becomes: in class mode that of its name, otherwise none. -/
def token? (options : Options) (alignment : String) : Option String :=
  match options.method with
  | .byClass => options.classes.get? alignment
  | .byStyle => none

/-- The properties of a cell with the alignment `alignment`, said by a class or by a style instead. -/
def restate (options : Options) (properties : Properties) (alignment : String) : Properties :=
  match token? options alignment with
  | some token => { properties with className := properties.className.push token, align := none }
  | none =>
    { properties with
      style := some (.string (mergeStyle properties.style alignment)), align := none }

/-- The alignment of an element, if it is a cell. -/
def cellAlignment? (tag : String) (properties : Option Properties) : Option String :=
  if isCellTag tag then properties.bind alignment? else none

/-- The properties of an element once it is realigned, which only changes cells. -/
def realign (options : Options) (tag : String) (properties : Option Properties) :
    Option Properties :=
  match cellAlignment? tag properties with
  | some alignment => properties.map fun p => p.restate options alignment
  | none => properties

end Properties

end CellAlign

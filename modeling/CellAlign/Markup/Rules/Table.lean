import CellAlign.Markup.Rules.Body

/-!
# Rules inside tables

A table is read part by part: captions, column groups, groups of rows, rows and cells, each with a
mode of its own.  A token that belongs to another part closes the present one and is taken again;
parts that no tag stands for are opened.  What belongs into no part is put in front of the table.
-/

namespace CellAlign.Markup.Rule

open Build

/-- Applies the rule of the body with new nodes put in front of the table. -/
def foster (token : Token) : Rule := do
  modify fun b => { b with fostering := true }
  let next ← inBody token
  modify fun b => { b with fostering := false }
  return next

/-- Text inside a table is collected first, since all of it is moved if any of it is more than
white space. -/
def tableText (token : Token) : Rule := do
  let b ← get
  if b.opened.currentIn NameSet.fosterTarget then
    set { b with returnMode := b.mode, mode := .inTableText, tableText := [] }
    return some token
  else foster token

/-- Whether a token is text that is more than white space. -/
def isVisible : Token → Bool
  | .text _ => true
  | _ => false

/-- Puts collected text in front of the table. -/
def fosterAll : List Token → Build Unit
  | [] => return
  | token :: more => do
    let _ ← foster token
    fosterAll more

/-- Adds collected white space where it stands. -/
def addSpaces : List Token → Build Unit
  | [] => return
  | .space run :: more => do
    addText run
    addSpaces more
  | _ :: more => addSpaces more

/-- Collecting text inside a table. -/
def inTableText (token : Token) : Rule := do
  match token with
  | .zero => done
  | .space _ => do
    modify fun b => { b with tableText := token :: b.tableText }
    done
  | .text _ => do
    modify fun b => { b with tableText := token :: b.tableText }
    done
  | token => do
    let b ← get
    let collected := b.tableText.reverse
    set { b with tableText := [] }
    if collected.any isVisible then fosterAll collected else addSpaces collected
    again b.returnMode token

/-- The end tags that mean nothing directly inside a table. -/
def strayTableEnds : List String :=
  ["body", "caption", "col", "colgroup", "html", "tbody", "td", "tfoot", "th", "thead", "tr"]

/-- Opens a part of a table in a mode, at the level of the table. -/
def openPart (tag : Tag) (mode : Mode) : Build Unit := do
  onOpened (·.closeTo NameSet.tableScope)
  openFor tag
  setMode mode

/-- Opens a part of a table that no tag stands for, and takes the token again inside it. -/
def implyPart (name : String) (mode : Mode) (token : Token) : Rule := do
  openPart { name } mode
  return some token

/-- The rule of a start tag directly inside a table. -/
def tableStart (tag : Tag) : Rule := do
  let name := tag.name
  let token := Token.startTag tag
  if name = "caption" then
    onOpened (·.closeTo NameSet.tableScope)
    pushMark
    openFor tag
    again' .inCaption
  else if name = "colgroup" then
    openPart tag .inColumnGroup
    done
  else if name = "col" then implyPart "colgroup" .inColumnGroup token
  else if name = "tbody" || name = "tfoot" || name = "thead" then
    openPart tag .inTableBody
    done
  else if name = "td" || name = "th" || name = "tr" then implyPart "tbody" .inTableBody token
  else if name = "table" then
    if (← get).opened.hasInScope NameSet.tableScope "table" then
      closeNamed "table"
      resetMode
      return some token
    else done
  else if name = "style" || name = "script" || name = "template" then
    headTag tag
    done
  else if name = "input" && isHidden tag then
    addFor tag
    done
  else if name = "form" then
    let b ← get
    if !b.opened.has "template" && b.form.isNone then
      let e ← addElement (.html name) (plainAttributes tag)
      modify fun b => { b with form := some e.id }
    done
  else foster token
where
  /-- Goes to a mode with nothing left to do. -/
  again' (mode : Mode) : Rule := do
    setMode mode
    done

/-- Directly inside a table. -/
def inTable (token : Token) : Rule :=
  match token with
  | .space _ => tableText token
  | .text _ => tableText token
  | .zero => tableText token
  | .comment text => do
    addComment text
    done
  | .startTag tag => tableStart tag
  | .endTag name => do
    if name = "table" then
      if (← get).opened.hasInScope NameSet.tableScope "table" then
        closeNamed "table"
        resetMode
      done
    else if strayTableEnds.contains name then done
    else if name = "template" then
      closeTemplate
      done
    else foster token
  | .finish => inBody token
  | token => foster token

/-- The start tags of the parts of a table. -/
def partTags : List String :=
  ["caption", "col", "colgroup", "tbody", "td", "tfoot", "th", "thead", "tr"]

/-- Closes a caption, and answers whether one was open. -/
def closeCaption : Build Bool := do
  if ← closeInScope NameSet.tableScope "caption" then
    clearToMark
    setMode .inTable
    return true
  else return false

/-- Inside a caption. -/
def inCaption (token : Token) : Rule :=
  match token with
  | .startTag tag =>
    if partTags.contains tag.name then do
      return if ← closeCaption then some token else none
    else inBody token
  | .endTag name =>
    if name = "caption" then do
      let _ ← closeCaption
      done
    else if name = "table" then do
      return if ← closeCaption then some token else none
    else if strayTableEnds.contains name then done
    else inBody token
  | token => inBody token

/-- Inside a column group. -/
def inColumnGroup (token : Token) : Rule :=
  let leave : Rule := do
    if (← get).opened.currentIs "colgroup" then
      close
      again .inTable token
    else done
  match token with
  | .space run => do
    addText run
    done
  | .comment text => do
    addComment text
    done
  | .startTag tag =>
    if tag.name = "html" then do
      mergeRoot tag
      done
    else if tag.name = "col" then do
      addFor tag
      done
    else if tag.name = "template" then do
      headTag tag
      done
    else leave
  | .endTag name => do
    if name = "colgroup" then
      if (← get).opened.currentIs "colgroup" then
        close
        setMode .inTable
      done
    else if name = "col" then done
    else if name = "template" then
      closeTemplate
      done
    else leave
  | .finish => inBody token
  | _ => leave

/-- Leaves a group of rows. -/
def leaveBody : Build Unit := do
  onOpened (·.closeTo NameSet.bodyContext)
  close
  setMode .inTable

/-- Inside a group of rows. -/
def inTableBody (token : Token) : Rule :=
  let leave : Rule := do
    if (← get).opened.inScope NameSet.tableScope
        fun e => e.name.isHtmlIn ["table", "tbody", "tfoot"] then
      leaveBody
      return some token
    else done
  match token with
  | .startTag tag =>
    if tag.name = "tr" then do
      onOpened (·.closeTo NameSet.bodyContext)
      openFor tag
      setMode .inRow
      done
    else if tag.name = "td" || tag.name = "th" then do
      onOpened (·.closeTo NameSet.bodyContext)
      openFor { name := "tr" }
      again .inRow token
    else if ["caption", "col", "colgroup", "tbody", "tfoot", "thead"].contains tag.name then leave
    else inTable token
  | .endTag name => do
    if name = "tbody" || name = "tfoot" || name = "thead" then
      if (← get).opened.hasInScope NameSet.tableScope name then leaveBody
      done
    else if name = "table" then leave
    else if strayTableEnds.contains name then done
    else inTable token
  | token => inTable token

/-- Leaves a row. -/
def leaveRow : Build Unit := do
  onOpened (·.closeTo NameSet.rowContext)
  close
  setMode .inTableBody

/-- Inside a row. -/
def inRow (token : Token) : Rule :=
  let leave : Rule := do
    if (← get).opened.hasInScope NameSet.tableScope "tr" then
      leaveRow
      return some token
    else done
  match token with
  | .startTag tag =>
    if tag.name = "td" || tag.name = "th" then do
      onOpened (·.closeTo NameSet.rowContext)
      openFor tag
      setMode .inCell
      pushMark
      done
    else if partTags.contains tag.name then leave
    else inTable token
  | .endTag name => do
    if name = "tr" then
      if (← get).opened.hasInScope NameSet.tableScope "tr" then leaveRow
      done
    else if name = "table" then leave
    else if name = "tbody" || name = "tfoot" || name = "thead" then
      if (← get).opened.hasInScope NameSet.tableScope name then leave else done
    else if strayTableEnds.contains name then done
    else inTable token
  | token => inTable token

/-- Closes the cell that is open. -/
def closeCell : Build Unit := do
  closeImplied
  onOpened (·.closeThrough NameSet.cell)
  clearToMark
  setMode .inRow

/-- Inside a cell. -/
def inCell (token : Token) : Rule :=
  match token with
  | .startTag tag =>
    if partTags.contains tag.name then do
      if (← get).opened.inScope NameSet.tableScope fun e => NameSet.cell e.name then
        closeCell
        return some token
      else done
    else inBody token
  | .endTag name => do
    if name = "td" || name = "th" then
      if ← closeInScope NameSet.tableScope name then
        clearToMark
        setMode .inRow
      done
    else if ["body", "caption", "col", "colgroup", "html"].contains name then done
    else if ["table", "tbody", "tfoot", "thead", "tr"].contains name then
      if (← get).opened.hasInScope NameSet.tableScope name then
        closeCell
        return some token
      else done
    else inBody token
  | token => inBody token

end CellAlign.Markup.Rule

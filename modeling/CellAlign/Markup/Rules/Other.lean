import CellAlign.Markup.Rules.Table

/-!
# Rules inside selects, templates and framesets, and behind the body

A select holds options and little else.  A template takes the mode of the first thing found in it.
Behind the body only white space and comments are in place; anything else goes back into it.
-/

namespace CellAlign.Markup.Rule

open Build

/-- Closes the select that is open and goes to the mode of what is around it. -/
def closeSelect : Build Unit := do
  closeNamed "select"
  resetMode

/-- Closes an option and then a group of options, if they are current. -/
def closeOptions : Build Unit := do
  if (← get).opened.currentIs "option" then close
  if (← get).opened.currentIs "optgroup" then close

/-- Inside a select. -/
def inSelect (token : Token) : Rule :=
  match token with
  | .space run => do
    addText run
    done
  | .text run => do
    addText run
    done
  | .comment text => do
    addComment text
    done
  | .startTag tag => do
    let name := tag.name
    if name = "html" then mergeRoot tag
    else if name = "option" then
      if (← get).opened.currentIs "option" then close
      openFor tag
    else if name = "optgroup" then
      closeOptions
      openFor tag
    else if name = "hr" then
      closeOptions
      addFor tag
    else if name = "select" then
      if (← get).opened.hasInScope NameSet.selectScope "select" then closeSelect
    else if name = "input" || name = "keygen" || name = "textarea" then
      if (← get).opened.hasInScope NameSet.selectScope "select" then
        closeSelect
        return some token
    else if name = "script" || name = "template" then headTag tag
    done
  | .endTag name => do
    if name = "optgroup" then
      match (← get).opened with
      | option :: group :: _ =>
        if option.name.isHtml "option" && group.name.isHtml "optgroup" then close
      | _ => pure ()
      if (← get).opened.currentIs "optgroup" then close
    else if name = "option" then
      if (← get).opened.currentIs "option" then close
    else if name = "select" then
      if (← get).opened.hasInScope NameSet.selectScope "select" then closeSelect
    else if name = "template" then closeTemplate
    done
  | .finish => inBody token
  | _ => done

/-- The parts of a table that end a select inside it. -/
def selectBreakers : List String :=
  ["caption", "table", "tbody", "tfoot", "thead", "tr", "td", "th"]

/-- Inside a select in a table. -/
def inSelectInTable (token : Token) : Rule :=
  match token with
  | .startTag tag =>
    if selectBreakers.contains tag.name then do
      closeSelect
      return some token
    else inSelect token
  | .endTag name => do
    if selectBreakers.contains name then
      if (← get).opened.hasInScope NameSet.tableScope name then
        closeSelect
        return some token
      else done
    else inSelect token
  | token => inSelect token

/-- Takes a token again in a template that is in another mode from now on. -/
def settleTemplate (mode : Mode) (token : Token) : Rule := do
  modify fun b => { b with templateModes := mode :: b.templateModes.drop 1 }
  again mode token

/-- Inside a template of which nothing has been seen. -/
def inTemplate (token : Token) : Rule :=
  match token with
  | .space _ => inBody token
  | .text _ => inBody token
  | .comment _ => inBody token
  | .startTag tag =>
    let name := tag.name
    if headTags.contains name then do
      headTag tag
      done
    else if ["caption", "colgroup", "tbody", "tfoot", "thead"].contains name then
      settleTemplate .inTable token
    else if name = "col" then settleTemplate .inColumnGroup token
    else if name = "tr" then settleTemplate .inTableBody token
    else if name = "td" || name = "th" then settleTemplate .inRow token
    else settleTemplate .inBody token
  | .endTag name => do
    if name = "template" then closeTemplate
    done
  | .finish => finishTemplate
  | _ => done

/-- Adds a comment to the root element. -/
def addCommentToRoot (text : String) : Build Unit := do
  match (← get).opened.getLast? with
  | some root => addCommentTo root.id text
  | none => return

/-- Behind the body. -/
def afterBody (token : Token) : Rule :=
  match token with
  | .space _ => inBody token
  | .comment text => do
    addCommentToRoot text
    done
  | .startTag tag =>
    if tag.name = "html" then do
      mergeRoot tag
      done
    else again .inBody token
  | .endTag name => do
    if name = "html" then
      if !(← get).isFragment then setMode .afterAfterBody
      done
    else again .inBody token
  | .finish => done
  | _ => again .inBody token

/-- Inside a frameset. -/
def inFrameset (token : Token) : Rule :=
  match token with
  | .space run => do
    addText run
    done
  | .comment text => do
    addComment text
    done
  | .startTag tag => do
    let name := tag.name
    if name = "html" then mergeRoot tag
    else if name = "frameset" then openFor tag
    else if name = "frame" then addFor tag
    else if name = "noframes" then headTag tag
    done
  | .endTag name => do
    if name = "frameset" then
      if 1 < (← get).opened.length then
        close
        let b ← get
        if !b.isFragment && !b.opened.currentIs "frameset" then setMode .afterFrameset
    done
  | _ => done

/-- Behind a frameset. -/
def afterFrameset (token : Token) : Rule :=
  match token with
  | .space run => do
    addText run
    done
  | .comment text => do
    addComment text
    done
  | .startTag tag => do
    if tag.name = "html" then mergeRoot tag
    else if tag.name = "noframes" then headTag tag
    done
  | .endTag name => do
    if name = "html" then setMode .afterAfterFrameset
    done
  | _ => done

/-- Behind the end of a document with a body. -/
def afterAfterBody (token : Token) : Rule :=
  match token with
  | .space _ => inBody token
  | .comment text => do
    addCommentTo (← get).document text
    done
  | .startTag tag =>
    if tag.name = "html" then do
      mergeRoot tag
      done
    else again .inBody token
  | .finish => done
  | _ => again .inBody token

/-- Behind the end of a document with a frameset. -/
def afterAfterFrameset (token : Token) : Rule :=
  match token with
  | .space _ => inBody token
  | .comment text => do
    addCommentTo (← get).document text
    done
  | .startTag tag => do
    if tag.name = "html" then mergeRoot tag
    else if tag.name = "noframes" then headTag tag
    done
  | _ => done

end CellAlign.Markup.Rule

import CellAlign.Align.Pass
import CellAlign.Markup.Render
import CellAlign.Source
import CellAlign.Tree.Encode
import CellAlign.Tree.Node

/-!
# Editing sessions

A session holds a tree and a saved one.  Steps load a tree, realign its cells, look at it and change
it at a place.  Texts that a step brings are read before its place is looked up, and a step that
fails changes nothing.
-/

namespace CellAlign.Session

/-- What a step can fail of. -/
inductive Failure where
  | text (error : Error)
  | options (error : Error)
  | noNode
  | leaf
  | notElement

/-- What is seen of a node: its kind, the kinds of its children if it can have any, its properties
if it is an element, and its text if it is a text or a comment. -/
structure View where
  kind : String
  children : Option (List String)
  properties : Option (Option Properties) := none
  value : Option String := none

/-- The kind of a node as it is shown. -/
def kindOf : Node → String
  | .root _ => "root"
  | .element tag _ _ => "element:" ++ tag
  | .text _ => "text"
  | .comment _ => "comment"
  | .doctype => "doctype"

/-- What is seen of a node. -/
def View.of (node : Node) : View :=
  let view : View := { kind := kindOf node, children := node.children?.map (·.map kindOf) }
  match node with
  | .element _ properties _ => { view with properties := some properties }
  | .text value => { view with value := some value }
  | .comment value => { view with value := some value }
  | _ => view

/-- The steps of a session. -/
inductive Step where
  | load (format : Format) (text : String)
  | run (options : Option String)
  | transform (options : Option String)
  | json
  | html
  | htmlAt (path : List Nat)
  | stats
  | get (path : List Nat)
  | push (path : List Nat) (format : Format) (text : String)
  | pushText (path : List Nat) (value : String)
  | truncate (path : List Nat) (length : Nat)
  | wrap (tag : String) (times : Nat)
  | wrapRoot
  | setProperties (path : List Nat) (text : String)
  | pushClass (path : List Nat) (token : String)
  | save
  | restore
  | same
  | equals (format : Format) (text : String)

/-- What steps answer. -/
inductive Answer where
  | done
  | realigned (count : Nat)
  | options (options : Options)
  | json (text : String)
  | html (text : String)
  | stats (nodes htmlBytes : Nat)
  | view (view : View)
  | children (count : Nat)
  | className (class_ : ClassName)
  | same (equal : Bool)

/-- The trees of a session. -/
structure State where
  tree : Node := .root []
  saved : Node := .root []

/-- Puts a tree into new elements without properties, one inside the other. -/
def wrapTimes (tag : String) : Nat → Node → Node
  | 0, node => node
  | times + 1, node => wrapTimes tag times (.element tag none [node])

/-- Changes the children of a node, and answers how many there are then. -/
def changeChildren (change : List Node → List Node) (node : Node) :
    Except Failure (Answer × Node) :=
  match node.children? with
  | none => .error .leaf
  | some children =>
    let children := change children
    .ok (.children children.length, node.withChildren children)

/-- Gives an element other properties. -/
def replaceProperties (properties : Properties) (node : Node) : Except Failure (Answer × Node) :=
  match node with
  | .element tag _ children => .ok (.done, .element tag (some properties) children)
  | _ => .error .notElement

/-- Appends a class token to an element, which gets properties if it has none. -/
def appendClass (token : String) (node : Node) : Except Failure (Answer × Node) :=
  match node with
  | .element tag properties children =>
    let properties := properties.getD {}
    let className := properties.className.push token
    .ok (.className className, .element tag (some { properties with className }) children)
  | _ => .error .notElement

/-- Changes the node at a place of the tree. -/
def State.change (state : State) (path : List Nat) (change : Node → Except Failure (Answer × Node)) :
    Except Failure (Answer × State) :=
  (Node.changeAt .noNode change state.tree path).map fun (answer, tree) =>
    (answer, { state with tree })

/-- Looks at the node at a place of the tree. -/
def State.look (state : State) (path : List Nat) (look : Node → Answer) :
    Except Failure (Answer × State) :=
  match state.tree.at? path with
  | some node => .ok (look node, state)
  | none => .error .noNode

/-- The tree that a step brings. -/
def readTree (format : Format) (text : String) : Except Failure Node :=
  match Node.ofText format text with
  | .ok node => .ok node
  | .error e => .error (.text e)

/-- The options that a step brings. -/
def readOptions (text : Option String) : Except Failure Options :=
  match Options.ofText text with
  | .ok options => .ok options
  | .error e => .error (.options e)

/-- The properties that a step brings. -/
def readProperties (text : String) : Except Failure Properties :=
  match Properties.ofJson text with
  | .ok properties => .ok properties
  | .error fault => .error (.text (.json fault))

/-- Takes a step: its answer and the trees after it. -/
def State.step (state : State) : Step → Except Failure (Answer × State)
  | .load format text => do
    let tree ← readTree format text
    return (.done, { state with tree })
  | .run options => do
    let pass := CellAlign.run (← readOptions options) state.tree
    return (.realigned pass.count, { state with tree := pass.tree })
  | .transform options => do
    let options ← readOptions options
    return (.options options, { state with tree := CellAlign.transform options state.tree })
  | .json => .ok (.json state.tree.toJson, state)
  | .html => .ok (.html state.tree.toHtml, state)
  | .htmlAt path => state.look path fun node => .html node.toHtml
  | .stats => .ok (.stats state.tree.count state.tree.toHtml.utf8ByteSize, state)
  | .get path => state.look path fun node => .view (View.of node)
  | .push path format text => do
    let node ← readTree format text
    state.change path (changeChildren (· ++ [node]))
  | .pushText path value => state.change path (changeChildren (· ++ [.text value]))
  | .truncate path length => state.change path (changeChildren (·.take length))
  | .wrap tag times => .ok (.done, { state with tree := wrapTimes tag times state.tree })
  | .wrapRoot => .ok (.done, { state with tree := .root [state.tree] })
  | .setProperties path text => do
    let properties ← readProperties text
    state.change path (replaceProperties properties)
  | .pushClass path token => state.change path (appendClass token)
  | .save => .ok (.done, { state with saved := state.tree })
  | .restore => .ok (.done, { state with tree := state.saved })
  | .same => .ok (.same (state.tree.same state.saved), state)
  | .equals format text => do
    let other ← readTree format text
    return (.same (state.tree.same other), state)

end CellAlign.Session

import CellAlign.Align.Event
import CellAlign.Tree.Node

/-!
# Realigning the cells of a tree

A pass visits every node in document order and realigns the cells.  It walks with a stack of the
nodes that are open, so that the depth of a tree is no concern: a frame holds what is known of an
open node, its finished children and the siblings still to come.

* `Walk.step?` is a step of the walk, `Walk.finish` takes steps to the end;
* `Node.realign` does the same by recursion over the tree, without the reports;
* `Node.cells` lists the cells in document order with their alignments;
* `Node.realignEach?` realigns the elements at some places, in any order and more than once.
-/

namespace CellAlign

/-- A root or an element without its children. -/
inductive Head where
  | root
  | element (tag : String) (properties : Option Properties)

namespace Head

/-- The node with the given children. -/
def close : Head → List Node → Node
  | root, children => .root children
  | element tag properties, children => .element tag properties children

/-- The tag and the alignment of a cell. -/
def cell? : Head → Option (String × String)
  | root => none
  | element tag properties =>
    (Properties.cellAlignment? tag properties).map fun alignment => (tag, alignment)

/-- What is left of a cell once it is realigned; nothing else changes. -/
def realign (options : Options) : Head → Head
  | root => root
  | element tag properties => element tag (Properties.realign options tag properties)

end Head

/-- The node without its children, if it can have any. -/
def Node.head? : Node → Option Head
  | root _ => some .root
  | element tag properties _ => some (.element tag properties)
  | _ => none

/-- An open node: its head, the siblings before it, last first, and those behind it. -/
structure Frame where
  head : Head
  before : List Node
  behind : List Node

/-- What a pass has reported: its events, last first, and the number of cells. -/
structure Tally where
  events : List Event := []
  cells : Nat := 0

/-- The tally after a visit. -/
def Tally.visit (tally : Tally) (options : Options) (head : Head) : Tally :=
  match head.cell? with
  | some (tag, alignment) =>
    { events := (Event.ofCell options tag alignment).reverse ++ tally.events
      cells := tally.cells + 1 }
  | none => tally

/-- A walk under way: what it has reported, the open nodes, innermost first, the finished siblings at
the place reached, last first, and the siblings still to come. -/
structure Walk where
  tally : Tally
  frames : List Frame
  finished : List Node
  todo : List Node

namespace Walk

/-- A walk before its first step. -/
def start (tree : Node) : Walk := { tally := {}, frames := [], finished := [], todo := [tree] }

/-- A step of a walk: the next sibling is visited, or the innermost open node is closed if there is
none.  A walk without open nodes and without siblings to come is at its end. -/
def step? (options : Options) (walk : Walk) : Option Walk :=
  match walk.todo with
  | [] =>
    match walk.frames with
    | [] => none
    | frame :: frames =>
      some
        { tally := walk.tally
          frames
          finished := frame.head.close walk.finished.reverse :: frame.before
          todo := frame.behind }
  | node :: todo =>
    match node.head? with
    | some head =>
      let frame := { head := head.realign options, before := walk.finished, behind := todo }
      some
        { tally := walk.tally.visit options head
          frames := frame :: walk.frames
          finished := []
          todo := node.children?.getD [] }
    | none => some { walk with finished := node :: walk.finished, todo }

/-- How much is left to do. -/
def work (walk : Walk) : Nat :=
  walk.frames.foldr (fun frame work => 1 + 2 * Node.sizeList frame.behind + work) 0 +
    2 * Node.sizeList walk.todo

/-- A step leaves less to do. -/
theorem step?_work {options : Options} {walk next : Walk}
    (h : walk.step? options = some next) : next.work < walk.work := by
  unfold step? at h
  split at h
  next htodo =>
    split at h
    next => cases h
    next hframes =>
      cases h
      simp [work, htodo, hframes, Node.sizeList]
      omega
  next node todo htodo =>
    have hsize := Node.size_eq node
    split at h
    all_goals
      cases h
      simp [work, htodo, Node.sizeList]
      omega

/-- Walks to the end. -/
def finish (options : Options) (walk : Walk) : Walk :=
  match _h : walk.step? options with
  | none => walk
  | some next => next.finish options
termination_by walk.work
decreasing_by exact step?_work _h

end Walk

/-- The result of a pass: the tree it leaves, how many cells it has realigned, and its events. -/
structure Pass where
  tree : Node
  count : Nat
  events : List Event

/-- Realigns the cells of a tree. -/
def run (options : Options) (tree : Node) : Pass :=
  let walk := (Walk.start tree).finish options
  { tree := walk.finished.headD tree
    count := walk.tally.cells
    events := (Event.finished walk.tally.cells options.method :: walk.tally.events).reverse }

/-- The tree that a pass leaves. -/
def transform (options : Options) (tree : Node) : Node := (run options tree).tree

namespace Node

mutual

/-- The tree with its cells realigned. -/
def realign (options : Options) : Node → Node
  | .root children => .root (realignList options children)
  | .element tag properties children =>
    .element tag (Properties.realign options tag properties) (realignList options children)
  | .text value => .text value
  | .comment value => .comment value
  | .doctype => .doctype

/-- The trees of a list with their cells realigned. -/
def realignList (options : Options) : List Node → List Node
  | [] => []
  | node :: nodes => node.realign options :: realignList options nodes

end

/-- The tag and the alignment of a cell. -/
def cell? (node : Node) : Option (String × String) := node.head?.bind Head.cell?

mutual

/-- The cells of a tree in document order, each with its tag and its alignment. -/
def cells : Node → List (String × String)
  | .root children => cellsList children
  | .element tag properties children =>
    (cell? (.element tag properties children)).toList ++ cellsList children
  | _ => []

/-- The cells of the trees of a list. -/
def cellsList : List Node → List (String × String)
  | [] => []
  | node :: nodes => node.cells ++ cellsList nodes

end

/-! ## Places

Realigning takes alignments away and changes nothing else, so a place stays the place of the same
element. -/

/-- Realigns an element, and answers whether it was a cell; nothing if the node is no element. -/
def realignElement (options : Options) (node : Node) : Except Unit (Bool × Node) :=
  match node with
  | .element tag properties children =>
    .ok ((Properties.cellAlignment? tag properties).isSome,
      .element tag (Properties.realign options tag properties) children)
  | _ => .error ()

/-- Realigns the element at a place, and answers whether it was a cell; nothing if there is no
element at the place. -/
def realignAt? (options : Options) (node : Node) (path : List Nat) : Option (Bool × Node) :=
  (changeAt () (realignElement options) node path).toOption

/-- Realigns the elements at some places one after the other, and answers how many cells there were
on the way; nothing if one of the places is not that of an element. -/
def realignEach? (options : Options) (node : Node) : List (List Nat) → Option (Nat × Node)
  | [] => some (0, node)
  | path :: paths =>
    match node.realignAt? options path with
    | none => none
    | some (isCell, node) =>
      match node.realignEach? options paths with
      | none => none
      | some (count, node) => some ((if isCell then count + 1 else count), node)

end Node

end CellAlign

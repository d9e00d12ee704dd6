import CellAlign.Tree.Properties

/-!
# Document trees

A tree is made of roots, elements, texts, comments and document type marks.  Roots and elements have
children; a root may also stand inside the tree.  An element without properties is not the same as
one whose properties are empty.
-/

namespace CellAlign

/-- A node of a document tree. -/
inductive Node where
  | root (children : List Node)
  | element (tag : String) (properties : Option Properties) (children : List Node)
  | text (value : String)
  | comment (value : String)
  | doctype

namespace Node

/-- The children of a root or an element; other nodes cannot have any. -/
def children? : Node → Option (List Node)
  | root children => some children
  | element _ _ children => some children
  | _ => none

/-- The same node with other children; a node that cannot have children stays as it is. -/
def withChildren (children : List Node) : Node → Node
  | root _ => root children
  | element tag properties _ => element tag properties children
  | node => node

/-- Equality of optional properties: none at all differs from an empty set of them. -/
def sameProperties : Option Properties → Option Properties → Bool
  | none, none => true
  | some a, some b => a.same b
  | _, _ => false

mutual

/-- Equality of trees. -/
def same : Node → Node → Bool
  | .root a, .root b => sameList a b
  | .element tag a as, .element tag' b bs =>
    tag == tag' && sameProperties a b && sameList as bs
  | .text a, .text b => a == b
  | .comment a, .comment b => a == b
  | .doctype, .doctype => true
  | _, _ => false

/-- Equality of lists of trees. -/
def sameList : List Node → List Node → Bool
  | [], [] => true
  | a :: as, b :: bs => a.same b && sameList as bs
  | _, _ => false

end

mutual

/-- How many nodes a tree has, its top included. -/
def size : Node → Nat
  | .root children => 1 + sizeList children
  | .element _ _ children => 1 + sizeList children
  | _ => 1

/-- How many nodes the trees of a list have. -/
def sizeList : List Node → Nat
  | [] => 0
  | node :: nodes => node.size + sizeList nodes

end

/-- The trees of two lists together. -/
@[simp]
theorem sizeList_append (a b : List Node) : sizeList (a ++ b) = sizeList a + sizeList b := by
  induction a with
  | nil => simp [sizeList]
  | cons node nodes ih => simp [sizeList, ih, Nat.add_assoc]

/-- A tree is its top and what is below. -/
theorem size_eq (node : Node) : node.size = 1 + sizeList (node.children?.getD []) := by
  cases node <;> simp [size, children?, sizeList]

/-- Counts the nodes of pending trees on top of those counted already.  The trees are kept on a
list, so that deep trees need no deep recursion. -/
def countFrom (total : Nat) : List Node → Nat
  | [] => total
  | node :: pending => countFrom (total + 1) (node.children?.getD [] ++ pending)
termination_by pending => sizeList pending
decreasing_by simp [sizeList, size_eq node]

/-- How many nodes a tree has. -/
def count (node : Node) : Nat := countFrom 0 [node]

/-- The count from a list of pending trees is the sum of their sizes. -/
theorem countFrom_eq (total : Nat) (pending : List Node) :
    countFrom total pending = total + sizeList pending := by
  fun_induction countFrom total pending with
  | case1 => simp [sizeList]
  | case2 total node pending ih =>
    rw [ih, sizeList_append, sizeList, size_eq node]
    omega

/-! ## Places -/

/-- The node at a place. -/
def at? (node : Node) : List Nat → Option Node
  | [] => some node
  | i :: path =>
    match (node.children?.getD [])[i]? with
    | some child => child.at? path
    | none => none

/-- Changes the node at a place, and answers what the change answers; `missing` is the answer if
there is no such node. -/
def changeAt {ε α : Type} (missing : ε) (change : Node → Except ε (α × Node)) (node : Node) :
    List Nat → Except ε (α × Node)
  | [] => change node
  | i :: path =>
    let children := node.children?.getD []
    match children[i]? with
    | none => .error missing
    | some child =>
      match changeAt missing change child path with
      | .ok (answer, child) => .ok (answer, node.withChildren (children.set i child))
      | .error e => .error e

end Node

end CellAlign

import CellAlign.Markup.Name
import CellAlign.Tree.Node

/-!
# Parsed markup

Parsed markup is a tree of items: elements, texts, comments and the like, and fragments, which hold
what belongs to an element without being its children.  It becomes a document tree by walking
through it: the walk is a list of edges, each item opened and closed once, and the conversion plays
the edges back onto a stack of open elements and a stack of levels of finished siblings.

* `Tree.convert` is the conversion by recursion over the tree.
-/

namespace CellAlign.Markup

/-- What stands at a node of parsed markup. -/
inductive Item where
  | document
  | fragment
  | doctype (name publicId systemId : String)
  | comment (text : String)
  | text (text : String)
  | instruction (target data : String)
  | element (name : Name) (attributes : List Attribute)

/-- A tree of parsed markup. -/
inductive Tree where
  | node (item : Item) (children : List Tree)

namespace Item

/-- Whether an item is an element. -/
def isElement : Item → Bool
  | element _ _ => true
  | _ => false

/-- The leaf of a document tree that an item becomes; other items become none. -/
def leaf? : Item → Option Node
  | doctype _ _ _ => some .doctype
  | comment value => some (.comment value)
  | text value => some (.text value)
  | _ => none

end Item

/-- The properties given by the attributes of an element, of which only the local names are kept. -/
def propertiesOf (attributes : List Attribute) : Properties :=
  Properties.ofAttributes (attributes.map fun a => (a.name.localName, a.value))

/-- The two ends of an item on a walk through a tree. -/
inductive Edge where
  | opening (item : Item)
  | closing (item : Item)

namespace Tree

/-- The children of a tree. -/
def children : Tree → List Tree
  | node _ children => children

mutual

/-- The walk through a tree. -/
def edges : Tree → List Edge
  | .node item children => .opening item :: edgesList children ++ [.closing item]

/-- The walks through the trees of a list, one after the other. -/
def edgesList : List Tree → List Edge
  | [] => []
  | tree :: trees => tree.edges ++ edgesList trees

end

end Tree

/-- A conversion under way: the elements that are open, innermost first, and for each level the
finished siblings on it, last first. -/
structure Conversion where
  opened : List (String × Properties) := []
  levels : List (List Node) := [[]]

namespace Conversion

/-- Adds a finished node to the innermost level. -/
def add (conversion : Conversion) (node : Node) : Conversion :=
  match conversion.levels with
  | [] => conversion
  | level :: levels => { conversion with levels := (node :: level) :: levels }

/-- Plays back an edge. -/
def step (conversion : Conversion) : Edge → Conversion
  | .opening (.element name attributes) =>
    { opened := (name.localName, propertiesOf attributes) :: conversion.opened
      levels := [] :: conversion.levels }
  | .opening item =>
    match item.leaf? with
    | some leaf => conversion.add leaf
    | none => conversion
  | .closing (.element _ _) =>
    match conversion.opened, conversion.levels with
    | (tag, properties) :: opened, level :: levels =>
      add { opened, levels } (.element tag (some properties) level.reverse)
    | opened, levels => { opened := opened.drop 1, levels := levels.drop 1 }
  | .closing _ => conversion

/-- The nodes on the innermost level. -/
def finish (conversion : Conversion) : List Node :=
  match conversion.levels with
  | [] => []
  | level :: _ => level.reverse

/-- The nodes that a walk plays back to. -/
def play (walk : List Edge) : List Node := (walk.foldl step {}).finish

end Conversion

namespace Tree

/-- The nodes that the children of a tree become. -/
def convertChildren (tree : Tree) : List Node := Conversion.play (edgesList tree.children)

mutual

/-- The nodes that a tree becomes: an element becomes one, and of other items their leaf, if there
is one, stands before what becomes of their children. -/
def convert : Tree → List Node
  | .node (.element name attributes) children =>
    [.element name.localName (some (propertiesOf attributes)) (convertList children)]
  | .node item children => item.leaf?.toList ++ convertList children

/-- The nodes that the trees of a list become. -/
def convertList : List Tree → List Node
  | [] => []
  | tree :: trees => tree.convert ++ convertList trees

end

end Tree

end CellAlign.Markup

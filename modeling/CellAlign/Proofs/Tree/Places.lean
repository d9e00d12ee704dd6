import CellAlign.Tree.Node
import Mathlib.Data.List.Basic

/-!
# The places of a tree, listed

`Node.places` lists the places of a tree in document order.  It is the second description of what is
in a tree, beside the look-up `Node.at?`:

* `mem_places`: the places listed are those where a node stands;
* `sorted_places`: they are listed in document order, and none of them twice (`nodup_places`);
* `filterMap_places`: what is read off the nodes in document order can be read off place by place.
-/

namespace CellAlign.Node

mutual

/-- The places of a tree in document order. -/
def places : Node → List (List Nat)
  | .root children => [] :: placesFrom 0 children
  | .element _ _ children => [] :: placesFrom 0 children
  | _ => [[]]

/-- The places of neighbouring trees, the first of which is child number `i`. -/
def placesFrom (i : Nat) : List Node → List (List Nat)
  | [] => []
  | node :: nodes => node.places.map (i :: ·) ++ placesFrom (i + 1) nodes

end

/-- The places of a tree are the top and those below. -/
theorem places_eq (node : Node) :
    node.places = [] :: placesFrom 0 (node.children?.getD []) := by
  cases node <;> simp [places, placesFrom, children?]

/-- The places of neighbours begin with their positions. -/
theorem mem_placesFrom {i : Nat} {nodes : List Node} {path : List Nat} :
    path ∈ placesFrom i nodes ↔
      ∃ k node rest, nodes[k]? = some node ∧ rest ∈ node.places ∧ path = (i + k) :: rest := by
  induction nodes generalizing i with
  | nil => simp [placesFrom]
  | cons first nodes ih =>
      rw [placesFrom, List.mem_append, List.mem_map, ih]
      constructor
      · rintro (⟨rest, hrest, rfl⟩ | ⟨k, node, rest, hk, hrest, rfl⟩)
        · exact ⟨0, first, rest, rfl, hrest, rfl⟩
        · exact ⟨k + 1, node, rest, by simpa using hk, hrest, by simp; omega⟩
      · rintro ⟨k, node, rest, hk, hrest, rfl⟩
        cases k with
        | zero =>
            obtain rfl : first = node := by simpa using hk
            exact Or.inl ⟨rest, hrest, rfl⟩
        | succ k =>
            exact Or.inr ⟨k, node, rest, by simpa using hk, hrest, by simp; omega⟩

/-- A place below a child is one of the child. -/
theorem at?_cons (node : Node) (i : Nat) (path : List Nat) :
    node.at? (i :: path) = (node.children?.getD [])[i]?.bind fun child => child.at? path := by
  rw [at?]
  cases (node.children?.getD [])[i]? <;> rfl

/-- The places that are listed are those where a node stands. -/
theorem mem_places {node : Node} {path : List Nat} :
    path ∈ node.places ↔ (node.at? path).isSome := by
  induction path generalizing node with
  | nil => simp [places_eq, at?]
  | cons i path ih =>
      rw [places_eq, List.mem_cons, mem_placesFrom, at?_cons]
      constructor
      · rintro (h | ⟨k, child, rest, hk, hrest, heq⟩)
        · cases h
        · obtain ⟨rfl, rfl⟩ : i = k ∧ path = rest := by simpa using heq
          rw [hk]
          exact ih.mp hrest
      · intro h
        cases hi : (node.children?.getD [])[i]? with
        | none => simp [hi] at h
        | some child =>
            rw [hi] at h
            exact Or.inr ⟨i, child, path, hi, ih.mpr h, by simp⟩

/-- A place comes before another in document order: before all that are below it, and, where two
paths part, before what is below the later sibling. -/
def Before : List Nat → List Nat → Prop := List.Lex (· < ·)

/-- No place comes before itself. -/
theorem not_before_self (path : List Nat) : ¬ Before path path := by
  induction path with
  | nil => intro h; cases h
  | cons i path ih =>
      intro h
      cases h with
      | cons h => exact ih h
      | rel h => exact Nat.lt_irrefl i h

/-- The top of a tree comes before the places below it. -/
theorem before_of_mem_placesFrom {children : List Node} :
    ∀ path ∈ placesFrom 0 children, Before [] path := by
  intro path hpath
  obtain ⟨k, -, rest, -, -, rfl⟩ := mem_placesFrom.mp hpath
  exact List.Lex.nil

mutual

/-- The places are listed in document order. -/
theorem sorted_places : (node : Node) → node.places.Pairwise Before
  | .root children => by
      rw [places]
      exact .cons before_of_mem_placesFrom (sorted_placesFrom 0 children)
  | .element _ _ children => by
      rw [places]
      exact .cons before_of_mem_placesFrom (sorted_placesFrom 0 children)
  | .text _ => by simp [places]
  | .comment _ => by simp [places]
  | .doctype => by simp [places]

/-- The places of neighbouring trees are listed in document order. -/
theorem sorted_placesFrom (i : Nat) : (nodes : List Node) → (placesFrom i nodes).Pairwise Before
  | [] => by simp [placesFrom]
  | node :: nodes => by
      rw [placesFrom, List.pairwise_append]
      refine ⟨?_, sorted_placesFrom (i + 1) nodes, ?_⟩
      · exact List.Pairwise.map _ (fun _ _ h => List.Lex.cons h) (sorted_places node)
      · intro path hpath other hother
        obtain ⟨rest, -, rfl⟩ := List.mem_map.mp hpath
        obtain ⟨k, -, rest', -, -, rfl⟩ := mem_placesFrom.mp hother
        have hlt : i < i + 1 + k := by omega
        exact List.Lex.rel hlt

end

/-- No place is listed twice. -/
theorem nodup_places (node : Node) : node.places.Nodup := by
  apply (sorted_places node).imp
  intro path other h heq
  subst heq
  exact not_before_self path h

section Reading

variable {α : Type} (read : Node → Option α)

/-- What is read off the node at a place in a row of trees. -/
def readAt (row : List Node) : List Nat → Option α
  | [] => none
  | i :: path => row[i]?.bind fun node => (node.at? path).bind read

/-- A place of a node in a row. -/
theorem readAt_cons {row : List Node} {i : Nat} {node : Node} (h : row[i]? = some node)
    (path : List Nat) : readAt read row (i :: path) = (node.at? path).bind read := by
  simp [readAt, h]

/-- What is read off the node at a place below another is read off among the children. -/
theorem bind_at?_cons (node : Node) (i : Nat) (path : List Nat) :
    (node.at? (i :: path)).bind read = readAt read (node.children?.getD []) (i :: path) := by
  rw [at?_cons, readAt, Option.bind_assoc]

/-- Reading a tree place by place: the top first, and then the children. -/
theorem filterMap_places (node : Node) :
    node.places.filterMap (fun path => (node.at? path).bind read) =
      (read node).toList ++
        (placesFrom 0 (node.children?.getD [])).filterMap
          (readAt read (node.children?.getD [])) := by
  have hbelow : ∀ path ∈ placesFrom 0 (node.children?.getD []),
      (node.at? path).bind read = readAt read (node.children?.getD []) path := by
    intro path hpath
    obtain ⟨k, child, rest, -, -, rfl⟩ := mem_placesFrom.mp hpath
    exact bind_at?_cons read node (0 + k) rest
  rw [places_eq, List.filterMap_cons, List.filterMap_congr hbelow]
  cases h : read node <;> simp [at?, h]

/-- Reading a row place by place: the trees one after the other. -/
theorem filterMap_placesFrom (row nodes : List Node) (i : Nat) (h : row.drop i = nodes) :
    (placesFrom i nodes).filterMap (readAt read row) =
      nodes.flatMap fun node => node.places.filterMap fun path => (node.at? path).bind read := by
  induction nodes generalizing i with
  | nil => simp [placesFrom]
  | cons node nodes ih =>
      have hnode : row[i]? = some node := by
        rw [← List.head?_drop, h]
        rfl
      have hrest : row.drop (i + 1) = nodes := by
        rw [← List.tail_drop, h]
        rfl
      have hfirst : (readAt read row) ∘ (i :: ·) = fun path => (node.at? path).bind read := by
        funext path
        exact readAt_cons read hnode path
      rw [placesFrom, List.filterMap_append, List.filterMap_map, hfirst, ih (i + 1) hrest]
      rfl

end Reading

end CellAlign.Node

import CellAlign.Align.Pass
import CellAlign.Proofs.Align.Settling
import CellAlign.Proofs.Tree.Changing

/-!
# Realigning in any order

Elements can be realigned at any places in any order, an element around a cell before or behind it,
and the same one more than once.  Realigning one of them changes nothing about what the tree is
going to be in the end, `RealignedElement.goal`, and what it counts is what is missing among the
cells that are left, `RealignedElement.cells`; at its place no cell is left.

* `ChangedAt.realign_eq`, `ChangedAt.length_cells`, `ChangedAt.mem_cellPlaces`: so it is for a tree
  if an element in it is realigned;
* `exists_realignEach?_eq`: and so it is for places one after the other;
* `realignEach?_eq_run`: if all elements come to their turn, the tree is the one that a pass leaves,
  and as many cells have been counted.
-/

namespace CellAlign.Node

/-- An element stands at a place. -/
def IsElementAt (node : Node) (path : List Nat) : Prop :=
  ∃ tag properties children, node.at? path = some (.element tag properties children)

/-- What realigning one element does. -/
structure RealignedElement (options : Options) (isCell : Bool) (old new : Node) : Prop where
  element : ∃ tag properties children, new = .element tag properties children
  children : new.children? = old.children?
  goal : new.realign options = old.realign options
  cells : old.cells.length = isCell.toNat + new.cells.length
  settled : ¬ new.IsCellNode

/-- Realigning an element does this to it. -/
theorem realignedElement_of_eq {options : Options} {isCell : Bool} {old new : Node}
    (h : realignElement options old = .ok (isCell, new)) :
    RealignedElement options isCell old new := by
  cases old with
  | element tag properties children =>
      cases h
      have hsettled := Properties.cellAlignment?_realign options tag properties
      refine ⟨⟨_, _, _, rfl⟩, rfl, ?_, ?_, ?_⟩
      · simp only [realign, Properties.realign_of_no_alignment hsettled]
      · cases halignment : Properties.cellAlignment? tag properties <;>
          simp [cells, cell?, head?, Head.cell?, hsettled, halignment, Nat.add_comm]
      · rw [← cell?_isSome_iff]
        simp [cell?, head?, Head.cell?, hsettled]
  | root | text | comment | doctype => cases h

namespace ChangedAt

variable {options : Options} {isCell : Bool} {node next : Node} {path : List Nat}

/-- A tree is going to be the same if one of its elements has been realigned. -/
theorem realign_eq (h : ChangedAt (RealignedElement options isCell) path node next) :
    next.realign options = node.realign options := by
  induction h with
  | here h => exact h.goal
  | @inChild path old new head before behind _ ih =>
      rw [realign_of_head? (head.head?_close _), realign_of_head? (head.head?_close _)]
      simp only [Head.children?_close, Option.getD_some, realignList_eq_map, List.map_append,
        List.map_cons, ih]

/-- The cells of a tree are the one realigned, if it was one, and those that are left. -/
theorem length_cells (h : ChangedAt (RealignedElement options isCell) path node next) :
    node.cells.length = isCell.toNat + next.cells.length := by
  induction h with
  | here h => exact h.cells
  | @inChild path old new head before behind _ ih =>
      have hrow : ∀ child : Node, (head.close (before ++ child :: behind)).cells.length =
          head.cell?.toList.length + (cellsList before).length + child.cells.length +
            (cellsList behind).length := by
        intro child
        rw [cells_eq, cell?, Head.head?_close, Head.children?_close, Option.getD_some,
          cellsList_append, cellsList]
        simp only [Option.bind_some, List.length_append]
        omega
      rw [hrow, hrow, ih]
      omega

/-- An element stays one, and no other node becomes one. -/
theorem isElementAt_iff (h : ChangedAt (RealignedElement options isCell) path node next)
    (hpath : node.IsElementAt path) (other : List Nat) :
    next.IsElementAt other ↔ node.IsElementAt other := by
  have hhead : ∀ tree : Node, tree.IsElementAt other ↔
      ∃ tag properties, (tree.at? other).bind head? = some (.element tag properties) := by
    intro tree
    unfold IsElementAt
    constructor
    · rintro ⟨tag, properties, children, hat⟩
      exact ⟨tag, properties, by rw [hat]; rfl⟩
    · rintro ⟨tag, properties, hbind⟩
      obtain ⟨found, hat, hfound⟩ := Option.bind_eq_some_iff.mp hbind
      cases found with
      | element tag' properties' children =>
          cases hfound
          exact ⟨tag, properties, children, hat⟩
      | root | text | comment | doctype => cases hfound
  by_cases hne : other = path
  · subst hne
    obtain ⟨old, new, -, hnew, hchange⟩ := h.at?_self
    obtain ⟨tag, properties, children, rfl⟩ := hchange.element
    exact ⟨fun _ => hpath, fun _ => ⟨tag, properties, children, hnew⟩⟩
  · rw [hhead, hhead, h.head?_at? (fun _ _ hchange => hchange.children) hne]

/-- The cells that are left stand where they stood, and none at the place that was visited. -/
theorem mem_cellPlaces (h : ChangedAt (RealignedElement options isCell) path node next)
    {other : List Nat} (hother : other ∈ next.cellPlaces) :
    other ∈ node.cellPlaces ∧ other ≠ path := by
  rw [Node.mem_cellPlaces] at hother ⊢
  obtain ⟨cell, hat, hcell⟩ := hother
  have hne : other ≠ path := by
    rintro rfl
    obtain ⟨old, new, -, hnew, hchange⟩ := h.at?_self
    obtain rfl : cell = new := by
      rw [hat] at hnew
      exact Option.some.inj hnew
    exact hchange.settled hcell
  have hheads := h.head?_at? (fun _ _ hchange => hchange.children) hne
  rw [hat, Option.bind_some] at hheads
  have hsome : (((node.at? other).bind head?).bind Head.cell?).isSome := by
    rw [← hheads]
    exact cell?_isSome_iff.mpr hcell
  refine ⟨?_, hne⟩
  cases hold : node.at? other with
  | none =>
      rw [hold] at hsome
      cases hsome
  | some found =>
      rw [hold] at hsome
      exact ⟨found, rfl, cell?_isSome_iff.mp hsome⟩

end ChangedAt

/-- An element can be realigned at its place. -/
theorem exists_realignAt?_eq (options : Options) {node : Node} {path : List Nat}
    (h : node.IsElementAt path) :
    ∃ isCell next, node.realignAt? options path = some (isCell, next) ∧
      ChangedAt (RealignedElement options isCell) path node next := by
  obtain ⟨tag, properties, children, hat⟩ := h
  obtain ⟨next, hnext⟩ : ∃ next, changeAt () (realignElement options) node path =
      .ok ((Properties.cellAlignment? tag properties).isSome, next) :=
    exists_changeAt_eq hat rfl
  refine ⟨_, next, ?_, (changedAt_of_changeAt hnext).mono fun _ _ => realignedElement_of_eq⟩
  rw [realignAt?, hnext]
  rfl

/-- What realigning the elements at some places leaves of a tree. -/
structure RealignedEach (options : Options) (paths : List (List Nat)) (node : Node) (count : Nat)
    (last : Node) : Prop where
  goal : last.realign options = node.realign options
  cells : node.cells.length = count + last.cells.length
  left : ∀ path ∈ last.cellPlaces, path ∈ node.cellPlaces ∧ path ∉ paths

/-- Elements can be realigned one after the other. -/
theorem exists_realignEach?_eq (options : Options) {paths : List (List Nat)} {node : Node}
    (h : ∀ path ∈ paths, node.IsElementAt path) :
    ∃ count last, node.realignEach? options paths = some (count, last) ∧
      RealignedEach options paths node count last := by
  induction paths generalizing node with
  | nil =>
      refine ⟨0, node, rfl, rfl, (Nat.zero_add _).symm, ?_⟩
      intro path hpath
      exact ⟨hpath, List.not_mem_nil⟩
  | cons path paths ih =>
      have hpath := h path List.mem_cons_self
      obtain ⟨isCell, next, hstep, hchanged⟩ := exists_realignAt?_eq options hpath
      have hrest : ∀ other ∈ paths, next.IsElementAt other := fun other hother =>
        (hchanged.isElementAt_iff hpath other).mpr (h other (List.mem_cons_of_mem _ hother))
      obtain ⟨count, last, hrun, hlast⟩ := ih hrest
      refine ⟨if isCell then count + 1 else count, last, ?_, ?_, ?_, ?_⟩
      · rw [realignEach?, hstep]
        simp only [hrun]
      · rw [hlast.goal, hchanged.realign_eq]
      · rw [hchanged.length_cells, hlast.cells]
        cases isCell with
        | true =>
            rw [if_pos rfl, Bool.toNat_true]
            omega
        | false =>
            rw [if_neg Bool.false_ne_true, Bool.toNat_false]
            omega
      · intro other hother
        obtain ⟨hnext, hnot⟩ := hlast.left other hother
        obtain ⟨hnode, hne⟩ := hchanged.mem_cellPlaces hnext
        refine ⟨hnode, ?_⟩
        rw [List.mem_cons, not_or]
        exact ⟨hne, hnot⟩

/-- Realigning at places one after the other leaves the tree that a pass leaves, and counts as many
cells, whatever the order of the places and however often each of them comes, if they are places of
elements and all of these come. -/
theorem realignEach?_eq_run (options : Options) (tree : Node) (paths : List (List Nat))
    (helements : ∀ path ∈ paths, tree.IsElementAt path)
    (hall : ∀ path, tree.IsElementAt path → path ∈ paths) :
    tree.realignEach? options paths = some ((run options tree).count, (run options tree).tree) := by
  obtain ⟨count, last, hrun, hlast⟩ := exists_realignEach?_eq options helements
  have hnone : last.cellPlaces = [] := by
    rw [List.eq_nil_iff_forall_not_mem]
    intro path hpath
    obtain ⟨hcell, hnot⟩ := hlast.left path hpath
    obtain ⟨node, hat, hnode⟩ := mem_cellPlaces.mp hcell
    cases hnode with
    | cell children h => exact hnot (hall path ⟨_, _, children, hat⟩)
  have hcells : last.cells = [] := by
    rw [← List.length_eq_zero_iff, length_cells, hnone, List.length_nil]
  have htree : last = tree.realign options := by
    rw [← hlast.goal, realign_of_cells_eq_nil options last hcells]
  have hcount : count = tree.cells.length := by
    rw [hlast.cells, hcells, List.length_nil, Nat.add_zero]
  rw [hrun, run_tree, run_count, htree, hcount]

/-- A cell around another one, realigned behind it, with the inner one visited twice. -/
theorem realignEach?_nested_cells :
    let options : Options := { method := .byClass }
    let inner : Node := .element "th" (some { align := some (.list [.string "right"]) }) []
    let tree : Node := .element "td" (some { align := some (.string "top"), style := some .null })
      [.text "left", .root [inner, .element "tr" (some { align := some (.string "left") }) []]]
    let paths : List (List Nat) := [[1, 1], [1, 0], [], [1, 0]]
    (∀ path ∈ paths, tree.IsElementAt path) ∧ (∀ path, tree.IsElementAt path → path ∈ paths) ∧
      tree.realignEach? options paths =
        some ((run options tree).count, (run options tree).tree) := by
  intro options inner tree paths
  have helements : ∀ path ∈ paths, tree.IsElementAt path := by
    intro path hpath
    simp only [paths, List.mem_cons, List.not_mem_nil, or_false] at hpath
    rcases hpath with rfl | rfl | rfl | rfl
    all_goals exact ⟨_, _, _, rfl⟩
  have hall : ∀ path, tree.IsElementAt path → path ∈ paths := by
    rintro path ⟨tag, properties, children, hat⟩
    have hplace : path ∈ tree.places := by
      rw [mem_places, hat]
      rfl
    simp only [tree, inner, places, placesFrom, List.map_cons, List.map_nil, List.cons_append,
      List.nil_append, List.append_nil, List.mem_cons, List.not_mem_nil, or_false] at hplace
    rcases hplace with rfl | rfl | rfl | rfl | rfl
    · decide
    · cases hat
    · cases hat
    · decide
    · decide
  exact ⟨helements, hall, realignEach?_eq_run options tree paths helements hall⟩

end CellAlign.Node

import CellAlign.Proofs.Align.Realigning
import Mathlib.Algebra.BigOperators.Group.List.Basic
import Mathlib.Algebra.Ring.Nat

/-!
# The first pass settles a tree

Whatever a cell gets in the place of its alignment, a class token or a style, the alignment itself
goes.  So a pass leaves no cell behind, and a tree without cells is left alone by every pass,
whatever its options.

* `cells_realign`: no cell is left;
* `realign_of_cells_eq_nil`: a tree without cells stays as it is;
* `losesAlign_realign_iff`: the elements that lose an alignment are the cells;
* `run_settles_tree`: all of this said of passes, one after the other.
-/

namespace CellAlign

namespace Properties

/-- Properties that say an alignment in another way have none left. -/
theorem align_restate (options : Options) (properties : Properties) (alignment : String) :
    (properties.restate options alignment).align = none := by
  unfold restate
  split
  next => rfl
  next => rfl

/-- An element that is no cell keeps its properties. -/
theorem realign_of_no_alignment {options : Options} {tag : String} {properties : Option Properties}
    (h : cellAlignment? tag properties = none) : realign options tag properties = properties := by
  rw [realign, h]

/-- An element that was realigned is no cell any more. -/
theorem cellAlignment?_realign (options : Options) (tag : String) (properties : Option Properties) :
    cellAlignment? tag (realign options tag properties) = none := by
  cases halignment : cellAlignment? tag properties with
  | none => rw [realign_of_no_alignment halignment, halignment]
  | some alignment =>
      apply cellAlignment?_eq_none
      intro p value hp hcell
      obtain ⟨old, -, rfl, -, -⟩ := exists_isCell_of_cellAlignment? halignment
      have hrestated : old.restate options alignment = p := by
        simpa [realign, halignment] using hp
      have halign := hcell.align_eq
      rw [← hrestated, align_restate] at halign
      cases halign

end Properties

namespace Node

/-- The top of a tree that was realigned is no cell. -/
theorem cell?_realign (options : Options) (node : Node) : (node.realign options).cell? = none := by
  cases node with
  | element tag properties children =>
      simp [realign, cell?, head?, Head.cell?, Properties.cellAlignment?_realign]
  | root | text | comment | doctype => simp [realign, cell?, head?, Head.cell?]

/-- A tree that was realigned has no cells. -/
theorem cells_realign (options : Options) (node : Node) : (node.realign options).cells = [] := by
  rw [cells_eq_cellsAtPlaces, cellsAtPlaces, List.filterMap_eq_nil_iff]
  intro path _
  rw [at?_realign]
  cases node.at? path with
  | none => rfl
  | some found => exact cell?_realign options found

mutual

/-- A tree without cells stays as it is. -/
theorem realign_of_cells_eq_nil (options : Options) : (node : Node) → node.cells = [] →
    node.realign options = node
  | .root children, h => by
      rw [cells] at h
      rw [realign, realignList_of_cellsList_eq_nil options children h]
  | .element tag properties children, h => by
      rw [cells, List.append_eq_nil_iff] at h
      obtain ⟨htop, hbelow⟩ := h
      have halignment : Properties.cellAlignment? tag properties = none := by
        simpa [cell?, head?, Head.cell?] using htop
      rw [realign, Properties.realign_of_no_alignment halignment,
        realignList_of_cellsList_eq_nil options children hbelow]
  | .text _, _ => by rw [realign]
  | .comment _, _ => by rw [realign]
  | .doctype, _ => by rw [realign]

/-- Trees without cells stay as they are. -/
theorem realignList_of_cellsList_eq_nil (options : Options) : (nodes : List Node) →
    cellsList nodes = [] → realignList options nodes = nodes
  | [], _ => by rw [realignList]
  | node :: nodes, h => by
      rw [cellsList, List.append_eq_nil_iff] at h
      rw [realignList, realign_of_cells_eq_nil options node h.1,
        realignList_of_cellsList_eq_nil options nodes h.2]

end

/-- Realigning once more changes nothing, whatever the options. -/
theorem realign_realign (first second : Options) (node : Node) :
    (node.realign first).realign second = node.realign first :=
  realign_of_cells_eq_nil second _ (cells_realign first node)

/-- No cell stands anywhere in a tree without cells. -/
theorem not_isCellNode_of_cells_eq_nil {node found : Node} {path : List Nat} (h : node.cells = [])
    (hat : node.at? path = some found) : ¬ found.IsCellNode := by
  intro hcell
  have hmem : path ∈ node.cellPlaces := mem_cellPlaces.mpr ⟨found, hat, hcell⟩
  have hlength : node.cellPlaces.length = 0 := by
    rw [← length_cells, h, List.length_nil]
  rw [List.length_eq_zero_iff.mp hlength] at hmem
  cases hmem

/-- The value of the alignment of an element. -/
def align? : Node → Option PropertyValue
  | element _ properties _ => properties.bind Properties.align
  | _ => none

/-- An element at a place has an alignment in one tree and none in another. -/
def LosesAlign (before after : Node) (path : List Nat) : Prop :=
  (∃ value, (before.at? path).bind align? = some value) ∧ (after.at? path).bind align? = none

/-- A cell has an alignment, and has none once it is realigned. -/
theorem align?_of_isCellNode {options : Options} {node : Node} (h : node.IsCellNode) :
    (∃ value, node.align? = some value) ∧ (node.realign options).align? = none := by
  cases h with
  | @cell tag properties value children hcell =>
      refine ⟨⟨value, hcell.align_eq⟩, ?_⟩
      simp [realign, align?, Properties.realign, cellAlignment?_of_isCell hcell,
        Properties.align_restate]

/-- A node that is no cell has the alignment that it had, once it is realigned. -/
theorem align?_realign_of_not_isCellNode {options : Options} {node : Node}
    (h : ¬ node.IsCellNode) : (node.realign options).align? = node.align? := by
  cases node with
  | element tag properties children =>
      have halignment : Properties.cellAlignment? tag properties = none := by
        apply cellAlignment?_eq_none
        rintro p value rfl hcell
        exact h (.cell children hcell)
      simp [realign, align?, Properties.realign_of_no_alignment halignment]
  | root | text | comment | doctype => simp [realign, align?]

/-- The elements that lose an alignment are the cells. -/
theorem losesAlign_realign_iff (options : Options) (node : Node) (path : List Nat) :
    LosesAlign node (node.realign options) path ↔ path ∈ node.cellPlaces := by
  rw [mem_cellPlaces, LosesAlign, at?_realign]
  cases node.at? path with
  | none => simp
  | some found =>
      constructor
      · rintro ⟨⟨value, hbefore⟩, hafter⟩
        refine ⟨found, rfl, ?_⟩
        by_contra hcell
        have hkept : (found.realign options).align? = found.align? :=
          align?_realign_of_not_isCellNode hcell
        have hnone : found.align? = none := hkept.symm.trans hafter
        have hsome : found.align? = some value := hbefore
        rw [hnone] at hsome
        cases hsome
      · rintro ⟨cell, heq, hcell⟩
        obtain rfl : found = cell := by simpa using heq
        exact align?_of_isCellNode hcell

end Node

/-- Passes over a tree, each over what the one before has left. -/
def passes (tree : Node) : List Options → List Pass
  | [] => []
  | options :: more => run options tree :: passes (run options tree).tree more

/-- Passes over a tree without cells find none, and leave the tree alone. -/
theorem count_of_mem_passes {tree : Node} (h : tree.cells = []) {options : List Options} {pass : Pass}
    (hpass : pass ∈ passes tree options) : pass.count = 0 ∧ pass.tree = tree := by
  induction options with
  | nil => cases hpass
  | cons first later ih =>
      have hkept : (run first tree).tree = tree := by
        rw [run_tree, Node.realign_of_cells_eq_nil first tree h]
      rw [passes, hkept, List.mem_cons] at hpass
      rcases hpass with rfl | hlater
      · exact ⟨by rw [run_count, h, List.length_nil], hkept⟩
      · exact ih hlater

/-- A pass leaves no cell behind.  The elements that lose an alignment are those that were cells, and
so many are counted; a second pass counts none and changes nothing, whatever its options; and the
counts of passes one after the other add up to that of the first. -/
theorem run_settles_tree (first : Options) (tree : Node) :
    (¬ ∃ path node, (run first tree).tree.at? path = some node ∧ node.IsCellNode) ∧
      (∃ cells : List (List Nat), cells.Sublist tree.places ∧ cells.Nodup ∧
        (∀ path, path ∈ cells ↔ ∃ node, tree.at? path = some node ∧ node.IsCellNode) ∧
        (∀ path, path ∈ cells ↔ Node.LosesAlign tree (run first tree).tree path) ∧
        (run first tree).count = cells.length) ∧
      (∀ second, (run second (run first tree).tree).count = 0 ∧
        (run second (run first tree).tree).tree = (run first tree).tree) ∧
      ∀ later, ((passes tree (first :: later)).map Pass.count).sum = (run first tree).count := by
  have hsettled : (run first tree).tree.cells = [] := by
    rw [run_tree, Node.cells_realign]
  refine ⟨?_, ⟨tree.cellPlaces, List.filter_sublist, ?_, ?_, ?_, ?_⟩, ?_, ?_⟩
  · rintro ⟨path, node, hat, hcell⟩
    exact Node.not_isCellNode_of_cells_eq_nil hsettled hat hcell
  · exact tree.nodup_places.sublist List.filter_sublist
  · exact fun _ => Node.mem_cellPlaces
  · intro path
    rw [run_tree, Node.losesAlign_realign_iff]
  · rw [run_count, Node.length_cells]
  · intro second
    have hpass : run second (run first tree).tree ∈ passes (run first tree).tree [second] :=
      List.mem_cons_self
    exact count_of_mem_passes hsettled hpass
  · intro later
    have hzero : ∀ count ∈ (passes (run first tree).tree later).map Pass.count, count = 0 := by
      intro count hcount
      obtain ⟨pass, hpass, rfl⟩ := List.mem_map.mp hcount
      exact (count_of_mem_passes hsettled hpass).1
    rw [passes, List.map_cons, List.sum_cons, List.sum_eq_zero hzero, Nat.add_zero]

end CellAlign

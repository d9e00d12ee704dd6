import CellAlign.Proofs.Align.Settling

/-!
# What a pass reports of a tree

The log entries of a pass are stated here node by node, by what a node was before the pass.  A cell
has an entry with its tag, the text of the alignment that it had and the method of the options;
where class mode has no token for that text, an entry about the fallback to a style comes first, and
the method is that of the options still.  No other node has an entry.

* `reported_report`: the rule is the one by which the events of a pass are made;
* `entries_run`: the entries of a pass are those of the nodes at its places, and a summary;
* `run_reports_nodes_in_order`: all of this said of a pass, with the number of the cells.
-/

namespace CellAlign

/-- The entry of a cell. -/
def cellEntry (options : Options) (tag alignment : String) : Log.Entry where
  level := .debug
  target := "table_align::rewriter"
  message := "rewrote table cell alignment"
  fields := [("tag", tag), ("alignment", alignment), ("method", options.method.name)]

/-- The entry of a cell for which class mode has no token. -/
def fallbackEntry (alignment : String) : Log.Entry where
  level := .trace
  target := "table_align::rewriter"
  message := "no class token for alignment, falling back to style"
  fields := [("alignment", alignment)]

/-- The entry at the end of a pass. -/
def summaryEntry (options : Options) (count : Nat) : Log.Entry where
  level := .debug
  target := "table_align::rewriter"
  message := "table alignment pass finished"
  fields := [("rewritten", Decimal.wholeText count), ("method", options.method.name)]

/-- The rule of reporting: the entries of a node, in their order. -/
inductive Reported (options : Options) : Node → List Log.Entry → Prop
  | cell {tag properties value} (children : List Node) (cell : IsCell tag properties value)
      (named : options.method = .byClass → value.text ∈ ["left", "center", "right"]) :
      Reported options (.element tag (some properties) children)
        [cellEntry options tag value.text]
  | fallback {tag properties value} (children : List Node) (cell : IsCell tag properties value)
      (method : options.method = .byClass) (unnamed : value.text ∉ ["left", "center", "right"]) :
      Reported options (.element tag (some properties) children)
        [fallbackEntry value.text, cellEntry options tag value.text]
  | nothing {node} (none_cell : ¬ node.IsCellNode) : Reported options node []

/-- The entries of the events of a node. -/
def Node.report (options : Options) (node : Node) : List Log.Entry :=
  (Event.ofCells options node.cell?.toList).map Event.entry

/-- The entries of a cell are those of its events. -/
theorem Node.report_of_isCell (options : Options) {tag : String} {properties : Properties}
    {value : PropertyValue} (children : List Node) (h : IsCell tag properties value) :
    (Node.element tag (some properties) children).report options =
      (Event.ofCell options tag value.text).map Event.entry := by
  have hcell : (Node.element tag (some properties) children).cell? = some (tag, value.text) := by
    simp [cell?, head?, Head.cell?, cellAlignment?_of_isCell h]
  rw [report, hcell]
  simp [Event.ofCells]

/-- The entries of a node follow the rule. -/
theorem reported_report (options : Options) (node : Node) :
    Reported options node (node.report options) := by
  by_cases hnode : node.IsCellNode
  · cases hnode with
    | @cell tag properties value children hcell =>
        rw [Node.report_of_isCell options children hcell, Event.ofCell]
        by_cases hfallback : options.method = .byClass ∧ options.classes.get? value.text = none
        · rw [if_pos hfallback]
          have hunnamed := ClassNames.get?_eq_none_iff.mp hfallback.2
          exact .fallback children hcell hfallback.1 hunnamed
        · rw [if_neg hfallback]
          refine .cell children hcell ?_
          intro hmethod
          by_contra hunnamed
          exact hfallback ⟨hmethod, ClassNames.get?_eq_none_iff.mpr hunnamed⟩
  · have hnone : node.cell? = none := by
      rw [← Option.not_isSome_iff_eq_none, Node.cell?_isSome_iff]
      exact hnode
    rw [Node.report, hnone]
    exact .nothing hnode

/-- The entries of the node at a place, if there is one. -/
def Node.reportAt (options : Options) (tree : Node) (path : List Nat) : List Log.Entry :=
  ((tree.at? path).map (report options)).getD []

/-- The entries of a pass are those of the nodes at the places of the tree, one place after the
other, and a summary. -/
theorem entries_run (options : Options) (tree : Node) :
    (run options tree).events.map Event.entry =
      (tree.places.map (tree.reportAt options)).flatten ++
        [summaryEntry options (run options tree).count] := by
  have hplace : ∀ path, (((tree.at? path).bind Node.cell?).toList.flatMap fun cell =>
      Event.ofCell options cell.1 cell.2).map Event.entry = tree.reportAt options path := by
    intro path
    unfold Node.reportAt
    cases tree.at? path with
    | none => rfl
    | some node => rfl
  have hcells : (Event.ofCells options tree.cells).map Event.entry =
      (tree.places.map (tree.reportAt options)).flatten := by
    rw [Node.cells_eq_cellsAtPlaces, Node.cellsAtPlaces, Event.ofCells,
      List.filterMap_eq_flatMap_toList, List.flatMap_assoc, List.map_flatMap]
    simp only [hplace]
    rw [List.flatMap_def]
  rw [run_events, run_count, List.map_append, hcells]
  rfl

/-- How many entries say a message. -/
def numberSaying (message : String) (entries : List Log.Entry) : Nat :=
  entries.countP fun entry => entry.message == message

/-- Of the entries of some cells one for each says that it was realigned, and none ends the pass. -/
theorem numberSaying_ofCells (options : Options) (cells : List (String × String)) :
    numberSaying "rewrote table cell alignment" ((Event.ofCells options cells).map Event.entry) =
        cells.length ∧
      numberSaying "table alignment pass finished"
        ((Event.ofCells options cells).map Event.entry) = 0 := by
  induction cells with
  | nil => exact ⟨rfl, rfl⟩
  | cons cell cells ih =>
      obtain ⟨hcells, hends⟩ := ih
      have hsplit : Event.ofCells options (cell :: cells) =
          Event.ofCell options cell.1 cell.2 ++ Event.ofCells options cells := rfl
      unfold numberSaying at hcells hends ⊢
      rw [hsplit, List.map_append, List.countP_append, List.countP_append, hcells, hends,
        Event.ofCell]
      by_cases hfallback : options.method = .byClass ∧ options.classes.get? cell.2 = none
      · rw [if_pos hfallback, List.length_cons, Nat.add_comm]
        exact ⟨rfl, rfl⟩
      · rw [if_neg hfallback, List.length_cons, Nat.add_comm]
        exact ⟨rfl, rfl⟩

/-- A pass makes the entries of the nodes of the tree in document order, each as the rule says by
what the node was before, and a summary behind them.  As many entries as the summary says are of
cells; this is the number that the pass answers and that of the elements that lose their
alignment. -/
theorem run_reports_nodes_in_order (options : Options) (tree : Node) :
    (tree.places.Pairwise Node.Before ∧ ∀ path, path ∈ tree.places ↔ (tree.at? path).isSome) ∧
      (∃ reports : List (List Log.Entry),
        List.Forall₂ (fun path report =>
          ∃ node, tree.at? path = some node ∧ Reported options node report) tree.places reports ∧
        (run options tree).events.map Event.entry =
          reports.flatten ++ [summaryEntry options (run options tree).count]) ∧
      numberSaying "rewrote table cell alignment" ((run options tree).events.map Event.entry) =
        (run options tree).count ∧
      numberSaying "table alignment pass finished" ((run options tree).events.map Event.entry) = 1 ∧
      ∃ cells : List (List Nat), cells.Nodup ∧
        (∀ path, path ∈ cells ↔ Node.LosesAlign tree (run options tree).tree path) ∧
        (run options tree).count = cells.length := by
  obtain ⟨hcells, hends⟩ := numberSaying_ofCells options tree.cells
  unfold numberSaying at hcells hends
  refine ⟨⟨tree.sorted_places, fun _ => Node.mem_places⟩,
    ⟨tree.places.map (tree.reportAt options), ?_, entries_run options tree⟩, ?_, ?_,
    ⟨tree.cellPlaces, ?_, ?_, ?_⟩⟩
  · rw [List.forall₂_map_right_iff, List.forall₂_same]
    intro path hpath
    obtain ⟨node, hnode⟩ := Option.isSome_iff_exists.mp (Node.mem_places.mp hpath)
    refine ⟨node, hnode, ?_⟩
    rw [Node.reportAt, hnode]
    exact reported_report options node
  · rw [run_events, run_count, numberSaying, List.map_append, List.countP_append, hcells]
    rfl
  · rw [run_events, numberSaying, List.map_append, List.countP_append, hends]
    rfl
  · exact tree.nodup_places.sublist List.filter_sublist
  · intro path
    rw [run_tree, Node.losesAlign_realign_iff]
  · rw [run_count, Node.length_cells]

end CellAlign

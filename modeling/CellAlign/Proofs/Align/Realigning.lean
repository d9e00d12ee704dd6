import CellAlign.Proofs.Align.Walk
import CellAlign.Proofs.Tree.Decoding

/-!
# What a pass does to a tree

The rule of realigning is stated here without the pass: `Realigned` says what the properties of an
element become, by the tag, the value of the alignment and the options alone, and
`Node.TopRealigned` says of two nodes that nothing else tells them apart.

* `realigned_iff`: the rule is the one that the pass follows;
* `run_realigns_every_cell_once`: a pass leaves every node of the tree in its place and as it was,
  but for the cells, to which the rule is applied; it visits every place once and counts the cells.
-/

namespace CellAlign

/-- The alignments that have a token, with their tokens. -/
def ClassNames.pairs (names : ClassNames) : List (String × String) :=
  [("left", names.left), ("center", names.center), ("right", names.right)]

/-- A token is found for the alignment that it is paired with. -/
theorem ClassNames.get?_eq_some_iff {names : ClassNames} {alignment token : String} :
    names.get? alignment = some token ↔ (alignment, token) ∈ names.pairs := by
  unfold get? pairs
  constructor
  · intro h
    split at h
    · simp_all
    · split at h
      · simp_all
      · split at h <;> simp_all
  · intro h
    simp only [List.mem_cons, Prod.mk.injEq, List.not_mem_nil, or_false] at h
    rcases h with ⟨rfl, rfl⟩ | ⟨rfl, rfl⟩ | ⟨rfl, rfl⟩ <;> simp

/-- Three alignments have a token. -/
theorem ClassNames.get?_eq_none_iff {names : ClassNames} {alignment : String} :
    names.get? alignment = none ↔ alignment ∉ ["left", "center", "right"] := by
  unfold get?
  split
  · simp_all
  · split
    · simp_all
    · split <;> simp_all

/-- The properties of a cell and the value of its alignment. -/
structure IsCell (tag : String) (properties : Properties) (value : PropertyValue) : Prop where
  tag_eq : tag = "td" ∨ tag = "th"
  align_eq : properties.align = some value
  ne_null : value ≠ .null

/-- The rule of realigning: what the properties of an element become.  The alignment of a cell goes,
and a class token or a style comes in its place; everything else stays. -/
inductive Realigned (options : Options) (tag : String) :
    Option Properties → Option Properties → Prop
  | byClass {properties value token} (cell : IsCell tag properties value)
      (method : options.method = .byClass)
      (named : (value.text, token) ∈ options.classes.pairs) :
      Realigned options tag (some properties)
        (some
          { align := none
            className := .list (properties.className.tokens ++ [token])
            style := properties.style
            other := properties.other })
  | byStyle {properties value} (cell : IsCell tag properties value)
      (unnamed : options.method = .byClass → value.text ∉ ["left", "center", "right"]) :
      Realigned options tag (some properties)
        (some
          { align := none
            className := properties.className
            style := some (.string (Properties.mergeStyle properties.style value.text))
            other := properties.other })
  | kept {properties} (none_cell : ∀ p value, properties = some p → ¬ IsCell tag p value) :
      Realigned options tag properties properties

section Rule

variable {options : Options} {tag : String}

/-- The alignment of a cell is the text of its value. -/
theorem cellAlignment?_of_isCell {properties : Properties} {value : PropertyValue}
    (h : IsCell tag properties value) :
    Properties.cellAlignment? tag (some properties) = some value.text := by
  obtain ⟨htag, halign, hnull⟩ := h
  have hcell : isCellTag tag = true := by
    rcases htag with rfl | rfl <;> decide
  have halignment : properties.alignment? = some value.text := by
    unfold Properties.alignment?
    split
    next hnone => simp [halign] at hnone
    next hsome =>
      obtain rfl : value = .null := by simpa [halign] using hsome
      exact absurd rfl hnull
    next other _ hsome =>
      obtain rfl : value = other := by simpa [halign] using hsome
      rfl
  simp [Properties.cellAlignment?, hcell, halignment]

/-- An element with an alignment is a cell. -/
theorem exists_isCell_of_cellAlignment? {properties : Option Properties} {alignment : String}
    (h : Properties.cellAlignment? tag properties = some alignment) :
    ∃ p value, properties = some p ∧ IsCell tag p value ∧ value.text = alignment := by
  unfold Properties.cellAlignment? at h
  split at h
  next htag =>
    cases properties with
    | none => cases h
    | some p =>
        have halignment : p.alignment? = some alignment := h
        unfold Properties.alignment? at halignment
        split at halignment
        next => cases halignment
        next => cases halignment
        next value hnull halign =>
          cases halignment
          refine ⟨p, value, rfl, ⟨?_, halign, ?_⟩, rfl⟩
          · simpa [isCellTag] using htag
          · rintro rfl
            exact hnull rfl
  next => cases h

/-- What is no cell has no alignment. -/
theorem cellAlignment?_eq_none {properties : Option Properties}
    (h : ∀ p value, properties = some p → ¬ IsCell tag p value) :
    Properties.cellAlignment? tag properties = none := by
  cases halignment : Properties.cellAlignment? tag properties with
  | none => rfl
  | some alignment =>
      obtain ⟨p, value, hp, hcell, -⟩ := exists_isCell_of_cellAlignment? halignment
      exact absurd hcell (h p value hp)

/-- The rule is the one by which properties are realigned. -/
theorem realigned_iff {old new : Option Properties} :
    Realigned options tag old new ↔ new = Properties.realign options tag old := by
  constructor
  · intro h
    cases h with
    | @byClass properties value token hcell hmethod hnamed =>
        have htoken := ClassNames.get?_eq_some_iff.mpr hnamed
        simp [Properties.realign, cellAlignment?_of_isCell hcell, Properties.restate,
          Properties.token?, hmethod, htoken, ClassName.push]
    | @byStyle properties value hcell hunnamed =>
        have htoken : Properties.token? options value.text = none := by
          unfold Properties.token?
          split
          next hmethod => exact ClassNames.get?_eq_none_iff.mpr (hunnamed hmethod)
          next => rfl
        simp [Properties.realign, cellAlignment?_of_isCell hcell, Properties.restate, htoken]
    | kept hnone => simp [Properties.realign, cellAlignment?_eq_none hnone]
  · rintro rfl
    unfold Properties.realign
    split
    next alignment halignment =>
      obtain ⟨p, value, rfl, hcell, rfl⟩ := exists_isCell_of_cellAlignment? halignment
      simp only [Option.map_some, Properties.restate]
      split
      next token htoken =>
        unfold Properties.token? at htoken
        split at htoken
        next hmethod => exact .byClass hcell hmethod (ClassNames.get?_eq_some_iff.mp htoken)
        next => cases htoken
      next htoken =>
        refine .byStyle hcell fun hmethod => ?_
        rw [Properties.token?, hmethod] at htoken
        exact ClassNames.get?_eq_none_iff.mp htoken
    next hnone =>
      refine .kept fun p value hp hcell => ?_
      rw [hp, cellAlignment?_of_isCell hcell] at hnone
      cases hnone

end Rule

/-- A cell that is realigned has canonical properties still. -/
theorem Properties.Canonical.restate {properties : Properties} (h : properties.Canonical)
    (options : Options) (alignment : String) :
    (properties.restate options alignment).Canonical := by
  unfold Properties.restate
  split
  · exact ⟨nofun, h.style, h.distinct, h.unknown⟩
  · exact ⟨nofun, nofun, h.distinct, h.unknown⟩

namespace Node

/-- Two nodes that are the same at the top, but that the second has been realigned there: the same
kind, tag and text, as many children, and properties that follow the rule. -/
inductive TopRealigned (options : Options) : Node → Node → Prop
  | root {children children'} (length : children.length = children'.length) :
      TopRealigned options (.root children) (.root children')
  | element {tag properties properties' children children'}
      (rule : Realigned options tag properties properties')
      (length : children.length = children'.length) :
      TopRealigned options (.element tag properties children) (.element tag properties' children')
  | text (value : String) : TopRealigned options (.text value) (.text value)
  | comment (value : String) : TopRealigned options (.comment value) (.comment value)
  | doctype : TopRealigned options .doctype .doctype

/-- Whether a node is a cell. -/
inductive IsCellNode : Node → Prop
  | cell {tag properties value} (children : List Node) (h : IsCell tag properties value) :
      IsCellNode (.element tag (some properties) children)

/-- The cells are the nodes that are found to be one. -/
theorem cell?_isSome_iff {node : Node} : node.cell?.isSome ↔ node.IsCellNode := by
  constructor
  · intro h
    cases node with
    | element tag properties children =>
        cases halignment : Properties.cellAlignment? tag properties with
        | none => simp [cell?, head?, Head.cell?, halignment] at h
        | some alignment =>
            obtain ⟨p, value, rfl, hcell, -⟩ := exists_isCell_of_cellAlignment? halignment
            exact .cell children hcell
    | root | text | comment | doctype => simp [cell?, head?, Head.cell?] at h
  · rintro ⟨children, hcell⟩
    simp [cell?, head?, Head.cell?, cellAlignment?_of_isCell hcell]

/-- Realigning a tree changes nothing at its top but what the rule says. -/
theorem topRealigned_realign (options : Options) (node : Node) :
    TopRealigned options node (node.realign options) := by
  cases node with
  | root children =>
      rw [realign, realignList_eq_map]
      exact .root (by simp)
  | element tag properties children =>
      rw [realign, realignList_eq_map]
      exact .element (realigned_iff.mpr rfl) (by simp)
  | text value => exact .text value
  | comment value => exact .comment value
  | doctype => exact .doctype

/-- The children of a realigned tree are the children realigned. -/
theorem children?_realign (options : Options) (node : Node) :
    (node.realign options).children? = node.children?.map (realignList options) := by
  cases node <;> simp [realign, children?]

/-- What stands at a place of a realigned tree is what stood there, realigned. -/
theorem at?_realign (options : Options) (node : Node) (path : List Nat) :
    (node.realign options).at? path = (node.at? path).map (realign options) := by
  induction path generalizing node with
  | nil => rfl
  | cons i path ih =>
      have hchildren : (node.realign options).children?.getD [] =
          (node.children?.getD []).map (realign options) := by
        rw [children?_realign, ← realignList_eq_map]
        cases node.children? <;> rfl
      rw [at?_cons, at?_cons, hchildren, List.getElem?_map]
      cases (node.children?.getD [])[i]? with
      | none => rfl
      | some child => exact ih child

/-- What restating keeps of properties, realigning an element does. -/
theorem keeps_realign {quality : Properties → Prop} {options : Options}
    (hrestate : ∀ p alignment, quality p → quality (p.restate options alignment)) {tag : String}
    {properties : Option Properties} (h : ∀ p ∈ properties, quality p) :
    ∀ p ∈ Properties.realign options tag properties, quality p := by
  intro p hp
  unfold Properties.realign at hp
  split at hp
  · obtain ⟨old, hold, rfl⟩ := Option.map_eq_some_iff.mp hp
    exact hrestate old _ (h old hold)
  · exact h p hp

mutual

/-- What restating keeps of properties, all properties of a realigned tree have still. -/
theorem every_realign {quality : Properties → Prop} {options : Options}
    (hrestate : ∀ p alignment, quality p → quality (p.restate options alignment)) :
    (node : Node) → node.Every quality → (node.realign options).Every quality
  | .root children, h => every_realignList hrestate children h
  | .element _ _ children, h =>
      ⟨keeps_realign hrestate h.1, every_realignList hrestate children h.2⟩
  | .text _, _ | .comment _, _ | .doctype, _ => trivial

/-- What restating keeps of properties, all properties of realigned trees have still. -/
theorem every_realignList {quality : Properties → Prop} {options : Options}
    (hrestate : ∀ p alignment, quality p → quality (p.restate options alignment)) :
    (nodes : List Node) → EveryList quality nodes → EveryList quality (realignList options nodes)
  | [], _ => trivial
  | node :: nodes, h => ⟨every_realign hrestate node h.1, every_realignList hrestate nodes h.2⟩

end

/-- A tree that is realigned has canonical properties still. -/
theorem canonical_realign (options : Options) {node : Node} (h : node.Every Properties.Canonical) :
    (node.realign options).Every Properties.Canonical :=
  every_realign (fun _ alignment hcanonical => hcanonical.restate options alignment) node h

/-- The cells that stand at the places of a tree, in the order of the places. -/
def cellsAtPlaces (node : Node) : List (String × String) :=
  node.places.filterMap fun path => (node.at? path).bind cell?

/-- The cells at the places of a tree are its top, if that is one, and those of its children. -/
theorem cellsAtPlaces_eq (node : Node) :
    node.cellsAtPlaces =
      node.cell?.toList ++ (node.children?.getD []).flatMap cellsAtPlaces := by
  rw [cellsAtPlaces, filterMap_places, filterMap_placesFrom cell? _ _ 0 List.drop_zero]
  rfl

mutual

/-- The cells of a tree are those at its places. -/
theorem cells_eq_cellsAtPlaces : (node : Node) → node.cells = node.cellsAtPlaces
  | .root children => by
      rw [cells_eq, cellsAtPlaces_eq]
      exact congrArg _ (cellsList_eq_flatMap children)
  | .element _ _ children => by
      rw [cells_eq, cellsAtPlaces_eq]
      exact congrArg _ (cellsList_eq_flatMap children)
  | .text _ => by simp [cells_eq, cellsAtPlaces_eq, children?, cellsList]
  | .comment _ => by simp [cells_eq, cellsAtPlaces_eq, children?, cellsList]
  | .doctype => by simp [cells_eq, cellsAtPlaces_eq, children?, cellsList]

/-- The cells of a row are those at the places of its trees. -/
theorem cellsList_eq_flatMap : (nodes : List Node) → cellsList nodes = nodes.flatMap cellsAtPlaces
  | [] => rfl
  | node :: nodes => by
      rw [cellsList, cells_eq_cellsAtPlaces node, cellsList_eq_flatMap nodes, List.flatMap_cons]

end

/-- The places of the cells of a tree, in document order. -/
def cellPlaces (node : Node) : List (List Nat) :=
  node.places.filter fun path => ((node.at? path).bind cell?).isSome

/-- A place is listed as that of a cell if a cell stands there. -/
theorem mem_cellPlaces {node : Node} {path : List Nat} :
    path ∈ node.cellPlaces ↔ ∃ cell, node.at? path = some cell ∧ cell.IsCellNode := by
  rw [cellPlaces, List.mem_filter, mem_places]
  constructor
  · rintro ⟨hsome, hcell⟩
    obtain ⟨cell, hat⟩ := Option.isSome_iff_exists.mp hsome
    rw [hat] at hcell
    exact ⟨cell, hat, cell?_isSome_iff.mp hcell⟩
  · rintro ⟨cell, hat, hcell⟩
    rw [hat]
    exact ⟨rfl, cell?_isSome_iff.mpr hcell⟩

/-- There are as many cells as places of cells. -/
theorem length_cells (node : Node) : node.cells.length = node.cellPlaces.length := by
  rw [cells_eq_cellsAtPlaces, cellsAtPlaces, cellPlaces, List.length_filterMap_eq_countP,
    List.countP_eq_length_filter]

end Node

/-- A pass does what the recursion over the tree does.  Each node stays at its place as it was, but
for the properties of the cells, which the rule replaces; the walk visits every place of the tree
once, in document order; and the number answered is that of the cells. -/
theorem run_realigns_every_cell_once (options : Options) (tree : Node) :
    (run options tree).tree = tree.realign options ∧
      (∀ path, Option.Rel (Node.TopRealigned options) (tree.at? path)
        ((run options tree).tree.at? path)) ∧
      ((Walk.start tree).visits options = tree.places.map (0 :: ·) ∧ tree.places.Nodup ∧
        ∀ path, path ∈ tree.places ↔ (tree.at? path).isSome) ∧
      ∃ cells : List (List Nat), cells.Sublist tree.places ∧
        (∀ path, path ∈ cells ↔ ∃ node, tree.at? path = some node ∧ node.IsCellNode) ∧
        (run options tree).count = cells.length := by
  refine ⟨run_tree options tree, ?_, ?_, ?_⟩
  · intro path
    rw [run_tree, Node.at?_realign]
    cases tree.at? path with
    | none => exact .none
    | some node => exact .some (node.topRealigned_realign options)
  · exact ⟨Walk.visits_start options tree, tree.nodup_places, fun _ => Node.mem_places⟩
  · refine ⟨tree.cellPlaces, List.filter_sublist, fun _ => Node.mem_cellPlaces, ?_⟩
    rw [run_count, Node.length_cells]

end CellAlign

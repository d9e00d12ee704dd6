import CellAlign.Proofs.Align.Settling

/-!
# Class mode and style mode compared

A pass in class mode and a pass in style mode over the same tree are compared place by place.  They
realign the same cells.  Where the alignment of a cell has a token, class mode appends the token to
the class and leaves the style as it was, and style mode leaves the class as it was; everywhere else
they leave the same.

* `Node.eq_of_tops`: trees that have the same at every place are the same;
* `Properties.realign_congr`: options that choose the same token for an element realign it alike;
* `Node.compared_realign`: what the two modes make of one node;
* `run_compares_methods`: the two passes, what the tokens matter to, and when they leave the same.
-/

namespace CellAlign

namespace Node

/-! ## Trees place by place -/

/-- A node without what is below it. -/
def top (node : Node) : Node := node.withChildren []

mutual

/-- Trees that have the same at every place are the same. -/
theorem eq_of_tops : (a b : Node) →
    (∀ path, (a.at? path).map top = (b.at? path).map top) → a = b
  | .root as, b, h => by
      have htop : (Node.root as).top = b.top := Option.some.inj (h [])
      cases b with
      | root bs =>
          have hchildren : as = bs := eq_of_tops_row as bs fun i path => h (i :: path)
          rw [hchildren]
      | element | text | comment | doctype => cases htop
  | .element tag properties as, b, h => by
      have htop : (Node.element tag properties as).top = b.top := Option.some.inj (h [])
      cases b with
      | element tag' properties' bs =>
          cases htop
          have hchildren : as = bs := eq_of_tops_row as bs fun i path => h (i :: path)
          rw [hchildren]
      | root | text | comment | doctype => cases htop
  | .text _, b, h | .comment _, b, h | .doctype, b, h => by
      have htop := Option.some.inj (h [])
      cases b <;> cases htop
      rfl

/-- Rows of trees that have the same at every place are the same. -/
theorem eq_of_tops_row : (as bs : List Node) →
    (∀ i path,
      ((Node.root as).at? (i :: path)).map top = ((Node.root bs).at? (i :: path)).map top) →
    as = bs
  | [], [], _ => rfl
  | [], b :: bs, h => by
      have hfirst := h 0 []
      cases hfirst
  | a :: as, [], h => by
      have hfirst := h 0 []
      cases hfirst
  | a :: as, b :: bs, h => by
      have hfirst : a = b := eq_of_tops a b fun path => h 0 path
      have hrest : as = bs := eq_of_tops_row as bs fun i path => h (i + 1) path
      rw [hfirst, hrest]

end

/-! ## One node -/

/-- A node is a cell the alignment of which has a text. -/
inductive AlignedAs : Node → String → Prop
  | cell {tag properties value} (children : List Node) (h : IsCell tag properties value) :
      AlignedAs (.element tag (some properties) children) value.text

end Node

/-- What two options make of an element is the same if they choose the same token for its
alignment. -/
theorem Properties.realign_congr {a b : Options} {tag : String} {properties : Option Properties}
    (h : ∀ alignment ∈ cellAlignment? tag properties, token? a alignment = token? b alignment) :
    realign a tag properties = realign b tag properties := by
  unfold realign
  cases halignment : cellAlignment? tag properties with
  | none => rfl
  | some alignment =>
      have htoken := h alignment halignment
      have hrestate : ∀ p : Properties, p.restate a alignment = p.restate b alignment := by
        intro p
        unfold restate
        rw [htoken]
      simp only [hrestate]

namespace Node

/-- What two options make of the top of a tree is the same if they choose the same token for its
alignment. -/
theorem top_realign_congr {a b : Options} {node : Node}
    (h : ∀ alignment, node.AlignedAs alignment →
      Properties.token? a alignment = Properties.token? b alignment) :
    (node.realign a).top = (node.realign b).top := by
  cases node with
  | element tag properties children =>
      have hproperties :
          Properties.realign a tag properties = Properties.realign b tag properties := by
        apply Properties.realign_congr
        intro alignment halignment
        obtain ⟨p, value, rfl, hcell, rfl⟩ := exists_isCell_of_cellAlignment? halignment
        exact h _ (.cell children hcell)
      simp only [realign, top, withChildren, hproperties]
  | root | text | comment | doctype => rfl

/-- Realigned trees are the same if the options choose the same token wherever a cell stands. -/
theorem realign_congr {a b : Options} {tree : Node}
    (h : ∀ path, ∀ node ∈ tree.at? path, ∀ alignment, node.AlignedAs alignment →
      Properties.token? a alignment = Properties.token? b alignment) :
    tree.realign a = tree.realign b := by
  apply eq_of_tops
  intro path
  rw [at?_realign, at?_realign]
  cases hat : tree.at? path with
  | none => rfl
  | some node => exact congrArg some (top_realign_congr (h path node hat))

/-- What class mode and style mode make of a node.  A cell whose alignment has a token keeps its
style in class mode, which appends the token to its class, and its class in style mode, which gives
it another style; any other node becomes the same in both. -/
inductive Compared (names : ClassNames) : Node → Node → Node → Prop
  | named {tag properties value token} {children children₁ children₂ : List Node}
      (cell : IsCell tag properties value) (named : (value.text, token) ∈ names.pairs) :
      Compared names (.element tag (some properties) children)
        (.element tag
          (some
            { align := none
              className := .list (properties.className.tokens ++ [token])
              style := properties.style
              other := properties.other })
          children₁)
        (.element tag
          (some
            { align := none
              className := properties.className
              style := some (.string (Properties.mergeStyle properties.style value.text))
              other := properties.other })
          children₂)
  | alike {node byClass byStyle : Node}
      (unnamed : ∀ alignment, node.AlignedAs alignment → alignment ∉ ["left", "center", "right"])
      (alike : byClass.top = byStyle.top) : Compared names node byClass byStyle

/-- An alignment with a token is paired with one. -/
theorem exists_mem_pairs (names : ClassNames) {alignment : String}
    (h : alignment ∈ ["left", "center", "right"]) : ∃ token, (alignment, token) ∈ names.pairs := by
  cases hget : names.get? alignment with
  | none => exact absurd h (ClassNames.get?_eq_none_iff.mp hget)
  | some token => exact ⟨token, ClassNames.get?_eq_some_iff.mp hget⟩

/-- Class mode appends the token to the class of a cell whose alignment has one. -/
theorem realign_byClass {names : ClassNames} {tag token : String} {properties : Properties}
    {value : PropertyValue} (children : List Node) (hcell : IsCell tag properties value)
    (hnamed : (value.text, token) ∈ names.pairs) :
    (Node.element tag (some properties) children).realign { classes := names, method := .byClass } =
      .element tag
        (some
          { align := none
            className := .list (properties.className.tokens ++ [token])
            style := properties.style
            other := properties.other })
        (realignList { classes := names, method := .byClass } children) := by
  have hrule : Realigned { classes := names, method := .byClass } tag (some properties) _ :=
    .byClass hcell rfl hnamed
  rw [realign, ← realigned_iff.mp hrule]

/-- The two modes make this of a node. -/
theorem compared_realign (names other : ClassNames) (node : Node) :
    Compared names node (node.realign { classes := names, method := .byClass })
      (node.realign { classes := other, method := .byStyle }) := by
  by_cases hnamed : ∃ alignment, node.AlignedAs alignment ∧ alignment ∈ ["left", "center", "right"]
  · obtain ⟨_, ⟨children, hcell⟩, hmem⟩ := hnamed
    obtain ⟨token, hpair⟩ := exists_mem_pairs names hmem
    have hstyle : Realigned { classes := other, method := .byStyle } _ _ _ :=
      .byStyle hcell nofun
    rw [realign_byClass children hcell hpair, realign, ← realigned_iff.mp hstyle]
    exact .named hcell hpair
  · have hunnamed :
        ∀ alignment, node.AlignedAs alignment → alignment ∉ ["left", "center", "right"] := by
      intro alignment haligned hmem
      exact hnamed ⟨alignment, haligned, hmem⟩
    refine .alike hunnamed (top_realign_congr ?_)
    intro alignment haligned
    exact ClassNames.get?_eq_none_iff.mpr (hunnamed alignment haligned)

/-- A class that was appended to has another number of tokens. -/
theorem Compared.alike_iff {names : ClassNames} {node byClass byStyle : Node}
    (h : Compared names node byClass byStyle) :
    byClass.top = byStyle.top ↔
      ∀ alignment, node.AlignedAs alignment → alignment ∉ ["left", "center", "right"] := by
  cases h with
  | @named tag properties value token children _ _ hcell hnamed =>
      constructor
      · intro htop
        have hclass : ClassName.list (properties.className.tokens ++ [token]) =
            properties.className := by
          simp only [top, withChildren, element.injEq, Option.some.injEq,
            Properties.mk.injEq] at htop
          exact htop.2.1.2.1
        have hlength := congrArg (fun c => c.tokens.length) hclass
        simp [ClassName.tokens] at hlength
      · intro hunnamed
        have hmem : value.text ∈ ["left", "center", "right"] := by
          by_contra hnot
          have hnone : names.get? value.text = none := ClassNames.get?_eq_none_iff.mpr hnot
          rw [ClassNames.get?_eq_some_iff.mpr hnamed] at hnone
          cases hnone
        exact absurd hmem (hunnamed _ (.cell children hcell))
  | alike hunnamed htop => exact ⟨fun _ => hunnamed, fun _ => htop⟩

/-- A cell has the token of its own alignment in class mode: with other tokens it becomes the same
if and only if that token is the same. -/
theorem top_realign_eq_iff (names other : ClassNames) (node : Node) :
    (node.realign { classes := names, method := .byClass }).top =
        (node.realign { classes := other, method := .byClass }).top ↔
      ∀ alignment, node.AlignedAs alignment → names.get? alignment = other.get? alignment := by
  constructor
  · intro htop alignment haligned
    by_cases hmem : alignment ∈ ["left", "center", "right"]
    · obtain ⟨children, hcell⟩ := haligned
      obtain ⟨token, hpair⟩ := exists_mem_pairs names hmem
      obtain ⟨token', hpair'⟩ := exists_mem_pairs other hmem
      rw [realign_byClass children hcell hpair, realign_byClass children hcell hpair'] at htop
      have htoken : token = token' := by
        simpa [top, withChildren] using htop
      rw [ClassNames.get?_eq_some_iff.mpr hpair, ClassNames.get?_eq_some_iff.mpr hpair', htoken]
    · rw [ClassNames.get?_eq_none_iff.mpr hmem, ClassNames.get?_eq_none_iff.mpr hmem]
  · exact fun h => top_realign_congr h

/-- The two modes leave the same of a tree if and only if no cell in it has an alignment with a
token. -/
theorem realign_eq_iff_unnamed (names other : ClassNames) (tree : Node) :
    tree.realign { classes := names, method := .byClass } =
        tree.realign { classes := other, method := .byStyle } ↔
      ∀ path, ∀ node ∈ tree.at? path, ∀ alignment, node.AlignedAs alignment →
        alignment ∉ ["left", "center", "right"] := by
  constructor
  · intro heq path node hnode
    have hat := congrArg (fun result => result.at? path) heq
    rw [at?_realign, at?_realign, hnode] at hat
    have hsame := Option.some.inj hat
    exact (compared_realign names other node).alike_iff.mp (congrArg top hsame)
  · intro h
    apply realign_congr
    intro path node hnode alignment haligned
    exact ClassNames.get?_eq_none_iff.mpr (h path node hnode alignment haligned)

/-- The nodes at a place of three trees: none in any of them, or one in each, which are related. -/
inductive AtEach (related : Node → Node → Node → Prop) :
    Option Node → Option Node → Option Node → Prop
  | none : AtEach related none none none
  | some {a b c : Node} (h : related a b c) : AtEach related (some a) (some b) (some c)

end Node

/-- A pass is what the recursion over the tree says of it. -/
theorem run_eq (options : Options) (tree : Node) :
    run options tree =
      { tree := tree.realign options
        count := tree.cells.length
        events :=
          Event.ofCells options tree.cells ++ [.finished tree.cells.length options.method] } := by
  rw [← run_events, ← run_tree, ← run_count]

/-- A pass in style mode does not look at the tokens. -/
theorem run_byStyle_congr (names other : ClassNames) (tree : Node) :
    run { classes := names, method := .byStyle } tree =
      run { classes := other, method := .byStyle } tree := by
  have htree : tree.realign { classes := names, method := .byStyle } =
      tree.realign { classes := other, method := .byStyle } :=
    Node.realign_congr fun _ _ _ _ _ => rfl
  have hcell : ∀ (classes : ClassNames) (tag alignment : String),
      Event.ofCell { classes, method := .byStyle } tag alignment =
        [.realigned tag alignment .byStyle] := by
    intro classes tag alignment
    simp [Event.ofCell]
  rw [run_eq, run_eq, htree]
  simp only [Event.ofCells, hcell]

/-- A pass in class mode and a pass in style mode over the same tree count and realign the same
cells, and at each place they leave what `Node.Compared` says: the same, but for the class and the
style of the cells whose alignment has a token.  In style mode the tokens do not matter, and in
class mode only that of its own alignment matters to a cell.  Without a cell whose alignment has a
token the two leave the same tree, and only then. -/
theorem run_compares_methods (names other : ClassNames) (tree : Node) :
    (run { classes := names, method := .byClass } tree).count =
        (run { classes := other, method := .byStyle } tree).count ∧
      (∀ path, Node.LosesAlign tree (run { classes := names, method := .byClass } tree).tree path ↔
        Node.LosesAlign tree (run { classes := other, method := .byStyle } tree).tree path) ∧
      (∀ path, Node.AtEach (Node.Compared names) (tree.at? path)
        ((run { classes := names, method := .byClass } tree).tree.at? path)
        ((run { classes := other, method := .byStyle } tree).tree.at? path)) ∧
      run { classes := names, method := .byStyle } tree =
        run { classes := other, method := .byStyle } tree ∧
      (∀ path, ((run { classes := names, method := .byClass } tree).tree.at? path).map Node.top =
          ((run { classes := other, method := .byClass } tree).tree.at? path).map Node.top ↔
        ∀ node ∈ tree.at? path, ∀ alignment, node.AlignedAs alignment →
          names.get? alignment = other.get? alignment) ∧
      ((run { classes := names, method := .byClass } tree).tree =
          (run { classes := other, method := .byStyle } tree).tree ↔
        ∀ path, ∀ node ∈ tree.at? path, ∀ alignment, node.AlignedAs alignment →
          alignment ∉ ["left", "center", "right"]) := by
  refine ⟨by rw [run_count, run_count], ?_, ?_, run_byStyle_congr names other tree, ?_, ?_⟩
  · intro path
    rw [run_tree, run_tree, Node.losesAlign_realign_iff, Node.losesAlign_realign_iff]
  · intro path
    rw [run_tree, run_tree, Node.at?_realign, Node.at?_realign]
    cases tree.at? path with
    | none => exact .none
    | some node => exact .some (node.compared_realign names other)
  · intro path
    rw [run_tree, run_tree, Node.at?_realign, Node.at?_realign]
    cases tree.at? path with
    | none => simp
    | some node =>
        have htops := node.top_realign_eq_iff names other
        simpa using htops
  · rw [run_tree, run_tree]
    exact tree.realign_eq_iff_unnamed names other

end CellAlign

import CellAlign.Proofs.Align.Methods

/-!
# Equal trees

Trees can be equal and still differ: the open-ended properties of an element are compared without
their order, and the two zeros are equal at any depth of a list.  A pass does not tell equal trees
apart.  It looks at an alignment only through its text and at a style only if that is a string, and
both are the same for equal values; the open-ended properties it does not look at.

* `PropertyValue.text_of_same`: equal values have the same text;
* `Properties.same_restate`, `Node.same_realign`: what is equal stays so when it is realigned;
* `Node.at?_of_same`: what stands at a place of equal trees;
* `run_of_same`: a pass over equal trees.
-/

namespace CellAlign

/-! ## Values -/

namespace PropertyValue

/-- The sign of a zero does not show. -/
theorem render_of_isZero {x : Decimal.Binary} (h : x.isZero = true) :
    layout.render x = String.ofList (layout.plain ['0'] 0) := by
  have hsign : (x.negative && layout.signedZero) = false := Bool.and_false _
  rw [Decimal.Layout.render, if_pos h, hsign]
  rfl

/-- Equal numbers have the same text. -/
theorem numberText_of_same {n m : Json.Number} (h : n.same m = true) :
    numberText n = numberText m := by
  cases n with
  | whole i =>
      cases m with
      | whole j => rw [eq_of_beq (a := i) (b := j) h]
      | binary => cases h
  | binary x =>
      cases m with
      | whole => cases h
      | binary y =>
          rcases (Bool.or_eq_true _ _).mp h with heq | hzero
          · rw [eq_of_beq heq]
          · obtain ⟨hx, hy⟩ := (Bool.and_eq_true _ _).mp hzero
            rw [numberText, numberText, render_of_isZero hx, render_of_isZero hy]

mutual

/-- Equal values have the same text. -/
theorem text_of_same : (a b : PropertyValue) → a.same b = true → a.text = b.text
  | .null, b, h => by
      cases b with
      | null => rfl
      | bool | number | string | list => cases h
  | .bool x, b, h => by
      cases b with
      | bool y => rw [eq_of_beq (a := x) (b := y) h]
      | null | number | string | list => cases h
  | .number n, b, h => by
      cases b with
      | number m => exact numberText_of_same h
      | null | bool | string | list => cases h
  | .string s, b, h => by
      cases b with
      | string t => exact eq_of_beq h
      | null | bool | number | list => cases h
  | .list as, b, h => by
      cases b with
      | list bs => exact congrArg (Text.join ",") (texts_of_same as bs h)
      | null | bool | number | string => cases h

/-- Equal items have the same texts. -/
theorem texts_of_same : (as bs : List PropertyValue) → sameItems as bs = true →
    texts as = texts bs
  | [], bs, h => by
      cases bs with
      | nil => rfl
      | cons => cases h
  | a :: as, bs, h => by
      cases bs with
      | nil => cases h
      | cons b bs =>
          obtain ⟨hfirst, hrest⟩ := (Bool.and_eq_true _ _).mp h
          rw [texts, texts, text_of_same a b hfirst, texts_of_same as bs hrest]

end

/-- A string is equal to itself only. -/
theorem string?_of_same {a b : PropertyValue} (h : a.same b = true) : a.string? = b.string? := by
  cases a with
  | string s =>
      cases b with
      | string t => rw [eq_of_beq (a := s) (b := t) h]
      | null | bool | number | list => cases h
  | null | bool | number | list =>
      cases b with
      | string => cases h
      | null | bool | number | list => rfl

/-- Null is equal to itself only. -/
theorem eq_null_iff_of_same {a b : PropertyValue} (h : a.same b = true) :
    a = .null ↔ b = .null := by
  cases a with
  | null =>
      cases b with
      | null => rfl
      | bool | number | string | list => cases h
  | bool | number | string | list =>
      cases b with
      | null => cases h
      | bool | number | string | list => simp

end PropertyValue

/-! ## Properties -/

namespace Properties

variable {p q : Properties}

/-- Properties are equal part by part. -/
theorem same_iff : p.same q = true ↔
    sameOption p.align q.align = true ∧ p.className = q.className ∧
      sameOption p.style q.style = true ∧ sameEntries p.other q.other = true := by
  simp [same, and_assoc]

/-- Equal optional values are both there or both missing. -/
theorem rel_of_sameOption {a b : Option PropertyValue} (h : sameOption a b = true) :
    Option.Rel (fun a b => a.same b = true) a b := by
  cases a with
  | none =>
      cases b with
      | none => exact .none
      | some => cases h
  | some a =>
      cases b with
      | none => cases h
      | some b => exact .some h

/-- Equal properties have the same alignment. -/
theorem alignment?_of_same (h : p.same q = true) : p.alignment? = q.alignment? := by
  obtain ⟨halign, -⟩ := same_iff.mp h
  have hrel := rel_of_sameOption halign
  unfold alignment?
  generalize p.align = a at hrel
  generalize q.align = b at hrel
  cases hrel with
  | none => rfl
  | @some x y hvalue =>
      have hnull := PropertyValue.eq_null_iff_of_same hvalue
      have htext := PropertyValue.text_of_same x y hvalue
      by_cases hx : x = .null
      · rw [hx, hnull.mp hx]
      · simp [mt hnull.mpr hx, htext]

/-- Equal styles are merged into the same. -/
theorem mergeStyle_of_same {a b : Option PropertyValue} (h : sameOption a b = true)
    (alignment : String) : mergeStyle a alignment = mergeStyle b alignment := by
  have hstring : a.bind PropertyValue.string? = b.bind PropertyValue.string? := by
    cases rel_of_sameOption h with
    | none => rfl
    | some hvalue => exact PropertyValue.string?_of_same hvalue
  rw [mergeStyle, mergeStyle, hstring]

/-- Equal cells become equal. -/
theorem same_restate (h : p.same q = true) (options : Options) (alignment : String) :
    (p.restate options alignment).same (q.restate options alignment) = true := by
  obtain ⟨-, hclass, hstyle, hother⟩ := same_iff.mp h
  unfold restate
  cases token? options alignment with
  | some token => exact same_iff.mpr ⟨rfl, by simp only [hclass], hstyle, hother⟩
  | none =>
      refine same_iff.mpr ⟨rfl, hclass, ?_, hother⟩
      simp [mergeStyle_of_same hstyle, sameOption, PropertyValue.same]

/-- Equal properties have the same alignment as those of an element, if it is a cell. -/
theorem cellAlignment?_of_same {a b : Option Properties} (h : Node.sameProperties a b = true)
    (tag : String) : cellAlignment? tag a = cellAlignment? tag b := by
  cases a with
  | none =>
      cases b with
      | none => rfl
      | some => cases h
  | some p =>
      cases b with
      | none => cases h
      | some q => simp only [cellAlignment?, Option.bind_some, alignment?_of_same h]

/-- Elements with equal properties get equal ones. -/
theorem same_realign {a b : Option Properties} (h : Node.sameProperties a b = true)
    (options : Options) (tag : String) :
    Node.sameProperties (realign options tag a) (realign options tag b) = true := by
  rw [realign, realign, cellAlignment?_of_same h]
  cases cellAlignment? tag b with
  | none => exact h
  | some alignment =>
      cases a with
      | none =>
          cases b with
          | none => rfl
          | some => cases h
      | some p =>
          cases b with
          | none => cases h
          | some q => exact same_restate h options alignment

end Properties

/-! ## Trees -/

namespace Node

/-- Elements are equal part by part. -/
theorem same_element_iff {tag tag' : String} {a b : Option Properties} {as bs : List Node} :
    (element tag a as).same (element tag' b bs) = true ↔
      tag = tag' ∧ sameProperties a b = true ∧ sameList as bs = true := by
  simp [same, and_assoc]

/-- Equal rows are equal tree by tree. -/
theorem rel_getElem?_of_sameList {as bs : List Node} (h : sameList as bs = true) (i : Nat) :
    Option.Rel (fun a b => a.same b = true) as[i]? bs[i]? := by
  induction as generalizing bs i with
  | nil =>
      cases bs with
      | nil => exact .none
      | cons => cases h
  | cons a as ih =>
      cases bs with
      | nil => cases h
      | cons b bs =>
          obtain ⟨hfirst, hrest⟩ := (Bool.and_eq_true _ _).mp h
          cases i with
          | zero => exact .some hfirst
          | succ i => exact ih hrest i

/-- The children of equal trees are equal. -/
theorem sameList_children {a b : Node} (h : a.same b = true) :
    sameList (a.children?.getD []) (b.children?.getD []) = true := by
  cases a with
  | root as =>
      cases b with
      | root bs => exact h
      | element | text | comment | doctype => cases h
  | element tag p as =>
      cases b with
      | element tag' q bs => exact (same_element_iff.mp h).2.2
      | root | text | comment | doctype => cases h
  | text | comment | doctype =>
      cases b with
      | root | element => cases h
      | text | comment | doctype => rfl

/-- The tops of equal trees are cells with the same alignment, or neither of them is a cell. -/
theorem cell?_of_same {a b : Node} (h : a.same b = true) : a.cell? = b.cell? := by
  cases a with
  | element tag p as =>
      cases b with
      | element tag' q bs =>
          obtain ⟨rfl, hproperties, -⟩ := same_element_iff.mp h
          simp only [cell?, head?, Option.bind_some, Head.cell?,
            Properties.cellAlignment?_of_same hproperties]
      | root | text | comment | doctype => cases h
  | root =>
      cases b with
      | root => rfl
      | element | text | comment | doctype => cases h
  | text | comment | doctype =>
      cases b with
      | root | element => cases h
      | text | comment | doctype => rfl

/-- Equal trees have the same at each place, as far as equality goes. -/
theorem at?_of_same {a b : Node} (h : a.same b = true) (path : List Nat) :
    Option.Rel (fun a b => a.same b = true) (a.at? path) (b.at? path) := by
  induction path generalizing a b with
  | nil => exact .some h
  | cons i path ih =>
      have hchild := rel_getElem?_of_sameList (sameList_children h) i
      rw [at?_cons, at?_cons]
      generalize (a.children?.getD [])[i]? = child at hchild
      generalize (b.children?.getD [])[i]? = child' at hchild
      cases hchild with
      | none => exact .none
      | some hsame => exact ih hsame

mutual

/-- The cells of equal trees have the same tags and alignments. -/
theorem cells_of_same : (a b : Node) → a.same b = true → a.cells = b.cells
  | .root as, b, h => by
      cases b with
      | root bs => exact cellsList_of_same as bs h
      | element | text | comment | doctype => cases h
  | .element tag p as, b, h => by
      cases b with
      | element tag' q bs =>
          obtain ⟨-, -, hchildren⟩ := same_element_iff.mp h
          rw [cells_eq, cells_eq, cell?_of_same h]
          exact congrArg _ (cellsList_of_same as bs hchildren)
      | root | text | comment | doctype => cases h
  | .text _, b, h | .comment _, b, h | .doctype, b, h => by
      cases b with
      | root | element => cases h
      | text | comment | doctype => rfl

/-- The cells of equal rows have the same tags and alignments. -/
theorem cellsList_of_same : (as bs : List Node) → sameList as bs = true →
    cellsList as = cellsList bs
  | [], bs, h => by
      cases bs with
      | nil => rfl
      | cons => cases h
  | a :: as, bs, h => by
      cases bs with
      | nil => cases h
      | cons b bs =>
          obtain ⟨hfirst, hrest⟩ := (Bool.and_eq_true _ _).mp h
          rw [cellsList, cellsList, cells_of_same a b hfirst, cellsList_of_same as bs hrest]

end

mutual

/-- Equal trees are realigned to equal ones. -/
theorem same_realign (options : Options) : (a b : Node) → a.same b = true →
    (a.realign options).same (b.realign options) = true
  | .root as, b, h => by
      cases b with
      | root bs => exact sameList_realign options as bs h
      | element | text | comment | doctype => cases h
  | .element tag p as, b, h => by
      cases b with
      | element tag' q bs =>
          obtain ⟨rfl, hproperties, hchildren⟩ := same_element_iff.mp h
          exact same_element_iff.mpr ⟨rfl, Properties.same_realign hproperties options tag,
            sameList_realign options as bs hchildren⟩
      | root | text | comment | doctype => cases h
  | .text _, b, h | .comment _, b, h | .doctype, b, h => by
      cases b with
      | root | element => cases h
      | text | comment | doctype => exact h

/-- Equal rows are realigned to equal ones. -/
theorem sameList_realign (options : Options) : (as bs : List Node) → sameList as bs = true →
    sameList (realignList options as) (realignList options bs) = true
  | [], bs, h => by
      cases bs with
      | nil => rfl
      | cons => cases h
  | a :: as, bs, h => by
      cases bs with
      | nil => cases h
      | cons b bs =>
          obtain ⟨hfirst, hrest⟩ := (Bool.and_eq_true _ _).mp h
          exact (Bool.and_eq_true _ _).mpr
            ⟨same_realign options a b hfirst, sameList_realign options as bs hrest⟩

end

/-- A node is a cell with an alignment if it is found to be one. -/
theorem alignedAs_iff {node : Node} {alignment : String} :
    node.AlignedAs alignment ↔ ∃ tag, node.cell? = some (tag, alignment) := by
  constructor
  · rintro ⟨children, hcell⟩
    simp [cell?, head?, Head.cell?, cellAlignment?_of_isCell hcell]
  · rintro ⟨tag, h⟩
    cases node with
    | element tag' properties children =>
        obtain ⟨alignment', halignment, heq⟩ := Option.map_eq_some_iff.mp h
        obtain ⟨p, value, rfl, hcell, rfl⟩ := exists_isCell_of_cellAlignment? halignment
        cases heq
        exact .cell children hcell
    | root | text | comment | doctype => cases h

/-- Equal trees have cells with the same alignment at their tops, or none. -/
theorem alignedAs_iff_of_same {a b : Node} (h : a.same b = true) {alignment : String} :
    a.AlignedAs alignment ↔ b.AlignedAs alignment := by
  rw [alignedAs_iff, alignedAs_iff, cell?_of_same h]

/-- Two cells after a pass say the same in place of an alignment that they had: their classes are
the same, and if the alignment had no token, one string is the style of both. -/
inductive SayAlike (options : Options) (alignment : String) : Node → Node → Prop
  | cells {tag : String} {p q : Properties} {children children' : List Node}
      (className : p.className = q.className)
      (style : Properties.token? options alignment = none →
        ∃ style, p.style = some (.string style) ∧ q.style = some (.string style)) :
      SayAlike options alignment (.element tag (some p) children) (.element tag (some q) children')

/-- Equal cells say the same once they are realigned. -/
theorem sayAlike_realign {a b : Node} (h : a.same b = true) (options : Options)
    {alignment : String} (ha : a.AlignedAs alignment) :
    SayAlike options alignment (a.realign options) (b.realign options) := by
  obtain ⟨children, hcell⟩ := ha
  cases b with
  | element tag' properties children' =>
      obtain ⟨rfl, hproperties, -⟩ := same_element_iff.mp h
      cases properties with
      | none => cases hproperties
      | some q =>
          obtain ⟨-, hclass, hstyle, -⟩ := Properties.same_iff.mp hproperties
          have halignment := cellAlignment?_of_isCell hcell
          have halignment' :=
            (Properties.cellAlignment?_of_same hproperties _).symm.trans halignment
          simp only [realign, Properties.realign, halignment, halignment', Option.map_some]
          constructor
          · unfold Properties.restate
            split
            · simp only [hclass]
            · exact hclass
          · intro htoken
            simp only [Properties.restate, htoken, Properties.mergeStyle_of_same hstyle]
            exact ⟨_, rfl, rfl⟩
  | root | text | comment | doctype => cases h

end Node

/-- A pass does not tell equal trees apart.  It counts as many cells in them, reports the same and
leaves equal trees.  Cells stand at the same places in both and have the same alignments, and after
the pass they say the same in their place. -/
theorem run_of_same {a b : Node} (h : a.same b = true) (options : Options) :
    (run options a).count = (run options b).count ∧
      (run options a).events = (run options b).events ∧
      (run options a).tree.same (run options b).tree = true ∧
      (∀ path alignment, (∃ node ∈ a.at? path, node.AlignedAs alignment) ↔
        ∃ node ∈ b.at? path, node.AlignedAs alignment) ∧
      ∀ path, ∀ node ∈ a.at? path, ∀ alignment, node.AlignedAs alignment →
        ∃ after ∈ (run options a).tree.at? path, ∃ after' ∈ (run options b).tree.at? path,
          Node.SayAlike options alignment after after' := by
  have hcells := Node.cells_of_same a b h
  rw [run_eq, run_eq, hcells]
  refine ⟨rfl, rfl, Node.same_realign options a b h, fun path alignment => ?_, ?_⟩
  · have hrel := Node.at?_of_same h path
    generalize a.at? path = found at hrel
    generalize b.at? path = found' at hrel
    cases hrel with
    | none => simp
    | some hsame => simp [Node.alignedAs_iff_of_same hsame]
  · intro path node hnode alignment haligned
    have hrel := Node.at?_of_same h path
    rw [Option.mem_def] at hnode
    simp only [Node.at?_realign, hnode] at hrel ⊢
    generalize b.at? path = found at hrel
    cases hrel with
    | some hsame => exact ⟨_, rfl, _, rfl, Node.sayAlike_realign hsame options haligned⟩

/-- The sign of a zero deep in an alignment and the order of the other properties do not show in
what becomes of a cell. -/
theorem run_of_same_signed_zero :
    let cell (zero : Bool) (other : Entries PropertyValue) : Node :=
      .element "td"
        (some
          { align := some (.list [.string "left", .list [.number (.binary (.zero zero))]])
            style := some (.string "color: red")
            other })
        []
    let a := cell false [("id", .null), ("hidden", .bool true)]
    let b := cell true [("hidden", .bool true), ("id", .null)]
    let options : Options := { method := .byClass }
    a.same b = true ∧
      (run options b).events =
        [.fallback "left,0", .realigned "td" "left,0" .byClass, .finished 1 .byClass] ∧
      (run options a).tree.same (run options b).tree = true ∧
      ∃ after ∈ (run options a).tree.at? [], ∃ after' ∈ (run options b).tree.at? [],
        Node.SayAlike options "left,0" after after' := by
  intro cell a b options
  have h : a.same b = true := by decide +kernel
  have hcells : a.cells = [("td", "left,0")] := by decide +kernel
  have haligned : a.AlignedAs "left,0" := Node.alignedAs_iff.mpr ⟨"td", by decide +kernel⟩
  obtain ⟨-, hevents, htree, -, halike⟩ := run_of_same h options
  refine ⟨h, ?_, htree, halike [] a rfl "left,0" haligned⟩
  rw [← hevents, run_events, hcells]
  decide

end CellAlign

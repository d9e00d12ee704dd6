import CellAlign.Proofs.Align.Settling
import CellAlign.Proofs.Markup.Serializing
import CellAlign.Proofs.Session.Reached

/-!
# No alignment is left to be written

An alignment can be written from three places: the alignment itself, an alignment that is null, and
an entry that is named like it.  Realigning takes the first away from every `td` and `th`; a tree
that comes from a text never has the other two.  So nothing of the name is written of a cell,
neither in a start tag nor in an object of properties.

* `Node.hasElement_of_start_mem`: a start that is told is that of an element of the tree;
* `Node.hasElement_of_within`: an object of properties is that of an element of the tree;
* `Node.align_eq_none`: the cells of a realigned tree have no alignment, not even one that is null;
* `no_align_written`: what is written of a tree that was read and realigned.
-/

namespace CellAlign

open Json (Value)

/-! ## The elements of a tree -/

namespace Node

/-- An element with the tag and the properties stands at a place of the tree. -/
def HasElement (node : Node) (tag : String) (properties : Option Properties) : Prop :=
  ∃ path children, node.at? path = some (.element tag properties children)

variable {node child : Node} {tag : String} {properties : Option Properties}

/-- An element stands at its own top. -/
theorem hasElement_self (tag : String) (properties : Option Properties) (children : List Node) :
    (Node.element tag properties children).HasElement tag properties := ⟨[], children, rfl⟩

/-- An element of a child is one of the tree. -/
theorem HasElement.of_child (h : child.HasElement tag properties)
    (hchild : child ∈ node.children?.getD []) : node.HasElement tag properties := by
  obtain ⟨path, children, hat⟩ := h
  obtain ⟨i, hi⟩ := List.getElem?_of_mem hchild
  refine ⟨i :: path, children, ?_⟩
  rw [at?, hi]
  exact hat

/-- The properties of an element have a quality that all properties in the tree have. -/
theorem HasElement.quality {quality : Properties → Prop} (h : node.HasElement tag properties)
    (hevery : node.Every quality) : ∀ p ∈ properties, quality p := by
  obtain ⟨path, children, hat⟩ := h
  induction path generalizing node with
  | nil =>
      cases hat
      exact hevery.1
  | cons i path ih =>
      rw [at?] at hat
      split at hat
      · next child hchild =>
        refine ih ?_ hat
        have hmem := List.mem_of_getElem? hchild
        cases node with
        | root => exact everyList_iff.mp hevery child hmem
        | element => exact everyList_iff.mp hevery.2 child hmem
        | text | comment | doctype => cases hmem
      · cases hat

end Node

/-! ## Start tags -/

namespace Node

open Markup (Call)

variable {tag : String} {attributes : List (String × String)}

mutual

/-- A start that a serializer is told is that of an element of the tree, with its attributes. -/
theorem hasElement_of_start_mem : (node : Node) → .start tag attributes ∈ node.calls →
    ∃ properties, node.HasElement tag properties ∧
      attributes = (properties.map Properties.attributes).getD []
  | .root children, h => by
      obtain ⟨child, hchild, properties, helement, heq⟩ := hasElement_of_start_mem_list children h
      exact ⟨properties, helement.of_child hchild, heq⟩
  | .element own properties children, h => by
      rcases List.mem_cons.mp h with hself | hbelow
      · cases hself
        exact ⟨properties, hasElement_self _ properties children, rfl⟩
      · rcases List.mem_append.mp hbelow with hchildren | hfinish
        · obtain ⟨child, hchild, found, helement, heq⟩ :=
            hasElement_of_start_mem_list children hchildren
          exact ⟨found, helement.of_child hchild, heq⟩
        · cases List.mem_singleton.mp hfinish
  | .text _, h | .comment _, h | .doctype, h => by cases List.mem_singleton.mp h

/-- A start of a row of trees is one of a tree in it. -/
theorem hasElement_of_start_mem_list : (nodes : List Node) →
    .start tag attributes ∈ callsList nodes →
    ∃ node ∈ nodes, ∃ properties, node.HasElement tag properties ∧
      attributes = (properties.map Properties.attributes).getD []
  | [], h => by cases h
  | node :: nodes, h => by
      rcases List.mem_append.mp h with hnode | hnodes
      · exact ⟨node, List.mem_cons_self, hasElement_of_start_mem node hnode⟩
      · obtain ⟨found, hfound, helement⟩ := hasElement_of_start_mem_list nodes hnodes
        exact ⟨found, List.mem_cons_of_mem _ hfound, helement⟩

end

end Node

/-! ## Objects of properties -/

namespace Json.Value

/-- A value stands in another, at its top or inside an item or a member. -/
inductive Within : Value → Value → Prop
  | here (value : Value) : Within value value
  | inItem {value item : Value} {items : List Value} (hitem : item ∈ items)
      (h : Within value item) : Within value (.array items)
  | inMember {value inner : Value} {key : String} {members : List (String × Value)}
      (hmember : (key, inner) ∈ members) (h : Within value inner) : Within value (.object members)

end Json.Value

open Json.Value (Within)

variable {fields members : List (String × Value)}

namespace PropertyValue

mutual

/-- No object stands in a property value. -/
theorem not_within_encode : (value : PropertyValue) → ¬ Within (.object fields) value.encode
  | .null, h | .bool _, h | .number _, h | .string _, h => by cases h
  | .list items, h => by
      cases h with
      | inItem hitem h => exact not_within_encodeList items _ hitem h

/-- No object stands in the items of a list. -/
theorem not_within_encodeList : (items : List PropertyValue) → ∀ item ∈ encodeList items,
    ¬ Within (.object fields) item
  | [], _, hitem, _ => by cases hitem
  | first :: items, item, hitem, h => by
      rcases List.mem_cons.mp hitem with rfl | hitem
      · exact not_within_encode first h
      · exact not_within_encodeList items item hitem h

end

end PropertyValue

/-- No object stands in a class. -/
theorem ClassName.not_within_encode (className : ClassName) :
    ¬ Within (.object fields) className.encode := by
  intro h
  cases className with
  | absent | single _ => cases h
  | list tokens =>
      cases h with
      | inItem hitem h =>
          obtain ⟨token, -, rfl⟩ := List.mem_map.mp hitem
          cases h

namespace Properties

/-- No object stands in a member of a properties object. -/
theorem not_within_member {properties : Properties} {m : String × Value}
    (h : m ∈ properties.members) : ¬ Within (.object fields) m.2 := by
  rcases mem_members h with ⟨v, -, rfl⟩ | rfl | ⟨v, -, rfl⟩ | ⟨entry, -, rfl⟩
  · exact PropertyValue.not_within_encode v
  · exact ClassName.not_within_encode _
  · exact PropertyValue.not_within_encode v
  · exact PropertyValue.not_within_encode entry.2

/-- The only object in a properties object is that object. -/
theorem eq_members_of_within {properties : Properties}
    (h : Within (.object fields) properties.encode) : fields = properties.members := by
  cases h with
  | here => rfl
  | inMember hmember h => exact absurd h (not_within_member hmember)

end Properties

/-- Nothing stands in an object of strings but that object. -/
theorem eq_of_within_strings (hstrings : ∀ m ∈ members, ∃ text, m.2 = Value.string text)
    (h : Within (.object fields) (.object members)) : fields = members := by
  cases h with
  | here => rfl
  | inMember hmember h =>
      obtain ⟨text, rfl⟩ := hstrings _ hmember
      cases h

namespace Node

variable {tag : String}

mutual

/-- An object of properties in an object with a tag is that of an element of the tree. -/
theorem hasElement_of_within : (node : Node) → Within (.object fields) node.encode →
    ("tagName", .string tag) ∈ fields → ("properties", .object members) ∈ fields →
    ∃ p, node.HasElement tag (some p) ∧ members = p.members
  | .root children, h, htag, hproperties => by
      cases h with
      | here => simp at htag
      | inMember hmember h =>
          rcases List.mem_cons.mp hmember with heq | hmember
          · cases heq
            cases h
          · cases List.mem_singleton.mp hmember
            cases h with
            | inItem hitem h =>
                obtain ⟨child, hchild, p, helement, heq⟩ :=
                  hasElement_of_within_list children _ hitem h htag hproperties
                exact ⟨p, helement.of_child hchild, heq⟩
  | .element own properties children, h, htag, hproperties => by
      cases h with
      | here =>
          obtain rfl : tag = own := by simpa using htag
          cases properties with
          | none => simp at hproperties
          | some p =>
              have hmembers : members = p.members := by simpa [Properties.encode] using hproperties
              exact ⟨p, hasElement_self tag (some p) children, hmembers⟩
      | inMember hmember h =>
          rcases List.mem_cons.mp hmember with heq | hmember
          · cases heq
            cases h
          · rcases List.mem_cons.mp hmember with heq | hmember
            · cases heq
              cases h
            · rcases List.mem_append.mp hmember with hown | hchildren
              · obtain ⟨p, -, heq⟩ := Option.map_eq_some_iff.mp (Option.mem_toList.mp hown)
                cases heq
                -- A member of the properties object is no object.
                obtain rfl := Properties.eq_members_of_within h
                exact absurd (.here _) (Properties.not_within_member hproperties)
              · cases List.mem_singleton.mp hchildren
                cases h with
                | inItem hitem h =>
                    obtain ⟨child, hchild, p, helement, heq⟩ :=
                      hasElement_of_within_list children _ hitem h htag hproperties
                    exact ⟨p, helement.of_child hchild, heq⟩
  | .text _, h, htag, _ | .comment _, h, htag, _ | .doctype, h, htag, _ => by
      obtain rfl := eq_of_within_strings (by simp) h
      simp at htag

/-- An object of properties in a row of trees is one of a tree in it. -/
theorem hasElement_of_within_list : (nodes : List Node) → ∀ item ∈ encodeList nodes,
    Within (.object fields) item → ("tagName", .string tag) ∈ fields →
    ("properties", .object members) ∈ fields →
    ∃ node ∈ nodes, ∃ p, node.HasElement tag (some p) ∧ members = p.members
  | [], _, hitem, _, _, _ => by cases hitem
  | node :: nodes, item, hitem, h, htag, hproperties => by
      rcases List.mem_cons.mp hitem with rfl | hitem
      · exact ⟨node, List.mem_cons_self, hasElement_of_within node h htag hproperties⟩
      · obtain ⟨found, hfound, helement⟩ :=
          hasElement_of_within_list nodes item hitem h htag hproperties
        exact ⟨found, List.mem_cons_of_mem _ hfound, helement⟩

end

end Node

/-! ## The cells of a realigned tree -/

namespace Properties

variable {properties : Properties}

/-- A property renders as an attribute of its own name. -/
theorem fst_of_mem_attribute? {name : String} {value : PropertyValue} {a : String × String}
    (h : a ∈ attribute? name value) : a.1 = name := by
  obtain ⟨text, -, rfl⟩ := Option.map_eq_some_iff.mp h
  rfl

/-- No entry of canonical properties is named like the alignment. -/
theorem Canonical.key_ne_align (h : properties.Canonical) {entry : String × PropertyValue}
    (hentry : entry ∈ properties.other) : entry.1 ≠ "align" := by
  intro heq
  have hunknown := h.unknown entry.1 (List.mem_map_of_mem hentry)
  rw [heq] at hunknown
  simp [knownKeys] at hunknown

/-- Canonical properties without an alignment have no attribute of that name. -/
theorem Canonical.attribute_ne_align (h : properties.Canonical) (hnone : properties.align = none)
    {a : String × String} (ha : a ∈ properties.attributes) : a.1 ≠ "align" := by
  rw [attributes, List.mem_append, List.mem_append, List.mem_append] at ha
  rcases ha with ((halign | hclass) | hstyle) | hother
  · rw [hnone] at halign
    cases halign
  · unfold classAttribute? at hclass
    split at hclass
    · cases hclass
    · obtain rfl := List.mem_singleton.mp hclass
      simp
  · obtain ⟨value, -, hvalue⟩ := Option.bind_eq_some_iff.mp (Option.mem_toList.mp hstyle)
    rw [fst_of_mem_attribute? hvalue]
    simp
  · obtain ⟨entry, hentry, hvalue⟩ := List.mem_filterMap.mp hother
    rw [fst_of_mem_attribute? hvalue]
    exact h.key_ne_align hentry

/-- Canonical properties without an alignment have no member of that name. -/
theorem Canonical.member_ne_align (h : properties.Canonical) (hnone : properties.align = none)
    {m : String × Value} (hm : m ∈ properties.members) : m.1 ≠ "align" := by
  rcases mem_members hm with ⟨v, hv, -⟩ | rfl | ⟨v, -, rfl⟩ | ⟨entry, hentry, rfl⟩
  · rw [hnone] at hv
    cases hv
  · simp
  · simp
  · exact h.key_ne_align hentry

/-- Canonical properties of an element that was realigned have no alignment if its tag is that of a
cell. -/
theorem Canonical.align_eq_none (h : properties.Canonical) {options : Options} {tag : String}
    {old : Option Properties} (hrealigned : realign options tag old = some properties)
    (htag : isCellTag tag = true) : properties.align = none := by
  have halignment := cellAlignment?_realign options tag old
  rw [hrealigned, cellAlignment?, if_pos htag] at halignment
  cases halign : properties.align with
  | none => rfl
  | some value =>
      cases value with
      | null => exact absurd halign h.align
      | bool | number | string | list => simp [alignment?, halign] at halignment

end Properties

/-- A cell of a realigned tree has no alignment, not even one that is null, if the tree has canonical
properties. -/
theorem Node.align_eq_none {tree : Node} (h : tree.Every Properties.Canonical) {options : Options}
    {tag : String} {properties : Properties}
    (helement : (tree.realign options).HasElement tag (some properties))
    (htag : isCellTag tag = true) : properties.Canonical ∧ properties.align = none := by
  have hcanonical := helement.quality (canonical_realign options h) properties rfl
  obtain ⟨path, children, hat⟩ := helement
  rw [at?_realign] at hat
  obtain ⟨old, -, hold⟩ := Option.map_eq_some_iff.mp hat
  cases old with
  | element tag' old' children' =>
      simp only [realign, element.injEq] at hold
      obtain ⟨rfl, hrealigned, -⟩ := hold
      exact ⟨hcanonical, hcanonical.align_eq_none hrealigned htag⟩
  | root | text | comment | doctype => simp [realign] at hold

/-- Nothing of the name `align` is written of a cell: no start tag that a serializer is told has such
an attribute, and no object of properties has such a member. -/
structure Node.Cleared (node : Node) : Prop where
  starts : ∀ tag attributes, .start tag attributes ∈ node.calls → tag = "td" ∨ tag = "th" →
    ∀ a ∈ attributes, a.1 ≠ "align"
  objects : ∀ fields tag members, Within (.object fields) node.encode →
    ("tagName", .string tag) ∈ fields → ("properties", .object members) ∈ fields →
    tag = "td" ∨ tag = "th" → ∀ m ∈ members, m.1 ≠ "align"

/-- A realigned tree is cleared if it had canonical properties. -/
theorem Node.cleared_realign {tree : Node} (h : tree.Every Properties.Canonical)
    (options : Options) : (tree.realign options).Cleared := by
  have hcell : ∀ {tag : String}, tag = "td" ∨ tag = "th" → isCellTag tag = true := by
    rintro tag (rfl | rfl) <;> rfl
  refine ⟨fun tag attributes hstart htag a ha => ?_,
    fun fields tag members hwithin hname hmembers htag m hm => ?_⟩
  · obtain ⟨properties, helement, rfl⟩ := hasElement_of_start_mem _ hstart
    cases properties with
    | none => cases ha
    | some p =>
        obtain ⟨hcanonical, hnone⟩ := align_eq_none h helement (hcell htag)
        exact hcanonical.attribute_ne_align hnone ha
  · obtain ⟨p, helement, rfl⟩ := hasElement_of_within _ hwithin hname hmembers
    obtain ⟨hcanonical, hnone⟩ := align_eq_none h helement (hcell htag)
    exact hcanonical.member_ne_align hnone hm

open Markup (Serializer)

/-- A tree that comes from a text and is realigned is cleared; its bytes as HTML are those that a
serializer writes when it is told its calls, and its JSON is the text of its value. -/
theorem no_align_written {format : Format} {text : String} {tree : Node}
    (h : Node.ofText format text = .ok tree) (options : Options) :
    let settled := (run options tree).tree
    settled.htmlBytes? = (settled.calls.foldlM Serializer.take? {}).map (·.out) ∧
      settled.toJson = settled.encode.toPretty ∧ settled.Cleared := by
  intro settled
  refine ⟨?_, rfl, ?_⟩
  · rw [Node.htmlBytes?, settled.tell?_eq_foldlM_calls]
  · rw [show settled = tree.realign options from run_tree options tree]
    exact Node.cleared_realign (Node.every_of_ofText h) options

/-- A cell whose alignment is kept from being written. -/
theorem no_align_written_cell :
    let cell : Node := .element "td" (some { align := some (.string "left") }) []
    Node.ofText .json
        "\x7b\"type\":\"element\",\"tagName\":\"td\",\"properties\":\x7b\"align\":\"left\"\x7d\x7d" =
          .ok cell ∧
      (run {} cell).tree.Cleared := by
  intro cell
  have hread : Node.ofText .json
      "\x7b\"type\":\"element\",\"tagName\":\"td\",\"properties\":\x7b\"align\":\"left\"\x7d\x7d" =
        .ok cell := by
    simp only [Node.ofText, Node.ofJson, String.reduceToList]
    rfl
  obtain ⟨-, -, hcleared⟩ := no_align_written hread {}
  exact ⟨hread, hcleared⟩

end CellAlign

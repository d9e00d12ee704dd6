import CellAlign.Proofs.Align.Realigning
import CellAlign.Proofs.Json.Settled
import CellAlign.Proofs.Tree.Decoded

/-!
# How deep trees are nested

A node is written as an object, its children in an array inside it, and the properties of an element
in an object with arrays of its own.  A reader has room for a certain number of arrays and objects
inside each other, so a written tree is read back only if it is not too deep.  A text may leave out
what is written always, the array of the children, and it may do so just where room runs out.

* `depth_encode_le_iff`: the depth of a written tree, place by place;
* `depth_of_decode`: how deep a text has to be to give a tree;
* `HasText.ofJson_eq_ok_iff`: a written tree is read back if there is room for it;
* `ofJson_realign_eq_ok_iff`: a realigned tree is, if there is room for the children of each node.
-/

namespace CellAlign.Node

open Json (Value IsGap readValue readEnd nestingLimit mem_valuesOf)

variable {node found : Node} {value : Value}

/-! ## The depth of a written tree -/

/-- How many arrays and objects of the node itself are open at once where it is written: its object,
and in it the array of its children or the properties. -/
def span : Node → Nat
  | root _ => 2
  | element _ properties _ => max 2 (1 + properties.elim 0 fun p => p.encode.depth)
  | _ => 1

/-- Written nodes leave room around them if each of them does. -/
theorem depthItems_encodeList_le_iff {nodes : List Node} {room d : Nat} :
    Value.depthItems (encodeList nodes) + room ≤ d ↔
      room ≤ d ∧ ∀ node ∈ nodes, node.encode.depth + room ≤ d := by
  induction nodes with
  | nil => simp [encodeList, Value.depthItems]
  | cons node nodes ih =>
      rw [encodeList, Value.depthItems, List.forall_mem_cons]
      constructor
      · intro h
        obtain ⟨hroom, hnodes⟩ := ih.mp (by omega)
        exact ⟨hroom, by omega, hnodes⟩
      · rintro ⟨hroom, hnode, hnodes⟩
        have hrest := ih.mpr ⟨hroom, hnodes⟩
        omega

/-- A written node is as deep as it is itself, or as its children inside an object and an array. -/
theorem depth_encode_le_iff_children {d : Nat} :
    node.encode.depth ≤ d ↔
      node.span ≤ d ∧ ∀ child ∈ node.children?.getD [], child.encode.depth + 2 ≤ d := by
  have hitems (nodes : List Node) : Value.depthItems (encodeList nodes) + 2 ≤ d ↔
      2 ≤ d ∧ ∀ node ∈ nodes, node.encode.depth + 2 ≤ d := depthItems_encodeList_le_iff
  cases node with
  | root children =>
      have hdepth : (root children).encode.depth = Value.depthItems (encodeList children) + 2 := by
        simp only [encode, Value.depth, Value.depthMembers]
        omega
      rw [hdepth, hitems]
      rfl
  | element tag properties children =>
      have hdepth : (element tag properties children).encode.depth =
          max (Value.depthItems (encodeList children) + 2)
            (1 + properties.elim 0 fun p => p.encode.depth) := by
        cases properties <;>
          simp only [encode, Value.depth, Value.depthMembers, Option.map_none, Option.map_some,
            Option.toList_none, Option.toList_some, Option.elim_none, Option.elim_some,
            List.nil_append, List.cons_append] <;>
          omega
      rw [hdepth, Nat.max_le, hitems, span, Nat.max_le, children?, Option.getD_some]
      tauto
  | text | comment | doctype =>
      simp [encode, Value.depth, Value.depthMembers, span, children?]

/-- The depth of a written tree, place by place: each step down to a place goes through an object
and an array. -/
theorem depth_encode_le_iff {d : Nat} :
    node.encode.depth ≤ d ↔
      ∀ path found, node.at? path = some found → 2 * path.length + found.span ≤ d := by
  constructor
  · intro h path
    induction path generalizing node d with
    | nil =>
        intro found hat
        cases hat
        have hspan := (depth_encode_le_iff_children.mp h).1
        rw [List.length_nil]
        omega
    | cons i path ih =>
        intro found hat
        rw [at?_cons] at hat
        obtain ⟨child, hchild, hat⟩ := Option.bind_eq_some_iff.mp hat
        have hroom := (depth_encode_le_iff_children.mp h).2 child (List.mem_of_getElem? hchild)
        have hdepth : child.encode.depth ≤ d - 2 := by omega
        have hbelow := ih hdepth found hat
        rw [List.length_cons]
        omega
  · intro h
    induction d using Nat.strongRecOn generalizing node with
    | ind d ih =>
        have htop := h [] node rfl
        rw [List.length_nil] at htop
        refine depth_encode_le_iff_children.mpr ⟨by omega, fun child hmem => ?_⟩
        obtain ⟨i, hchild⟩ := List.mem_iff_getElem?.mp hmem
        have hbelow {path : List Nat} {found : Node} (hat : child.at? path = some found) :
            2 * path.length + found.span + 2 ≤ d := by
          have hplace := h (i :: path) found (by rw [at?_cons, hchild]; exact hat)
          rw [List.length_cons] at hplace
          omega
        have hself : child.at? [] = some child := rfl
        have hroom := hbelow hself
        rw [List.length_nil] at hroom
        have hdepth : child.encode.depth ≤ d - 2 := by
          refine ih (d - 2) (by omega) fun path found hat => ?_
          have hplace := hbelow hat
          omega
        omega

/-! ## The depth of a text that is read -/

/-- How many arrays and objects of the node itself are open at once in any text of it: those of its
properties, if it has any, inside its object or array. -/
def core : Node → Nat
  | element _ (some p) _ => 1 + p.encode.depth
  | _ => 1

/-- A value of a node is an object or an array. -/
theorem Form.depth_pos {kind : Kind} {fields : List (String × Value)} (h : Form value kind fields) :
    1 ≤ value.depth := by
  cases h with
  | object | array => exact Nat.le_add_right 1 _

/-- The depth of a value that is decoded, place by place. -/
theorem depth_of_decode (h : decode value = .ok node) (path : List Nat)
    (hat : node.at? path = some found) : 2 * path.length + found.core ≤ value.depth := by
  revert path
  refine decode_induction (motive := fun value node => ∀ path, node.at? path = some found →
    2 * path.length + found.core ≤ value.depth) ?_ h
  intro value node kind fields hform hnode path hat
  have hpos := hform.depth_pos
  cases path with
  | nil =>
      cases hat
      rw [List.length_nil, Nat.mul_zero, Nat.zero_add]
      cases hnode with
      | @element tag properties children _ hfield _ =>
          cases hfield with
          | absent => exact hpos
          | @present value found hvalue hdecode =>
              cases found with
              | none => exact hpos
              | some p =>
                  have hmem : ("properties", value) ∈ fields :=
                    mem_valuesOf.mp (hvalue ▸ List.mem_singleton_self value)
                  have hpart := Value.depth_lt_of_mem_parts (hform.mem_parts hmem)
                  have hdepth := Properties.depth_encode_le_of_decode hdecode
                  have hbelow := Nat.lt_of_le_of_lt hdepth hpart
                  rw [Option.getD_some, core]
                  omega
      | root | text | comment | doctype => exact hpos
  | cons i path =>
      rw [at?_cons] at hat
      obtain ⟨child, hchild, hat⟩ := Option.bind_eq_some_iff.mp hat
      obtain ⟨items, item, hmem, hitem, -, hbelow⟩ := hnode.exists_item hchild
      have hinner : item.depth < (Value.array items).depth := Value.depth_lt_of_mem_parts hitem
      have houter : (Value.array items).depth < value.depth :=
        Value.depth_lt_of_mem_parts (hform.mem_parts hmem)
      have hplace := hbelow path hat
      rw [List.length_cons]
      omega

/-! ## Realigned properties -/

section

variable {options : Options} {properties : Properties} {alignment : String}

/-- Where an alignment is said by a class or a style, what was there stays, and strings come in. -/
theorem mem_members_restate {m : String × Value}
    (h : m ∈ (properties.restate options alignment).members) :
    m ∈ properties.members ∨ (∃ tokens : List String, m.2 = .array (tokens.map .string)) ∨
      ∃ s, m.2 = .string s := by
  unfold Properties.restate at h
  split at h
  · simp only [Properties.members, ClassName.push, ClassName.isAbsent, ClassName.encode,
      Option.map_none, Option.toList_none, List.nil_append, Bool.false_eq_true, if_false,
      List.mem_append, List.mem_singleton] at h
    rcases h with (rfl | hstyle) | hother
    · exact Or.inr (Or.inl ⟨_, rfl⟩)
    · exact Or.inl (List.mem_append_left _ (List.mem_append_right _ hstyle))
    · exact Or.inl (List.mem_append_right _ hother)
  · simp only [Properties.members, PropertyValue.encode, Option.map_none, Option.map_some,
      Option.toList_none, Option.toList_some, List.nil_append, List.mem_append,
      List.mem_singleton] at h
    rcases h with (hclass | rfl) | hother
    · exact Or.inl (List.mem_append_left _ (List.mem_append_left _
        (List.mem_append_right _ hclass)))
    · exact Or.inr (Or.inr ⟨_, rfl⟩)
    · exact Or.inl (List.mem_append_right _ hother)

/-- Restated properties need room for the list of a class, and otherwise no more than before. -/
theorem depth_encode_restate_le {d : Nat} (hlist : 2 ≤ d) (h : properties.encode.depth ≤ d) :
    (properties.restate options alignment).encode.depth ≤ d := by
  rw [Properties.encode, Value.depth] at h ⊢
  have hmembers : Value.depthMembers (properties.restate options alignment).members ≤ d - 1 := by
    refine Value.depthMembers_le_iff.mpr fun m hm => ?_
    rcases mem_members_restate hm with hold | ⟨tokens, htokens⟩ | ⟨s, hs⟩
    · exact Value.depthMembers_le_iff.mp (by omega) m hold
    · have hitems : Value.depthItems (tokens.map .string) ≤ 0 := by
        refine Value.depthItems_le_iff.mpr fun item hitem => ?_
        obtain ⟨token, -, rfl⟩ := List.mem_map.mp hitem
        exact Nat.le_refl 0
      rw [htokens, Value.depth]
      omega
    · rw [hs]
      exact Nat.zero_le _
  omega

/-- Restated properties have whole numbers if the properties had. -/
theorem exact_encode_restate (h : properties.encode.Exact) :
    (properties.restate options alignment).encode.Exact := by
  refine Value.exactMembers_iff.mpr fun m hm => ?_
  rcases mem_members_restate hm with hold | ⟨tokens, htokens⟩ | ⟨s, hs⟩
  · exact Value.exactMembers_iff.mp h m hold
  · rw [htokens]
    refine Value.exactItems_iff.mpr fun item hitem => ?_
    obtain ⟨token, -, rfl⟩ := List.mem_map.mp hitem
    trivial
  · rw [hs]
    trivial

end

/-! ## Room for a tree -/

/-- Every root and every element stands where there is room for it and for an array inside it. -/
def LeavesRoom (node : Node) : Prop :=
  ∀ path found, node.at? path = some found → found.children?.isSome →
    2 * path.length + 2 ≤ nestingLimit

/-- Where there was room for the text of a node, there is room for the node realigned if there is
for its children: since each step down takes an object and an array, the properties of an element
never reach the limit. -/
theorem span_realign_le_iff {steps : Nat} (h : 2 * steps + node.core ≤ nestingLimit)
    (options : Options) :
    2 * steps + (node.realign options).span ≤ nestingLimit ↔
      (node.children?.isSome → 2 * steps + 2 ≤ nestingLimit) := by
  cases node with
  | root children => simp [realign, span, children?]
  | element tag properties children =>
      cases properties with
      | none =>
          have hnone : Properties.realign options tag none = none := by
            unfold Properties.realign
            split <;> rfl
          simp [realign, hnone, span, children?]
      | some p =>
          have hpos : 1 ≤ p.encode.depth := Nat.le_add_right 1 _
          have hlimit : nestingLimit = 127 := rfl
          have hkeeps : ∀ q ∈ Properties.realign options tag (some p),
              q.encode.depth ≤ max 2 p.encode.depth := by
            refine keeps_realign (fun q alignment hq => ?_) ?_
            · exact depth_encode_restate_le (Nat.le_max_left 2 _) hq
            · rintro q ⟨rfl⟩
              exact Nat.le_max_right 2 _
          have hdepth : ((Properties.realign options tag (some p)).elim 0 fun q =>
              q.encode.depth) ≤ max 2 p.encode.depth := by
            cases hq : Properties.realign options tag (some p) with
            | none => exact Nat.zero_le _
            | some q => exact hkeeps q hq
          rw [core] at h
          rw [realign, span]
          constructor
          · intro _ _
            omega
          · intro _
            omega
  | text | comment | doctype =>
      have htop : 2 * steps + 1 ≤ nestingLimit := h
      simp [realign, span, children?, htop]

/-- A realigned tree nests no deeper than its text may, if there is room for its children. -/
theorem depth_encode_realign_le_iff (h : decode value = .ok node)
    (hdepth : value.depth ≤ nestingLimit) (options : Options) :
    (node.realign options).encode.depth ≤ nestingLimit ↔ node.LeavesRoom := by
  have hplace {path : List Nat} {found : Node} (hat : node.at? path = some found) :
      2 * path.length + (found.realign options).span ≤ nestingLimit ↔
        (found.children?.isSome → 2 * path.length + 2 ≤ nestingLimit) :=
    span_realign_le_iff (Nat.le_trans (depth_of_decode h path hat) hdepth) options
  rw [depth_encode_le_iff]
  constructor
  · intro hle path found hat
    have hrealigned : (node.realign options).at? path = some (found.realign options) := by
      rw [at?_realign, hat]
      rfl
    exact (hplace hat).mp (hle path _ hrealigned)
  · intro hroom path found hat
    rw [at?_realign] at hat
    obtain ⟨old, hold, rfl⟩ := Option.map_eq_some_iff.mp hat
    exact (hplace hold).mpr (hroom path old hold)

/-- There is room in a tree whose text is not nested as deep as may be. -/
theorem leavesRoom_of_depth_lt {text : String} {rest : List Char} (h : ofJson text = .ok node)
    (hvalue : readValue nestingLimit text.toList = .ok (value, rest))
    (hdepth : value.depth < nestingLimit) : node.LeavesRoom := by
  obtain ⟨value', rest', hvalue', -, -, hdecode⟩ := ofJson_eq_ok_iff.mp h
  obtain ⟨rfl, -⟩ := Prod.mk.inj (Except.ok.inj (hvalue.symm.trans hvalue'))
  intro path found hat hchildren
  have hplace := depth_of_decode hdecode path hat
  have hcore : 1 ≤ found.core := by
    unfold core
    split <;> omega
  omega

/-! ## Reading what was written -/

mutual

/-- A tree is written with whole numbers if its properties are. -/
theorem exact_encode : (node : Node) → node.Every (fun p => p.encode.Exact) → node.encode.Exact
  | .root children, h => by
      rw [encode]
      exact ⟨trivial, exactItems_encodeList children h, trivial⟩
  | .element tag none children, h => by
      rw [encode]
      exact ⟨trivial, trivial, exactItems_encodeList children h.2, trivial⟩
  | .element tag (some p) children, h => by
      rw [encode]
      exact ⟨trivial, trivial, h.1 p rfl, exactItems_encodeList children h.2, trivial⟩
  | .text _, _ | .comment _, _ => by
      rw [encode]
      exact ⟨trivial, trivial, trivial⟩
  | .doctype, _ => by
      rw [encode]
      exact ⟨trivial, trivial⟩

/-- The trees of a list are written with whole numbers if their properties are. -/
theorem exactItems_encodeList : (nodes : List Node) →
    EveryList (fun p => p.encode.Exact) nodes → Value.ExactItems (encodeList nodes)
  | [], _ => trivial
  | node :: nodes, h => ⟨exact_encode node h.1, exactItems_encodeList nodes h.2⟩

end

/-- A text is that of a tree, with a gap behind it at most. -/
def HasText (node : Node) (text : String) : Prop :=
  ∃ gap, IsGap gap ∧ text.toList = node.toJson.toList ++ gap

/-- A tree has the text that is written of it. -/
theorem hasText_toJson (node : Node) : node.HasText node.toJson :=
  ⟨[], nofun, (List.append_nil _).symm⟩

/-- A tree has the text that is written of it on a line of its own. -/
theorem hasText_line (node : Node) : node.HasText (node.toJson ++ "\n") := by
  refine ⟨['\n'], fun c hc => ?_, String.toList_append⟩
  obtain rfl := List.mem_singleton.mp hc
  rfl

section

variable {text : String}

/-- The text of a tree with whole numbers is read as the value of the tree, if there is room for it.
-/
theorem HasText.readValue_eq (h : node.HasText text) (hexact : node.Every fun p => p.encode.Exact)
    {room : Nat} (hdepth : node.encode.depth ≤ room) :
    ∃ rest, readValue room text.toList = .ok (node.encode, rest) ∧ readEnd rest = .ok () := by
  obtain ⟨gap, hgap, htext⟩ := h
  have hpretty : text.toList = node.encode.pretty 0 gap := by
    rw [htext, toJson, Value.toPretty, String.toList_ofList, ← Value.pretty_append, List.nil_append]
  have hends : Json.Numeral.EndsNumeral gap := by
    have hnone : Json.Numeral.EndsNumeral [] := by
      intro c hc
      cases hc
    have hgap' := Json.endsNumeral_append hgap hnone
    rwa [List.append_nil] at hgap'
  have hend : readEnd gap = .ok () := by
    have hskip := Json.skipGap_append hgap []
    rw [List.append_nil] at hskip
    rw [readEnd, hskip]
    rfl
  refine ⟨gap, ?_, hend⟩
  rw [hpretty]
  exact Json.readValue_pretty node.encode room 0 gap (exact_encode node hexact) hdepth hends

/-- The text of a tree with whole numbers is read back if there is room for it, and nothing else is
read in its place. -/
theorem HasText.ofJson_eq_ok_iff (h : node.HasText text)
    (hcanonical : node.Every Properties.Canonical)
    (hexact : node.Every fun p => p.encode.Exact) :
    ofJson text = .ok found ↔ found = node ∧ node.encode.depth ≤ nestingLimit := by
  rw [Node.ofJson_eq_ok_iff]
  constructor
  · rintro ⟨value, rest, hvalue, -, -, hdecode⟩
    -- With room enough the text is read as the tree, and more room changes nothing.
    have hroomy := Json.readValue_of_le (Nat.le_max_left nestingLimit node.encode.depth) hvalue
    obtain ⟨behind, hread, -⟩ :=
      h.readValue_eq hexact (Nat.le_max_right nestingLimit node.encode.depth)
    obtain ⟨rfl, -⟩ := Prod.mk.inj (Except.ok.inj (hread.symm.trans hroomy))
    have heq := (decode_encode node hcanonical).symm.trans hdecode
    exact ⟨(Except.ok.inj heq).symm, Json.depth_le_of_readValue hvalue⟩
  · rintro ⟨rfl, hdepth⟩
    obtain ⟨rest, hread, hend⟩ := h.readValue_eq hexact hdepth
    refine ⟨found.encode, rest, hread, hend, ?_, decode_encode found hcanonical⟩
    rw [encode_eq]
    exact .object List.mem_cons_self

/-- The numbers of a text are whole, as far as it is read as a value. -/
def WholeNumbers (text : String) : Prop :=
  ∀ value rest, readValue nestingLimit text.toList = .ok (value, rest) → value.Exact

/-- A tree that was read, realigned and written is read back if there is room for the children of
each node, and nothing else is read in its place. -/
theorem ofJson_realign_eq_ok_iff (h : ofJson text = .ok node) (hwhole : WholeNumbers text)
    {options : Options} {written : String} (htext : (node.realign options).HasText written) :
    ofJson written = .ok found ↔ found = node.realign options ∧ node.LeavesRoom := by
  obtain ⟨value, rest, hvalue, -, -, hdecode⟩ := Node.ofJson_eq_ok_iff.mp h
  have hexact := every_exact_of_decode hdecode (hwhole value rest hvalue)
  have hwritten : (node.realign options).Every fun p => p.encode.Exact :=
    every_realign (fun p alignment hp => exact_encode_restate hp) node hexact
  have hcanonical := canonical_realign options (every_of_ofJson h)
  rw [htext.ofJson_eq_ok_iff hcanonical hwritten,
    depth_encode_realign_le_iff hdecode (Json.depth_le_of_readValue hvalue)]

end

end CellAlign.Node

import CellAlign.Tree.Decode
import CellAlign.Tree.Encode

/-!
# Trees as values, encoded and decoded

What a value does not keep apart is left to `Properties.Canonical`: a known property that is null
cannot be told from one that is absent, and the open-ended properties must be told from the known
ones and from each other.

* `PropertyValue.decode_encode`, `ClassName.decode_encode`: values and classes are decoded back;
* `Properties.ofMembers_members`: so are canonical properties, in their order;
* `Node.encode_eq`: a node is encoded with its type first and its fields behind it;
* `Node.decode_encode`: a tree with canonical properties is decoded back.
-/

namespace CellAlign

open Json (Value Cause)

namespace PropertyValue

mutual

/-- A property value stands for itself. -/
theorem ofValue?_encode : (value : PropertyValue) → ofValue? value.encode = some value
  | .null | .bool _ | .number _ | .string _ => by rw [encode, ofValue?]
  | .list items => by rw [encode, ofValue?, ofValues?_encodeList items]

/-- The items of a list stand for themselves. -/
theorem ofValues?_encodeList : (items : List PropertyValue) →
    ofValues? (encodeList items) = some items
  | [] => by rw [encodeList, ofValues?]
  | item :: items => by
      rw [encodeList, ofValues?, ofValue?_encode item, ofValues?_encodeList items]

end

/-- A property value is decoded back. -/
theorem decode_encode (value : PropertyValue) : decode value.encode = .ok value := by
  rw [decode, ofValue?_encode]

/-- The value of a known property is decoded back, unless it is null. -/
theorem decodeKnown_encode {value : PropertyValue} (h : value ≠ .null) :
    decodeKnown value.encode = .ok (some value) := by
  have hdecode := decode_encode value
  cases value with
  | null => exact absurd rfl h
  | bool _ | number _ | string _ | list _ =>
      rw [encode] at hdecode ⊢
      rw [decodeKnown, hdecode]
      · rfl
      · exact nofun

end PropertyValue

namespace ClassName

/-- Strings are decoded back. -/
theorem strings?_map (tokens : List String) : strings? (tokens.map .string) = some tokens := by
  induction tokens with
  | nil => rfl
  | cons token tokens ih =>
      rw [List.map_cons, strings?, ih]
      rfl

/-- A class is decoded back. -/
theorem decode_encode (className : ClassName) : decode className.encode = .ok className := by
  cases className with
  | absent | single _ => rfl
  | list tokens => rw [encode, decode, strings?_map]

end ClassName

namespace Entries

variable {α : Type}

/-- A new key goes to the end. -/
theorem put_of_not_mem {key : String} {entries : Entries α} (h : key ∉ keys entries) (value : α) :
    put key value entries = entries ++ [(key, value)] := by
  induction entries with
  | nil => rfl
  | cons entry entries ih =>
      obtain ⟨k, v⟩ := entry
      rw [keys, List.map_cons, List.mem_cons, not_or] at h
      rw [put, if_neg fun heq => h.1 heq.symm, ih h.2]
      rfl

end Entries

namespace Properties

/-- The keys of the known properties. -/
def knownKeys : List String := ["align", "className", "style"]

/-- Properties that are told apart by their members: no known one is null, and the open-ended ones
have keys of their own. -/
structure Canonical (properties : Properties) : Prop where
  align : properties.align ≠ some .null
  style : properties.style ≠ some .null
  distinct : properties.other.keys.Nodup
  unknown : ∀ key ∈ properties.other.keys, key ∉ knownKeys

namespace Draft

/-- Members are taken in one part after the other. -/
theorem takeAll_append {draft next : Draft} {before : List (String × Value)}
    (h : draft.takeAll before = .ok next) (after : List (String × Value)) :
    draft.takeAll (before ++ after) = next.takeAll after := by
  induction before generalizing draft with
  | nil =>
      obtain rfl : draft = next := by simpa [takeAll] using h
      rfl
  | cons member before ih =>
      obtain ⟨key, value⟩ := member
      rw [List.cons_append, takeAll]
      rw [takeAll] at h
      cases hcheck : draft.checkKey key with
      | error cause =>
          rw [hcheck] at h
          cases h
      | ok =>
          cases htake : draft.take key value with
          | error cause =>
              rw [hcheck, htake] at h
              cases h
          | ok between =>
              rw [hcheck, htake] at h
              exact ih h

/-- Members with unknown keys are kept. -/
theorem takeAll_of_unknown
    (draft : Draft) {members : List (String × Value)} (h : ∀ m ∈ members, m.1 ∉ knownKeys) :
    draft.takeAll members = .ok { draft with other := members.reverse ++ draft.other } := by
  induction members generalizing draft with
  | nil => rfl
  | cons member members ih =>
      obtain ⟨key, value⟩ := member
      have hkey := h (key, value) List.mem_cons_self
      simp only [knownKeys, List.mem_cons, List.not_mem_nil, or_false, not_or] at hkey
      obtain ⟨halign, hclass, hstyle⟩ := hkey
      have hcheck : draft.checkKey key = .ok () := by
        simp [checkKey, halign, hclass, hstyle]
      have htake :
          draft.take key value = .ok { draft with other := (key, value) :: draft.other } := by
        rw [take, if_neg halign, if_neg hclass, if_neg hstyle]
      rw [takeAll, hcheck, htake]
      simp only
      rw [ih _ fun m hm => h m (List.mem_cons_of_mem _ hm)]
      simp

/-- An alignment that is there and is not null is taken in. -/
theorem takeAll_align {draft : Draft} (hnew : draft.align = none) {value : Option PropertyValue}
    (h : value ≠ some .null) :
    draft.takeAll (value.map fun v => ("align", v.encode)).toList =
      .ok { draft with align := value.map some } := by
  cases value with
  | none => simp [takeAll, ← hnew]
  | some v =>
      have hdecode := PropertyValue.decodeKnown_encode fun heq => h (congrArg some heq)
      simp [takeAll, checkKey, take, hnew, hdecode, Except.map]

/-- A style that is there and is not null is taken in. -/
theorem takeAll_style {draft : Draft} (hnew : draft.style = none) {value : Option PropertyValue}
    (h : value ≠ some .null) :
    draft.takeAll (value.map fun v => ("style", v.encode)).toList =
      .ok { draft with style := value.map some } := by
  cases value with
  | none => simp [takeAll, ← hnew]
  | some v =>
      have hdecode := PropertyValue.decodeKnown_encode fun heq => h (congrArg some heq)
      simp [takeAll, checkKey, take, hnew, hdecode, Except.map]

/-- A class that is not absent is taken in. -/
theorem takeAll_className {draft : Draft} (hnew : draft.className = none) (className : ClassName) :
    draft.takeAll (if className.isAbsent then [] else [("className", className.encode)]) =
      .ok { draft with className := if className.isAbsent then none else some className } := by
  cases habsent : className.isAbsent with
  | true => simp [takeAll, ← hnew]
  | false => simp [takeAll, checkKey, take, hnew, ClassName.decode_encode, Except.map]

/-- Canonical properties are taken in from their members. -/
theorem takeAll_members {properties : Properties} (h : properties.Canonical) :
    ({} : Draft).takeAll properties.members =
      .ok { align := properties.align.map some
            className := if properties.className.isAbsent then none else some properties.className
            style := properties.style.map some
            other := (properties.other.map fun entry => (entry.1, entry.2.encode)).reverse } := by
  have hunknown : ∀ m ∈ properties.other.map fun entry => (entry.1, entry.2.encode),
      m.1 ∉ knownKeys := by
    intro m hm
    obtain ⟨entry, hentry, rfl⟩ := List.mem_map.mp hm
    exact h.unknown entry.1 (List.mem_map_of_mem hentry)
  rw [members, List.append_assoc, List.append_assoc, takeAll_append (takeAll_align rfl h.align),
    takeAll_append (takeAll_className rfl properties.className),
    takeAll_append (takeAll_style rfl h.style), takeAll_of_unknown _ hunknown, List.append_nil]

/-- Distinct open-ended properties are decoded in their order. -/
theorem entries_encode {seen other : Entries PropertyValue}
    (h : (Entries.keys (seen ++ other)).Nodup) :
    entries seen (other.map fun entry => (entry.1, entry.2.encode)) = .ok (seen ++ other) := by
  induction other generalizing seen with
  | nil => simp [entries]
  | cons entry other ih =>
      obtain ⟨key, value⟩ := entry
      have hnew : key ∉ Entries.keys seen := by
        intro hmem
        rw [Entries.keys, List.map_append, List.map_cons] at h
        exact (List.nodup_append.mp h).2.2 key hmem key List.mem_cons_self rfl
      have hrest : (Entries.keys (seen ++ [(key, value)] ++ other)).Nodup := by
        simpa using h
      rw [List.map_cons, entries, PropertyValue.decode_encode]
      simp only
      rw [Entries.put_of_not_mem hnew, ih hrest]
      simp

end Draft

/-- Canonical properties are decoded back from their members. -/
theorem ofMembers_members {properties : Properties} (h : properties.Canonical) :
    ofMembers properties.members = .ok properties := by
  have hentries : Draft.entries [] (properties.other.map fun entry => (entry.1, entry.2.encode)) =
      .ok properties.other := Draft.entries_encode (by simpa using h.distinct)
  have hclass : (if properties.className.isAbsent then none
      else some properties.className).getD .absent = properties.className := by
    cases properties.className <;> rfl
  have hgetD : ∀ value : Option PropertyValue, (value.map some).getD none = value := by
    rintro (_ | _) <;> rfl
  rw [ofMembers, Draft.takeAll_members h]
  simp only [Draft.finish, List.reverse_reverse, hentries, Except.map, hclass, hgetD]

/-- Canonical properties are decoded back. -/
theorem decode_encode {properties : Properties} (h : properties.Canonical) :
    decode properties.encode = .ok (some properties) := by
  rw [encode, decode, ofMembers_members h]
  rfl

end Properties

namespace Node

/-- The name of a kind of node. -/
def Kind.name : Kind → String
  | root => "root"
  | element => "element"
  | text => "text"
  | comment => "comment"
  | doctype => "doctype"

/-- A kind is known by its name. -/
theorem Kind.ofName_name (kind : Kind) : ofName kind.name = .ok kind := by
  cases kind <;> rfl

/-- The kind of a node. -/
def kind : Node → Kind
  | root _ => .root
  | element _ _ _ => .element
  | text _ => .text
  | comment _ => .comment
  | doctype => .doctype

/-- The members of a node behind its type. -/
def fields : Node → List (String × Value)
  | root children => [("children", .array (encodeList children))]
  | element tag properties children =>
    ("tagName", .string tag) :: (properties.map fun p => ("properties", p.encode)).toList ++
      [("children", .array (encodeList children))]
  | text value => [("value", .string value)]
  | comment value => [("value", .string value)]
  | doctype => []

/-- A node is encoded with its type first. -/
theorem encode_eq (node : Node) :
    node.encode = .object (("type", .string node.kind.name) :: node.fields) := by
  cases node <;> rfl

/-- The other fields of a node have keys of their own. -/
theorem ne_type_of_mem_fields {node : Node} {m : String × Value} (h : m ∈ node.fields) :
    m.1 ≠ "type" := by
  cases node with
  | root _ | text _ | comment _ =>
      obtain rfl := List.mem_singleton.mp h
      simp
  | element tag properties children =>
      cases properties with
      | none =>
          obtain rfl | rfl : m = ("tagName", .string tag) ∨ m = ("children", _) := by
            simpa [fields] using h
          all_goals simp
      | some p =>
          obtain rfl | rfl | rfl : m = ("tagName", .string tag) ∨ m = ("properties", p.encode) ∨
              m = ("children", _) := by
            simpa [fields] using h
          all_goals simp
  | doctype => cases h

mutual

/-- All properties in a tree have a certain quality. -/
def Every (quality : Properties → Prop) : Node → Prop
  | .root children => EveryList quality children
  | .element _ properties children =>
    (∀ p ∈ properties, quality p) ∧ EveryList quality children
  | _ => True

/-- All properties in the trees of a list have a certain quality. -/
def EveryList (quality : Properties → Prop) : List Node → Prop
  | [] => True
  | node :: nodes => Every quality node ∧ EveryList quality nodes

end

/-- The trees of a list have a quality if each of them has it. -/
theorem everyList_iff {quality : Properties → Prop} {nodes : List Node} :
    EveryList quality nodes ↔ ∀ node ∈ nodes, node.Every quality := by
  induction nodes with
  | nil => simp [EveryList]
  | cons node nodes ih => simp [EveryList, ih]

/-- A kind known from a member before is that of a node if no member behind names another. -/
theorem Kind.ofMembers_of_known {members : List (String × Value)} (h : ∀ m ∈ members, m.1 ≠ "type")
    (kind : Kind) : ofMembers (some kind) members = .ok kind := by
  induction members with
  | nil => rfl
  | cons member members ih =>
      rw [ofMembers, if_neg (h member List.mem_cons_self)]
      exact ih fun m hm => h m (List.mem_cons_of_mem _ hm)

/-- The type of a node is no field of its. -/
theorem ofMembers_type (kind : Kind) (value : Value) (members : List (String × Value)) :
    ofMembers kind (("type", value) :: members) = ofMembers kind members := by
  cases kind <;> simp [ofMembers, decodeRoot, decodeElement, decodeContent]

/-- A node is decoded back if it is decoded back from its fields. -/
theorem decode_encode_of_fields {node : Node} (h : ofMembers node.kind node.fields = .ok node) :
    decode node.encode = .ok node := by
  have hkind : Kind.ofMembers none (("type", .string node.kind.name) :: node.fields) =
      .ok node.kind := by
    rw [Kind.ofMembers, if_pos rfl, Kind.decode, Kind.ofName_name]
    exact Kind.ofMembers_of_known (fun m hm => ne_type_of_mem_fields hm) node.kind
  rw [encode_eq, decode_object, hkind]
  simp only
  rw [ofMembers_type, h]

mutual

/-- A node is decoded back from its fields. -/
theorem ofMembers_fields : (node : Node) → node.Every Properties.Canonical →
    ofMembers node.kind node.fields = .ok node
  | .root children, h => by
      rw [Every] at h
      simp [kind, fields, ofMembers, decodeRoot, decodeChildren, decodeList_encodeList children h]
  | .element tag none children, h => by
      rw [Every] at h
      simp [kind, fields, ofMembers, decodeElement, decodeString, decodeChildren,
        ElementDraft.finish, decodeList_encodeList children h.2]
  | .element tag (some properties) children, h => by
      rw [Every] at h
      have hproperties := Properties.decode_encode (h.1 properties rfl)
      simp [kind, fields, ofMembers, decodeElement, decodeString, decodeChildren,
        ElementDraft.finish, decodeList_encodeList children h.2, hproperties]
  | .text value, _ => rfl
  | .comment value, _ => rfl
  | .doctype, _ => rfl

/-- The trees of a list are decoded back. -/
theorem decodeList_encodeList : (nodes : List Node) → EveryList Properties.Canonical nodes →
    decodeList (encodeList nodes) = .ok nodes
  | [], _ => rfl
  | node :: nodes, h => by
      rw [EveryList] at h
      rw [encodeList, decodeList, decode_encode_of_fields (ofMembers_fields node h.1),
        decodeList_encodeList nodes h.2]

end

/-- A tree with canonical properties is decoded back. -/
theorem decode_encode (node : Node) (h : node.Every Properties.Canonical) :
    decode node.encode = .ok node :=
  decode_encode_of_fields (ofMembers_fields node h)

end Node

end CellAlign

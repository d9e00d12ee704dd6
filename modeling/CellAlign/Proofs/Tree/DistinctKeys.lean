import CellAlign.Proofs.Tree.Decoding

/-!
# What is canonical is written with distinct keys

A properties object is written with the known properties first and the entries behind them.  In
canonical properties the entries have distinct keys, and none that is known, so no key comes twice;
every other object of a tree has fixed keys.

* `Json.Value.DistinctKeys`: no object in a value has a key twice;
* `Properties.mem_members`, `Properties.exists_keys_members`: the members of a properties object and
  their keys;
* `Node.distinctKeys_encode`: the value of a tree with canonical properties.
-/

namespace CellAlign

open Json (Value)

namespace Json.Value

mutual

/-- No object in a value has a key twice. -/
def DistinctKeys : Value → Prop
  | .array items => DistinctKeysItems items
  | .object members => (members.map Prod.fst).Nodup ∧ DistinctKeysMembers members
  | _ => True

/-- No object in the items of an array has a key twice. -/
def DistinctKeysItems : List Value → Prop
  | [] => True
  | value :: values => value.DistinctKeys ∧ DistinctKeysItems values

/-- No object in the members of an object has a key twice. -/
def DistinctKeysMembers : List (String × Value) → Prop
  | [] => True
  | (_, value) :: members => value.DistinctKeys ∧ DistinctKeysMembers members

end

/-- Items are looked at one by one. -/
theorem distinctKeysItems_iff {values : List Value} :
    DistinctKeysItems values ↔ ∀ value ∈ values, value.DistinctKeys := by
  induction values with
  | nil => simp [DistinctKeysItems]
  | cons value values ih => simp [DistinctKeysItems, ih]

/-- Members are looked at one by one. -/
theorem distinctKeysMembers_iff {members : List (String × Value)} :
    DistinctKeysMembers members ↔ ∀ m ∈ members, m.2.DistinctKeys := by
  induction members with
  | nil => simp [DistinctKeysMembers]
  | cons m members ih => simp [DistinctKeysMembers, ih]

end Json.Value

open Json.Value (DistinctKeys)

namespace PropertyValue

mutual

/-- There is no object in a property value. -/
theorem distinctKeys_encode : (value : PropertyValue) → value.encode.DistinctKeys
  | .null | .bool _ | .number _ | .string _ => trivial
  | .list items => distinctKeys_encodeList items

/-- There is no object in the items of a list. -/
theorem distinctKeys_encodeList : (items : List PropertyValue) →
    Json.Value.DistinctKeysItems (encodeList items)
  | [] => trivial
  | item :: items => ⟨distinctKeys_encode item, distinctKeys_encodeList items⟩

end

end PropertyValue

/-- There is no object in a class. -/
theorem ClassName.distinctKeys_encode (className : ClassName) :
    className.encode.DistinctKeys := by
  cases className with
  | absent | single _ => trivial
  | list tokens =>
      refine Json.Value.distinctKeysItems_iff.mpr fun value hvalue => ?_
      obtain ⟨token, -, rfl⟩ := List.mem_map.mp hvalue
      trivial

namespace Properties

/-- A member of a properties object is the class or a property value of its own name. -/
theorem mem_members {properties : Properties} {m : String × Value} (h : m ∈ properties.members) :
    (∃ v, properties.align = some v ∧ m = ("align", v.encode)) ∨
      m = ("className", properties.className.encode) ∨
      (∃ v, properties.style = some v ∧ m = ("style", v.encode)) ∨
      ∃ entry ∈ properties.other, m = (entry.1, entry.2.encode) := by
  rw [members, List.mem_append, List.mem_append, List.mem_append] at h
  rcases h with ((halign | hclass) | hstyle) | hother
  · obtain ⟨v, hv, rfl⟩ := Option.map_eq_some_iff.mp (Option.mem_toList.mp halign)
    exact Or.inl ⟨v, hv, rfl⟩
  · split at hclass
    · cases hclass
    · exact Or.inr (Or.inl (List.mem_singleton.mp hclass))
  · obtain ⟨v, hv, rfl⟩ := Option.map_eq_some_iff.mp (Option.mem_toList.mp hstyle)
    exact Or.inr (Or.inr (Or.inl ⟨v, hv, rfl⟩))
  · obtain ⟨entry, hentry, rfl⟩ := List.mem_map.mp hother
    exact Or.inr (Or.inr (Or.inr ⟨entry, hentry, rfl⟩))

/-- The members of properties have the keys of the known properties that are there, in their order,
and then those of the entries. -/
theorem exists_keys_members (properties : Properties) :
    ∃ known : List String, known.Sublist knownKeys ∧
      properties.members.map Prod.fst = known ++ properties.other.keys := by
  obtain ⟨align, className, style, other⟩ := properties
  have hother : (other.map fun entry => (entry.1, entry.2.encode)).map Prod.fst = other.keys := by
    rw [List.map_map]
    rfl
  refine ⟨(align.map fun _ => "align").toList ++
    (if className.isAbsent then [] else ["className"]) ++
    (style.map fun _ => "style").toList, ?_, ?_⟩
  · have halign : (align.map fun _ => "align").toList.Sublist ["align"] := by cases align <;> simp
    have hclass : (if className.isAbsent then [] else ["className"]).Sublist ["className"] := by
      split <;> simp
    have hstyle : (style.map fun _ => "style").toList.Sublist ["style"] := by cases style <;> simp
    exact (halign.append hclass).append hstyle
  · rw [members, List.map_append, hother]
    congr 1
    cases align <;> cases className <;> cases style <;> rfl

/-- Canonical properties are written with distinct keys. -/
theorem Canonical.distinctKeys_encode {properties : Properties} (h : properties.Canonical) :
    properties.encode.DistinctKeys := by
  obtain ⟨known, hknown, hkeys⟩ := exists_keys_members properties
  have hnodup : known.Nodup := hknown.nodup (by decide)
  refine ⟨?_, Json.Value.distinctKeysMembers_iff.mpr fun m hm => ?_⟩
  · rw [hkeys]
    refine List.nodup_append.mpr ⟨hnodup, h.distinct, fun key hkey other hother heq => ?_⟩
    exact h.unknown other hother (heq ▸ hknown.subset hkey)
  · rcases mem_members hm with ⟨v, -, rfl⟩ | rfl | ⟨v, -, rfl⟩ | ⟨entry, -, rfl⟩
    · exact PropertyValue.distinctKeys_encode v
    · exact ClassName.distinctKeys_encode _
    · exact PropertyValue.distinctKeys_encode v
    · exact PropertyValue.distinctKeys_encode entry.2

end Properties

namespace Node

mutual

/-- A tree with canonical properties is written without a key that is repeated in an object. -/
theorem distinctKeys_encode : (node : Node) → node.Every Properties.Canonical →
    node.encode.DistinctKeys
  | .root children, h => by
      have hchildren := distinctKeys_encodeList children h
      exact ⟨by simp, trivial, hchildren, trivial⟩
  | .element tag none children, h => by
      have hchildren := distinctKeys_encodeList children h.2
      exact ⟨by simp, trivial, trivial, hchildren, trivial⟩
  | .element tag (some properties) children, h => by
      have hproperties := (h.1 properties rfl).distinctKeys_encode
      have hchildren := distinctKeys_encodeList children h.2
      exact ⟨by simp, trivial, trivial, hproperties, hchildren, trivial⟩
  | .text _, _ | .comment _, _ => ⟨by simp, trivial, trivial, trivial⟩
  | .doctype, _ => ⟨by simp, trivial, trivial⟩

/-- The trees of a list are written without such a key. -/
theorem distinctKeys_encodeList : (nodes : List Node) → EveryList Properties.Canonical nodes →
    Json.Value.DistinctKeysItems (encodeList nodes)
  | [], _ => trivial
  | node :: nodes, h => ⟨distinctKeys_encode node h.1, distinctKeys_encodeList nodes h.2⟩

end

end Node

end CellAlign

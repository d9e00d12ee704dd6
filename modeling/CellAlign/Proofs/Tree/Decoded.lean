import CellAlign.Proofs.Tree.Outermost

/-!
# What decoding keeps

What is decoded stands in the value it is decoded from: the members of decoded properties are
members of their object, and a child is decoded from an item of the `children`.  So a quality of
values that goes down to their parts is one of what is decoded from them.

* `Properties.mem_of_mem_members`: decoded properties have no members of their own;
* `Node.every_of_decode`: what properties have from their value, all properties of a tree have;
* `Node.every_of_ofJson`: the properties of every tree that is read are canonical.
-/

namespace CellAlign

open Json (Value Cause valuesOf mem_valuesOf)

/-! ## Properties -/

namespace PropertyValue

mutual

/-- A value is written as what it stands for. -/
theorem encode_of_ofValue? : (value : Value) → {found : PropertyValue} →
    ofValue? value = some found → found.encode = value
  | .null, _, h | .bool _, _, h | .number _, _, h | .string _, _, h => by
      cases h
      rfl
  | .array items, found, h => by
      rw [ofValue?] at h
      split at h
      · next values hvalues =>
        cases h
        rw [encode, encodeList_of_ofValues? items hvalues]
      · cases h
  | .object _, _, h => by
      rw [ofValue?] at h
      cases h

/-- The items of an array are written as what they stand for. -/
theorem encodeList_of_ofValues? : (items : List Value) → {found : List PropertyValue} →
    ofValues? items = some found → encodeList found = items
  | [], _, h => by
      cases h
      rfl
  | item :: items, found, h => by
      rw [ofValues?] at h
      split at h
      · next value values hvalue hvalues =>
        cases h
        rw [encodeList, encode_of_ofValue? item hvalue, encodeList_of_ofValues? items hvalues]
      · cases h

end

/-- What is decoded is written as it was. -/
theorem encode_of_decode {value : Value} {found : PropertyValue} (h : decode value = .ok found) :
    found.encode = value := by
  unfold decode at h
  split at h
  · next hvalue =>
    cases h
    exact encode_of_ofValue? value hvalue
  · cases h

/-- What is decoded of a known property is written as it was. -/
theorem encode_of_decodeKnown {value : Value} {found : PropertyValue}
    (h : decodeKnown value = .ok (some found)) : found.encode = value := by
  unfold decodeKnown at h
  split at h
  · cases h
  · obtain ⟨v, hv, heq⟩ := exists_of_map_eq_ok h
    cases heq
    exact encode_of_decode hv

end PropertyValue

/-- The strings of an array of strings. -/
theorem ClassName.eq_map_of_strings? {items : List Value} {tokens : List String}
    (h : strings? items = some tokens) : items = tokens.map .string := by
  induction items generalizing tokens with
  | nil =>
      cases h
      rfl
  | cons item items ih =>
      cases item with
      | string s =>
          obtain ⟨rest, hrest, rfl⟩ := Option.map_eq_some_iff.mp h
          rw [ih hrest]
          rfl
      | null | bool | number | array | object => cases h

/-- A class that is not absent is written as it was. -/
theorem ClassName.encode_of_decode {value : Value} {found : ClassName}
    (h : decode value = .ok found) (hfound : found.isAbsent = false) : found.encode = value := by
  unfold decode at h
  split at h
  · cases h
    cases hfound
  · cases h
    rfl
  · split at h
    · next htokens =>
      cases h
      rw [encode, eq_map_of_strings? htokens]
    · cases h
  · cases h

/-- A value that is put among entries is the only one that was not there before. -/
theorem Entries.mem_of_mem_put {α : Type} {key : String} {value : α} {entries : Entries α}
    {entry : String × α} (h : entry ∈ put key value entries) :
    entry = (key, value) ∨ entry ∈ entries := by
  induction entries with
  | nil => exact Or.inl (List.mem_singleton.mp h)
  | cons first entries ih =>
      obtain ⟨k, v⟩ := first
      rw [put] at h
      split at h
      · next hk =>
        rcases List.mem_cons.mp h with rfl | hrest
        · exact Or.inl (hk ▸ rfl)
        · exact Or.inr (List.mem_cons_of_mem _ hrest)
      · rcases List.mem_cons.mp h with rfl | hrest
        · exact Or.inr List.mem_cons_self
        · rcases ih hrest with hnew | hold
          · exact Or.inl hnew
          · exact Or.inr (List.mem_cons_of_mem _ hold)

namespace Properties

/-- An entry is written as one of the members that entries are made from. -/
theorem Draft.mem_of_entries {seen found : Entries PropertyValue} {members : List (String × Value)}
    (h : entries seen members = .ok found) {entry : String × PropertyValue}
    (hentry : entry ∈ found) : entry ∈ seen ∨ (entry.1, entry.2.encode) ∈ members := by
  induction members generalizing seen with
  | nil =>
      obtain rfl : seen = found := by simpa [entries] using h
      exact Or.inl hentry
  | cons m members ih =>
      obtain ⟨key, value⟩ := m
      rw [entries] at h
      split at h
      · next v hv =>
        rcases ih h with hput | hlater
        · rcases Entries.mem_of_mem_put hput with rfl | hseen
          · have hencode := PropertyValue.encode_of_decode hv
            exact Or.inr (hencode ▸ List.mem_cons_self)
          · exact Or.inl hseen
        · exact Or.inr (List.mem_cons_of_mem _ hlater)
      · cases h

/-- The members of decoded properties are members of the object they are decoded from. -/
theorem mem_of_mem_members {members : List (String × Value)} {properties : Properties}
    (h : ofMembers members = .ok properties) {m : String × Value} (hm : m ∈ properties.members) :
    m ∈ members := by
  obtain ⟨align, className, style, other, halign, hclass, hstyle, hother, rfl⟩ :=
    ofMembers_eq_ok_iff.mp h
  have hknown {key : String} {known : Option (Option PropertyValue)}
      (hfield : Field PropertyValue.decodeKnown key members known)
      (hmem : m ∈ ((known.getD none).map fun v => (key, v.encode)).toList) : m ∈ members := by
    cases hfield with
    | absent => cases hmem
    | @present value found hvalue hdecode =>
        obtain ⟨v, rfl, rfl⟩ := Option.map_eq_some_iff.mp (Option.mem_toList.mp hmem)
        have hencode := PropertyValue.encode_of_decodeKnown hdecode
        exact hencode ▸ mem_valuesOf.mp (hvalue ▸ List.mem_singleton.mpr rfl)
  simp only [Properties.members, List.mem_append] at hm
  rcases hm with ((hm | hm) | hm) | hm
  · exact hknown halign hm
  · cases hclass with
    | absent => cases hm
    | @present value found hvalue hdecode =>
        cases habsent : found.isAbsent with
        | true => simp [habsent] at hm
        | false =>
            have hencode := ClassName.encode_of_decode hdecode habsent
            obtain rfl : m = ("className", found.encode) := by simpa [habsent] using hm
            exact hencode ▸ mem_valuesOf.mp (hvalue ▸ List.mem_singleton.mpr rfl)
  · exact hknown hstyle hm
  · obtain ⟨entry, hentry, rfl⟩ := List.mem_map.mp hm
    rcases Draft.mem_of_entries hother hentry with hseen | hmember
    · cases hseen
    · exact (List.mem_filter.mp hmember).1

/-- An element has the properties of an object. -/
theorem exists_object_of_decode {value : Value} {properties : Properties}
    (h : decode value = .ok (some properties)) :
    ∃ members, value = .object members ∧ ofMembers members = .ok properties := by
  unfold decode at h
  split at h
  · cases h
  · next members =>
    obtain ⟨found, hfound, heq⟩ := exists_of_map_eq_ok h
    cases heq
    exact ⟨members, rfl, hfound⟩
  · cases h

/-- Decoded properties are nested no deeper than what they are decoded from. -/
theorem depth_encode_le_of_decode {value : Value} {properties : Properties}
    (h : decode value = .ok (some properties)) : properties.encode.depth ≤ value.depth := by
  obtain ⟨members, rfl, hmembers⟩ := exists_object_of_decode h
  have hdepth : Value.depthMembers properties.members ≤ Value.depthMembers members := by
    refine Value.depthMembers_le_iff.mpr fun m hm => ?_
    exact Value.depthMembers_le_iff.mp (Nat.le_refl _) m (mem_of_mem_members hmembers hm)
  rw [encode, Value.depth, Value.depth]
  omega

/-- Decoded properties have whole numbers if they are decoded from such. -/
theorem exact_encode_of_decode {value : Value} {properties : Properties}
    (h : decode value = .ok (some properties)) (hvalue : value.Exact) :
    properties.encode.Exact := by
  obtain ⟨members, rfl, hmembers⟩ := exists_object_of_decode h
  refine Value.exactMembers_iff.mpr fun m hm => ?_
  exact Value.exactMembers_iff.mp hvalue m (mem_of_mem_members hmembers hm)

end Properties

/-! ## Trees -/

namespace Node

variable {value : Value} {node : Node} {kind : Kind} {fields : List (String × Value)}

/-- Where children are shown by items, each child is shown by one of them. -/
theorem Assembled.exists_item {shown : Value → Node → Prop}
    (h : Assembled shown fields kind node) {i : Nat} {child : Node}
    (hchild : (node.children?.getD [])[i]? = some child) :
    ∃ items item, ("children", Value.array items) ∈ fields ∧ item ∈ items ∧ shown item child := by
  have hrow {nodes : List Node} (h : Row shown fields nodes) (hnode : nodes[i]? = some child) :
      ∃ items item, ("children", Value.array items) ∈ fields ∧ item ∈ items ∧
        shown item child := by
    cases h with
    | absent => cases hnode
    | @items items _ h hitems =>
        obtain ⟨hlt, rfl⟩ := List.getElem?_eq_some_iff.mp hnode
        have hlt' : i < items.length := hitems.length_eq ▸ hlt
        exact ⟨items, items[i], mem_valuesOf.mp (h ▸ List.mem_singleton.mpr rfl),
          List.getElem_mem hlt', hitems.get hlt' hlt⟩
  cases h with
  | root h => exact hrow h hchild
  | element _ _ h => exact hrow h hchild
  | text | comment | doctype => cases hchild

/-- What the properties of elements have from the values they are decoded from, if their parts are
as good, all properties of a tree have. -/
theorem every_of_decode (good : Value → Prop) {quality : Properties → Prop}
    (hparts : ∀ value, good value → ∀ part ∈ value.parts, good part)
    (hproperties : ∀ value properties, good value →
      Properties.decode value = .ok (some properties) → quality properties)
    (h : decode value = .ok node) (hgood : good value) : node.Every quality := by
  revert hgood
  refine decode_induction (motive := fun value node => good value → node.Every quality) ?_ h
  intro value node kind fields hform hnode hgood
  have hfield {m : String × Value} (hm : m ∈ fields) : good m.2 :=
    hparts value hgood m.2 (hform.mem_parts hm)
  have hchildren : EveryList quality (node.children?.getD []) := by
    refine everyList_iff.mpr fun child hchild => ?_
    obtain ⟨i, hi⟩ := List.mem_iff_getElem?.mp hchild
    obtain ⟨items, item, hmem, hitem, -, hevery⟩ := hnode.exists_item hi
    exact hevery (hparts (.array items) (hfield hmem) item hitem)
  cases hnode with
  | root => exact hchildren
  | @element tag properties children _ hdecode _ =>
      refine ⟨fun p hp => ?_, hchildren⟩
      cases hdecode with
      | absent => cases hp
      | @present value found hvalue hdecode =>
          obtain rfl : found = some p := hp
          have hmem : ("properties", value) ∈ fields :=
            mem_valuesOf.mp (hvalue ▸ List.mem_singleton.mpr rfl)
          exact hproperties value p (hfield hmem) hdecode
  | text | comment | doctype => trivial

/-- The tree of a JSON text has canonical properties. -/
theorem every_of_ofJson {text : String} (h : ofJson text = .ok node) :
    node.Every Properties.Canonical := by
  obtain ⟨value, -, -, -, -, hdecode⟩ := ofJson_eq_ok_iff.mp h
  refine every_of_decode (fun _ => True) (fun _ _ _ _ => trivial) ?_ hdecode trivial
  intro value properties _ hproperties
  exact Properties.canonical_decode hproperties properties rfl

/-- The properties of a decoded tree have whole numbers if the value has. -/
theorem every_exact_of_decode (h : decode value = .ok node) (hvalue : value.Exact) :
    node.Every fun properties => properties.encode.Exact :=
  every_of_decode Value.Exact (fun _ hgood _ hpart => hgood.of_mem_parts hpart)
    (fun _ _ hgood hdecode => Properties.exact_encode_of_decode hdecode hgood) h hvalue

end Node

end CellAlign

import CellAlign.Proofs.Tree.Decoded
import CellAlign.Proofs.Tree.DistinctKeys

/-!
# The grammar of trees

A tree in JSON is given by objects.  Each has a `type` and the fields of that type; a root or an
element has its children in an array, an element its properties in an object.  Everything else that
an object holds is left aside, and a field that may be absent may not be null, but for the
properties.

The reader takes nodes in other forms as well, as arrays and with types by number.  Where a text has
none of those and no key twice, what is read is what the grammar says.

* `PropertyValue.Plain`, `ClassName.Shown`, `Properties.Shown`: properties in the grammar;
* `Node.Hast`: nodes in the grammar;
* `Node.ReadAsNode`: the places at which a node is looked for;
* `Node.ofJson_eq_ok_iff_hast`: the texts of trees are those of the grammar.
-/

namespace CellAlign

open Json (Value Cause valuesOf mem_valuesOf length_valuesOf_le_one readValue readEnd
  nestingLimit readValue_pretty)

/-- The parts of a value without repeated keys have none. -/
theorem Json.Value.DistinctKeys.of_mem_parts {value part : Value} (h : value.DistinctKeys)
    (hpart : part ∈ value.parts) : part.DistinctKeys := by
  cases value with
  | array items => exact distinctKeysItems_iff.mp h part hpart
  | object members =>
      obtain ⟨m, hm, rfl⟩ := List.mem_map.mp hpart
      exact distinctKeysMembers_iff.mp h.2 m hm
  | null | bool | number | string => cases hpart

/-- Where a key has one value at most, its field is what the member with it is decoded to. -/
theorem field_iff {α : Type} {decode : Value → Except Cause α} {key : String}
    {members : List (String × Value)} {found : Option α}
    (hone : (valuesOf key members).length ≤ 1) :
    Field decode key members found ↔
      (found = none ∧ ∀ value, (key, value) ∉ members) ∨
      ∃ value a, (key, value) ∈ members ∧ decode value = .ok a ∧ found = some a := by
  constructor
  · rintro (h | ⟨h, hdecode⟩)
    · refine Or.inl ⟨rfl, fun value hmem => ?_⟩
      have hvalue := mem_valuesOf.mpr hmem
      rw [h] at hvalue
      cases hvalue
    · exact Or.inr ⟨_, _, mem_valuesOf.mp (h ▸ List.mem_singleton.mpr rfl), hdecode, rfl⟩
  · rintro (⟨rfl, habsent⟩ | ⟨value, a, hmem, hdecode, rfl⟩)
    · refine .absent (List.eq_nil_iff_forall_not_mem.mpr fun value hvalue => ?_)
      exact habsent value (mem_valuesOf.mp hvalue)
    · obtain ⟨other, hother⟩ : ∃ other, valuesOf key members = [other] := by
        apply List.length_eq_one_iff.mp
        have hpos := List.length_pos_of_mem (mem_valuesOf.mpr hmem)
        omega
      have hvalue := mem_valuesOf.mpr hmem
      rw [hother] at hvalue
      obtain rfl := List.mem_singleton.mp hvalue
      exact .present hother hdecode

/-! ## Properties -/

namespace PropertyValue

/-- A JSON value without an object at any depth, and the property value it stands for. -/
inductive Plain : Value → PropertyValue → Prop
  | null : Plain .null .null
  | bool (b : Bool) : Plain (.bool b) (.bool b)
  | number (n : Json.Number) : Plain (.number n) (.number n)
  | string (s : String) : Plain (.string s) (.string s)
  | list {items : List Value} {values : List PropertyValue} (h : List.Forall₂ Plain items values) :
      Plain (.array items) (.list values)

mutual

/-- What stands for a property value is plain. -/
theorem ofValue?_eq_some_iff : (value : Value) → (v : PropertyValue) →
    (ofValue? value = some v ↔ Plain value v)
  | .null, v | .bool _, v | .number _, v | .string _, v => by
      constructor
      · intro h
        cases h
        constructor
      · intro h
        cases h
        rfl
  | .array items, v => by
      have hitems := ofValues?_eq_some_iff items
      rw [ofValue?]
      constructor
      · intro h
        split at h
        · next values hvalues =>
          cases h
          exact .list ((hitems values).mp hvalues)
        · cases h
      · rintro (_ | _ | _ | _ | ⟨h⟩)
        rw [(hitems _).mpr h]
  | .object _, v => by
      constructor <;> intro h <;> cases h

/-- What stands for a list of property values is plain, item by item. -/
theorem ofValues?_eq_some_iff : (items : List Value) → (values : List PropertyValue) →
    (ofValues? items = some values ↔ List.Forall₂ Plain items values)
  | [], values => by cases values <;> simp [ofValues?]
  | item :: items, values => by
      have hitem := ofValue?_eq_some_iff item
      have hitems := ofValues?_eq_some_iff items
      rw [ofValues?]
      constructor
      · intro h
        split at h
        · next v vs hv hvs =>
          cases h
          exact .cons ((hitem v).mp hv) ((hitems vs).mp hvs)
        · cases h
      · rintro (_ | ⟨h, hrest⟩)
        rw [(hitem _).mpr h, (hitems _).mpr hrest]

end

/-- A property value is decoded from what is plain. -/
theorem decode_eq_ok_iff {value : Value} {v : PropertyValue} :
    decode value = .ok v ↔ Plain value v := by
  rw [← ofValue?_eq_some_iff, decode]
  cases ofValue? value <;> simp

/-- A known property is decoded from null or from anything else that is plain. -/
theorem decodeKnown_eq_ok_iff {value : Value} {found : Option PropertyValue} :
    decodeKnown value = .ok found ↔
      (value = .null ∧ found = none) ∨ value ≠ .null ∧ ∃ v, Plain value v ∧ found = some v := by
  constructor
  · intro h
    unfold decodeKnown at h
    split at h
    · cases h
      exact Or.inl ⟨rfl, rfl⟩
    · next hnull =>
      obtain ⟨v, hv, rfl⟩ := exists_of_map_eq_ok h
      exact Or.inr ⟨hnull, v, decode_eq_ok_iff.mp hv, rfl⟩
  · rintro (⟨rfl, rfl⟩ | ⟨hnull, v, hv, rfl⟩)
    · rfl
    · have hdecode := decode_eq_ok_iff.mpr hv
      unfold decodeKnown
      split
      · exact absurd rfl hnull
      · rw [hdecode]
        rfl

end PropertyValue

namespace ClassName

/-- A JSON value and the class it shows: null, a string or an array of strings. -/
inductive Shown : Value → ClassName → Prop
  | null : Shown .null .absent
  | single (token : String) : Shown (.string token) (.single token)
  | list (tokens : List String) : Shown (.array (tokens.map .string)) (.list tokens)

/-- A class is decoded from what shows it. -/
theorem decode_eq_ok_iff {value : Value} {className : ClassName} :
    decode value = .ok className ↔ Shown value className := by
  constructor
  · intro h
    unfold decode at h
    split at h
    · cases h
      exact .null
    · cases h
      exact .single _
    · split at h
      · next tokens htokens =>
        cases h
        rw [eq_map_of_strings? htokens]
        exact .list tokens
      · cases h
    · cases h
  · rintro (_ | _ | tokens)
    · rfl
    · rfl
    · rw [decode, strings?_map]

end ClassName

namespace Properties

/-- What the members of an object show for a known property: nothing if it is absent or null. -/
inductive Known (key : String) (members : List (String × Value)) : Option PropertyValue → Prop
  | absent (h : ∀ value, (key, value) ∉ members) : Known key members none
  | null (h : (key, .null) ∈ members) : Known key members none
  | present {value : Value} {v : PropertyValue} (h : (key, value) ∈ members) (hne : value ≠ .null)
      (hvalue : PropertyValue.Plain value v) : Known key members (some v)

/-- What the members of an object show for the class. -/
inductive KnownClass (members : List (String × Value)) : ClassName → Prop
  | absent (h : ∀ value, ("className", value) ∉ members) : KnownClass members .absent
  | present {value : Value} {className : ClassName} (h : ("className", value) ∈ members)
      (hvalue : ClassName.Shown value className) : KnownClass members className

/-- An entry is shown by a member with its key. -/
def EntryShown (m : String × Value) (entry : String × PropertyValue) : Prop :=
  m.1 = entry.1 ∧ PropertyValue.Plain m.2 entry.2

/-- The members of an object and the properties they show: the known ones by their keys, all others
as entries in their order. -/
structure Shown (members : List (String × Value)) (properties : Properties) : Prop where
  align : Known "align" members properties.align
  className : KnownClass members properties.className
  style : Known "style" members properties.style
  other : List.Forall₂ EntryShown (members.filter fun m => m.1 ∉ knownKeys) properties.other

/-- Members with distinct keys are entries in their order. -/
theorem Draft.entries_eq_ok_iff {seen found : Entries PropertyValue}
    {members : List (String × Value)} (hkeys : (seen.keys ++ members.map Prod.fst).Nodup) :
    entries seen members = .ok found ↔
      ∃ other, found = seen ++ other ∧ List.Forall₂ EntryShown members other := by
  induction members generalizing seen with
  | nil =>
      constructor
      · intro h
        obtain rfl : seen = found := Except.ok.inj h
        exact ⟨[], (List.append_nil seen).symm, .nil⟩
      · rintro ⟨other, rfl, h⟩
        cases h
        rw [entries, List.append_nil]
  | cons m members ih =>
      obtain ⟨key, value⟩ := m
      have hnew : key ∉ seen.keys := fun hmem =>
        (List.nodup_append.mp hkeys).2.2 key hmem key List.mem_cons_self rfl
      have hrest (v : PropertyValue) :
          (Entries.keys (seen ++ [(key, v)]) ++ members.map Prod.fst).Nodup := by
        simpa [Entries.keys] using hkeys
      rw [entries]
      constructor
      · intro h
        cases hdecode : PropertyValue.decode value with
        | error cause =>
            rw [hdecode] at h
            cases h
        | ok v =>
            rw [hdecode] at h
            simp only [Entries.put_of_not_mem hnew] at h
            obtain ⟨other, rfl, hother⟩ := (ih (hrest v)).mp h
            have hv := PropertyValue.decode_eq_ok_iff.mp hdecode
            exact ⟨(key, v) :: other, by simp, .cons ⟨rfl, hv⟩ hother⟩
      · rintro ⟨_, rfl, h⟩
        cases h with
        | @cons _ entry _ other hentry hother =>
            obtain ⟨k, v⟩ := entry
            obtain rfl : key = k := hentry.1
            rw [PropertyValue.decode_eq_ok_iff.mpr hentry.2]
            simp only [Entries.put_of_not_mem hnew]
            exact (ih (hrest v)).mpr ⟨other, by simp, hother⟩

/-- A known property is decoded from what shows it. -/
theorem field_known_iff {key : String} {members : List (String × Value)}
    {found : Option PropertyValue} (hone : (valuesOf key members).length ≤ 1) :
    (∃ value, Field PropertyValue.decodeKnown key members value ∧ found = value.getD none) ↔
      Known key members found := by
  simp only [field_iff hone, PropertyValue.decodeKnown_eq_ok_iff]
  constructor
  · rintro ⟨_, ⟨rfl, habsent⟩ | ⟨value, a, hmem, hvalue, rfl⟩, rfl⟩
    · exact .absent habsent
    · obtain ⟨rfl, rfl⟩ | ⟨hne, v, hv, rfl⟩ := hvalue
      · exact .null hmem
      · exact .present hmem hne hv
  · rintro (habsent | hmem | ⟨hmem, hne, hv⟩)
    · exact ⟨none, Or.inl ⟨rfl, habsent⟩, rfl⟩
    · exact ⟨some none, Or.inr ⟨_, _, hmem, Or.inl ⟨rfl, rfl⟩, rfl⟩, rfl⟩
    · exact ⟨some (some _), Or.inr ⟨_, _, hmem, Or.inr ⟨hne, _, hv, rfl⟩, rfl⟩, rfl⟩

/-- The class is decoded from what shows it. -/
theorem field_class_iff {members : List (String × Value)} {className : ClassName}
    (hone : (valuesOf "className" members).length ≤ 1) :
    (∃ value, Field ClassName.decode "className" members value ∧ className = value.getD .absent) ↔
      KnownClass members className := by
  simp only [field_iff hone, ClassName.decode_eq_ok_iff]
  constructor
  · rintro ⟨_, ⟨rfl, habsent⟩ | ⟨value, a, hmem, hvalue, rfl⟩, rfl⟩
    · exact .absent habsent
    · exact .present hmem hvalue
  · rintro (habsent | ⟨hmem, hvalue⟩)
    · exact ⟨none, Or.inl ⟨rfl, habsent⟩, rfl⟩
    · exact ⟨some _, Or.inr ⟨_, _, hmem, hvalue, rfl⟩, rfl⟩

/-- Properties are decoded from the members that show them. -/
theorem ofMembers_eq_ok_iff_shown {members : List (String × Value)} {properties : Properties}
    (hkeys : (members.map Prod.fst).Nodup) :
    ofMembers members = .ok properties ↔ Shown members properties := by
  have hfilter : (Entries.keys ([] : Entries PropertyValue) ++
      (members.filter fun m => m.1 ∉ knownKeys).map Prod.fst).Nodup :=
    hkeys.sublist (List.filter_sublist.map Prod.fst)
  have hone := length_valuesOf_le_one hkeys
  rw [ofMembers_eq_ok_iff]
  constructor
  · rintro ⟨align, className, style, other, halign, hclass, hstyle, hentries, rfl⟩
    obtain ⟨_, rfl, hother⟩ := (Draft.entries_eq_ok_iff hfilter).mp hentries
    exact ⟨(field_known_iff (hone _)).mp ⟨align, halign, rfl⟩,
      (field_class_iff (hone _)).mp ⟨className, hclass, rfl⟩,
      (field_known_iff (hone _)).mp ⟨style, hstyle, rfl⟩, hother⟩
  · intro h
    obtain ⟨align, className, style, other⟩ := properties
    obtain ⟨foundAlign, halign, rfl⟩ := (field_known_iff (hone _)).mpr h.align
    obtain ⟨foundClass, hclass, rfl⟩ := (field_class_iff (hone _)).mpr h.className
    obtain ⟨foundStyle, hstyle, rfl⟩ := (field_known_iff (hone _)).mpr h.style
    have hentries := (Draft.entries_eq_ok_iff hfilter).mpr ⟨other, rfl, h.other⟩
    exact ⟨foundAlign, foundClass, foundStyle, other, halign, hclass, hstyle, hentries, rfl⟩

end Properties

/-! ## Nodes -/

namespace Node

/-- What the members of an object show for the properties of an element. -/
inductive PropertiesShown (members : List (String × Value)) : Option Properties → Prop
  | absent (h : ∀ value, ("properties", value) ∉ members) : PropertiesShown members none
  | null (h : ("properties", .null) ∈ members) : PropertiesShown members none
  | object {inner : List (String × Value)} {properties : Properties}
      (h : ("properties", .object inner) ∈ members) (hinner : properties.Shown inner) :
      PropertiesShown members (some properties)

/-- The items that the members of an object show for the children: none if they are absent. -/
inductive ChildItems (members : List (String × Value)) : List Value → Prop
  | absent (h : ∀ value, ("children", value) ∉ members) : ChildItems members []
  | array {items : List Value} (h : ("children", .array items) ∈ members) : ChildItems members items

/-- A JSON value in the grammar of trees, and the tree it shows. -/
inductive Hast : Value → Node → Prop
  | root {members : List (String × Value)} {items : List Value} {children : List Node}
      (htype : ("type", .string "root") ∈ members) (hitems : ChildItems members items)
      (hchildren : List.Forall₂ Hast items children) :
      Hast (.object members) (.root children)
  | element {members : List (String × Value)} {tag : String} {properties : Option Properties}
      {items : List Value} {children : List Node}
      (htype : ("type", .string "element") ∈ members) (htag : ("tagName", .string tag) ∈ members)
      (hproperties : PropertiesShown members properties) (hitems : ChildItems members items)
      (hchildren : List.Forall₂ Hast items children) :
      Hast (.object members) (.element tag properties children)
  | text {members : List (String × Value)} {content : String}
      (htype : ("type", .string "text") ∈ members) (hvalue : ("value", .string content) ∈ members) :
      Hast (.object members) (.text content)
  | comment {members : List (String × Value)} {content : String}
      (htype : ("type", .string "comment") ∈ members)
      (hvalue : ("value", .string content) ∈ members) :
      Hast (.object members) (.comment content)
  | doctype {members : List (String × Value)} (htype : ("type", .string "doctype") ∈ members) :
      Hast (.object members) .doctype

/-- The members of a root, or those of an element but for its children. -/
inductive HasChildren (members : List (String × Value)) : Prop
  | root (htype : ("type", .string "root") ∈ members)
  | element {tag : String} {properties : Option Properties}
      (htype : ("type", .string "element") ∈ members) (htag : ("tagName", .string tag) ∈ members)
      (hproperties : PropertiesShown members properties)

/-- The parts of a value that are looked at as nodes: the whole of it, and the items of the children
of such a part that has some, up to and with the first that is not in the grammar. -/
inductive ReadAsNode (value : Value) : Value → Prop
  | top : ReadAsNode value value
  | item {members : List (String × Value)} {before behind : List Value} {item : Value}
      (houter : ReadAsNode value (.object members)) (hchildren : HasChildren members)
      (hitems : ("children", .array (before ++ item :: behind)) ∈ members)
      (hbefore : ∀ other ∈ before, ∃ node, Hast other node) : ReadAsNode value item

/-- A value is an object, and if it has a type, that is a string. -/
def NamedObject (value : Value) : Prop :=
  ∃ members, value = .object members ∧
    ∀ type, ("type", type) ∈ members → ∃ name, type = .string name

variable {value : Value} {node : Node} {members : List (String × Value)}

/-- What a part of a part is looked at as, it is looked at as in the whole. -/
theorem ReadAsNode.trans {outer part : Value} (houter : ReadAsNode value outer)
    (h : ReadAsNode outer part) : ReadAsNode value part := by
  induction h with
  | top => exact houter
  | item _ hchildren hitems hbefore ih => exact .item ih hchildren hitems hbefore

/-- The properties of an element are decoded from what shows them. -/
theorem field_properties_iff {found : Option Properties} (hkeys : (members.map Prod.fst).Nodup)
    (hinner : ∀ inner, ("properties", Value.object inner) ∈ members →
      (inner.map Prod.fst).Nodup) :
    (∃ value, Field Properties.decode "properties" members value ∧ found = value.getD none) ↔
      PropertiesShown members found := by
  simp only [field_iff (length_valuesOf_le_one hkeys _)]
  constructor
  · rintro ⟨_, ⟨rfl, habsent⟩ | ⟨value, found, hmem, hdecode, rfl⟩, rfl⟩
    · exact .absent habsent
    · unfold Properties.decode at hdecode
      split at hdecode
      · cases hdecode
        exact .null hmem
      · next inner =>
        obtain ⟨properties, hproperties, rfl⟩ := exists_of_map_eq_ok hdecode
        exact .object hmem
          ((Properties.ofMembers_eq_ok_iff_shown (hinner inner hmem)).mp hproperties)
      · cases hdecode
  · rintro (habsent | hmem | ⟨hmem, hshown⟩)
    · exact ⟨none, Or.inl ⟨rfl, habsent⟩, rfl⟩
    · exact ⟨some none, Or.inr ⟨_, _, hmem, rfl, rfl⟩, rfl⟩
    · have hproperties := (Properties.ofMembers_eq_ok_iff_shown (hinner _ hmem)).mpr hshown
      refine ⟨some (some _), Or.inr ⟨_, _, hmem, ?_, rfl⟩, rfl⟩
      rw [Properties.decode, hproperties]
      rfl

/-- A string field is the string of its member. -/
theorem field_string_iff {key content : String} (hkeys : (members.map Prod.fst).Nodup) :
    Field decodeString key members (some content) ↔ (key, .string content) ∈ members := by
  rw [field_iff (length_valuesOf_le_one hkeys _)]
  constructor
  · rintro (⟨h, -⟩ | ⟨value, s, hmem, hdecode, heq⟩)
    · cases h
    · cases heq
      cases value with
      | string s =>
          cases hdecode
          exact hmem
      | null | bool | number | array | object => cases hdecode
  · intro h
    exact Or.inr ⟨_, _, h, rfl, rfl⟩

/-- A row of children is that of the items. -/
theorem row_iff_childItems {shown : Value → Node → Prop} {children : List Node}
    (hkeys : (members.map Prod.fst).Nodup) :
    Row shown members children ↔
      ∃ items, ChildItems members items ∧ List.Forall₂ shown items children := by
  constructor
  · rintro (h | ⟨h, hitems⟩)
    · refine ⟨[], .absent fun value hmem => ?_, .nil⟩
      have hvalue := mem_valuesOf.mpr hmem
      rw [h] at hvalue
      cases hvalue
    · exact ⟨_, .array (mem_valuesOf.mp (h ▸ List.mem_singleton.mpr rfl)), hitems⟩
  · rintro ⟨items, habsent | hmem, hitems⟩
    · cases hitems
      refine .absent (List.eq_nil_iff_forall_not_mem.mpr fun value hvalue => ?_)
      exact habsent value (mem_valuesOf.mp hvalue)
    · exact .items (Json.valuesOf_eq_singleton hkeys hmem) hitems

/-- Items of children are those of a member. -/
theorem ChildItems.mem {items : List Value} {item : Value} (h : ChildItems members items)
    (hitem : item ∈ items) : ("children", Value.array items) ∈ members := by
  cases h with
  | absent => cases hitem
  | array h => exact h

/-- An item of the children has no repeated keys if the object has none. -/
theorem distinctKeys_of_item {items : List Value} {item : Value}
    (hkeys : (Value.object members).DistinctKeys) (hmem : ("children", Value.array items) ∈ members)
    (hitem : item ∈ items) : item.DistinctKeys := by
  have hpart : Value.array items ∈ (Value.object members).parts := List.mem_map_of_mem hmem
  exact (hkeys.of_mem_parts hpart).of_mem_parts hitem

/-- The properties object of an element has no repeated keys if the element has none. -/
theorem nodup_of_properties {inner : List (String × Value)}
    (hkeys : (Value.object members).DistinctKeys)
    (hmem : ("properties", Value.object inner) ∈ members) : (inner.map Prod.fst).Nodup := by
  have hpart : Value.object inner ∈ (Value.object members).parts := List.mem_map_of_mem hmem
  exact (hkeys.of_mem_parts hpart).1

/-- What is in the grammar is decoded, if no key is repeated. -/
theorem decode_of_hast (h : Hast value node) (hkeys : value.DistinctKeys) :
    decode value = .ok node := by
  induction hsize : sizeOf value using Nat.strongRecOn generalizing value node with
  | ind size ih =>
      -- All kinds of node have their type and, if any, their children alike.
      have htype {members : List (String × Value)} (hvalue : value = .object members) {kind : Kind}
          (hmem : ("type", .string kind.name) ∈ members) : Form value kind members := by
        subst hvalue
        exact .object ((field_iff (length_valuesOf_le_one hkeys.1 _)).mpr
          (Or.inr ⟨_, kind, hmem, Kind.ofName_name kind, rfl⟩))
      have hrow {members : List (String × Value)} (hvalue : value = .object members)
          {items : List Value} {children : List Node} (hitems : ChildItems members items)
          (hchildren : List.Forall₂ Hast items children) :
          Row (fun value node => decode value = .ok node) members children := by
        subst hvalue
        refine (row_iff_childItems hkeys.1).mpr ⟨items, hitems, ?_⟩
        have hdecode : ∀ item ∈ items, ∀ child, Hast item child → decode item = .ok child := by
          intro item hitem child hchild
          have hmem := hitems.mem hitem
          have houter : sizeOf (Value.array items) < sizeOf (Value.object members) :=
            Value.sizeOf_lt_of_mem_parts (List.mem_map_of_mem hmem)
          have hinner : sizeOf item < sizeOf (Value.array items) :=
            Value.sizeOf_lt_of_mem_parts hitem
          exact ih (sizeOf item) (by omega) hchild (distinctKeys_of_item hkeys hmem hitem) rfl
        have hboth := (List.forall₂_and_left _ _).mpr ⟨hdecode, hchildren⟩
        exact hboth.imp fun item child h => h.1 child h.2
      refine decode_eq_ok_iff.mpr ?_
      cases h with
      | root hmem hitems hchildren =>
          exact ⟨.root, _, htype rfl hmem, .root (hrow rfl hitems hchildren)⟩
      | element hmem htag hproperties hitems hchildren =>
          obtain ⟨found, hfield, rfl⟩ := (field_properties_iff hkeys.1
            fun _ hinner => nodup_of_properties hkeys hinner).mpr hproperties
          exact ⟨.element, _, htype rfl hmem,
            .element ((field_string_iff hkeys.1).mpr htag) hfield (hrow rfl hitems hchildren)⟩
      | text hmem hvalue =>
          exact ⟨.text, _, htype rfl hmem, .text ((field_string_iff hkeys.1).mpr hvalue)⟩
      | comment hmem hvalue =>
          exact ⟨.comment, _, htype rfl hmem, .comment ((field_string_iff hkeys.1).mpr hvalue)⟩
      | doctype hmem => exact ⟨.doctype, _, htype rfl hmem, .doctype⟩

/-- A value is in the grammar if no key in it is repeated and nodes are objects with types that are
strings wherever they are looked for. -/
def HastIfNamed (value : Value) (node : Node) : Prop :=
  value.DistinctKeys → (∀ part, ReadAsNode value part → NamedObject part) → Hast value node

/-- Where items are in the grammar each under its own conditions, they are so one after the other
under those of the object with the children. -/
theorem forall₂_hast (before : List Value) {items : List Value} {children : List Node}
    (h : List.Forall₂ HastIfNamed items children)
    (hkeys : (Value.object members).DistinctKeys)
    (hnodes : ∀ part, ReadAsNode (.object members) part → NamedObject part)
    (hchildren : HasChildren members) (hitems : ("children", .array (before ++ items)) ∈ members)
    (hbefore : ∀ other ∈ before, ∃ node, Hast other node) : List.Forall₂ Hast items children := by
  induction h generalizing before with
  | nil => exact .nil
  | @cons item child items children hitem _ ih =>
      have hread : ReadAsNode (.object members) item := .item .top hchildren hitems hbefore
      have hhast : Hast item child := by
        refine hitem (distinctKeys_of_item hkeys hitems (by simp)) fun part hpart => ?_
        exact hnodes part (hread.trans hpart)
      refine .cons hhast (ih (before ++ [item]) (by simpa using hitems) ?_)
      intro other hother
      rcases List.mem_append.mp hother with hother | hother
      · exact hbefore other hother
      · obtain rfl := List.mem_singleton.mp hother
        exact ⟨child, hhast⟩

/-- What is decoded is in the grammar, if no key is repeated and nodes are objects with types that
are strings wherever they are looked for. -/
theorem hast_of_decode (h : decode value = .ok node) (hkeys : value.DistinctKeys)
    (hnodes : ∀ part, ReadAsNode value part → NamedObject part) : Hast value node := by
  refine decode_induction (motive := HastIfNamed) ?_ h hkeys hnodes
  intro value node kind fields hform hnode hkeys hnodes
  obtain ⟨_, rfl, hnamed⟩ := hnodes value .top
  cases hform with
  | object hfield =>
      have htype : ("type", .string kind.name) ∈ fields := by
        have hone := length_valuesOf_le_one hkeys.1
        obtain ⟨h, -⟩ | ⟨type, found, hmem, hkind, heq⟩ := (field_iff (hone _)).mp hfield
        · cases h
        · cases heq
          obtain ⟨name, rfl⟩ := hnamed type hmem
          obtain rfl := Kind.ofName_eq_ok_iff.mp hkind
          exact hmem
      have hrow {children : List Node} (hchildren : HasChildren fields)
          (h : Row (fun value node => decode value = .ok node ∧ HastIfNamed value node) fields
            children) :
          ∃ items, ChildItems fields items ∧ List.Forall₂ Hast items children := by
        obtain ⟨items, hitems, hshown⟩ := (row_iff_childItems hkeys.1).mp h
        refine ⟨items, hitems, ?_⟩
        cases hitems with
        | absent =>
            cases hshown
            exact .nil
        | array hmem =>
            exact forall₂_hast [] (hshown.imp fun _ _ h => h.2) hkeys hnodes hchildren
              hmem nofun
      cases hnode with
      | root h =>
          obtain ⟨items, hitems, hchildren⟩ := hrow (.root htype) h
          exact .root htype hitems hchildren
      | element htag hproperties h =>
          have htag' := (field_string_iff hkeys.1).mp htag
          have hproperties' := (field_properties_iff hkeys.1
            fun _ hinner => nodup_of_properties hkeys hinner).mp ⟨_, hproperties, rfl⟩
          obtain ⟨items, hitems, hchildren⟩ := hrow (.element htype htag' hproperties') h
          exact .element htype htag' hproperties' hitems hchildren
      | text h => exact .text htype ((field_string_iff hkeys.1).mp h)
      | comment h => exact .comment htype ((field_string_iff hkeys.1).mp h)
      | doctype => exact .doctype htype

/-- The type of what is in the grammar is given by name. -/
theorem Hast.typedByName (h : Hast value node) : TypedByName value := by
  cases h with
  | root htype | element htype | text htype | comment htype | doctype htype => exact .object htype

/-- A text that is a value without repeated keys, in which nodes are objects with types that are
strings wherever they are looked for, is that of a tree if and only if the value is in the grammar
of trees; and the tree is the one that the grammar shows. -/
theorem ofJson_eq_ok_iff_hast {text : String} {rest : List Char}
    (hread : readValue nestingLimit text.toList = .ok (value, rest)) (hend : readEnd rest = .ok ())
    (hkeys : value.DistinctKeys) (hnodes : ∀ part, ReadAsNode value part → NamedObject part)
    (node : Node) : ofJson text = .ok node ↔ Hast value node := by
  rw [ofJson_eq_ok_iff]
  constructor
  · rintro ⟨found, more, hfound, -, -, hdecode⟩
    obtain rfl : value = found := (Prod.mk.inj (Except.ok.inj (hread.symm.trans hfound))).1
    exact hast_of_decode hdecode hkeys hnodes
  · intro h
    exact ⟨value, rest, hread, hend, h.typedByName, decode_of_hast h hkeys⟩

/-- A cell with properties of all kinds, whose content is left out, next to a text with a field that
means nothing. -/
theorem ofJson_eq_ok_iff_hast_cell :
    let properties : Value := .object
      [("align", .null), ("className", .array [.string "a"]), ("x", .array [.bool true])]
    let cell : Value := .object
      [("tagName", .string "td"), ("type", .string "element"), ("properties", properties)]
    let content : Value := .object
      [("type", .string "text"), ("value", .string "é"), ("children", .array [.null])]
    let value : Value := .object
      [("type", .string "root"), ("data", .object []), ("children", .array [cell, content])]
    let shown : Node := .element "td" (some { className := .list ["a"]
                                              other := [("x", .list [.bool true])] }) []
    readValue nestingLimit value.toPretty.toList = .ok (value, []) ∧ readEnd [] = .ok () ∧
      value.DistinctKeys ∧ (∀ part, ReadAsNode value part → NamedObject part) ∧
      ofJson value.toPretty = .ok (.root [shown, .text "é"]) := by
  intro properties cell content value shown
  have hread : readValue nestingLimit value.toPretty.toList = .ok (value, []) := by
    have hexact : value.Exact := by
      simp [value, cell, content, properties, Value.Exact, Value.ExactItems, Value.ExactMembers]
    have hback := readValue_pretty value nestingLimit 0 [] hexact (by decide) nofun
    rwa [← String.toList_ofList (l := value.pretty 0 [])] at hback
  have hkeys : value.DistinctKeys := by
    simp [value, cell, content, properties, Json.Value.DistinctKeys, Json.Value.DistinctKeysItems,
      Json.Value.DistinctKeysMembers]
  have hparts : ∀ part, ReadAsNode value part → part = value ∨ part = cell ∨ part = content := by
    intro part h
    induction h with
    | top => exact Or.inl rfl
    | @item members before behind item houter hchildren hitems hbefore ih =>
        rcases ih with h | h | h
        · obtain rfl := Value.object.inj h
          have hrow : before ++ item :: behind = [cell, content] := by simpa using hitems
          have hitem : item ∈ [cell, content] := hrow ▸ by simp
          exact Or.inr (by simpa using hitem)
        · obtain rfl := Value.object.inj h
          simp at hitems
        · obtain rfl := Value.object.inj h
          cases hchildren with
          | root htype => simp at htype
          | element htype => simp at htype
  have hnodes : ∀ part, ReadAsNode value part → NamedObject part := by
    intro part h
    rcases hparts part h with rfl | rfl | rfl
    · exact ⟨_, rfl, fun type htype => ⟨"root", by simpa using htype⟩⟩
    · exact ⟨_, rfl, fun type htype => ⟨"element", by simpa using htype⟩⟩
    · exact ⟨_, rfl, fun type htype => ⟨"text", by simpa using htype⟩⟩
  have hproperties : Properties.Shown
      [("align", .null), ("className", .array [.string "a"]), ("x", .array [.bool true])]
      { className := .list ["a"], other := [("x", .list [.bool true])] } := by
    refine ⟨.null (by simp), .present (by simp) (.list ["a"]), .absent (by simp), ?_⟩
    exact .cons ⟨rfl, .list (.cons (.bool true) .nil)⟩ .nil
  have hhast : Hast value (.root [shown, .text "é"]) := by
    refine .root (by simp) (.array (List.mem_of_getElem? (i := 2) rfl)) (.cons ?_ (.cons ?_ .nil))
    · exact .element (by simp) (List.mem_of_getElem? (i := 0) rfl)
        (.object (List.mem_of_getElem? (i := 2) rfl) hproperties) (.absent (by simp)) .nil
    · exact .text (by simp) (List.mem_of_getElem? (i := 1) rfl)
  exact ⟨hread, rfl, hkeys, hnodes,
    (ofJson_eq_ok_iff_hast hread rfl hkeys hnodes _).mpr hhast⟩

end Node

end CellAlign

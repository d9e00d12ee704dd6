import CellAlign.Proofs.Tree.Fields
import Mathlib.Data.List.Forall2

/-!
# Forms of a node

Below the top of a text a node is an object with a `type`, or an array that starts with the type and
goes on with fields by position.  Both come down to a kind and fields by their keys, and from those
the node is put together; so what holds of decoded trees is proved in one case for each kind.

* `Form`: a value as a kind and fields;
* `Assembled`: a node put together from fields;
* `decode_eq_ok_iff`: a value is decoded into what is put together from its form;
* `decode_induction`: induction over what is decoded.
-/

namespace CellAlign.Node

open Json (Value valuesOf mem_valuesOf)

variable {value : Value} {node : Node} {kind : Kind} {fields : List (String × Value)}

/-! ## Fields by position -/

/-- The names of the fields of a kind of node, in the order of an array. -/
def Kind.fieldNames : Kind → List String
  | root => ["children"]
  | element => ["tagName", "properties", "children"]
  | text => ["value"]
  | comment => ["value"]
  | doctype => []

/-- The children of a root by position are its field. -/
theorem decodeRootItems_eq_ok_iff {items : List Value} :
    decodeRootItems items = .ok node ↔
      items.length ≤ 1 ∧ decodeRoot none (Kind.root.fieldNames.zip items) = .ok node := by
  match items with
  | [] => simp [Kind.fieldNames, decodeRootItems, decodeRoot]
  | [children] =>
      cases hchildren : decodeChildren children <;>
        simp [Kind.fieldNames, decodeRootItems, decodeRoot, hchildren]
  | children :: _ :: _ =>
      cases hchildren : decodeChildren children <;>
        simp [Kind.fieldNames, decodeRootItems, decodeRoot, hchildren]

/-- The tag, the properties and the children of an element by position are its fields. -/
theorem decodeElementItems_eq_ok_iff {items : List Value} :
    decodeElementItems items = .ok node ↔
      items.length ≤ 3 ∧ decodeElement {} (Kind.element.fieldNames.zip items) = .ok node := by
  cases items with
  | nil => simp [Kind.fieldNames, decodeElementItems, decodeElement, ElementDraft.finish]
  | cons tag items =>
      cases htag : decodeString tag with
      | error cause =>
          rw [decodeElementItems, htag]
          simp [Kind.fieldNames, decodeElement, htag]
      | ok =>
          rcases items with _ | ⟨properties, _ | ⟨children, _ | ⟨next, more⟩⟩⟩
          · simp [Kind.fieldNames, decodeElementItems, decodeElement, htag, ElementDraft.finish]
          · cases hproperties : Properties.decode properties <;>
              simp [Kind.fieldNames, decodeElementItems, decodeElement, htag, hproperties,
                ElementDraft.finish]
          · cases hproperties : Properties.decode properties <;>
              cases hchildren : decodeChildren children <;>
              simp [Kind.fieldNames, decodeElementItems, decodeElement, htag, hproperties,
                hchildren, ElementDraft.finish]
          · cases hproperties : Properties.decode properties <;>
              cases hchildren : decodeChildren children <;>
              simp [Kind.fieldNames, decodeElementItems, decodeElement, htag, hproperties,
                hchildren]

/-- The content of a text or a comment by position is its field. -/
theorem decodeContentItems_eq_ok_iff {name content : String} {items : List Value} :
    decodeContentItems name items = .ok content ↔
      items.length ≤ 1 ∧ decodeContent none (["value"].zip items) = .ok content := by
  match items with
  | [] => simp [decodeContentItems, decodeContent]
  | [value] =>
      cases hvalue : decodeString value <;> simp [decodeContentItems, decodeContent, hvalue]
  | value :: _ :: _ =>
      cases hvalue : decodeString value <;> simp [decodeContentItems, decodeContent, hvalue]

/-- Fields by position are fields by their names. -/
theorem ofItems_eq_ok_iff {items : List Value} :
    ofItems kind items = .ok node ↔
      items.length ≤ kind.fieldNames.length ∧
        ofMembers kind (kind.fieldNames.zip items) = .ok node := by
  have hcontent {name : String} {f : String → Node} :
      (decodeContentItems name items).map f = .ok node ↔
        items.length ≤ 1 ∧ (decodeContent none (["value"].zip items)).map f = .ok node := by
    constructor
    · intro h
      obtain ⟨content, hitems, rfl⟩ := exists_of_map_eq_ok h
      obtain ⟨hlength, hmembers⟩ := decodeContentItems_eq_ok_iff.mp hitems
      exact ⟨hlength, by rw [hmembers]; rfl⟩
    · rintro ⟨hlength, h⟩
      obtain ⟨content, hmembers, rfl⟩ := exists_of_map_eq_ok h
      rw [decodeContentItems_eq_ok_iff.mpr ⟨hlength, hmembers⟩]
      rfl
  cases kind with
  | root => exact decodeRootItems_eq_ok_iff
  | element => exact decodeElementItems_eq_ok_iff
  | text => exact hcontent
  | comment => exact hcontent
  | doctype => cases items <;> simp [ofItems, ofMembers, Kind.fieldNames]

/-! ## A value as a kind and fields -/

/-- A value has the form of a node of a kind with some fields. -/
inductive Form : Value → Kind → List (String × Value) → Prop
  | object {members : List (String × Value)} {kind : Kind}
      (h : Field Kind.decode "type" members (some kind)) : Form (.object members) kind members
  | array {type : Value} {items : List Value} {kind : Kind} (h : Kind.decode type = .ok kind)
      (hlength : items.length ≤ kind.fieldNames.length) :
      Form (.array (type :: items)) kind (kind.fieldNames.zip items)

/-- The fields of a form are parts of the value. -/
theorem Form.mem_parts (h : Form value kind fields) {m : String × Value} (hm : m ∈ fields) :
    m.2 ∈ value.parts := by
  cases h with
  | object h => exact List.mem_map_of_mem hm
  | array h hlength => exact List.mem_cons_of_mem _ (List.of_mem_zip hm).2

/-- What is decoded has a form. -/
theorem decode_eq_ok_iff_form :
    decode value = .ok node ↔
      ∃ kind fields, Form value kind fields ∧ ofMembers kind fields = .ok node := by
  constructor
  · intro h
    cases value with
    | object members =>
        rw [decode_object] at h
        cases hkind : Kind.ofMembers none members with
        | error cause =>
            rw [hkind] at h
            cases h
        | ok kind =>
            rw [hkind] at h
            have hfield := FieldFrom.none_iff.mp (Kind.ofMembers_eq_ok_iff.mp hkind)
            exact ⟨kind, members, .object hfield, h⟩
    | array items =>
        cases items with
        | nil =>
            rw [decode] at h
            cases h
        | cons type fields =>
            rw [decode_array] at h
            cases hkind : Kind.decode type with
            | error cause =>
                rw [hkind] at h
                cases h
            | ok kind =>
                rw [hkind] at h
                obtain ⟨hlength, hmembers⟩ := ofItems_eq_ok_iff.mp h
                exact ⟨kind, _, .array hkind hlength, hmembers⟩
    | null | bool | number | string => simp [decode] at h
  · rintro ⟨kind, fields, hform, h⟩
    cases hform with
    | object hkind =>
        rw [decode_object, Kind.ofMembers_eq_ok_iff.mpr (FieldFrom.none_iff.mpr hkind)]
        exact h
    | array hkind hlength =>
        rw [decode_array, hkind]
        exact ofItems_eq_ok_iff.mpr ⟨hlength, h⟩

/-! ## A node from its fields -/

/-- Fields give a row of children that are shown in a certain way: none if the field is absent. -/
inductive Row (shown : Value → Node → Prop) (fields : List (String × Value)) : List Node → Prop
  | absent (h : valuesOf "children" fields = []) : Row shown fields []
  | items {items : List Value} {nodes : List Node} (h : valuesOf "children" fields = [.array items])
      (hitems : List.Forall₂ shown items nodes) : Row shown fields nodes

/-- A node of a kind is put together from fields, its children being shown in a certain way. -/
inductive Assembled (shown : Value → Node → Prop) (fields : List (String × Value)) :
    Kind → Node → Prop
  | root {children : List Node} (h : Row shown fields children) :
      Assembled shown fields .root (.root children)
  | element {tag : String} {properties : Option (Option Properties)} {children : List Node}
      (htag : Field decodeString "tagName" fields (some tag))
      (hproperties : Field Properties.decode "properties" fields properties)
      (h : Row shown fields children) :
      Assembled shown fields .element (.element tag (properties.getD none) children)
  | text {content : String} (h : Field decodeString "value" fields (some content)) :
      Assembled shown fields .text (.text content)
  | comment {content : String} (h : Field decodeString "value" fields (some content)) :
      Assembled shown fields .comment (.comment content)
  | doctype : Assembled shown fields .doctype .doctype

/-- Values are decoded one by one. -/
theorem decodeList_eq_ok_iff {items : List Value} {nodes : List Node} :
    decodeList items = .ok nodes ↔
      List.Forall₂ (fun value node => decode value = .ok node) items nodes := by
  induction items generalizing nodes with
  | nil => cases nodes <;> simp [decodeList]
  | cons value items ih =>
      rw [decodeList]
      cases nodes with
      | nil =>
          cases decode value with
          | error cause => simp
          | ok node => cases decodeList items <;> simp
      | cons node nodes =>
          rw [List.forall₂_cons, ← ih]
          cases decode value with
          | error cause => simp
          | ok node => cases decodeList items <;> simp

/-- A row of children is the field `children`. -/
theorem row_iff {nodes : List Node} :
    Row (fun value node => decode value = .ok node) fields nodes ↔
      ∃ children, Field decodeChildren "children" fields children ∧ children.getD [] = nodes := by
  constructor
  · rintro (h | ⟨h, hitems⟩)
    · exact ⟨none, .absent h, rfl⟩
    · refine ⟨some nodes, .present h ?_, rfl⟩
      rw [decodeChildren]
      exact decodeList_eq_ok_iff.mpr hitems
  · rintro ⟨children, h | ⟨h, hdecode⟩, rfl⟩
    · exact .absent h
    · next value nodes =>
      cases value with
      | array items =>
          rw [decodeChildren] at hdecode
          exact .items h (decodeList_eq_ok_iff.mp hdecode)
      | null | bool | number | string | object => simp [decodeChildren] at hdecode

/-- A node of a kind is what is put together from the fields. -/
theorem ofMembers_eq_ok_iff :
    ofMembers kind fields = .ok node ↔
      Assembled (fun value node => decode value = .ok node) fields kind node := by
  have hcontent {content : String} : decodeContent none fields = .ok content ↔
      Field decodeString "value" fields (some content) :=
    decodeContent_eq_ok_iff.trans FieldFrom.none_iff
  constructor
  · intro h
    cases kind with
    | root =>
        obtain ⟨children, hchildren, rfl⟩ := decodeRoot_eq_ok_iff.mp h
        exact .root (row_iff.mpr ⟨children, FieldFrom.none_iff.mp hchildren, rfl⟩)
    | element =>
        obtain ⟨tag, properties, children, htag, hproperties, hchildren, rfl⟩ :=
          decodeElement_eq_ok_iff.mp h
        exact .element (FieldFrom.none_iff.mp htag) (FieldFrom.none_iff.mp hproperties)
          (row_iff.mpr ⟨children, FieldFrom.none_iff.mp hchildren, rfl⟩)
    | text =>
        obtain ⟨content, hfield, rfl⟩ := exists_of_map_eq_ok h
        exact .text (hcontent.mp hfield)
    | comment =>
        obtain ⟨content, hfield, rfl⟩ := exists_of_map_eq_ok h
        exact .comment (hcontent.mp hfield)
    | doctype =>
        cases h
        exact .doctype
  · intro h
    cases h with
    | root h =>
        obtain ⟨children, hchildren, rfl⟩ := row_iff.mp h
        exact decodeRoot_eq_ok_iff.mpr ⟨children, FieldFrom.none_iff.mpr hchildren, rfl⟩
    | element htag hproperties h =>
        obtain ⟨children, hchildren, rfl⟩ := row_iff.mp h
        exact decodeElement_eq_ok_iff.mpr ⟨_, _, children, FieldFrom.none_iff.mpr htag,
          FieldFrom.none_iff.mpr hproperties, FieldFrom.none_iff.mpr hchildren, rfl⟩
    | text h | comment h =>
        rw [ofMembers, hcontent.mpr h]
        rfl
    | doctype => rfl

/-- What is put together depends on the values for the keys of the fields alone. -/
theorem Assembled.of_valuesOf_eq {shown : Value → Node → Prop} {others : List (String × Value)}
    (h : Assembled shown fields kind node)
    (heq : ∀ key ≠ "type", valuesOf key fields = valuesOf key others) :
    Assembled shown others kind node := by
  have hrow {nodes : List Node} (h : Row shown fields nodes) : Row shown others nodes := by
    have hchildren := heq "children" (by decide)
    cases h with
    | absent h => exact .absent (hchildren ▸ h)
    | items h hitems => exact .items (hchildren ▸ h) hitems
  cases h with
  | root h => exact .root (hrow h)
  | element htag hproperties h =>
      exact .element (htag.of_valuesOf_eq (heq _ (by decide)))
        (hproperties.of_valuesOf_eq (heq _ (by decide))) (hrow h)
  | text h => exact .text (h.of_valuesOf_eq (heq _ (by decide)))
  | comment h => exact .comment (h.of_valuesOf_eq (heq _ (by decide)))
  | doctype => exact .doctype

/-! ## Induction -/

/-- Children that are shown in one way may be shown in another. -/
theorem Assembled.imp {shown shown' : Value → Node → Prop}
    (h : Assembled shown fields kind node)
    (himp : ∀ items, ("children", Value.array items) ∈ fields → ∀ item ∈ items, ∀ child,
      shown item child → shown' item child) :
    Assembled shown' fields kind node := by
  have hrow {nodes : List Node} (h : Row shown fields nodes) : Row shown' fields nodes := by
    cases h with
    | absent h => exact .absent h
    | @items items _ h hitems =>
        have hmem : ("children", Value.array items) ∈ fields :=
          mem_valuesOf.mp (h ▸ List.mem_singleton.mpr rfl)
        have hboth := (List.forall₂_and_left _ _).mpr ⟨himp items hmem, hitems⟩
        exact .items h (hboth.imp fun item child h => h.1 child h.2)
  cases h with
  | root h => exact .root (hrow h)
  | element htag hproperties h => exact .element htag hproperties (hrow h)
  | text h => exact .text h
  | comment h => exact .comment h
  | doctype => exact .doctype

/-- A value is decoded into what is put together from its form. -/
theorem decode_eq_ok_iff :
    decode value = .ok node ↔ ∃ kind fields, Form value kind fields ∧
      Assembled (fun value node => decode value = .ok node) fields kind node := by
  rw [decode_eq_ok_iff_form]
  exact exists_congr fun kind => exists_congr fun fields => and_congr_right' ofMembers_eq_ok_iff

/-- What holds of a value and the node put together from its form, if it holds of the children,
holds of every value and the node it is decoded into. -/
theorem decode_induction {motive : Value → Node → Prop}
    (step : ∀ {value node kind fields}, Form value kind fields →
      Assembled (fun value node => decode value = .ok node ∧ motive value node) fields kind node →
      motive value node)
    (h : decode value = .ok node) : motive value node := by
  induction hsize : sizeOf value using Nat.strongRecOn generalizing value node with
  | ind size ih =>
      obtain ⟨kind, fields, hform, hnode⟩ := decode_eq_ok_iff.mp h
      refine step hform (hnode.imp ?_)
      intro items hmem item hitem child hchild
      have houter : sizeOf (Value.array items) < sizeOf value :=
        Value.sizeOf_lt_of_mem_parts (hform.mem_parts hmem)
      have hinner : sizeOf item < sizeOf (Value.array items) :=
        Value.sizeOf_lt_of_mem_parts hitem
      exact ⟨hchild, ih (sizeOf item) (by omega) hchild rfl⟩

end CellAlign.Node

import CellAlign.Proofs.Json.Walks
import CellAlign.Proofs.Tree.Forms
import CellAlign.Proofs.Tree.RoundTrip

/-!
# The outermost node

The outermost node of a text is read member by member or item by item, and all of its text may have
been read when a fault is found in it.  Where it is accepted, none of that can be seen: the text is
read as a value and the value is decoded, but for the type, which must be given by name.

* `Draft.Holds`, `Draft.HoldsItems`: what a draft of the outermost node holds of an object or array;
* `follows_readField`, `readField_follows`: the reader of its members and that of any object;
* `ofJson_eq_ok_iff`: the texts of trees.
-/

namespace CellAlign.Node

open Json

variable {text rest : List Char} {node : Node} {kind : Kind}

/-- The type of a node is given by name. -/
inductive TypedByName : Value → Prop
  | object {members : List (String × Value)} {name : String}
      (h : ("type", .string name) ∈ members) : TypedByName (.object members)
  | array {name : String} {fields : List Value} : TypedByName (.array (.string name :: fields))

/-! ## Kinds -/

/-- A name is that of the kind it is known as. -/
theorem Kind.ofName_eq_ok_iff {name : String} : ofName name = .ok kind ↔ name = kind.name := by
  constructor
  · intro h
    unfold ofName at h
    iterate 5
      split at h
      · cases h
        assumption
    cases h
  · rintro rfl
    exact ofName_name kind

/-- Kinds have names of their own. -/
theorem Kind.name_injective : Function.Injective name := by
  intro kind other h
  have hname : (.ok kind : Except Cause Kind) = .ok other := by
    rw [← ofName_name kind, h, ofName_name other]
  exact Except.ok.inj hname

/-- The kind of the outermost node is read like a string, its name. -/
theorem readKind_eq_ok_iff (depth : Nat) :
    readKind text = .ok (kind, rest) ↔ readValue depth text = .ok (.string kind.name, rest) := by
  rw [← readString_eq_ok_iff Kind.expected, readKind]
  cases hread : readString Kind.expected text with
  | error stop => simp
  | ok found =>
      obtain ⟨name, more⟩ := found
      cases hname : Kind.ofName name with
      | error cause =>
          simp only [hname, stopHere, Except.ok.injEq, Prod.mk.injEq, reduceCtorEq, false_iff]
          rintro ⟨rfl, -⟩
          rw [Kind.ofName_name] at hname
          cases hname
      | ok found =>
          obtain rfl := Kind.ofName_eq_ok_iff.mp hname
          simp only [hname, Except.ok.injEq, Prod.mk.injEq, Kind.name_injective.eq_iff]

/-- The name of a kind, if that is known, as the values that give it. -/
def typeValues (kind : Option Kind) : List Value := (kind.map fun kind => .string kind.name).toList

/-- A kind is known from its values. -/
theorem eq_some_of_typeValues {seen : Option Kind} (h : typeValues seen = [.string kind.name]) :
    seen = some kind := by
  cases seen with
  | none => cases h
  | some found =>
      have hname : found.name = kind.name := Value.string.inj (List.singleton_inj.mp h)
      rw [Kind.name_injective hname]

/-! ## Members and items -/

/-- A draft holds the members of an object that were read, last first: the type as its kind, and all
others as its fields. -/
structure Draft.Holds (draft : Draft (String × Value)) (members : List (String × Value)) :
    Prop where
  kind : valuesOf "type" members = typeValues draft.kind
  fields : draft.fields = members.filter fun m => m.1 ≠ "type"

/-- A draft holds the items of an array that were read, last first: the type, which comes before all
others, as its kind, and all others as its fields. -/
structure Draft.HoldsItems (draft : Draft Value) (items : List Value) : Prop where
  items : items = draft.fields ++ typeValues draft.kind
  first : draft.kind = none → draft.fields = []

/-- An empty draft holds no members. -/
theorem Draft.holds_empty : ({} : Draft (String × Value)).Holds [] := ⟨rfl, rfl⟩

/-- An empty draft holds no items. -/
theorem Draft.holdsItems_empty : ({} : Draft Value).HoldsItems [] := ⟨rfl, fun _ => rfl⟩

/-- What the outermost node takes in is taken in by any object. -/
theorem follows_readField :
    Follows (fun _ => True) Draft.Holds (Json.readMember readMember)
      (Json.readMember (readField (nestingLimit - 1))) := by
  refine Follows.ofMember (fun _ _ => trivial) ?_
  intro draft next key text rest hread _ members hholds
  by_cases hkey : key = "type"
  · subst hkey
    obtain ⟨seen, fields⟩ := draft
    rw [readMember, if_pos rfl] at hread
    cases seen with
    | some => cases hread
    | none =>
        cases hcolon : readColon text with
        | error stop =>
            rw [hcolon] at hread
            cases hread
        | ok behind =>
            simp only [hcolon] at hread
            obtain ⟨kind, hkind, rfl⟩ := mapRead_eq_ok_iff.mp hread
            have hvalue := (readKind_eq_ok_iff (nestingLimit - 1)).mp hkind
            refine ⟨_, readField_eq_ok_iff.mpr ⟨behind, _, hcolon, hvalue, rfl⟩, ?_, ?_⟩
            · rw [valuesOf_cons_self, hholds.kind]
              rfl
            · rw [List.filter_cons_of_neg (by simp)]
              exact hholds.fields
  · rw [readMember_eq hkey] at hread
    obtain ⟨fields, hfields, rfl⟩ := mapRead_eq_ok_iff.mp hread
    obtain ⟨behind, value, hcolon, hvalue, rfl⟩ := readField_eq_ok_iff.mp hfields
    refine ⟨_, readField_eq_ok_iff.mpr ⟨behind, value, hcolon, hvalue, rfl⟩, ?_, ?_⟩
    · rw [valuesOf_cons_of_ne hkey]
      exact hholds.kind
    · rw [List.filter_cons_of_pos (by simpa using hkey), ← hholds.fields]

/-- What an object takes in is taken in by the outermost node, as long as the type is given at most
once, and by name. -/
theorem readField_follows :
    Follows (fun members => ∃ kind, valuesOf "type" members = typeValues kind)
      (fun members draft => draft.Holds members)
      (Json.readMember (readField (nestingLimit - 1))) (Json.readMember readMember) := by
  apply Follows.ofMember
  · rintro members next key text rest hread ⟨kind, hkind⟩
    obtain ⟨behind, value, -, -, rfl⟩ := readField_eq_ok_iff.mp hread
    by_cases hkey : key = "type"
    · subst hkey
      rw [valuesOf_cons_self] at hkind
      cases kind with
      | none => cases hkind
      | some kind => exact ⟨none, (List.cons.inj hkind).2⟩
    · exact ⟨kind, by rwa [valuesOf_cons_of_ne hkey] at hkind⟩
  · rintro members next key text rest hread ⟨kind, hkind⟩ draft hholds
    obtain ⟨behind, value, hcolon, hvalue, rfl⟩ := readField_eq_ok_iff.mp hread
    by_cases hkey : key = "type"
    · subst hkey
      rw [valuesOf_cons_self] at hkind
      cases kind with
      | none => cases hkind
      | some kind =>
          obtain ⟨rfl, hnone⟩ := List.cons.inj hkind
          obtain ⟨seen, fields⟩ := draft
          obtain rfl : seen = none := by
            have hseen := hholds.kind
            rw [hnone] at hseen
            cases seen with
            | none => rfl
            | some => cases hseen
          refine ⟨⟨some kind, fields⟩, ?_, ?_, ?_⟩
          · rw [readMember, if_pos rfl]
            simp only [hcolon]
            exact mapRead_eq_ok_iff.mpr ⟨kind, (readKind_eq_ok_iff _).mpr hvalue, rfl⟩
          · rw [valuesOf_cons_self, hnone]
            rfl
          · rw [List.filter_cons_of_neg (by simp)]
            exact hholds.fields
    · refine ⟨⟨draft.kind, (key, value) :: draft.fields⟩, ?_, ?_, ?_⟩
      · rw [readMember_eq hkey]
        exact mapRead_eq_ok_iff.mpr
          ⟨_, readField_eq_ok_iff.mpr ⟨behind, value, hcolon, hvalue, rfl⟩, rfl⟩
      · rw [valuesOf_cons_of_ne hkey]
        exact hholds.kind
      · rw [List.filter_cons_of_pos (by simpa using hkey), ← hholds.fields]

/-- What the outermost node takes in by position is taken in by any array. -/
theorem follows_readElement :
    Follows (fun _ => True) Draft.HoldsItems readItem (readElement (nestingLimit - 1)) := by
  refine ⟨fun _ _ => trivial, ?_⟩
  intro draft next text rest hread _ items hholds
  obtain ⟨seen, fields⟩ := draft
  cases seen with
  | none =>
      obtain ⟨kind, hkind, rfl⟩ := mapRead_eq_ok_iff.mp hread
      have hvalue := (readKind_eq_ok_iff (nestingLimit - 1)).mp hkind
      obtain rfl : fields = [] := hholds.first rfl
      obtain rfl : items = [] := hholds.items
      exact ⟨_, mapRead_eq_ok_iff.mpr ⟨_, hvalue, rfl⟩, rfl, nofun⟩
  | some kind =>
      obtain ⟨value, hvalue, rfl⟩ := mapRead_eq_ok_iff.mp hread
      refine ⟨_, mapRead_eq_ok_iff.mpr ⟨value, hvalue, rfl⟩, ?_, nofun⟩
      rw [hholds.items]
      rfl

/-- What an array takes in is taken in by the outermost node, as long as the first item is the name
of a kind. -/
theorem readElement_follows :
    Follows (fun items => items = [] ∨ ∃ fields kind, items = fields ++ typeValues (some kind))
      (fun items draft => draft.HoldsItems items)
      (readElement (nestingLimit - 1)) readItem := by
  constructor
  · rintro items next text rest hread hnext
    obtain ⟨value, -, rfl⟩ := mapRead_eq_ok_iff.mp hread
    obtain hnil | ⟨fields, kind, heq⟩ := hnext
    · cases hnil
    · cases fields with
      | nil => exact Or.inl (List.cons.inj heq).2
      | cons => exact Or.inr ⟨_, kind, (List.cons.inj heq).2⟩
  · rintro items next text rest hread hnext ⟨seen, fields⟩ hholds
    obtain ⟨value, hvalue, rfl⟩ := mapRead_eq_ok_iff.mp hread
    cases seen with
    | none =>
        obtain rfl : fields = [] := hholds.first rfl
        obtain rfl : items = [] := hholds.items
        obtain hnil | ⟨fields, kind, heq⟩ := hnext
        · cases hnil
        · have happend : [] ++ [value] = fields ++ [.string kind.name] := heq
          obtain ⟨rfl, hlast⟩ := List.append_inj' happend rfl
          obtain rfl := List.singleton_inj.mp hlast
          have hkind := (readKind_eq_ok_iff _).mpr hvalue
          exact ⟨_, mapRead_eq_ok_iff.mpr ⟨kind, hkind, rfl⟩, rfl, nofun⟩
    | some kind =>
        refine ⟨_, mapRead_eq_ok_iff.mpr ⟨value, hvalue, rfl⟩, ?_, nofun⟩
        rw [hholds.items]
        rfl

/-! ## Texts -/

/-- An object has the form of a node of the kind that its only type names. -/
theorem Form.of_typedByName {members fields : List (String × Value)}
    (h : Form (.object members) kind fields) (htyped : TypedByName (.object members)) :
    fields = members ∧ valuesOf "type" members = typeValues (some kind) := by
  cases h with
  | object hfield =>
      refine ⟨rfl, ?_⟩
      cases hfield with
      | present htype hkind =>
          cases htyped with
          | object hname =>
              obtain rfl := List.mem_singleton.mp (htype ▸ mem_valuesOf.mpr hname)
              obtain rfl := Kind.ofName_eq_ok_iff.mp hkind
              exact htype

/-- The outermost node is what its kind and its fields are decoded into. -/
theorem finish_eq_ok_iff {α : Type} {decode : Kind → List α → Except Cause Node} {text : List Char}
    {outcome : Outcome (Draft α)} {node : Node} :
    finish decode text outcome = .ok node ↔
      ∃ kind fields rest, outcome = .ok (⟨some kind, fields⟩, rest) ∧
        decode kind fields.reverse = .ok node ∧ Json.readEnd rest = .ok () := by
  constructor
  · intro h
    unfold finish at h
    split at h
    · cases h
    · next draft rest =>
      split at h
      · cases h
      · next kind hkind =>
        split at h
        · cases h
        · next found hdecode =>
          obtain ⟨hend, rfl⟩ := atEnd_eq_ok_iff.mp h
          obtain ⟨seen, fields⟩ := draft
          obtain rfl : seen = some kind := hkind
          exact ⟨kind, fields, rest, rfl, hdecode, hend⟩
  · rintro ⟨kind, fields, rest, rfl, hdecode, hend⟩
    simp only [finish, hdecode]
    exact atEnd_eq_ok_iff.mpr ⟨hend, rfl⟩

/-- A text that starts as an object does is accepted if the object is read and decoded, its type
being given by name. -/
theorem finish_ofMembers_eq_ok_iff :
    finish ofMembers text (walkObject readMember {} rest) = .ok node ↔
      ∃ members behind, walkObject (readField (nestingLimit - 1)) [] rest = .ok (members, behind) ∧
        readEnd behind = .ok () ∧ TypedByName (.object members.reverse) ∧
        decode (.object members.reverse) = .ok node := by
  rw [finish_eq_ok_iff]
  constructor
  · rintro ⟨kind, fields, behind, hwalk, hdecode, hend⟩
    obtain ⟨members, hwalk', hholds⟩ :=
      follows_readField.walkObject.follow hwalk trivial Draft.holds_empty
    have hfields : fields = members.filter fun m => m.1 ≠ "type" := hholds.fields
    have htype : valuesOf "type" members.reverse = [.string kind.name] := by
      rw [valuesOf_reverse, hholds.kind]
      rfl
    have hname : ("type", .string kind.name) ∈ members.reverse :=
      mem_valuesOf.mp (htype ▸ List.mem_singleton.mpr rfl)
    have hform : Form (.object members.reverse) kind members.reverse :=
      .object (.present htype (Kind.ofName_name kind))
    have hnode : Assembled (fun value node => decode value = .ok node) members.reverse kind
        node := by
      refine (ofMembers_eq_ok_iff.mp hdecode).of_valuesOf_eq fun key hkey => ?_
      rw [valuesOf_reverse, valuesOf_reverse, hfields, valuesOf_filter_ne hkey]
    exact ⟨members, behind, hwalk', hend, .object hname,
      decode_eq_ok_iff.mpr ⟨kind, _, hform, hnode⟩⟩
  · rintro ⟨members, behind, hwalk, hend, htyped, hdecode⟩
    obtain ⟨kind, _, hform, hnode⟩ := decode_eq_ok_iff.mp hdecode
    obtain ⟨rfl, htype⟩ := hform.of_typedByName htyped
    have hgood : valuesOf "type" members = typeValues (some kind) := by
      rw [← List.reverse_reverse members, valuesOf_reverse, htype]
      rfl
    obtain ⟨⟨seen, fields⟩, hwalk', hholds⟩ :=
      readField_follows.walkObject.follow hwalk ⟨_, hgood⟩ Draft.holds_empty
    obtain rfl := eq_some_of_typeValues (hholds.kind.symm.trans hgood)
    have hfields : fields = members.filter fun m => m.1 ≠ "type" := hholds.fields
    refine ⟨kind, fields, behind, hwalk', ofMembers_eq_ok_iff.mpr ?_, hend⟩
    refine hnode.of_valuesOf_eq fun key hkey => ?_
    rw [valuesOf_reverse, valuesOf_reverse, hfields, valuesOf_filter_ne hkey]

/-- A text that starts as an array does is accepted if the array is read and decoded, its type being
given by name. -/
theorem finish_ofItems_eq_ok_iff :
    finish ofItems text (walkList readItem {} rest) = .ok node ↔
      ∃ items behind, walkList (readElement (nestingLimit - 1)) [] rest = .ok (items, behind) ∧
        readEnd behind = .ok () ∧ TypedByName (.array items.reverse) ∧
        decode (.array items.reverse) = .ok node := by
  rw [finish_eq_ok_iff]
  constructor
  · rintro ⟨kind, fields, behind, hwalk, hdecode, hend⟩
    obtain ⟨items, hwalk', hholds⟩ :=
      follows_readElement.walkList.follow hwalk trivial Draft.holdsItems_empty
    have hitems : items.reverse = .string kind.name :: fields.reverse := by
      rw [hholds.items, List.reverse_append]
      rfl
    refine ⟨items, behind, hwalk', hend, ?_, ?_⟩
    · rw [hitems]
      exact .array
    · rw [hitems, decode_array, Kind.decode, Kind.ofName_name]
      exact hdecode
  · rintro ⟨items, behind, hwalk, hend, htyped, hdecode⟩
    generalize hitems : items.reverse = reversed at htyped hdecode
    obtain ⟨name, fields, rfl⟩ : ∃ name fields, reversed = .string name :: fields := by
      cases htyped with
      | array => exact ⟨_, _, rfl⟩
    rw [decode_array, Kind.decode] at hdecode
    cases hname : Kind.ofName name with
    | error cause =>
        rw [hname] at hdecode
        cases hdecode
    | ok kind =>
        rw [hname] at hdecode
        obtain rfl := Kind.ofName_eq_ok_iff.mp hname
        have hgood : items = fields.reverse ++ typeValues (some kind) := by
          rw [← List.reverse_reverse items, hitems, List.reverse_cons]
          rfl
        obtain ⟨⟨seen, kept⟩, hwalk', hholds⟩ := readElement_follows.walkList.follow hwalk
          (Or.inr ⟨_, _, hgood⟩) Draft.holdsItems_empty
        have hkept : items = kept ++ typeValues seen := hholds.items
        cases seen with
        | none =>
            obtain rfl : kept = [] := hholds.first rfl
            rw [hkept] at hitems
            cases hitems
        | some found =>
            obtain ⟨rfl, hlast⟩ := List.append_inj' (hgood.symm.trans hkept) rfl
            obtain rfl : found = kind := Option.some.inj (eq_some_of_typeValues hlast.symm)
            refine ⟨found, _, behind, hwalk', ?_, hend⟩
            rw [List.reverse_reverse]
            exact hdecode

/-- A text is that of a tree if it is a value with nothing but gaps around it, whose type is given
by name, and the value is decoded into the tree. -/
theorem ofJson_eq_ok_iff {text : String} :
    ofJson text = .ok node ↔
      ∃ value rest, readValue nestingLimit text.toList = .ok (value, rest) ∧ readEnd rest = .ok () ∧
        TypedByName value ∧ decode value = .ok node := by
  constructor
  · intro h
    unfold ofJson at h
    split at h
    · next tail hgap =>
      obtain ⟨members, behind, hwalk, hend, htyped, hdecode⟩ := finish_ofMembers_eq_ok_iff.mp h
      refine ⟨_, behind, readValue_eq_ok_iff.mpr ⟨_, tail, hgap, Or.inr (Or.inr ?_)⟩, hend, htyped,
        hdecode⟩
      exact ⟨nestingLimit - 1, members, rfl, rfl, hwalk, rfl⟩
    · next tail hgap =>
      obtain ⟨items, behind, hwalk, hend, htyped, hdecode⟩ := finish_ofItems_eq_ok_iff.mp h
      refine ⟨_, behind, readValue_eq_ok_iff.mpr ⟨_, tail, hgap, Or.inr (Or.inl ?_)⟩, hend, htyped,
        hdecode⟩
      exact ⟨nestingLimit - 1, items, rfl, rfl, hwalk, rfl⟩
    · split at h
      · next hread => exact absurd hread (readUnwanted_ne_ok _ _ _)
      · cases h
  · rintro ⟨value, rest, hread, hend, htyped, hdecode⟩
    obtain ⟨c, tail, hgap, hscalar | ⟨inner, items, rfl, hinner, hwalk, rfl⟩ |
      ⟨inner, members, rfl, hinner, hwalk, rfl⟩⟩ := readValue_eq_ok_iff.mp hread
    · have hdepth := depth_of_readScalar? hscalar
      cases htyped <;> simp [Value.depth] at hdepth
    · obtain rfl : nestingLimit - 1 = inner := by omega
      rw [ofJson, hgap]
      exact finish_ofItems_eq_ok_iff.mpr ⟨items, rest, hwalk, hend, htyped, hdecode⟩
    · obtain rfl : nestingLimit - 1 = inner := by omega
      rw [ofJson, hgap]
      exact finish_ofMembers_eq_ok_iff.mpr ⟨members, rest, hwalk, hend, htyped, hdecode⟩

end CellAlign.Node

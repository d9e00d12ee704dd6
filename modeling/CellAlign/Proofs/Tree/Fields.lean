import CellAlign.Proofs.Json.Parts
import CellAlign.Proofs.Tree.Canonical

/-!
# Fields by their keys

The decoders go through the members of an object in their order and stop at the first fault.  Which
members come between is of no matter where they answer: a field is what the only value for its key
is decoded to, if there is one.

* `Field`, `FieldFrom`: what members give for a key, from the start or behind members seen before;
* `field_iff_of_perm`: the order of the members is of no matter;
* `Node.Kind.ofMembers_eq_ok_iff`, `Node.decodeContent_eq_ok_iff`, `Node.decodeRoot_eq_ok_iff`,
  `Node.decodeElement_eq_ok_iff`: nodes by their fields;
* `Properties.ofMembers_eq_ok_iff`: properties by their fields and by the members that are left.
-/

namespace CellAlign

open Json (Value Cause valuesOf valuesOf_cons_self valuesOf_cons_of_ne valuesOf_map)

/-! ## Fields -/

section

variable {α : Type} {decode : Value → Except Cause α} {key k : String} {value : Value}
  {members : List (String × Value)} {seen found : Option α}

/-- What members give for a key: nothing if they have no value for it, and what its value is decoded
to if they have one.  More than one value is not allowed. -/
inductive Field (decode : Value → Except Cause α) (key : String)
    (members : List (String × Value)) : Option α → Prop
  | absent (h : valuesOf key members = []) : Field decode key members none
  | present {value : Value} {a : α} (h : valuesOf key members = [value])
      (hdecode : decode value = .ok a) : Field decode key members (some a)

/-- A field depends on the values for its key alone. -/
theorem Field.of_valuesOf_eq {others : List (String × Value)} (h : Field decode key members found)
    (heq : valuesOf key members = valuesOf key others) : Field decode key others found := by
  cases h with
  | absent h => exact .absent (heq ▸ h)
  | present h hdecode => exact .present (heq ▸ h) hdecode

section Orders

variable {ι : Type} {row moved : List ι} {name : ι → String} {value value' : ι → Value}

/-- A field does not depend on the order of members, and the value for its key may be exchanged for
one that is decoded alike. -/
theorem Field.of_perm (hperm : row.Perm moved)
    (halike : ∀ x ∈ row, name x = key → ∀ a, decode (value x) = .ok a → decode (value' x) = .ok a)
    (h : Field decode key (row.map fun x => (name x, value x)) found) :
    Field decode key (moved.map fun x => (name x, value' x)) found := by
  have hfilter := hperm.filter fun x => decide (name x = key)
  cases h with
  | absent hnone =>
      rw [valuesOf_map, List.map_eq_nil_iff] at hnone
      rw [hnone] at hfilter
      refine .absent ?_
      rw [valuesOf_map, hfilter.symm.eq_nil]
      rfl
  | present hone hdecode =>
      rw [valuesOf_map] at hone
      obtain ⟨x, hx, rfl⟩ := List.map_eq_singleton_iff.mp hone
      rw [hx] at hfilter
      have hmem : x ∈ row.filter fun x => name x = key := hx ▸ List.mem_singleton.mpr rfl
      obtain ⟨hrow, hname⟩ := List.mem_filter.mp hmem
      refine .present ?_ (halike x hrow (by simpa using hname) _ hdecode)
      rw [valuesOf_map, List.perm_singleton.mp hfilter.symm]
      rfl

/-- A field is the same in members that come in different orders and have values that are decoded
alike. -/
theorem field_iff_of_perm (hperm : row.Perm moved)
    (halike : ∀ x ∈ row, name x = key → ∀ a, decode (value x) = .ok a ↔ decode (value' x) = .ok a) :
    Field decode key (row.map fun x => (name x, value x)) found ↔
      Field decode key (moved.map fun x => (name x, value' x)) found := by
  constructor
  · exact Field.of_perm hperm fun x hx hname a => (halike x hx hname a).mp
  · refine Field.of_perm hperm.symm fun x hx hname a => ?_
    exact (halike x (hperm.mem_iff.mpr hx) hname a).mpr

end Orders

/-- What members give for a key of which a value may have been seen before. -/
def FieldFrom (decode : Value → Except Cause α) (key : String) (seen : Option α)
    (members : List (String × Value)) (found : Option α) : Prop :=
  (seen = found ∧ valuesOf key members = []) ∨ seen = none ∧ Field decode key members found

namespace FieldFrom

/-- Where nothing was seen before, the members give the field. -/
theorem none_iff : FieldFrom decode key none members found ↔ Field decode key members found := by
  constructor
  · rintro (⟨rfl, h⟩ | ⟨-, h⟩)
    · exact .absent h
    · exact h
  · intro h
    exact Or.inr ⟨rfl, h⟩

/-- At the end, the field is what was seen before. -/
theorem nil_iff : FieldFrom decode key seen [] found ↔ seen = found := by
  constructor
  · rintro (⟨rfl, -⟩ | ⟨rfl, h⟩)
    · rfl
    · cases h with
      | absent => rfl
      | present h => cases h
  · intro h
    exact Or.inl ⟨h, rfl⟩

/-- A member with another key is of no matter. -/
theorem cons_of_ne (h : k ≠ key) : FieldFrom decode key seen ((k, value) :: members) found ↔
    FieldFrom decode key seen members found := by
  have heq := valuesOf_cons_of_ne h value members
  have hfield : Field decode key ((k, value) :: members) found ↔ Field decode key members found :=
    ⟨fun h => h.of_valuesOf_eq heq, fun h => h.of_valuesOf_eq heq.symm⟩
  rw [FieldFrom, FieldFrom, hfield, heq]

/-- A member with the key must be the first and is decoded. -/
theorem cons_self : FieldFrom decode key seen ((key, value) :: members) found ↔
    seen = none ∧ ∃ a, decode value = .ok a ∧ FieldFrom decode key (some a) members found := by
  constructor
  · rintro (⟨-, h⟩ | ⟨hseen, h⟩)
    · rw [valuesOf_cons_self] at h
      cases h
    · cases h with
      | absent h =>
          rw [valuesOf_cons_self] at h
          cases h
      | present h hdecode =>
          rw [valuesOf_cons_self, List.cons.injEq] at h
          obtain ⟨rfl, hrest⟩ := h
          exact ⟨hseen, _, hdecode, Or.inl ⟨rfl, hrest⟩⟩
  · rintro ⟨hseen, a, hdecode, ⟨rfl, hrest⟩ | ⟨h, -⟩⟩
    · refine Or.inr ⟨hseen, .present ?_ hdecode⟩
      rw [valuesOf_cons_self, hrest]
    · cases h

end FieldFrom

end

/-! ## Nodes -/

namespace Node

open FieldFrom

variable {members : List (String × Value)}

/-- The kind is the field `type`, which must be there. -/
theorem Kind.ofMembers_eq_ok_iff {seen : Option Kind} {kind : Kind} :
    Kind.ofMembers seen members = .ok kind ↔
      FieldFrom Kind.decode "type" seen members (some kind) := by
  induction members generalizing seen with
  | nil =>
      rw [nil_iff]
      cases seen <;> simp [Kind.ofMembers]
  | cons m members ih =>
      obtain ⟨key, value⟩ := m
      by_cases hkey : key = "type"
      · subst hkey
        rw [cons_self]
        cases seen with
        | some => simp [Kind.ofMembers]
        | none => cases hdecode : Kind.decode value <;> simp [Kind.ofMembers, hdecode, ih]
      · rw [cons_of_ne hkey, ← ih]
        cases seen <;> rw [Kind.ofMembers, if_neg hkey]

/-- The content of a text or a comment is the field `value`, which must be there. -/
theorem decodeContent_eq_ok_iff {seen : Option String} {content : String} :
    decodeContent seen members = .ok content ↔
      FieldFrom decodeString "value" seen members (some content) := by
  induction members generalizing seen with
  | nil =>
      rw [nil_iff]
      cases seen <;> simp [decodeContent]
  | cons m members ih =>
      obtain ⟨key, value⟩ := m
      by_cases hkey : key = "value"
      · subst hkey
        rw [cons_self]
        cases seen with
        | some => simp [decodeContent]
        | none => cases hdecode : decodeString value <;> simp [decodeContent, hdecode, ih]
      · rw [cons_of_ne hkey, ← ih]
        cases seen <;> rw [decodeContent, if_neg hkey]

/-- A root has the field `children`, and no children if that is absent. -/
theorem decodeRoot_eq_ok_iff {seen : Option (List Node)} {node : Node} :
    decodeRoot seen members = .ok node ↔
      ∃ children, FieldFrom decodeChildren "children" seen members children ∧
        node = .root (children.getD []) := by
  induction members generalizing seen with
  | nil => simp [decodeRoot, nil_iff, eq_comm]
  | cons m members ih =>
      obtain ⟨key, value⟩ := m
      by_cases hkey : key = "children"
      · subst hkey
        simp only [cons_self]
        cases seen with
        | some => simp [decodeRoot]
        | none => cases hdecode : decodeChildren value <;> simp [decodeRoot, hdecode, ih]
      · simp only [cons_of_ne hkey, ← ih]
        cases seen <;> rw [decodeRoot, if_neg hkey]

/-- An element has the field `tagName`, which must be there, and the fields `properties` and
`children`. -/
theorem decodeElement_eq_ok_iff {draft : ElementDraft} {node : Node} :
    decodeElement draft members = .ok node ↔
      ∃ tag properties children,
        FieldFrom decodeString "tagName" draft.tag members (some tag) ∧
        FieldFrom Properties.decode "properties" draft.properties members properties ∧
        FieldFrom decodeChildren "children" draft.children members children ∧
        node = .element tag (properties.getD none) (children.getD []) := by
  induction members generalizing draft with
  | nil =>
      obtain ⟨tag, properties, children⟩ := draft
      cases tag <;> simp [decodeElement, ElementDraft.finish, nil_iff, eq_comm]
  | cons m members ih =>
      obtain ⟨key, value⟩ := m
      by_cases htag : key = "tagName"
      · subst htag
        rw [decodeElement, if_pos rfl]
        simp only [cons_self, cons_of_ne (show "tagName" ≠ "properties" by decide),
          cons_of_ne (show "tagName" ≠ "children" by decide)]
        cases hseen : draft.tag with
        | some => simp
        | none => cases hdecode : decodeString value <;> simp [ih]
      by_cases hproperties : key = "properties"
      · subst hproperties
        rw [decodeElement, if_neg htag, if_pos rfl]
        simp only [cons_self, cons_of_ne htag,
          cons_of_ne (show "properties" ≠ "children" by decide)]
        cases hseen : draft.properties with
        | some => simp
        | none => cases hdecode : Properties.decode value <;> simp [ih]
      by_cases hchildren : key = "children"
      · subst hchildren
        rw [decodeElement, if_neg htag, if_neg hproperties, if_pos rfl]
        simp only [cons_self, cons_of_ne htag, cons_of_ne hproperties]
        cases hseen : draft.children with
        | some => simp
        | none => cases hdecode : decodeChildren value <;> simp [ih]
      · rw [decodeElement, if_neg htag, if_neg hproperties, if_neg hchildren]
        simp only [cons_of_ne htag, cons_of_ne hproperties, cons_of_ne hchildren, ih]

end Node

/-! ## Properties -/

namespace Properties

open FieldFrom

/-- Members are taken in if each known property comes at most once and can be decoded; the others
are kept, last first. -/
theorem Draft.takeAll_eq_ok_iff {draft next : Draft} {members : List (String × Value)} :
    draft.takeAll members = .ok next ↔
      FieldFrom PropertyValue.decodeKnown "align" draft.align members next.align ∧
      FieldFrom ClassName.decode "className" draft.className members next.className ∧
      FieldFrom PropertyValue.decodeKnown "style" draft.style members next.style ∧
      next.other = (members.filter fun m => m.1 ∉ knownKeys).reverse ++ draft.other := by
  induction members generalizing draft with
  | nil =>
      obtain ⟨align, className, style, other⟩ := draft
      obtain ⟨align', className', style', other'⟩ := next
      simp [takeAll, nil_iff, eq_comm]
  | cons m members ih =>
      obtain ⟨key, value⟩ := m
      rw [takeAll]
      by_cases halign : key = "align"
      · subst halign
        rw [List.filter_cons_of_neg (by simp [knownKeys])]
        simp only [cons_self, cons_of_ne (show "align" ≠ "className" by decide),
          cons_of_ne (show "align" ≠ "style" by decide)]
        cases hseen : draft.align with
        | some => simp [checkKey, hseen]
        | none =>
            cases hdecode : PropertyValue.decodeKnown value <;>
              simp [checkKey, take, hseen, hdecode, Except.map, ih]
      by_cases hclass : key = "className"
      · subst hclass
        rw [List.filter_cons_of_neg (by simp [knownKeys])]
        simp only [cons_self, cons_of_ne halign, cons_of_ne (show "className" ≠ "style" by decide)]
        cases hseen : draft.className with
        | some => simp [checkKey, hseen]
        | none =>
            cases hdecode : ClassName.decode value <;>
              simp [checkKey, take, hseen, hdecode, Except.map, ih]
      by_cases hstyle : key = "style"
      · subst hstyle
        rw [List.filter_cons_of_neg (by simp [knownKeys])]
        simp only [cons_self, cons_of_ne halign, cons_of_ne hclass]
        cases hseen : draft.style with
        | some => simp [checkKey, hseen]
        | none =>
            cases hdecode : PropertyValue.decodeKnown value <;>
              simp [checkKey, take, hseen, hdecode, Except.map, ih]
      · have hunknown : key ∉ knownKeys := by simp [knownKeys, halign, hclass, hstyle]
        rw [List.filter_cons_of_pos (by simpa using hunknown)]
        simp only [cons_of_ne halign, cons_of_ne hclass, cons_of_ne hstyle]
        simp [checkKey, take, halign, hclass, hstyle, ih]

/-- A properties object has fields for the known properties; all other members are entries. -/
theorem ofMembers_eq_ok_iff {members : List (String × Value)} {properties : Properties} :
    ofMembers members = .ok properties ↔
      ∃ align className style other, Field PropertyValue.decodeKnown "align" members align ∧
        Field ClassName.decode "className" members className ∧
        Field PropertyValue.decodeKnown "style" members style ∧
        Draft.entries [] (members.filter fun m => m.1 ∉ knownKeys) = .ok other ∧
        properties = ⟨align.getD none, className.getD .absent, style.getD none, other⟩ := by
  constructor
  · intro h
    unfold ofMembers at h
    split at h
    · next draft hdraft =>
      obtain ⟨halign, hclass, hstyle, hother⟩ := Draft.takeAll_eq_ok_iff.mp hdraft
      obtain ⟨other, hentries, rfl⟩ := exists_of_map_eq_ok h
      rw [hother, List.append_nil, List.reverse_reverse] at hentries
      exact ⟨_, _, _, other, none_iff.mp halign, none_iff.mp hclass, none_iff.mp hstyle, hentries,
        rfl⟩
    · cases h
  · rintro ⟨align, className, style, other, halign, hclass, hstyle, hentries, rfl⟩
    have hdraft : ({} : Draft).takeAll members =
        .ok ⟨align, className, style, (members.filter fun m => m.1 ∉ knownKeys).reverse⟩ :=
      Draft.takeAll_eq_ok_iff.mpr ⟨none_iff.mpr halign, none_iff.mpr hclass, none_iff.mpr hstyle,
        (List.append_nil _).symm⟩
    rw [ofMembers, hdraft]
    simp only [Draft.finish, List.reverse_reverse, hentries, Except.map]

end Properties

end CellAlign

import CellAlign.Proofs.Json.Reading

/-!
# The parts of a value

The parts of a value are what stands directly inside it: the items of an array, or the values of the
members of an object.  What holds of a value because it holds of everything inside goes down to its
parts.

* `valuesOf`: the values that members have for a key;
* `Value.depth_lt_of_mem_parts`, `Value.sizeOf_lt_of_mem_parts`: parts are smaller;
* `Value.Exact.of_mem_parts`: their numbers are whole if those of the value are.
-/

namespace CellAlign.Json

/-! ## Members by key -/

/-- The values that members have for a key, in their order. -/
def valuesOf (key : String) (members : List (String × Value)) : List Value :=
  members.filterMap fun m => if m.1 = key then some m.2 else none

section

variable {key : String} {members : List (String × Value)}

/-- A member with the key adds its value. -/
@[simp]
theorem valuesOf_cons_self (key : String) (value : Value) (members : List (String × Value)) :
    valuesOf key ((key, value) :: members) = value :: valuesOf key members := by
  simp [valuesOf]

/-- A member with another key adds nothing. -/
theorem valuesOf_cons_of_ne {k : String} (h : k ≠ key) (value : Value)
    (members : List (String × Value)) :
    valuesOf key ((k, value) :: members) = valuesOf key members := by
  simp [valuesOf, h]

/-- A value for a key is that of a member. -/
theorem mem_valuesOf {value : Value} : value ∈ valuesOf key members ↔ (key, value) ∈ members := by
  constructor
  · intro h
    obtain ⟨⟨k, v⟩, hm, heq⟩ := List.mem_filterMap.mp h
    by_cases hk : k = key
    · subst hk
      have hv : v = value := by simpa using heq
      exact hv ▸ hm
    · simp [hk] at heq
  · intro h
    exact List.mem_filterMap.mpr ⟨(key, value), h, by simp⟩

/-- The values of members in the other order. -/
theorem valuesOf_reverse (key : String) (members : List (String × Value)) :
    valuesOf key members.reverse = (valuesOf key members).reverse := by
  simp [valuesOf]

/-- Leaving out the members with some other keys changes nothing. -/
theorem valuesOf_filter (keep : String → Prop) [DecidablePred keep] (h : keep key)
    (members : List (String × Value)) :
    valuesOf key (members.filter fun m => keep m.1) = valuesOf key members := by
  induction members with
  | nil => rfl
  | cons m members ih =>
      obtain ⟨k, value⟩ := m
      by_cases hk : keep k
      · rw [List.filter_cons_of_pos (by simpa using hk)]
        by_cases hkey : k = key
        · subst hkey
          rw [valuesOf_cons_self, valuesOf_cons_self, ih]
        · rw [valuesOf_cons_of_ne hkey, valuesOf_cons_of_ne hkey, ih]
      · have hne : k ≠ key := by
          intro heq
          exact hk (heq ▸ h)
        rw [List.filter_cons_of_neg (by simpa using hk), valuesOf_cons_of_ne hne, ih]

/-- Leaving out the members with some other key changes nothing. -/
theorem valuesOf_filter_ne {other : String} (h : key ≠ other) (members : List (String × Value)) :
    valuesOf key (members.filter fun m => m.1 ≠ other) = valuesOf key members :=
  valuesOf_filter (· ≠ other) h members

/-- The values for a key are those of the members with its name. -/
theorem valuesOf_map {ι : Type} (key : String) (row : List ι) (name : ι → String)
    (value : ι → Value) :
    valuesOf key (row.map fun x => (name x, value x)) =
      (row.filter fun x => name x = key).map value := by
  induction row with
  | nil => rfl
  | cons x row ih =>
      by_cases hx : name x = key
      · rw [List.map_cons, hx, valuesOf_cons_self, ih, List.filter_cons_of_pos (by simpa using hx),
          List.map_cons]
      · rw [List.map_cons, valuesOf_cons_of_ne hx, ih, List.filter_cons_of_neg (by simpa using hx)]

/-- Among distinct keys, a key has the value of its member and no other. -/
theorem valuesOf_eq_singleton (h : (members.map Prod.fst).Nodup) {value : Value}
    (hmem : (key, value) ∈ members) : valuesOf key members = [value] := by
  induction members with
  | nil => cases hmem
  | cons m members ih =>
      obtain ⟨k, v⟩ := m
      obtain ⟨hnew, hrest⟩ := List.nodup_cons.mp h
      rcases List.mem_cons.mp hmem with heq | hmem
      · obtain ⟨rfl, rfl⟩ := Prod.mk.inj heq
        have hnone : valuesOf key members = [] := by
          refine List.eq_nil_iff_forall_not_mem.mpr fun other hother => hnew ?_
          exact List.mem_map.mpr ⟨_, mem_valuesOf.mp hother, rfl⟩
        rw [valuesOf_cons_self, hnone]
      · have hne : k ≠ key := by
          rintro rfl
          exact hnew (List.mem_map.mpr ⟨(k, value), hmem, rfl⟩)
        rw [valuesOf_cons_of_ne hne, ih hrest hmem]

/-- Among distinct keys, a key has one value at most. -/
theorem length_valuesOf_le_one (h : (members.map Prod.fst).Nodup) (key : String) :
    (valuesOf key members).length ≤ 1 := by
  cases hvalues : valuesOf key members with
  | nil => simp
  | cons value values =>
      have hmem : (key, value) ∈ members := mem_valuesOf.mp (hvalues ▸ List.mem_cons_self)
      simp [← hvalues, valuesOf_eq_singleton h hmem]

end

/-! ## Parts -/

namespace Value

/-- The values directly inside a value. -/
def parts : Value → List Value
  | .array items => items
  | .object members => members.map Prod.snd
  | _ => []

variable {value part : Value}

/-- The items of an array are nested no deeper than the deepest of them. -/
theorem depthItems_le_iff {items : List Value} {d : Nat} :
    depthItems items ≤ d ↔ ∀ item ∈ items, item.depth ≤ d := by
  induction items with
  | nil => simp [depthItems]
  | cons item items ih => rw [depthItems, Nat.max_le, ih, List.forall_mem_cons]

/-- The members of an object are nested no deeper than the deepest of them. -/
theorem depthMembers_le_iff {members : List (String × Value)} {d : Nat} :
    depthMembers members ≤ d ↔ ∀ m ∈ members, m.2.depth ≤ d := by
  induction members with
  | nil => simp [depthMembers]
  | cons m members ih => rw [depthMembers, Nat.max_le, ih, List.forall_mem_cons]

/-- A part has fewer arrays and objects open at once. -/
theorem depth_lt_of_mem_parts (h : part ∈ value.parts) : part.depth < value.depth := by
  cases value with
  | array items =>
      have hitem := depthItems_le_iff.mp (Nat.le_refl (depthItems items)) part h
      rw [depth]
      omega
  | object members =>
      obtain ⟨m, hm, rfl⟩ := List.mem_map.mp h
      have hmember := depthMembers_le_iff.mp (Nat.le_refl (depthMembers members)) m hm
      rw [depth]
      omega
  | null | bool | number | string => cases h

/-- A part is smaller. -/
theorem sizeOf_lt_of_mem_parts (h : part ∈ value.parts) : sizeOf part < sizeOf value := by
  cases value with
  | array items =>
      have hitem : sizeOf part < sizeOf items := List.sizeOf_lt_of_mem h
      simp only [array.sizeOf_spec]
      omega
  | object members =>
      obtain ⟨⟨key, v⟩, hm, rfl⟩ := List.mem_map.mp h
      have hmember := List.sizeOf_lt_of_mem hm
      simp only [object.sizeOf_spec, Prod.mk.sizeOf_spec] at hmember ⊢
      omega
  | null | bool | number | string => cases h

/-- Items are looked at one by one. -/
theorem exactItems_iff {items : List Value} : ExactItems items ↔ ∀ item ∈ items, item.Exact := by
  induction items with
  | nil => simp [ExactItems]
  | cons item items ih => rw [ExactItems, ih, List.forall_mem_cons]

/-- Members are looked at one by one. -/
theorem exactMembers_iff {members : List (String × Value)} :
    ExactMembers members ↔ ∀ m ∈ members, m.2.Exact := by
  induction members with
  | nil => simp [ExactMembers]
  | cons m members ih => rw [ExactMembers, ih, List.forall_mem_cons]

/-- The numbers in a part are whole if all numbers are. -/
theorem Exact.of_mem_parts (h : value.Exact) (hpart : part ∈ value.parts) : part.Exact := by
  cases value with
  | array items => exact exactItems_iff.mp h part hpart
  | object members =>
      obtain ⟨m, hm, rfl⟩ := List.mem_map.mp hpart
      exact exactMembers_iff.mp h m hm
  | null | bool | number | string => cases hpart

end Value

end CellAlign.Json

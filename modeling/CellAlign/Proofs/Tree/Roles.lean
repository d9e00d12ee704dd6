import CellAlign.Proofs.Tree.Outermost

/-!
# The parts that values play

Which orders the members of an object may come in depends on what the object is looked at for.  A
node finds its members by their keys, whatever order they come in, and so do the known members of a
properties object find their places; the unknown ones are kept in the order they come in.  Values
that differ in such orders alone are decoded alike.

* `Role`: what is looked for in a value, and the orders that members may come in;
* `Alike`: values that are decoded alike;
* `ofMembers_eq_ok_iff_of_perm`, `properties_eq_ok_iff_of_perm`: nodes and properties from members
  in different orders;
* `Alike.array`, `Alike.object`: arrays and objects that are decoded alike.
-/

namespace CellAlign.Node

open Json (Value Cause)

/-! ## The parts that values play -/

/-- What is looked for in a value: a node, the children of one, the properties of an element, the
value of a property, or nothing that is in an array or an object. -/
inductive Role where
  | node
  | children
  | properties
  | property
  | ignored

namespace Role

/-- The part that an item of an array plays.  A node given as an array has its children in the
second or the fourth item, and its properties in the third. -/
def ofItem : Role → Nat → Role
  | children, _ => node
  | node, 1 => children
  | node, 2 => properties
  | node, 3 => children
  | property, _ => property
  | _, _ => ignored

/-- The part that the value of a member plays. -/
def ofName : Role → Option String → Role
  | node, name =>
    if name = some "children" then children
    else if name = some "properties" then properties
    else ignored
  | properties, _ => property
  | property, _ => property
  | _, _ => ignored

variable {ι : Type}

/-- The orders in which members may come: any that keeps the order of the unknown ones in a
properties object, the same in the value of a property, and any order everywhere else. -/
def Allows (role : Role) (name? : ι → Option String) (before behind : List ι) : Prop :=
  match role with
  | properties =>
    before.Perm behind ∧
      (before.filter fun m => name? m ∉ Properties.knownKeys.map some) =
        behind.filter fun m => name? m ∉ Properties.knownKeys.map some
  | property => before = behind
  | node | children | ignored => before.Perm behind

/-- Orders that are allowed are those of the same members. -/
theorem Allows.perm {role : Role} {name? : ι → Option String} {before behind : List ι}
    (h : role.Allows name? before behind) : before.Perm behind := by
  cases role with
  | node | children | ignored => exact h
  | properties => exact h.1
  | property => exact List.Perm.of_eq h

/-- Orders that are allowed by the names of members are allowed by names that are the same for all
of them. -/
theorem Allows.congr {role : Role} {name? name?' : ι → Option String} {before behind : List ι}
    (h : role.Allows name? before behind) (heq : ∀ m ∈ before, name? m = name?' m) :
    role.Allows name?' before behind := by
  cases role with
  | node | children | property | ignored => exact h
  | properties =>
      obtain ⟨hperm, hfilter⟩ := h
      have hnames (row : List ι) (hrow : ∀ m ∈ row, name? m = name?' m) :
          (row.filter fun m => name? m ∉ Properties.knownKeys.map some) =
            row.filter fun m => name?' m ∉ Properties.knownKeys.map some :=
        List.filter_congr fun m hm => by rw [hrow m hm]
      refine ⟨hperm, ?_⟩
      rw [← hnames before heq, ← hnames behind fun m hm => heq m (hperm.mem_iff.mpr hm)]
      exact hfilter

end Role

/-! ## Values decoded alike -/

variable {α ι : Type} {role : Role} {v w : Value}

/-- Two values are decoded alike if the part that they play is looked for in them. -/
def Role.Decodes : Role → Value → Value → Prop
  | node, v, w => (TypedByName v ↔ TypedByName w) ∧ ∀ n, decode v = .ok n ↔ decode w = .ok n
  | children, v, w => ∀ nodes, decodeChildren v = .ok nodes ↔ decodeChildren w = .ok nodes
  | properties, v, w => ∀ p, Properties.decode v = .ok p ↔ Properties.decode w = .ok p
  | property, v, w => v = w
  | ignored, _, _ => True

/-- Two values that play a part are alike: they nest as deeply, are the same if nothing nests in
them, and are decoded alike. -/
structure Alike (role : Role) (v w : Value) : Prop where
  depth : v.depth = w.depth
  scalar : v.depth = 0 → v = w
  decodes : role.Decodes v w

namespace Alike

/-- A value is like itself. -/
theorem refl (role : Role) (v : Value) : Alike role v v := by
  refine ⟨rfl, fun _ => rfl, ?_⟩
  cases role with
  | node => exact ⟨Iff.rfl, fun _ => Iff.rfl⟩
  | children | properties => exact fun _ => Iff.rfl
  | property => rfl
  | ignored => trivial

/-- What holds only of values in which nothing nests holds of both of two alike values or of
neither. -/
theorem iff_of_scalar (h : Alike role v w) (p : Value → Prop) (hp : ∀ x, p x → x.depth = 0) :
    p v ↔ p w := by
  constructor
  · intro hv
    exact h.scalar (hp v hv) ▸ hv
  · intro hw
    exact h.scalar (h.depth ▸ hp w hw) ▸ hw

/-- A string is decoded from alike values, whatever part they play. -/
theorem decodeString_iff (h : Alike role v w) (s : String) :
    decodeString v = .ok s ↔ decodeString w = .ok s := by
  apply h.iff_of_scalar fun value => decodeString value = .ok s
  intro value hvalue
  cases value with
  | string => rfl
  | null | bool | number | array | object => cases hvalue

/-- A kind is decoded from alike values, whatever part they play. -/
theorem decodeKind_iff (h : Alike role v w) (kind : Kind) :
    Kind.decode v = .ok kind ↔ Kind.decode w = .ok kind := by
  apply h.iff_of_scalar fun value => Kind.decode value = .ok kind
  intro value hvalue
  cases value with
  | string | number => rfl
  | null | bool | array | object => cases hvalue

/-- A string is like itself alone, whatever part it plays. -/
theorem eq_string_iff (h : Alike role v w) (s : String) : v = .string s ↔ w = .string s := by
  apply h.iff_of_scalar fun value => value = .string s
  intro value hvalue
  rw [hvalue]
  rfl

end Alike

/-! ## Fields in any order -/

section Fields

variable {row moved : List ι} {name : ι → String} {value value' : ι → Value} {roleOf : ι → Role}

/-- Outcomes that accept the same accept the same of what is made of it. -/
theorem map_eq_ok_iff_of_iff {β : Type} {f : α → β} {outcome other : Except Cause α}
    (h : ∀ a, outcome = .ok a ↔ other = .ok a) (b : β) :
    outcome.map f = .ok b ↔ other.map f = .ok b := by
  constructor
  · intro hb
    obtain ⟨a, ha, rfl⟩ := exists_of_map_eq_ok hb
    rw [(h a).mp ha]
    rfl
  · intro hb
    obtain ⟨a, ha, rfl⟩ := exists_of_map_eq_ok hb
    rw [(h a).mpr ha]
    rfl

/-- A node of a kind is put together alike from members in different orders. -/
theorem ofMembers_eq_ok_iff_of_perm (hperm : row.Perm moved)
    (halike : ∀ x ∈ row, Alike (roleOf x) (value x) (value' x))
    (hchildren : ∀ x ∈ row, name x = "children" → roleOf x = .children)
    (hproperties : ∀ x ∈ row, name x = "properties" → roleOf x = .properties) (kind : Kind)
    (node : Node) :
    ofMembers kind (row.map fun x => (name x, value x)) = .ok node ↔
      ofMembers kind (moved.map fun x => (name x, value' x)) = .ok node := by
  have hstring (key : String) (found : Option String) :
      Field decodeString key (row.map fun x => (name x, value x)) found ↔
        Field decodeString key (moved.map fun x => (name x, value' x)) found :=
    field_iff_of_perm hperm fun x hx _ => (halike x hx).decodeString_iff
  have hnodes (found : Option (List Node)) :
      Field decodeChildren "children" (row.map fun x => (name x, value x)) found ↔
        Field decodeChildren "children" (moved.map fun x => (name x, value' x)) found := by
    refine field_iff_of_perm hperm fun x hx hname => ?_
    have h := (halike x hx).decodes
    rw [hchildren x hx hname] at h
    exact h
  have hdecoded (found : Option (Option Properties)) :
      Field Properties.decode "properties" (row.map fun x => (name x, value x)) found ↔
        Field Properties.decode "properties" (moved.map fun x => (name x, value' x)) found := by
    refine field_iff_of_perm hperm fun x hx hname => ?_
    have h := (halike x hx).decodes
    rw [hproperties x hx hname] at h
    exact h
  have hcontent (content : String) :
      decodeContent none (row.map fun x => (name x, value x)) = .ok content ↔
        decodeContent none (moved.map fun x => (name x, value' x)) = .ok content := by
    rw [decodeContent_eq_ok_iff, decodeContent_eq_ok_iff, FieldFrom.none_iff, FieldFrom.none_iff]
    exact hstring "value" _
  cases kind with
  | root =>
      rw [ofMembers, ofMembers, decodeRoot_eq_ok_iff, decodeRoot_eq_ok_iff]
      simp only [FieldFrom.none_iff, hnodes]
  | element =>
      rw [ofMembers, ofMembers, decodeElement_eq_ok_iff, decodeElement_eq_ok_iff]
      simp only [FieldFrom.none_iff, hstring, hdecoded, hnodes]
  | text => exact map_eq_ok_iff_of_iff hcontent node
  | comment => exact map_eq_ok_iff_of_iff hcontent node
  | doctype => exact Iff.rfl

end Fields

/-! ## Arrays and objects -/

section Parts

variable {row moved : List ι} {value value' : ι → Value}

/-- Values in rows that nest as deeply, member by member, nest as deeply in any order. -/
theorem depth_object_eq {name : ι → String} (hperm : row.Perm moved)
    (h : ∀ x ∈ row, (value x).depth = (value' x).depth) :
    (Value.object (row.map fun x => (name x, value x))).depth =
      (Value.object (moved.map fun x => (name x, value' x))).depth := by
  have hle (d : Nat) : Value.depthMembers (row.map fun x => (name x, value x)) ≤ d ↔
      Value.depthMembers (moved.map fun x => (name x, value' x)) ≤ d := by
    rw [Value.depthMembers_le_iff, Value.depthMembers_le_iff, List.forall_mem_map,
      List.forall_mem_map]
    constructor
    · intro hd x hx
      have hx' := hperm.mem_iff.mpr hx
      exact h x hx' ▸ hd x hx'
    · intro hd x hx
      exact h x hx ▸ hd x (hperm.mem_iff.mp hx)
  rw [Value.depth, Value.depth]
  congr 1
  exact Nat.le_antisymm ((hle _).mpr (Nat.le_refl _)) ((hle _).mp (Nat.le_refl _))

/-- Items that nest as deeply, one by one, make arrays that nest as deeply. -/
theorem depth_array_eq (h : ∀ x ∈ row, (value x).depth = (value' x).depth) :
    (Value.array (row.map value)).depth = (Value.array (row.map value')).depth := by
  have hle (d : Nat) :
      Value.depthItems (row.map value) ≤ d ↔ Value.depthItems (row.map value') ≤ d := by
    rw [Value.depthItems_le_iff, Value.depthItems_le_iff, List.forall_mem_map, List.forall_mem_map]
    exact forall₂_congr fun x hx => by rw [h x hx]
  rw [Value.depth, Value.depth]
  congr 1
  exact Nat.le_antisymm ((hle _).mpr (Nat.le_refl _)) ((hle _).mp (Nat.le_refl _))

/-- Something nests in an array or an object. -/
theorem depth_ne_zero (items : List Value) (members : List (String × Value)) :
    (Value.array items).depth ≠ 0 ∧ (Value.object members).depth ≠ 0 := by
  rw [Value.depth, Value.depth]
  omega

/-- The fields of a node given as an array are in their places. -/
theorem Kind.ofItem_fieldNames (kind : Kind) {i : Nat} {key : String}
    (h : kind.fieldNames[i]? = some key) :
    (key = "children" → Role.node.ofItem (i + 1) = .children) ∧
      (key = "properties" → Role.node.ofItem (i + 1) = .properties) := by
  cases kind with
  | root | text | comment =>
      cases i with
      | zero =>
          obtain rfl := Option.some.inj h
          simp [Role.ofItem]
      | succ i => simp [fieldNames] at h
  | element =>
      rcases i with _ | _ | _ | i
      · obtain rfl := Option.some.inj h
        simp [Role.ofItem]
      · obtain rfl := Option.some.inj h
        simp [Role.ofItem]
      · obtain rfl := Option.some.inj h
        simp [Role.ofItem]
      · simp [fieldNames] at h
  | doctype => simp [fieldNames] at h

/-- An array has its type given by name if that comes first. -/
theorem typedByName_array_iff {items : List Value} :
    TypedByName (.array items) ↔ ∃ name, items.head? = some (.string name) := by
  constructor
  · intro h
    cases h with
    | array => exact ⟨_, rfl⟩
  · intro h
    obtain ⟨name, hname⟩ := h
    obtain ⟨fields, rfl⟩ := List.head?_eq_some_iff.mp hname
    exact .array

/-- An object has its type given by name if a member does so. -/
theorem typedByName_object_iff {members : List (String × Value)} :
    TypedByName (.object members) ↔ ∃ name, ("type", .string name) ∈ members := by
  constructor
  · intro h
    cases h with
    | object hmem => exact ⟨_, hmem⟩
  · intro h
    obtain ⟨name, hmem⟩ := h
    exact .object hmem

/-- An array is decoded into the node that its items make behind its type. -/
theorem decode_array_eq_ok_iff {type : Value} {items : List Value} {node : Node} :
    decode (.array (type :: items)) = .ok node ↔
      ∃ kind, Kind.decode type = .ok kind ∧ items.length ≤ kind.fieldNames.length ∧
        ofMembers kind (kind.fieldNames.zip items) = .ok node := by
  rw [decode_eq_ok_iff_form]
  constructor
  · intro h
    obtain ⟨kind, fields, hform, hnode⟩ := h
    cases hform with
    | array htype hlength => exact ⟨kind, htype, hlength, hnode⟩
  · intro h
    obtain ⟨kind, htype, hlength, hnode⟩ := h
    exact ⟨kind, _, .array htype hlength, hnode⟩

/-- The fields of a node given as an array are decoded alike if they are alike, each in its
place. -/
theorem ofMembers_zip_eq_ok_iff {index : ι → Nat}
    (hindex : row.map index = List.range' 1 row.length)
    (h : ∀ x ∈ row, Alike (Role.node.ofItem (index x)) (value x) (value' x)) (kind : Kind)
    (node : Node) :
    ofMembers kind (kind.fieldNames.zip (row.map value)) = .ok node ↔
      ofMembers kind (kind.fieldNames.zip (row.map value')) = .ok node := by
  have hzip (value : ι → Value) : kind.fieldNames.zip (row.map value) =
      (kind.fieldNames.zip row).map fun y => (y.1, value y.2) := List.zip_map_right ..
  have hplace : ∀ y ∈ kind.fieldNames.zip row,
      ∃ i, kind.fieldNames[i]? = some y.1 ∧ index y.2 = i + 1 := by
    intro y hy
    obtain ⟨i, hi⟩ := List.getElem?_of_mem hy
    obtain ⟨hname, hx⟩ := List.getElem?_zip_eq_some.mp hi
    have hlt : i < row.length := (List.getElem?_eq_some_iff.mp hx).1
    have hat : (row.map index)[i]? = (List.range' 1 row.length)[i]? := by rw [hindex]
    rw [List.getElem?_map, hx, List.getElem?_range' hlt, Nat.one_mul, Nat.add_comm] at hat
    exact ⟨i, hname, Option.some.inj hat⟩
  rw [hzip, hzip]
  refine ofMembers_eq_ok_iff_of_perm (List.Perm.refl _)
    (fun y hy => h y.2 (List.of_mem_zip hy).2) (fun y hy hname => ?_) (fun y hy hname => ?_) kind
    node
  · obtain ⟨i, hi, hindex⟩ := hplace y hy
    rw [hindex]
    exact (kind.ofItem_fieldNames hi).1 hname
  · obtain ⟨i, hi, hindex⟩ := hplace y hy
    rw [hindex]
    exact (kind.ofItem_fieldNames hi).2 hname

/-- Arrays are decoded alike if their items are, each by the part that it plays. -/
theorem Alike.array {index : ι → Nat} (hindex : row.map index = List.range row.length)
    (h : ∀ x ∈ row, Alike (role.ofItem (index x)) (value x) (value' x)) :
    Alike role (.array (row.map value)) (.array (row.map value')) := by
  refine ⟨depth_array_eq fun x hx => (h x hx).depth,
    fun hzero => absurd hzero (depth_ne_zero _ []).1, ?_⟩
  cases role with
  | ignored => trivial
  | property =>
      have heq : ∀ x ∈ row, value x = value' x := fun x hx => (h x hx).decodes
      exact congrArg Value.array (List.map_congr_left heq)
  | properties => exact fun p => ⟨nofun, nofun⟩
  | children =>
      intro nodes
      rw [decodeChildren, decodeChildren, decodeList_eq_ok_iff, decodeList_eq_ok_iff,
        List.forall₂_map_left_iff, List.forall₂_map_left_iff]
      have hnode : ∀ x ∈ row, ∀ n, decode (value x) = .ok n ↔ decode (value' x) = .ok n :=
        fun x hx => (h x hx).decodes.2
      constructor
      · intro hrow
        refine ((List.forall₂_and_left _ _).mpr ⟨hnode, hrow⟩).imp ?_
        exact fun x n hx => (hx.1 n).mp hx.2
      · intro hrow
        refine ((List.forall₂_and_left _ _).mpr ⟨hnode, hrow⟩).imp ?_
        exact fun x n hx => (hx.1 n).mpr hx.2
  | node =>
      cases row with
      | nil => exact (Alike.refl .node (.array [])).decodes
      | cons type items =>
          obtain ⟨htype, hitems⟩ := List.forall_mem_cons.mp h
          rw [List.map_cons, List.length_cons, List.range_eq_range', List.range'_succ,
            List.cons.injEq] at hindex
          have hfields := ofMembers_zip_eq_ok_iff hindex.2 hitems
          constructor
          · simp only [typedByName_array_iff, List.map_cons, List.head?_cons, Option.some_inj,
              htype.eq_string_iff]
          · intro node
            simp only [List.map_cons, decode_array_eq_ok_iff, htype.decodeKind_iff,
              List.length_map, hfields]

/-- An object is decoded into the node that its members make, of the kind that its type gives. -/
theorem decode_object_eq_ok_iff {members : List (String × Value)} {node : Node} :
    decode (.object members) = .ok node ↔
      ∃ kind, Field Kind.decode "type" members (some kind) ∧ ofMembers kind members = .ok node := by
  rw [decode_eq_ok_iff_form]
  constructor
  · intro h
    obtain ⟨kind, fields, hform, hnode⟩ := h
    cases hform with
    | object htype => exact ⟨kind, htype, hnode⟩
  · intro h
    obtain ⟨kind, htype, hnode⟩ := h
    exact ⟨kind, members, .object htype, hnode⟩

/-- Properties do not depend on the order of their members, if those with unknown keys stay in
theirs. -/
theorem properties_eq_ok_iff_of_perm {members others : List (String × Value)}
    (hperm : members.Perm others)
    (hother : (members.filter fun m => m.1 ∉ Properties.knownKeys) =
      others.filter fun m => m.1 ∉ Properties.knownKeys) (p : Properties) :
    Properties.ofMembers members = .ok p ↔ Properties.ofMembers others = .ok p := by
  have hfield {α : Type} {decode : Value → Except Cause α} {key : String} {found : Option α} :
      Field decode key members found ↔ Field decode key others found := by
    have hiff : Field decode key (members.map fun m => (m.1, m.2)) found ↔
        Field decode key (others.map fun m => (m.1, m.2)) found :=
      field_iff_of_perm hperm fun _ _ _ _ => Iff.rfl
    rwa [List.map_id' members, List.map_id' others] at hiff
  rw [Properties.ofMembers_eq_ok_iff, Properties.ofMembers_eq_ok_iff]
  simp only [hfield, hother]

/-- Objects are decoded alike if their members come in orders that are allowed and have values that
are alike, each by the part that it plays. -/
theorem Alike.object {name : ι → String} (hallows : role.Allows (fun x => some (name x)) row moved)
    (h : ∀ x ∈ row, Alike (role.ofName (some (name x))) (value x) (value' x)) :
    Alike role (.object (row.map fun x => (name x, value x)))
      (.object (moved.map fun x => (name x, value' x))) := by
  have hperm := hallows.perm
  refine ⟨depth_object_eq hperm fun x hx => (h x hx).depth,
    fun hzero => absurd hzero (depth_ne_zero [] _).2, ?_⟩
  have hkept (heq : ∀ x ∈ row, value x = value' x) :
      (row.map fun x => (name x, value x)) = row.map fun x => (name x, value' x) :=
    List.map_congr_left fun x hx => by rw [heq x hx]
  cases role with
  | ignored => trivial
  | children => exact fun nodes => ⟨nofun, nofun⟩
  | property =>
      obtain rfl : row = moved := hallows
      exact congrArg Value.object (hkept fun x hx => (h x hx).decodes)
  | properties =>
      have hfilter : (row.filter fun x => name x ∉ Properties.knownKeys) =
          moved.filter fun x => name x ∉ Properties.knownKeys := by
        simpa using hallows.2
      have hunknown (list : List ι) :
          ((list.map fun x => (name x, value' x)).filter fun m => m.1 ∉ Properties.knownKeys) =
            (list.filter fun x => name x ∉ Properties.knownKeys).map fun x => (name x, value' x) :=
        List.filter_map ..
      have hmembers := properties_eq_ok_iff_of_perm (hperm.map fun x => (name x, value' x))
        (by rw [hunknown, hunknown, hfilter])
      intro p
      rw [hkept fun x hx => (h x hx).decodes]
      exact map_eq_ok_iff_of_iff hmembers p
  | node =>
      have htype (found : Option Kind) :
          Field Kind.decode "type" (row.map fun x => (name x, value x)) found ↔
            Field Kind.decode "type" (moved.map fun x => (name x, value' x)) found :=
        field_iff_of_perm hperm fun x hx _ => (h x hx).decodeKind_iff
      have hfields := ofMembers_eq_ok_iff_of_perm hperm h
        (fun x _ (hname : name x = "children") => by rw [hname]; rfl)
        (fun x _ (hname : name x = "properties") => by rw [hname]; rfl)
      have hnamed (text : String) :
          ("type", .string text) ∈ (row.map fun x => (name x, value x)) ↔
            ("type", .string text) ∈ moved.map fun x => (name x, value' x) := by
        simp only [List.mem_map, Prod.mk.injEq, ← hperm.mem_iff]
        refine exists_congr fun x => and_congr_right fun hx => and_congr_right' ?_
        exact (h x hx).eq_string_iff text
      constructor
      · simp only [typedByName_object_iff, hnamed]
      · intro node
        simp only [decode_object_eq_ok_iff, htype, hfields]

end Parts

end CellAlign.Node

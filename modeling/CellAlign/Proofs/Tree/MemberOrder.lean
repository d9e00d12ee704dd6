import CellAlign.Proofs.Json.Joined
import CellAlign.Proofs.Tree.Nested
import CellAlign.Proofs.Tree.Roles

/-!
# The order of members

In a text the members of a node may come in any order, its type among them, and so may the known
members of a properties object between the others.  `Rearranged` says so of two texts: objects at
any depth may have their members in different orders, as far as the part that they play in a tree
allows it.  What such texts are read as is not the same, but it is decoded alike, so the texts are
of the same tree or are both refused.

* `Rearranged`: texts with members in different orders;
* `ReadAlike.array`, `ReadAlike.object`, `Rearranged.readAlike`: what such texts are read as;
* `ofJson_of_rearranged`: the trees of such texts.
-/

namespace CellAlign.Node

open Json

/-! ## Rearranged texts -/

/-- Two texts in the syntax of JSON that differ in the order in which members come, as far as the
part that each object plays allows it, and in gaps. -/
inductive Rearranged : Role → List Char → List Char → Prop
  | same {role : Role} {depth : Nat} {text : List Char} (h : Derives .value depth text) :
      Rearranged role text text
  | spaced {role : Role} {before after before' after' text other : List Char}
      (hbefore : IsGap before) (hafter : IsGap after) (hbefore' : IsGap before')
      (hafter' : IsGap after') (h : Rearranged role text other) :
      Rearranged role (before ++ (text ++ after)) (before' ++ (other ++ after'))
  | array {role : Role} {items : List (List Char × List Char)} (hne : items ≠ [])
      (hitems : ∀ item ∈ items.zipIdx,
        Rearranged (role.ofItem item.2) item.1.1 item.1.2) :
      Rearranged role ('[' :: ([','].intercalate (items.map fun item => item.1) ++ [']']))
        ('[' :: ([','].intercalate (items.map fun item => item.2) ++ [']']))
  | object {role : Role} {members moved : List (Member × Member)} (hne : members ≠ [])
      (hformed : ∀ m ∈ members, m.1.Formed ∧ m.2.Formed ∧ m.1.key = m.2.key)
      (hvalues : ∀ m ∈ members, Rearranged (role.ofName m.1.name?) m.1.value m.2.value)
      (hmoved : role.Allows (fun m => m.1.name?) members moved) :
      Rearranged role
        ('\x7b' :: ([','].intercalate (members.map fun m => m.1.text) ++ ['\x7d']))
        ('\x7b' :: ([','].intercalate (moved.map fun m => m.2.text) ++ ['\x7d']))

variable {ι : Type} {role : Role}

/-! ## What rearranged texts are read as -/

/-- Two texts are read as values that are decoded alike, or are both refused, where there is room
for what nests in them. -/
def ReadAlike (role : Role) (text other : List Char) : Prop :=
  ∃ depth found found', Option.Rel (Alike role) found found' ∧ ∀ room, depth ≤ room →
    ReadsPart (readValue room) text found ∧ ReadsPart (readValue room) other found'

namespace ReadAlike

variable {text other : ι → List Char} {row moved : List ι}

/-- Parts that are read alike are so where there is room for what nests in one of them. -/
theorem exists_reads {roleOf : ι → Role} (hne : row ≠ [])
    (h : ∀ x ∈ row, ReadAlike (roleOf x) (text x) (other x)) :
    ∃ depth, ∃ found found' : ι → Option Value,
      (∀ x ∈ row, Option.Rel (Alike (roleOf x)) (found x) (found' x)) ∧
        ∀ room, depth ≤ room → ∀ x ∈ row, ReadsPart (readValue room) (text x) (found x) ∧
          ReadsPart (readValue room) (other x) (found' x) := by
  unfold ReadAlike at h
  choose! depth found found' hrel hreads using h
  have hmax : row.map depth ≠ [] := by simpa using hne
  refine ⟨(row.map depth).max hmax, found, found', hrel, fun room hroom x hx => ?_⟩
  have hle : depth x ≤ (row.map depth).max hmax := List.le_max_of_mem (List.mem_map_of_mem hx)
  exact hreads x hx room (Nat.le_trans hle hroom)

/-- Arrays of items that are read alike are read alike. -/
theorem array {index : ι → Nat} (hne : row ≠ [])
    (hindex : row.map index = List.range row.length)
    (h : ∀ x ∈ row, ReadAlike (role.ofItem (index x)) (text x) (other x)) :
    ReadAlike role ('[' :: ([','].intercalate (row.map text) ++ [']']))
      ('[' :: ([','].intercalate (row.map other) ++ [']'])) := by
  obtain ⟨depth, found, found', hrel, hreads⟩ := exists_reads hne h
  refine ⟨depth + 1, (row.mapM found).map .array, (row.mapM found').map .array, ?_, ?_⟩
  · have : Nonempty Value := ⟨.null⟩
    rcases mapM_rel (List.Perm.refl row) hrel with ⟨hnone, hnone'⟩ |
      ⟨value, value', halike, hvalue, hvalue'⟩
    · rw [hnone, hnone']
      exact .none
    · rw [hvalue, hvalue']
      exact .some (Alike.array hindex halike)
  · intro room hroom
    obtain ⟨inner, rfl⟩ := Nat.exists_eq_add_of_le' (Nat.le_trans (Nat.le_add_left 1 depth) hroom)
    have hparts := hreads inner (Nat.le_of_succ_le_succ hroom)
    exact ⟨.array hne fun x hx => (hparts x hx).1, .array hne fun x hx => (hparts x hx).2⟩

/-- Members with the same key come to entries that are alike, or both to nothing, if their values
do. -/
theorem rel_entry {m : Member} {found found' : Option Value}
    (h : Option.Rel (Alike (role.ofName m.name?)) found found') :
    Option.Rel
      (fun e e' => m.name? = some e.1 ∧ e'.1 = e.1 ∧ Alike (role.ofName (some e.1)) e.2 e'.2)
      (m.entry found) (m.entry found') := by
  unfold Member.entry
  cases hkey : m.name? with
  | none => exact .none
  | some name =>
      rw [hkey] at h
      cases h with
      | none => exact .none
      | some halike => exact .some ⟨rfl, rfl, halike⟩

/-- Objects with members that are read alike, in orders that are allowed, are read alike. -/
theorem object {members moved : List (Member × Member)} (hne : members ≠ [])
    (hformed : ∀ m ∈ members, m.1.Formed ∧ m.2.Formed ∧ m.1.key = m.2.key)
    (hmoved : role.Allows (fun m => m.1.name?) members moved)
    (h : ∀ m ∈ members, ReadAlike (role.ofName m.1.name?) m.1.value m.2.value) :
    ReadAlike role ('\x7b' :: ([','].intercalate (members.map fun m => m.1.text) ++ ['\x7d']))
      ('\x7b' :: ([','].intercalate (moved.map fun m => m.2.text) ++ ['\x7d'])) := by
  have hperm := hmoved.perm
  have hmem {m : Member × Member} (hm : m ∈ moved) : m ∈ members := hperm.mem_iff.mpr hm
  have hne' : moved ≠ [] := fun hnil => hne (hnil ▸ hperm).eq_nil
  obtain ⟨depth, found, found', hrel, hreads⟩ := exists_reads hne h
  refine ⟨depth + 1, (members.mapM fun m : Member × Member => m.1.entry (found m)).map .object,
    (moved.mapM fun m : Member × Member => m.1.entry (found' m)).map .object, ?_, ?_⟩
  · have : Nonempty (String × Value) := ⟨("", .null)⟩
    rcases mapM_rel hperm fun m hm => rel_entry (hrel m hm) with ⟨hnone, hnone'⟩ |
      ⟨value, value', halike, hvalue, hvalue'⟩
    · rw [hnone, hnone']
      exact .none
    · rw [hvalue, hvalue']
      refine .some ?_
      have hallows := hmoved.congr fun m hm => (halike m hm).1
      have hkeys : (moved.map fun m => ((value m).1, (value' m).2)) = moved.map value' :=
        List.map_congr_left fun m hm => by rw [← (halike m (hmem hm)).2.1]
      rw [← hkeys]
      exact Alike.object hallows fun m hm => (halike m hm).2.2
  · intro room hroom
    obtain ⟨inner, rfl⟩ := Nat.exists_eq_add_of_le' (Nat.le_trans (Nat.le_add_left 1 depth) hroom)
    have hparts := hreads inner (Nat.le_of_succ_le_succ hroom)
    refine ⟨.object hne fun m hm => ?_, .object hne' fun m hm => ?_⟩
    · exact Member.readsPart (hformed m hm).1 (hparts m hm).1
    · obtain ⟨-, hother, hkey⟩ := hformed m (hmem hm)
      rw [Member.entry_eq_of_key hkey]
      exact Member.readsPart hother (hparts m (hmem hm)).2

end ReadAlike

/-- Texts with members in different orders are read alike. -/
theorem Rearranged.readAlike {text other : List Char} (h : Rearranged role text other) :
    ReadAlike role text other := by
  induction h with
  | @same role depth text h =>
      obtain ⟨hstarts, found, hfound⟩ := settled_of_derives h
      refine ⟨depth, found, found, ?_, fun room hroom => ?_⟩
      · cases found with
        | none => exact .none
        | some value => exact .some (.refl role value)
      · have hpart := (hfound room hroom).part hstarts
        exact ⟨hpart, hpart⟩
  | spaced hbefore hafter hbefore' hafter' h ih =>
      obtain ⟨depth, found, found', hrel, hreads⟩ := ih
      refine ⟨depth, found, found', hrel, fun room hroom => ?_⟩
      obtain ⟨htext, hother⟩ := hreads room hroom
      exact ⟨.spaced hbefore htext hafter, .spaced hbefore' hother hafter'⟩
  | @array role items hne hitems ih =>
      have hrow : items.zipIdx ≠ [] := by simpa using hne
      have hindex : items.zipIdx.map Prod.snd = List.range items.zipIdx.length := by
        rw [List.length_zipIdx, List.zipIdx_map_snd, List.range_eq_range']
      have hmap (part : List Char × List Char → List Char) :
          (items.zipIdx.map fun item => part item.1) = items.map part := by
        have hcomp := List.map_map (f := Prod.fst) (g := part) (l := items.zipIdx)
        rw [List.zipIdx_map_fst] at hcomp
        exact hcomp.symm
      have harray := ReadAlike.array hrow hindex ih
      rw [hmap, hmap] at harray
      exact harray
  | object hne hformed hvalues hmoved ih => exact .object hne hformed hmoved ih

/-! ## Trees -/

variable {text other : String}

/-- A text that is read as a value where there is room enough is of the tree that the value is
decoded into, if the value does not nest too deeply and gives its type by name. -/
theorem ofJson_eq_ok_iff_of_readsPart {depth : Nat} {found : Option Value} {node : Node}
    (h : ∀ room, depth ≤ room → ReadsPart (readValue room) text.toList found) :
    ofJson text = .ok node ↔ ∃ value, found = some value ∧ value.depth ≤ nestingLimit ∧
      TypedByName value ∧ decode value = .ok node := by
  obtain ⟨after, hafter, hread⟩ :=
    readValue_eq_ok_iff_of_readsPart (h (max depth nestingLimit) (Nat.le_max_left ..))
  rw [ofJson_eq_ok_iff]
  simp only [readValue_eq_ok_iff_of_le (Nat.le_max_right depth nestingLimit), hread]
  constructor
  · intro h
    obtain ⟨value, rest, ⟨⟨hvalue, -⟩, hdepth⟩, -, htyped, hdecode⟩ := h
    exact ⟨value, hvalue, hdepth, htyped, hdecode⟩
  · intro h
    obtain ⟨value, hvalue, hdepth, htyped, hdecode⟩ := h
    exact ⟨value, after, ⟨⟨hvalue, rfl⟩, hdepth⟩, hafter, htyped, hdecode⟩

/-- In a text in the syntax of JSON the members of a node may come in any order, and those of a
properties object in any that keeps the order of the unknown ones: both texts are accepted and are
of the same tree, or both are refused. -/
theorem ofJson_of_rearranged (h : Rearranged .node text.toList other.toList) :
    (∃ node, ofJson text = .ok node ∧ ofJson other = .ok node) ∨
      ((∃ fault, ofJson text = .error fault) ∧ ∃ fault, ofJson other = .error fault) := by
  obtain ⟨depth, found, found', hrel, hreads⟩ := h.readAlike
  have hiff (node : Node) : ofJson text = .ok node ↔ ofJson other = .ok node := by
    rw [ofJson_eq_ok_iff_of_readsPart fun room hroom => (hreads room hroom).1,
      ofJson_eq_ok_iff_of_readsPart fun room hroom => (hreads room hroom).2]
    cases hrel with
    | none => simp
    | some halike => simp [halike.depth, halike.decodes.1, halike.decodes.2]
  cases htext : ofJson text with
  | ok node => exact Or.inl ⟨node, rfl, (hiff node).mp htext⟩
  | error fault =>
      cases hother : ofJson other with
      | ok node =>
          rw [(hiff node).mpr hother] at htext
          cases htext
      | error fault' => exact Or.inr ⟨⟨fault, rfl⟩, fault', rfl⟩

/-! ## An example -/

/-- A member of two texts, without gaps and with a value for each of the texts. -/
def compact (key value value' : List Char) : Member × Member :=
  (⟨[], key, [], value⟩, ⟨[], key, [], value'⟩)

/-- A member of two texts, without gaps and with the same string in both of them. -/
def compactString (key body : List Char) : Member × Member :=
  compact key ('"' :: (body ++ ['"'])) ('"' :: (body ++ ['"']))

/-- A key of plain characters is in the syntax of strings. -/
theorem formed_compact {key value value' : List Char}
    (h : (key.all fun c => c != '"' && c != '\\' && 0x20 ≤ c.toNat) = true) :
    (compact key value value').1.Formed ∧ (compact key value value').2.Formed ∧
      (compact key value value').1.key = (compact key value value').2.key :=
  ⟨⟨nofun, isBody_of_plain h, nofun⟩, ⟨nofun, isBody_of_plain h, nofun⟩, rfl⟩

/-- A string of plain characters stays as it is. -/
theorem rearranged_compactString {key body : List Char}
    (h : (body.all fun c => c != '"' && c != '\\' && 0x20 ≤ c.toNat) = true) :
    Rearranged role (compactString key body).1.value (compactString key body).2.value := by
  have hvalue : Derives .value 0 ('"' :: (body ++ ['"'])) := .string (isBody_of_plain h)
  exact .same hvalue

/-- The members of an element and of its properties in two orders; one of the unknown keys is there
twice.  Both texts are of the same element. -/
theorem ofJson_of_rearranged_element :
    let text := "\x7b\"type\":\"element\",\"tagName\":\"p\",\"properties\":" ++
      "\x7b\"id\":\"a\",\"align\":\"b\",\"id\":\"c\"\x7d\x7d"
    let other := "\x7b\"properties\":\x7b\"align\":\"b\",\"id\":\"a\",\"id\":\"c\"\x7d," ++
      "\"tagName\":\"p\",\"type\":\"element\"\x7d"
    let node : Node :=
      .element "p" (some { align := some (.string "b"), other := [("id", .string "c")] }) []
    Rearranged .node text.toList other.toList ∧ ofJson text = .ok node ∧
      ofJson other = .ok node := by
  intro text other node
  let first := compactString ['i', 'd'] ['a']
  let align := compactString ['a', 'l', 'i', 'g', 'n'] ['b']
  let second := compactString ['i', 'd'] ['c']
  let type := compactString ['t', 'y', 'p', 'e'] ['e', 'l', 'e', 'm', 'e', 'n', 't']
  let tag := compactString ['t', 'a', 'g', 'N', 'a', 'm', 'e'] ['p']
  let properties := compact ['p', 'r', 'o', 'p', 'e', 'r', 't', 'i', 'e', 's']
    ('\x7b' :: ([','].intercalate ([first, align, second].map fun m => m.1.text) ++ ['\x7d']))
    ('\x7b' :: ([','].intercalate ([align, first, second].map fun m => m.2.text) ++ ['\x7d']))
  have htext : text.toList = '\x7b' ::
      ([','].intercalate ([type, tag, properties].map fun m => m.1.text) ++ ['\x7d']) := by decide
  have hother : other.toList = '\x7b' ::
      ([','].intercalate ([properties, tag, type].map fun m => m.2.text) ++ ['\x7d']) := by decide
  have hproperties : Rearranged .properties properties.1.value properties.2.value := by
    refine .object nofun ?_ ?_ ⟨.swap .., by decide⟩
    · simp only [List.forall_mem_cons]
      exact ⟨formed_compact rfl, formed_compact rfl, formed_compact rfl, nofun⟩
    · simp only [List.forall_mem_cons]
      exact ⟨rearranged_compactString rfl, rearranged_compactString rfl,
        rearranged_compactString rfl, nofun⟩
  have hnode : Rearranged .node text.toList other.toList := by
    rw [htext, hother]
    refine .object nofun ?_ ?_ (List.reverse_perm _).symm
    · simp only [List.forall_mem_cons]
      exact ⟨formed_compact rfl, formed_compact rfl, formed_compact rfl, nofun⟩
    · simp only [List.forall_mem_cons]
      exact ⟨rearranged_compactString rfl, rearranged_compactString rfl, hproperties, nofun⟩
  have hread : ofJson text = .ok node := by
    rw [ofJson, htext]
    rfl
  refine ⟨hnode, hread, ?_⟩
  rcases ofJson_of_rearranged hnode with ⟨found, htext, hother⟩ | ⟨⟨fault, hfault⟩, -⟩
  · obtain rfl : node = found := Except.ok.inj (hread.symm.trans htext)
    exact hother
  · rw [hread] at hfault
    cases hfault

end CellAlign.Node

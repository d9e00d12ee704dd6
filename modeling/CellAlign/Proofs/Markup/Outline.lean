import CellAlign.Markup.Draft
import Mathlib.Data.List.Perm.Subperm

/-!
# The outline of a draft

An outline is a tree of item numbers.  A draft holds an outline if its links downwards and sideways
are those of the outline (`Draft.Holds`); of the parents that items name nothing is said.

* `Draft.tree_of_holds`: the tree of a draft is that of the outline it holds;
* `Draft.length_ids_le`: an outline without repetitions has no more items than the draft.
-/

namespace CellAlign.Markup

/-- A tree of item numbers. -/
inductive Outline where
  | node (top : ItemId) (inner : List Outline)

namespace Outline

/-- The item at the top. -/
def top : Outline → ItemId
  | node top _ => top

/-- The outlines of the children. -/
def inner : Outline → List Outline
  | node _ inner => inner

/-- The first and the last item of a row. -/
def ends (row : List Outline) : Option (ItemId × ItemId) :=
  row.head?.bind fun first => row.getLast?.map fun last => (first.top, last.top)

mutual

/-- The items of an outline in document order. -/
def ids : Outline → List ItemId
  | node top inner => top :: idsList inner

/-- The items of a row of outlines in document order. -/
def idsList : List Outline → List ItemId
  | [] => []
  | outline :: row => outline.ids ++ idsList row

end

mutual

/-- An outline and all outlines in it. -/
def parts : Outline → List Outline
  | node top inner => node top inner :: partsList inner

/-- The outlines of a row and all outlines in them. -/
def partsList : List Outline → List Outline
  | [] => []
  | outline :: row => outline.parts ++ partsList row

end

mutual

/-- The tree that an outline is of. -/
def tree (draft : Draft) : Outline → Tree
  | node top inner =>
    .node (((draft.entry? top).map (·.item)).getD .fragment) (treeList draft inner)

/-- The trees that the outlines of a row are of. -/
def treeList (draft : Draft) : List Outline → List Tree
  | [] => []
  | outline :: row => outline.tree draft :: treeList draft row

end

/-- The tops of a row are among its items, in their order. -/
theorem map_top_sublist (row : List Outline) : (row.map Outline.top).Sublist (idsList row) := by
  induction row with
  | nil => exact .slnil
  | cons outline row ih =>
      cases outline with
      | node top inner =>
          rw [List.map_cons, idsList, ids, List.cons_append]
          exact (ih.trans (List.sublist_append_right _ _)).cons_cons top

mutual

/-- What is in an outline has its items there. -/
theorem ids_sublist : (outline : Outline) → ∀ part ∈ outline.parts, part.ids.Sublist outline.ids
  | node top inner, part, hpart => by
      rw [parts, List.mem_cons] at hpart
      rcases hpart with rfl | hpart
      · exact .refl _
      · exact (idsList_sublist inner part hpart).cons top

/-- What is in a row has its items there. -/
theorem idsList_sublist :
    (row : List Outline) → ∀ part ∈ partsList row, part.ids.Sublist (idsList row)
  | [], part, hpart => by simp [partsList] at hpart
  | outline :: row, part, hpart => by
      rw [partsList, List.mem_append] at hpart
      rw [idsList]
      rcases hpart with hpart | hpart
      · exact (ids_sublist outline part hpart).trans (List.sublist_append_left _ _)
      · exact (idsList_sublist row part hpart).trans (List.sublist_append_right _ _)

end

end Outline

namespace Draft

open Outline (ids idsList parts partsList treeList)

mutual

/-- A draft holds an outline: the items are there, and each is linked with its first and last child
and with the item behind it. -/
def Holds (draft : Draft) : Outline → Prop
  | .node top inner =>
    (draft.entry? top).isSome ∧ draft.ends? top = Outline.ends inner ∧ HoldsRow draft inner

/-- A draft holds the outlines of a row as neighbours. -/
def HoldsRow (draft : Draft) : List Outline → Prop
  | [] => True
  | outline :: row =>
    Holds draft outline ∧ draft.after? outline.top = row.head?.map Outline.top ∧ HoldsRow draft row

end

variable {draft : Draft}

mutual

/-- A draft holds what is in an outline that it holds. -/
theorem Holds.part : (outline : Outline) → draft.Holds outline →
    ∀ part ∈ outline.parts, draft.Holds part
  | .node top inner, h, part, hpart => by
      rw [parts, List.mem_cons] at hpart
      rcases hpart with rfl | hpart
      · exact h
      · rw [Holds] at h
        exact HoldsRow.part inner h.2.2 part hpart

/-- A draft holds what is in a row that it holds. -/
theorem HoldsRow.part : (row : List Outline) → draft.HoldsRow row →
    ∀ part ∈ partsList row, draft.Holds part
  | [], _, part, hpart => by simp [partsList] at hpart
  | outline :: row, h, part, hpart => by
      rw [HoldsRow] at h
      rw [partsList, List.mem_append] at hpart
      rcases hpart with hpart | hpart
      · exact Holds.part outline h.1 part hpart
      · exact HoldsRow.part row h.2.2 part hpart

end

mutual

/-- The items of an outline are among those of the draft. -/
theorem lt_size : (outline : Outline) → draft.Holds outline →
    ∀ id ∈ outline.ids, id < draft.entries.size
  | .node top inner, h, other, hother => by
      rw [Holds] at h
      rw [ids, List.mem_cons] at hother
      rcases hother with rfl | hother
      · have hentry : draft.entries[other]?.isSome := h.1
        by_contra hlarge
        rw [Array.getElem?_eq_none (Nat.not_lt.mp hlarge)] at hentry
        cases hentry
      · exact lt_size_row inner h.2.2 other hother

/-- The items of a row are among those of the draft. -/
theorem lt_size_row : (row : List Outline) → draft.HoldsRow row →
    ∀ id ∈ idsList row, id < draft.entries.size
  | [], _, id, hid => by simp [idsList] at hid
  | outline :: row, h, id, hid => by
      rw [HoldsRow] at h
      rw [idsList, List.mem_append] at hid
      rcases hid with hid | hid
      · exact lt_size outline h.1 id hid
      · exact lt_size_row row h.2.2 id hid

end

/-- An outline without repetitions has no more items than the draft that holds it. -/
theorem length_ids_le
    {outline : Outline} (h : draft.Holds outline) (hids : outline.ids.Nodup) :
    outline.ids.length ≤ draft.entries.size := by
  have hsub : outline.ids ⊆ List.range draft.entries.size := by
    intro id hid
    exact List.mem_range.mpr (lt_size outline h id hid)
  simpa using (hids.subperm hsub).length_le

/-! ## The tree of an outline -/

/-- From the first item of a row the neighbours lead through the row to the last. -/
theorem through_of_holdsRow
    {first last : Outline} {row : List Outline} {limit : Nat}
    (h : draft.HoldsRow (first :: row)) (hids : ((first :: row).map Outline.top).Nodup)
    (hlast : (first :: row).getLast? = some last) (hlimit : row.length < limit) :
    draft.through last.top limit first.top = (first :: row).map Outline.top := by
  induction row generalizing first limit with
  | nil =>
      obtain ⟨limit, rfl⟩ := Nat.exists_eq_succ_of_ne_zero (Nat.ne_of_gt hlimit)
      obtain rfl : first = last := by simpa using hlast
      simp [through]
  | cons next row ih =>
      obtain ⟨limit, rfl⟩ := Nat.exists_eq_succ_of_ne_zero (Nat.ne_zero_of_lt hlimit)
      rw [HoldsRow] at h
      rw [List.map_cons, List.nodup_cons] at hids
      rw [List.getLast?_cons_cons] at hlast
      have hne : first.top ≠ last.top := by
        intro heq
        exact hids.1 (heq ▸ List.mem_map_of_mem (List.mem_of_getLast? hlast))
      rw [through, if_neg hne, h.2.1]
      simp only [List.head?_cons, Option.map_some]
      rw [ih h.2.2 hids.2 hlast (by simpa using hlimit)]
      rfl

/-- The children of an item are those of the outline. -/
theorem childrenOf_of_holds
    {top : ItemId} {inner : List Outline} (h : draft.Holds (.node top inner))
    (hids : (idsList inner).Nodup) (hsize : inner.length ≤ draft.entries.size) :
    draft.childrenOf top = inner.map Outline.top := by
  rw [Holds] at h
  rw [childrenOf, h.2.1]
  cases inner with
  | nil => rfl
  | cons first row =>
      have hlast : (first :: row).getLast? = some ((first :: row).getLast (by simp)) :=
        List.getLast?_eq_some_getLast (by simp)
      simp only [Outline.ends, List.head?_cons, hlast, Option.bind_some, Option.map_some]
      exact through_of_holdsRow h.2.2 ((Outline.map_top_sublist _).nodup hids) hlast hsize

mutual

/-- The tree below an item is that of the outline, if it is built as deep as there are items. -/
theorem treeAt_of_holds : (outline : Outline) → (depth : Nat) → draft.Holds outline →
    outline.ids.Nodup → outline.ids.length ≤ draft.entries.size → outline.ids.length ≤ depth →
    draft.treeAt depth outline.top = outline.tree draft
  | .node top inner, 0, _, _, _, hdepth => by simp [ids] at hdepth
  | .node top inner, depth + 1, h, hids, hsize, hdepth => by
      rw [ids, List.nodup_cons] at hids
      rw [ids, List.length_cons] at hsize hdepth
      have hinner : inner.length ≤ (idsList inner).length := by
        simpa using (Outline.map_top_sublist inner).length_le
      have hchildren := childrenOf_of_holds h hids.2 (by omega)
      rw [Holds] at h
      obtain ⟨entry, hentry⟩ := Option.isSome_iff_exists.mp h.1
      rw [Outline.top, treeAt, hchildren, Outline.tree, hentry,
        ← treeAt_row inner depth h.2.2 hids.2 (by omega) (by omega)]
      rfl

/-- The trees below the items of a row are those of the outlines. -/
theorem treeAt_row : (row : List Outline) → (depth : Nat) → draft.HoldsRow row →
    (idsList row).Nodup → (idsList row).length ≤ draft.entries.size →
    (idsList row).length ≤ depth →
    (row.map Outline.top).map (draft.treeAt depth) = treeList draft row
  | [], _, _, _, _, _ => rfl
  | outline :: row, depth, h, hids, hsize, hdepth => by
      rw [HoldsRow] at h
      rw [idsList, List.nodup_append] at hids
      rw [idsList, List.length_append] at hsize hdepth
      rw [List.map_cons, List.map_cons, treeList,
        treeAt_of_holds outline depth h.1 hids.1 (by omega) (by omega),
        treeAt_row row depth h.2.2 hids.2.1 (by omega) (by omega)]

end

/-- The tree of a draft is that of the outline it holds. -/
theorem tree_of_holds
    {outline : Outline} (h : draft.Holds outline) (hids : outline.ids.Nodup) :
    draft.tree outline.top = outline.tree draft := by
  have hsize := length_ids_le h hids
  exact treeAt_of_holds outline _ h hids hsize hsize

end Draft

end CellAlign.Markup

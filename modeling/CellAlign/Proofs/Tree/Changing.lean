import CellAlign.Align.Pass
import CellAlign.Proofs.Tree.Places

/-!
# What a change at a place leaves alone

A change at a place goes down to the node that stands there and puts the new node into the row of
the old one; the heads above and all neighbours stay.  `Node.ChangedAt` says so of two trees by a
derivation that goes down with the place, so that whatever is said of a tree through its head and
its children is carried along it by induction.

* `changeAt_close`: a change below a child is one of the child;
* `changedAt_of_changeAt`: a change that answers leads to such a tree;
* `exists_changeAt_eq`: it answers wherever a node stands that the change has an answer for;
* `ChangedAt.at?_self`, `ChangedAt.head?_at?`: what stands at the place, and at the others.
-/

namespace CellAlign

namespace Head

/-- A closed head is the head of the node. -/
@[simp]
theorem head?_close (head : Head) (children : List Node) :
    (head.close children).head? = some head := by
  cases head with
  | root => rfl
  | element tag properties => rfl

/-- A closed head holds the children that it was closed over. -/
@[simp]
theorem children?_close (head : Head) (children : List Node) :
    (head.close children).children? = some children := by
  cases head with
  | root => rfl
  | element tag properties => rfl

/-- A closed head can be given other children. -/
@[simp]
theorem withChildren_close (head : Head) (old new : List Node) :
    (head.close old).withChildren new = head.close new := by
  cases head with
  | root => rfl
  | element tag properties => rfl

end Head

namespace Node

/-- Two trees are the same but for the nodes at a place, which are related by `change`. -/
inductive ChangedAt (change : Node → Node → Prop) : List Nat → Node → Node → Prop
  | here {old new : Node} (h : change old new) : ChangedAt change [] old new
  | inChild {path : List Nat} {old new : Node} (head : Head) (before behind : List Node)
      (h : ChangedAt change path old new) :
      ChangedAt change (before.length :: path) (head.close (before ++ old :: behind))
        (head.close (before ++ new :: behind))

/-- A node with a child at a position is a head closed over the row of that child. -/
theorem exists_close_of_getElem? {node child : Node} {i : Nat}
    (h : (node.children?.getD [])[i]? = some child) :
    ∃ (head : Head) (before behind : List Node),
      before.length = i ∧ node = head.close (before ++ child :: behind) := by
  have hsplit : ∀ children : List Node, children[i]? = some child →
      (children.take i).length = i ∧ children = children.take i ++ child :: children.drop (i + 1) := by
    intro children hchild
    obtain ⟨hlt, hget⟩ := List.getElem?_eq_some_iff.mp hchild
    refine ⟨List.length_take_of_le (Nat.le_of_lt hlt), ?_⟩
    rw [← hget, List.getElem_cons_drop, List.take_append_drop]
  cases node with
  | root children =>
      obtain ⟨hlength, hrow⟩ := hsplit children h
      exact ⟨.root, _, _, hlength, congrArg Node.root hrow⟩
  | element tag properties children =>
      obtain ⟨hlength, hrow⟩ := hsplit children h
      exact ⟨.element tag properties, _, _, hlength, congrArg (Node.element tag properties) hrow⟩
  | text | comment | doctype => cases h

/-- The child at the position of a row that it was put in. -/
theorem getElem?_row (before behind : List Node) (child : Node) :
    (before ++ child :: behind)[before.length]? = some child := by
  rw [List.getElem?_append_right (Nat.le_refl _), Nat.sub_self, List.getElem?_cons_zero]

/-- The children at the other positions of a row are those of any row that is the same but for the
child at one position. -/
theorem getElem?_row_of_ne {before behind : List Node} {i : Nat} (h : i ≠ before.length)
    (old new : Node) : (before ++ new :: behind)[i]? = (before ++ old :: behind)[i]? := by
  by_cases hlt : i < before.length
  · rw [List.getElem?_append_left hlt, List.getElem?_append_left hlt]
  · have hle : before.length ≤ i := by omega
    obtain ⟨k, hk⟩ : ∃ k, i - before.length = k + 1 := ⟨i - before.length - 1, by omega⟩
    rw [List.getElem?_append_right hle, List.getElem?_append_right hle, hk,
      List.getElem?_cons_succ, List.getElem?_cons_succ]

section Change

variable {ε α : Type} {missing : ε} {change : Node → Except ε (α × Node)} {answer : α}
variable {node next : Node} {path : List Nat}

/-- A change at a place below a child is a change of the child, which stays in its row. -/
theorem changeAt_close (head : Head) (before behind : List Node) (child : Node) (path : List Nat) :
    changeAt missing change (head.close (before ++ child :: behind)) (before.length :: path) =
      (changeAt missing change child path).map fun (answer, child) =>
        (answer, head.close (before ++ child :: behind)) := by
  have hset : ∀ new : Node,
      (before ++ child :: behind).set before.length new = before ++ new :: behind := by
    intro new
    rw [List.set_append_right _ _ (Nat.le_refl _), Nat.sub_self, List.set_cons_zero]
  rw [changeAt, Head.children?_close]
  simp only [Option.getD_some, getElem?_row, hset, Head.withChildren_close]
  cases changeAt missing change child path <;> rfl

/-- A change that answers leaves everything alone but the node at its place. -/
theorem changedAt_of_changeAt (h : changeAt missing change node path = .ok (answer, next)) :
    ChangedAt (fun old new => change old = .ok (answer, new)) path node next := by
  induction path generalizing node next with
  | nil => exact .here h
  | cons i path ih =>
      cases hchild : (node.children?.getD [])[i]? with
      | none =>
          rw [changeAt, hchild] at h
          cases h
      | some child =>
          obtain ⟨head, before, behind, rfl, rfl⟩ := exists_close_of_getElem? hchild
          rw [changeAt_close] at h
          cases hbelow : changeAt missing change child path with
          | error e =>
              rw [hbelow] at h
              cases h
          | ok found =>
              rw [hbelow] at h
              cases h
              exact .inChild head before behind (ih hbelow)

/-- A change answers wherever a node stands that it has an answer for. -/
theorem exists_changeAt_eq {old new : Node} (hat : node.at? path = some old)
    (hchange : change old = .ok (answer, new)) :
    ∃ next, changeAt missing change node path = .ok (answer, next) := by
  induction path generalizing node with
  | nil =>
      obtain rfl : node = old := by simpa [at?] using hat
      exact ⟨new, hchange⟩
  | cons i path ih =>
      rw [at?_cons, Option.bind_eq_some_iff] at hat
      obtain ⟨child, hchild, hbelow⟩ := hat
      obtain ⟨head, before, behind, rfl, rfl⟩ := exists_close_of_getElem? hchild
      obtain ⟨next, hanswer⟩ := ih hbelow
      refine ⟨head.close (before ++ next :: behind), ?_⟩
      rw [changeAt_close, hanswer]
      rfl

end Change

namespace ChangedAt

variable {change : Node → Node → Prop} {node next : Node} {path : List Nat}

/-- What is related in one way is related in every way that follows from it. -/
theorem mono {other : Node → Node → Prop} (h : ChangedAt change path node next)
    (himp : ∀ old new, change old new → other old new) : ChangedAt other path node next := by
  induction h with
  | here h => exact .here (himp _ _ h)
  | inChild head before behind _ ih => exact .inChild head before behind ih

/-- What stands at the place before and after. -/
theorem at?_self (h : ChangedAt change path node next) :
    ∃ old new, node.at? path = some old ∧ next.at? path = some new ∧ change old new := by
  induction h with
  | here h => exact ⟨_, _, rfl, rfl, h⟩
  | inChild head before behind _ ih =>
      obtain ⟨old, new, hold, hnew, hchange⟩ := ih
      refine ⟨old, new, ?_, ?_, hchange⟩
      · rw [at?_cons, Head.children?_close, Option.getD_some, getElem?_row]
        exact hold
      · rw [at?_cons, Head.children?_close, Option.getD_some, getElem?_row]
        exact hnew

/-- A change that leaves the children of a node alone leaves the heads at all other places alone. -/
theorem head?_at? (h : ChangedAt change path node next)
    (hchildren : ∀ old new, change old new → new.children? = old.children?) {other : List Nat}
    (hne : other ≠ path) : (next.at? other).bind head? = (node.at? other).bind head? := by
  induction h generalizing other with
  | @here old new h =>
      cases other with
      | nil => exact absurd rfl hne
      | cons i other => rw [at?_cons, at?_cons, hchildren old new h]
  | @inChild path old new head before behind _ ih =>
      cases other with
      | nil => simp [at?]
      | cons i other =>
          rw [at?_cons, at?_cons, Head.children?_close, Head.children?_close]
          simp only [Option.getD_some]
          by_cases hi : i = before.length
          · subst hi
            rw [getElem?_row, getElem?_row]
            exact ih fun heq => hne (congrArg _ heq)
          · rw [getElem?_row_of_ne hi old new]

end ChangedAt

end Node

end CellAlign

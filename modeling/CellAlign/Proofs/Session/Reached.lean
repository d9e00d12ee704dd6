import CellAlign.Proofs.Align.Realigning
import CellAlign.Proofs.Tree.Changing
import CellAlign.Proofs.Tree.Converting
import CellAlign.Proofs.Tree.DistinctKeys
import CellAlign.Session

/-!
# The trees that are reached

A tree comes from a text, and is then realigned and changed at its places any number of times.
Whatever is done to it, its properties stay canonical: realigning takes an alignment away and puts a
class or a string in its place, and other changes bring in properties and trees that come from texts
themselves.  `Node.Reached` are these trees, and the trees of a session are among them.

* `Node.every_run`: what is realigned stays canonical;
* `Node.ChangedAt.every`: a change at a place keeps a quality of all properties;
* `Session.State.Reached.step`, `Session.State.Reached.after`: a session only reaches such trees;
* `Node.Reached.canonical`: they are canonical, and are written without a repeated key.
-/

namespace CellAlign

namespace Node

/-- A tree has canonical properties behind a pass. -/
theorem every_run {tree : Node} (h : tree.Every Properties.Canonical) (options : Options) :
    (CellAlign.run options tree).tree.Every Properties.Canonical := by
  rw [run_tree]
  exact canonical_realign options h

/-! ## Changes at a place -/

variable {quality : Properties → Prop}

/-- A head closed over a row has a quality if its own properties and the row have it. -/
theorem every_close {head : Head} {children : List Node} :
    (head.close children).Every quality ↔
      (head.close []).Every quality ∧ EveryList quality children := by
  cases head with
  | root => exact ⟨fun h => ⟨trivial, h⟩, fun h => h.2⟩
  | element tag properties => exact ⟨fun h => ⟨⟨h.1, trivial⟩, h.2⟩, fun h => ⟨h.1.1, h.2⟩⟩

/-- A change at a place keeps a quality of all properties if it keeps it there. -/
theorem ChangedAt.every {change : Node → Node → Prop} {path : List Nat} {node next : Node}
    (h : ChangedAt change path node next)
    (hchange : ∀ old new, change old new → old.Every quality → new.Every quality)
    (hnode : node.Every quality) : next.Every quality := by
  induction h with
  | here h => exact hchange _ _ h hnode
  | inChild head before behind _ ih =>
      obtain ⟨hhead, hrow⟩ := every_close.mp hnode
      refine every_close.mpr ⟨hhead, everyList_iff.mpr fun sibling hsibling => ?_⟩
      have hrow' := everyList_iff.mp hrow
      rcases List.mem_append.mp hsibling with hbefore | hthere
      · exact hrow' sibling (List.mem_append_left _ hbefore)
      · rcases List.mem_cons.mp hthere with rfl | hbehind
        · exact ih (hrow' _ (List.mem_append_right _ List.mem_cons_self))
        · exact hrow' sibling (List.mem_append_right _ (List.mem_cons_of_mem _ hbehind))

/-- A change that answers keeps a quality of all properties if it keeps it at its place. -/
theorem every_of_changeAt {ε α : Type} {missing : ε} {change : Node → Except ε (α × Node)}
    {path : List Nat} {answer : α} {node next : Node}
    (h : changeAt missing change node path = .ok (answer, next))
    (hchange : ∀ old new, change old = .ok (answer, new) → old.Every quality → new.Every quality)
    (hnode : node.Every quality) : next.Every quality :=
  (changedAt_of_changeAt h).every hchange hnode

/-- A node with other children has a quality if the children have it. -/
theorem every_withChildren {node : Node} {old new : List Node} (h : node.Every quality)
    (hold : node.children? = some old) (hnew : EveryList quality old → EveryList quality new) :
    (node.withChildren new).Every quality := by
  cases node with
  | root => cases hold; exact hnew h
  | element => cases hold; exact ⟨h.1, hnew h.2⟩
  | text | comment | doctype => cases hold

end Node

namespace Session

variable {quality : Properties → Prop} {answer : Answer} {node next : Node}

/-- Changed children keep a quality of all properties if the change keeps it. -/
theorem every_changeChildren {change : List Node → List Node}
    (h : changeChildren change node = .ok (answer, next))
    (hchange : ∀ nodes, Node.EveryList quality nodes → Node.EveryList quality (change nodes))
    (hnode : node.Every quality) : next.Every quality := by
  unfold changeChildren at h
  split at h
  · cases h
  · next children hchildren =>
    cases h
    exact Node.every_withChildren hnode hchildren (hchange children)

/-- Properties that are replaced are canonical if the new ones are. -/
theorem every_replaceProperties {properties : Properties} (hproperties : properties.Canonical)
    (h : replaceProperties properties node = .ok (answer, next))
    (hnode : node.Every Properties.Canonical) : next.Every Properties.Canonical := by
  unfold replaceProperties at h
  split at h
  · cases h
    refine ⟨?_, hnode.2⟩
    rintro _ ⟨⟩
    exact hproperties
  · cases h

/-- A class token that is appended leaves canonical properties canonical. -/
theorem every_appendClass {token : String} (h : appendClass token node = .ok (answer, next))
    (hnode : node.Every Properties.Canonical) : next.Every Properties.Canonical := by
  unfold appendClass at h
  split at h
  · next tag properties children =>
    cases h
    refine ⟨?_, hnode.2⟩
    have hold : (properties.getD {}).Canonical := by
      cases properties with
      | none => exact Properties.canonical_empty
      | some p => exact hnode.1 p rfl
    rintro _ ⟨⟩
    exact ⟨hold.align, hold.style, hold.distinct, hold.unknown⟩
  · cases h

end Session

/-! ## Trees that are reached -/

open Session (appendClass changeChildren replaceProperties)

/-- The trees that are made from texts and from what is there at first, and changed after that:
cells are realigned, class tokens and trees are appended, children are cut off, properties are
replaced by others that come from a text, and the whole tree is put into an element or a root. -/
inductive Node.Reached : Node → Prop
  | empty : Reached (.root [])
  | text (value : String) : Reached (.text value)
  | ofText {format : Format} {text : String} {tree : Node}
      (hread : Node.ofText format text = .ok tree) : Reached tree
  | run {tree : Node} (h : Reached tree) (options : Options) :
      Reached (CellAlign.run options tree).tree
  | transform {tree : Node} (h : Reached tree) (options : Options) :
      Reached (CellAlign.transform options tree)
  | pushClass {tree next : Node} {path : List Nat} {token : String} {answer : Session.Answer}
      (h : Reached tree)
      (hchange : Node.changeAt .noNode (appendClass token) tree path = .ok (answer, next)) :
      Reached next
  | push {tree child next : Node} {path : List Nat} {answer : Session.Answer}
      (h : Reached tree) (hchild : Reached child)
      (hchange : Node.changeAt .noNode (changeChildren (· ++ [child])) tree path =
        .ok (answer, next)) : Reached next
  | truncate {tree next : Node} {path : List Nat} {length : Nat} {answer : Session.Answer}
      (h : Reached tree)
      (hchange : Node.changeAt .noNode (changeChildren (·.take length)) tree path =
        .ok (answer, next)) : Reached next
  | wrap {tree : Node} (h : Reached tree) (tag : String) : Reached (.element tag none [tree])
  | wrapRoot {tree : Node} (h : Reached tree) : Reached (.root [tree])
  | setProperties {tree next : Node} {path : List Nat} {text : String} {properties : Properties}
      {answer : Session.Answer} (h : Reached tree)
      (hread : Properties.ofJson text = .ok properties)
      (hchange : Node.changeAt .noNode (replaceProperties properties) tree path =
        .ok (answer, next)) : Reached next

/-- Properties are canonical in every tree that is reached: a tree starts so, and every change of it
keeps that. -/
theorem Node.every_of_reached {tree : Node} (h : tree.Reached) :
    tree.Every Properties.Canonical := by
  induction h with
  | empty | text => trivial
  | ofText hread => exact every_of_ofText hread
  | run _ options ih => exact every_run ih options
  | transform _ options ih => exact every_run ih options
  | pushClass _ hchange ih =>
      exact every_of_changeAt hchange (fun _ _ => Session.every_appendClass) ih
  | push _ _ hchange ih ihchild =>
      refine every_of_changeAt hchange (fun old new hstep hold => ?_) ih
      refine Session.every_changeChildren hstep (fun nodes hnodes => ?_) hold
      refine everyList_iff.mpr fun node hnode => ?_
      rcases List.mem_append.mp hnode with hthere | hnew
      · exact everyList_iff.mp hnodes node hthere
      · obtain rfl := List.mem_singleton.mp hnew
        exact ihchild
  | truncate _ hchange ih =>
      refine every_of_changeAt hchange (fun old new hstep hold => ?_) ih
      refine Session.every_changeChildren hstep (fun nodes hnodes => ?_) hold
      have hnodes' := everyList_iff.mp hnodes
      exact everyList_iff.mpr fun node hnode => hnodes' node (List.mem_of_mem_take hnode)
  | wrap _ tag ih => exact ⟨nofun, ih, trivial⟩
  | wrapRoot _ ih => exact ⟨ih, trivial⟩
  | setProperties _ hread hchange ih =>
      have hproperties := Properties.canonical_ofJson hread
      exact every_of_changeAt hchange (fun _ _ => Session.every_replaceProperties hproperties) ih

namespace Session

/-- Both trees of a session are reached. -/
structure State.Reached (state : State) : Prop where
  tree : state.tree.Reached
  saved : state.saved.Reached

/-- The state behind some steps, of which those that fail change nothing. -/
def State.after (state : State) : List Step → State
  | [] => state
  | step :: steps =>
    match state.step step with
    | .ok (_, next) => next.after steps
    | .error _ => state.after steps

/-- What is bound answers if both parts answer. -/
theorem exists_of_bind_eq_ok {ε α β : Type} {first : Except ε α} {second : α → Except ε β} {b : β}
    (h : first >>= second = .ok b) : ∃ a, first = .ok a ∧ second a = .ok b := by
  cases first with
  | error e => cases h
  | ok a => exact ⟨a, rfl, h⟩

/-- A tree that a step brings is reached. -/
theorem reached_of_readTree {format : Format} {text : String} {tree : Node}
    (h : readTree format text = .ok tree) : tree.Reached := by
  unfold readTree at h
  split at h
  · next hread =>
    cases h
    exact .ofText hread
  · cases h

/-- The properties that a step brings come from its text. -/
theorem ofJson_of_readProperties {text : String} {properties : Properties}
    (h : readProperties text = .ok properties) : Properties.ofJson text = .ok properties := by
  unfold readProperties at h
  split at h
  · next hread =>
    cases h
    exact hread
  · cases h

/-- Elements around a tree that is reached. -/
theorem reached_wrapTimes {tree : Node} (h : tree.Reached) (tag : String) (times : Nat) :
    (wrapTimes tag times tree).Reached := by
  induction times generalizing tree with
  | zero => exact h
  | succ times ih => exact ih (h.wrap tag)

namespace State

variable {state next : State} {answer : Answer}

/-- A change at a place of the tree. -/
theorem Reached.change (h : state.Reached) {path : List Nat}
    {change : Node → Except Failure (Answer × Node)}
    (hstep : state.change path change = .ok (answer, next))
    (htree : ∀ {answer tree}, Node.changeAt .noNode change state.tree path = .ok (answer, tree) →
      tree.Reached) : next.Reached := by
  obtain ⟨⟨found, tree⟩, hchange, heq⟩ := exists_of_map_eq_ok hstep
  cases heq
  exact ⟨htree hchange, h.saved⟩

/-- A look at a place leaves the state alone. -/
theorem Reached.look (h : state.Reached) {path : List Nat} {look : Node → Answer}
    (hstep : state.look path look = .ok (answer, next)) : next.Reached := by
  unfold State.look at hstep
  split at hstep
  · cases hstep
    exact h
  · cases hstep

/-- A step reaches trees again. -/
theorem Reached.step (h : state.Reached) {step : Step}
    (hstep : state.step step = .ok (answer, next)) : next.Reached := by
  cases step with
  | load format text =>
      obtain ⟨tree, hread, heq⟩ := exists_of_bind_eq_ok hstep
      cases heq
      exact ⟨reached_of_readTree hread, h.saved⟩
  | run text =>
      obtain ⟨options, -, heq⟩ := exists_of_bind_eq_ok hstep
      cases heq
      exact ⟨h.tree.run options, h.saved⟩
  | transform text =>
      obtain ⟨options, -, heq⟩ := exists_of_bind_eq_ok hstep
      cases heq
      exact ⟨h.tree.transform options, h.saved⟩
  | htmlAt path | get path => exact h.look hstep
  | push path format text =>
      obtain ⟨child, hread, hchange⟩ := exists_of_bind_eq_ok hstep
      exact h.change hchange (h.tree.push (reached_of_readTree hread))
  | pushText path value => exact h.change hstep (h.tree.push (.text value))
  | truncate path length => exact h.change hstep h.tree.truncate
  | wrap tag times =>
      cases hstep
      exact ⟨reached_wrapTimes h.tree tag times, h.saved⟩
  | wrapRoot =>
      cases hstep
      exact ⟨h.tree.wrapRoot, h.saved⟩
  | setProperties path text =>
      obtain ⟨properties, hread, hchange⟩ := exists_of_bind_eq_ok hstep
      exact h.change hchange (h.tree.setProperties (ofJson_of_readProperties hread))
  | pushClass path token => exact h.change hstep h.tree.pushClass
  | save =>
      cases hstep
      exact ⟨h.tree, h.tree⟩
  | restore =>
      cases hstep
      exact ⟨h.saved, h.saved⟩
  | json | html | stats | same =>
      cases hstep
      exact h
  | equals format text =>
      obtain ⟨other, -, heq⟩ := exists_of_bind_eq_ok hstep
      cases heq
      exact h

/-- Steps that are taken one after the other only reach such trees. -/
theorem Reached.after (h : state.Reached) (steps : List Step) : (state.after steps).Reached := by
  induction steps generalizing state with
  | nil => exact h
  | cons step steps ih =>
      rw [State.after]
      split
      · next hstep => exact ih (h.step hstep)
      · exact ih h

end State

end Session

/-- A tree that is reached has canonical properties: the entries of an element have distinct keys,
none of them that of a known property, and no known property is null.  So it is written as a value
in which no object has a key twice. -/
theorem Node.Reached.canonical {tree : Node} (h : tree.Reached) :
    tree.Every Properties.Canonical ∧
      tree.toJson = tree.encode.toPretty ∧ tree.encode.DistinctKeys := by
  have hevery := every_of_reached h
  exact ⟨hevery, rfl, distinctKeys_encode tree hevery⟩

/-- A cell that is read, realigned, given a class token and put into a root. -/
theorem Node.Reached.canonical_realigned_cell :
    let other : Entries PropertyValue := [("id", .string "a")]
    let styled : Node := .element "td"
      (some { className := .list ["cell"], style := some (.string "text-align: left;"), other }) []
    (Node.root [styled]).Reached ∧
      (Node.root [styled]).Every Properties.Canonical ∧
      (Node.root [styled]).toJson = (Node.root [styled]).encode.toPretty ∧
      (Node.root [styled]).encode.DistinctKeys := by
  intro other styled
  have hread : Node.ofText .json
    "\x7b\"type\":\"element\",\"tagName\":\"td\",\"properties\":\x7b\"align\":\"left\",\"id\":\"a\"\x7d\x7d" =
        .ok (.element "td" (some { align := some (.string "left"), other }) []) := by
    simp only [Node.ofText, Node.ofJson, String.reduceToList]
    rfl
  have hrun : (CellAlign.run {}
      (.element "td" (some { align := some (.string "left"), other }) [])).tree =
      .element "td" (some { style := some (.string "text-align: left;"), other }) [] := by
    rw [run_tree]
    rfl
  have hrealigned := (Reached.ofText hread).run {}
  rw [hrun] at hrealigned
  have hclass : Node.changeAt .noNode (appendClass "cell")
      (.element "td" (some { style := some (.string "text-align: left;"), other }) []) [] =
        .ok (.className (.list ["cell"]), styled) := rfl
  have hreached : (Node.root [styled]).Reached := (hrealigned.pushClass hclass).wrapRoot
  exact ⟨hreached, hreached.canonical⟩

/-- The trees of a session, which starts with empty ones, are reached. -/
theorem Session.reached_after (steps : List Step) : (({} : State).after steps).Reached := by
  have hstart : ({} : State).Reached := ⟨.empty, .empty⟩
  exact hstart.after steps

end CellAlign

import CellAlign.Align.Pass
import CellAlign.Proofs.Tree.Places

/-!
# What a walk keeps to

A walk takes three kinds of steps: it enters a node that can have children, passes one that cannot,
and closes a node whose children are finished.  Each kind preserves

* `Walk.goal`, the row of trees that a walk is going to leave (`Step.goal_eq`);
* the reports made and those still due for `Walk.pending`, the trees on its stack (`Step.report_eq`,
  `Step.count_eq`);
* the places visited and those still ahead (`Step.placesAhead_eq`).

At the end nothing is pending, so that a pass is the recursion over the tree: `run_tree`,
`run_count`, `run_events`, and it visits the places of the tree in document order, `visits_start`.
-/

namespace CellAlign

namespace Node

variable {options : Options} {node : Node} {head : Head}

/-- Realigning a node that can have children: its head and its children. -/
theorem realign_of_head? (h : node.head? = some head) :
    node.realign options =
      (head.realign options).close (realignList options (node.children?.getD [])) := by
  cases node <;> cases h <;> simp [realign, Head.realign, Head.close, children?]

/-- Nothing is realigned in a node without a head. -/
theorem realign_of_leaf (h : node.head? = none) : node.realign options = node := by
  cases node <;> simp_all [head?, realign]

/-- A node without a head has no children. -/
theorem children?_of_leaf (h : node.head? = none) : node.children? = none := by
  cases node <;> simp_all [head?, children?]

/-- The cells of a tree are its top, if that is one, and those below. -/
theorem cells_eq (node : Node) :
    node.cells = node.cell?.toList ++ cellsList (node.children?.getD []) := by
  cases node <;> simp [cells, cellsList, cell?, head?, Head.cell?, children?]

/-- The cells of two rows together. -/
theorem cellsList_append (a b : List Node) : cellsList (a ++ b) = cellsList a ++ cellsList b := by
  induction a with
  | nil => rfl
  | cons node nodes ih => simp [cellsList, ih]

/-- A row is realigned tree by tree. -/
theorem realignList_eq_map (options : Options) (nodes : List Node) :
    realignList options nodes = nodes.map (realign options) := by
  induction nodes with
  | nil => rfl
  | cons node nodes ih => simp [realignList, ih]

end Node

open Node (placesFrom realignList cellsList)

namespace Frame

/-- The row of trees that open nodes are going to be part of, for the row that is going to be inside
the innermost of them. -/
def rowAround (options : Options) : List Frame → List Node → List Node
  | [], row => row
  | frame :: frames, row =>
    rowAround options frames
      (frame.before.reverse ++ frame.head.close row :: realignList options frame.behind)

/-- The place of the innermost open node. -/
def stem : List Frame → List Nat
  | [] => []
  | frame :: frames => stem frames ++ [frame.before.length]

/-- The places behind the open nodes. -/
def placesBehind : List Frame → List (List Nat)
  | [] => []
  | frame :: frames =>
    (placesFrom (frame.before.length + 1) frame.behind).map (stem frames ++ ·) ++
      placesBehind frames

end Frame

namespace Walk

/-- The steps of a walk, by what becomes of the next sibling: a node that can have children is
entered, another one is passed, and if there is none the innermost open node is closed. -/
inductive Step (options : Options) : Walk → Walk → Prop
  | enter {tally frames finished todo node head} (h : Node.head? node = some head) :
      Step options ⟨tally, frames, finished, node :: todo⟩
        ⟨tally.visit options head, ⟨head.realign options, finished, todo⟩ :: frames, [],
          node.children?.getD []⟩
  | pass {tally frames finished todo node} (h : Node.head? node = none) :
      Step options ⟨tally, frames, finished, node :: todo⟩ ⟨tally, frames, node :: finished, todo⟩
  | close {tally frames finished} (frame : Frame) :
      Step options ⟨tally, frame :: frames, finished, []⟩
        ⟨tally, frames, frame.head.close finished.reverse :: frame.before, frame.behind⟩

variable {options : Options} {walk next : Walk}

/-- There are no other steps. -/
theorem step_of_step? (h : walk.step? options = some next) : Step options walk next := by
  obtain ⟨tally, frames, finished, todo⟩ := walk
  cases todo with
  | nil =>
      cases frames with
      | nil => cases h
      | cons frame frames =>
          cases h
          exact .close frame
  | cons node todo =>
      cases hhead : node.head? with
      | none =>
          simp only [step?, hhead] at h
          cases h
          exact .pass hhead
      | some head =>
          simp only [step?, hhead] at h
          cases h
          exact .enter hhead

/-- A walk is at its end when nothing is open and nothing is to come. -/
theorem eq_nil_of_step? (h : walk.step? options = none) : walk.frames = [] ∧ walk.todo = [] := by
  obtain ⟨tally, frames, finished, todo⟩ := walk
  cases todo with
  | nil =>
      cases frames with
      | nil => exact ⟨rfl, rfl⟩
      | cons frame frames => cases h
  | cons node todo =>
      cases hhead : node.head? with
      | none => simp [step?, hhead] at h
      | some head => simp [step?, hhead] at h

/-- A finished walk is at its end. -/
theorem finish_ended (options : Options) (walk : Walk) :
    (walk.finish options).frames = [] ∧ (walk.finish options).todo = [] := by
  fun_induction finish options walk with
  | case1 walk hstep => exact eq_nil_of_step? hstep
  | case2 walk next hstep ih => exact ih

/-- What each step preserves, a walk to the end preserves. -/
theorem finish_preserves {α : Type} (quantity : Walk → α)
    (hpreserved : ∀ {walk next}, Step options walk next → quantity next = quantity walk)
    (walk : Walk) : quantity (walk.finish options) = quantity walk := by
  fun_induction finish options walk with
  | case1 walk hstep => rfl
  | case2 walk next hstep ih => exact ih.trans (hpreserved (step_of_step? hstep))

/-! ## The trees -/

/-- The row of trees that a walk is going to leave. -/
def goal (options : Options) (walk : Walk) : List Node :=
  Frame.rowAround options walk.frames (walk.finished.reverse ++ realignList options walk.todo)

/-- A step leads to the same row of trees. -/
theorem Step.goal_eq (h : Step options walk next) : next.goal options = walk.goal options := by
  cases h with
  | enter hhead => simp [goal, Frame.rowAround, realignList, Node.realign_of_head? hhead]
  | pass hhead => simp [goal, realignList, Node.realign_of_leaf hhead]
  | close frame => simp [goal, Frame.rowAround, realignList]

/-- A finished walk has reached its goal. -/
theorem finished_finish (options : Options) (walk : Walk) :
    (walk.finish options).finished.reverse = walk.goal options := by
  rw [← finish_preserves (goal options) Step.goal_eq walk]
  obtain ⟨hframes, htodo⟩ := finish_ended options walk
  simp [goal, hframes, htodo, Frame.rowAround, realignList]

/-! ## The reports -/

/-- The trees that have not been visited, in the order in which they are going to be. -/
def pending (walk : Walk) : List Node := walk.todo ++ walk.frames.flatMap Frame.behind

/-- A finished walk has left nothing out. -/
theorem pending_finish (options : Options) (walk : Walk) :
    (walk.finish options).pending = [] := by
  obtain ⟨hframes, htodo⟩ := finish_ended options walk
  simp [pending, hframes, htodo]

/-- A step takes a tree off those pending and puts its children in its place, or it leaves them all
as they are. -/
theorem Step.pending_eq (h : Step options walk next) :
    (next.pending = walk.pending ∧ next.tally = walk.tally) ∨
      ∃ node rest, walk.pending = node :: rest ∧
        next.pending = node.children?.getD [] ++ rest ∧
        (∀ head, node.head? = some head → next.tally = walk.tally.visit options head) ∧
        (node.head? = none → next.tally = walk.tally) := by
  cases h with
  | @enter tally frames finished todo node head hhead =>
      refine Or.inr ⟨node, todo ++ frames.flatMap Frame.behind, rfl, by simp [pending], ?_, ?_⟩
      · intro other hother
        obtain rfl : head = other := by simpa [hhead] using hother
        rfl
      · intro hnone
        simp [hhead] at hnone
  | @pass tally frames finished todo node hhead =>
      refine Or.inr ⟨node, todo ++ frames.flatMap Frame.behind, rfl, ?_, ?_, fun _ => rfl⟩
      · simp [pending, Node.children?_of_leaf hhead]
      · intro head hsome
        simp [hhead] at hsome
  | close frame => exact Or.inl ⟨by simp [pending], rfl⟩

end Walk

/-- The reports of realigning some cells. -/
def Event.ofCells (options : Options) (cells : List (String × String)) : List Event :=
  cells.flatMap fun cell => Event.ofCell options cell.1 cell.2

/-- A visit reports a cell and counts it. -/
theorem Tally.visit_eq (tally : Tally) (options : Options) (head : Head) :
    (tally.visit options head).events.reverse =
        tally.events.reverse ++ Event.ofCells options head.cell?.toList ∧
      (tally.visit options head).cells = tally.cells + head.cell?.toList.length := by
  unfold visit
  cases head.cell? <;> simp [Event.ofCells]

namespace Walk

variable {options : Options} {walk next : Walk}

/-- The reports made, and those due for the trees pending. -/
def report (options : Options) (walk : Walk) : List Event :=
  walk.tally.events.reverse ++ Event.ofCells options (cellsList walk.pending)

/-- The cells counted, and those among the trees pending. -/
def count (walk : Walk) : Nat := walk.tally.cells + (cellsList walk.pending).length

/-- The tally after a step has what was due for the tree that the step takes off. -/
theorem Step.tally_eq (h : Step options walk next) :
    ∃ cells, cellsList walk.pending = cells ++ cellsList next.pending ∧
      next.tally.events.reverse =
        walk.tally.events.reverse ++ Event.ofCells options cells ∧
      next.tally.cells = walk.tally.cells + cells.length := by
  obtain ⟨hpending, htally⟩ | ⟨node, rest, hpending, hnext, hvisit, hleaf⟩ := h.pending_eq
  · exact ⟨[], by simp [hpending], by simp [htally, Event.ofCells], by simp [htally]⟩
  · refine ⟨node.cell?.toList, ?_, ?_⟩
    · rw [hpending, hnext, cellsList, Node.cells_eq, Node.cellsList_append, List.append_assoc]
    · cases hhead : node.head? with
      | none => simp [Node.cell?, hhead, hleaf hhead, Event.ofCells]
      | some head =>
          rw [hvisit head hhead, Node.cell?, hhead]
          exact walk.tally.visit_eq options head

/-- A step changes nothing about the reports made and due. -/
theorem Step.report_eq (h : Step options walk next) :
    next.report options = walk.report options := by
  obtain ⟨cells, hcells, hevents, -⟩ := h.tally_eq
  simp [report, hcells, hevents, Event.ofCells]

/-- A step changes nothing about the cells counted and to be counted. -/
theorem Step.count_eq (h : Step options walk next) : next.count = walk.count := by
  obtain ⟨cells, hcells, -, hcount⟩ := h.tally_eq
  simp [count, hcells, hcount]
  omega

/-- A finished walk has reported what was made and due. -/
theorem events_finish (options : Options) (walk : Walk) :
    (walk.finish options).tally.events.reverse = walk.report options := by
  rw [← finish_preserves (report options) Step.report_eq walk, report, pending_finish]
  simp [cellsList, Event.ofCells]

/-- A finished walk has counted all cells. -/
theorem cells_finish (options : Options) (walk : Walk) :
    (walk.finish options).tally.cells = walk.count := by
  have hstep : ∀ {walk next : Walk}, Step options walk next → next.count = walk.count :=
    Step.count_eq
  rw [← finish_preserves count hstep walk, count, pending_finish]
  rfl

/-! ## The places -/

/-- The place of the next sibling in the row of trees that is walked through. -/
def place (walk : Walk) : List Nat := Frame.stem walk.frames ++ [walk.finished.length]

/-- The place that a step visits, if it visits one. -/
def visit? (walk : Walk) : Option (List Nat) :=
  if walk.todo.isEmpty then none else some walk.place

/-- The places that a walk visits from here on. -/
def visits (options : Options) (walk : Walk) : List (List Nat) :=
  match _h : walk.step? options with
  | none => []
  | some next => walk.visit?.toList ++ next.visits options
termination_by walk.work
decreasing_by exact step?_work _h

/-- The places that have not been visited. -/
def placesAhead (walk : Walk) : List (List Nat) :=
  (placesFrom walk.finished.length walk.todo).map (Frame.stem walk.frames ++ ·) ++
    Frame.placesBehind walk.frames

/-- A step visits the first of the places ahead, or none. -/
theorem Step.placesAhead_eq (h : Step options walk next) :
    walk.placesAhead = walk.visit?.toList ++ next.placesAhead := by
  cases h with
  | enter hhead =>
      simp [placesAhead, visit?, place, placesFrom, Node.places_eq, Frame.placesBehind, Frame.stem]
  | pass hhead =>
      simp [placesAhead, visit?, place, placesFrom, Node.places_eq, Node.children?_of_leaf hhead]
  | close frame => simp [placesAhead, visit?, placesFrom, Frame.placesBehind]

/-- A walk visits all places that are ahead, in their order. -/
theorem visits_eq (options : Options) (walk : Walk) : walk.visits options = walk.placesAhead := by
  fun_induction visits options walk with
  | case1 walk hstep =>
      obtain ⟨hframes, htodo⟩ := eq_nil_of_step? hstep
      simp [placesAhead, hframes, htodo, placesFrom, Frame.placesBehind]
  | case2 walk next hstep ih => rw [ih, ← (step_of_step? hstep).placesAhead_eq]

/-- A pass visits the places of a tree in document order, the tree being alone in its row. -/
theorem visits_start (options : Options) (tree : Node) :
    (start tree).visits options = tree.places.map (0 :: ·) := by
  simp [visits_eq, placesAhead, start, placesFrom, Frame.stem, Frame.placesBehind]

end Walk

/-! ## A whole pass -/

/-- A pass leaves the tree with its cells realigned. -/
theorem run_tree (options : Options) (tree : Node) :
    (run options tree).tree = tree.realign options := by
  have hgoal := Walk.finished_finish options (.start tree)
  have hrow : (Walk.start tree).goal options = [tree.realign options] := by
    simp [Walk.goal, Walk.start, Frame.rowAround, realignList]
  rw [hrow, List.reverse_eq_iff] at hgoal
  simp [run, hgoal]

/-- A pass counts the cells of the tree. -/
theorem run_count (options : Options) (tree : Node) :
    (run options tree).count = tree.cells.length := by
  show ((Walk.start tree).finish options).tally.cells = tree.cells.length
  rw [Walk.cells_finish]
  simp [Walk.count, Walk.pending, Walk.start, cellsList]

/-- A pass reports the cells of the tree in document order, and then how many there were. -/
theorem run_events (options : Options) (tree : Node) :
    (run options tree).events =
      Event.ofCells options tree.cells ++ [.finished tree.cells.length options.method] := by
  have hevents : ((Walk.start tree).finish options).tally.events.reverse =
      Event.ofCells options tree.cells := by
    rw [Walk.events_finish]
    simp [Walk.report, Walk.pending, Walk.start, cellsList]
  have hcount : ((Walk.start tree).finish options).tally.cells = tree.cells.length :=
    run_count options tree
  simp [run, hevents, hcount]

end CellAlign

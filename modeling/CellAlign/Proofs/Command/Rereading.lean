import CellAlign.Command.Run
import CellAlign.Proofs.Align.Settling
import CellAlign.Proofs.Tree.Nested
import CellAlign.Proofs.Tree.Nesting

/-!
# The command on its own output

A tree that was read from JSON, realigned and printed can be read again, and a second run finds no
cell in it and prints the same once more.  The exception are trees with a root or an element so deep
that a text may just hold it, but not the array of its children as well, which a text may leave out
while a written tree always has it.

* `Settings.Reads`: a run that takes its tree as JSON from a text;
* `rereads_own_json`: the printed tree is read again, and printed again, if there is room for it;
* `own_json_refused`: a text for which there is not.
-/

namespace CellAlign.Command

open Json (nestingLimit)
open Node (WholeNumbers LeavesRoom)

/-! ## Runs on JSON -/

/-- A run takes its tree as JSON from a text, under certain options. -/
structure Settings.Reads (settings : Settings) (world : World) (options : Options)
    (text : String) : Prop where
  json : settings.json = true
  options : settings.readOptions world = .ok options
  input : settings.readInput world = .ok text

section

variable {settings : Settings} {world : World} {options : Options} {text : String}

/-- The tree that a text gives is realigned and printed, and the run ends well. -/
theorem Settings.Reads.outcome_eq (h : settings.Reads world options text) {node : Node}
    (hnode : Node.ofJson text = .ok node) :
    (settings.outcome world).exitCode = 0 ∧
      (settings.outcome world).output = (node.realign options).toJson ++ "\n" := by
  have htree : settings.readTree text = .ok node := by
    simp only [Settings.readTree, Settings.format, h.json, if_true, Node.ofText, hnode,
      Except.mapError]
  have hrun : (run options node).tree = node.realign options := run_tree options node
  simp [Settings.outcome, Settings.execute, h.options, h.input, htree, Settings.render, h.json,
    hrun]

/-- A run on a text that gives no tree fails. -/
theorem Settings.Reads.exitCode_of_error (h : settings.Reads world options text)
    {fault : Json.Fault} (hfault : Node.ofJson text = .error fault) :
    (settings.outcome world).exitCode = 1 := by
  have htree : settings.readTree text = .error (.treeInvalid (.json fault)) := by
    simp only [Settings.readTree, Settings.format, h.json, if_true, Node.ofText, hfault,
      Except.mapError]
  simp [Settings.outcome, Settings.execute, h.options, h.input, htree]

/-- The text of bytes that were written as a text. -/
theorem textOf_toUTF8 (text : String) : textOf text.toUTF8 = .ok text := by
  unfold textOf String.fromUTF8?
  rw [String.toUTF8_eq_toByteArray, dif_pos text.isValidUTF8]
  rfl

end

/-! ## The printed tree -/

/-- A tree that was read is printed, when it is realigned, so that it can be read again just if
there is room for the children of each node, as there always is in a text that is not nested as deep
as may be.  A run on the output of a run then prints this output again; otherwise it fails. -/
theorem rereads_own_json {text : String} {node : Node} (h : Node.ofJson text = .ok node)
    (hwhole : WholeNumbers text) (options : Options) :
    (node.LeavesRoom →
        Node.ofJson (run options node).tree.toJson = .ok (run options node).tree) ∧
      (¬node.LeavesRoom → ∃ fault, Node.ofJson (run options node).tree.toJson = .error fault) ∧
      (∀ value rest, Json.readValue nestingLimit text.toList = .ok (value, rest) →
        value.depth < nestingLimit → node.LeavesRoom) ∧
      ∀ {first second : Settings} {world after : World} {again : Options},
        first.Reads world options text →
        second.Reads after again (first.outcome world).output →
        (first.outcome world).exitCode = 0 ∧
          (first.outcome world).output = (run options node).tree.toJson ++ "\n" ∧
          (node.LeavesRoom → (second.outcome after).exitCode = 0 ∧
            (second.outcome after).output = (first.outcome world).output) ∧
          (¬node.LeavesRoom → (second.outcome after).exitCode = 1) := by
  have hread {text : String} (htext : (node.realign options).HasText text) {found : Node} :
      Node.ofJson text = .ok found ↔ found = node.realign options ∧ node.LeavesRoom :=
    Node.ofJson_realign_eq_ok_iff h hwhole htext
  have hrefused {text : String} (htext : (node.realign options).HasText text)
      (hroom : ¬node.LeavesRoom) : ∃ fault, Node.ofJson text = .error fault := by
    cases houtcome : Node.ofJson text with
    | error fault => exact ⟨fault, rfl⟩
    | ok found => exact absurd ((hread htext).mp houtcome).2 hroom
  have htext := (node.realign options).hasText_toJson
  have hline := (node.realign options).hasText_line
  rw [run_tree]
  refine ⟨fun hroom => (hread htext).mpr ⟨rfl, hroom⟩, hrefused htext, ?_, ?_⟩
  · intro value rest hvalue hdepth
    exact Node.leavesRoom_of_depth_lt h hvalue hdepth
  · intro first second world after again hfirst hsecond
    obtain ⟨hexit, houtput⟩ := hfirst.outcome_eq h
    rw [houtput] at hsecond ⊢
    refine ⟨hexit, rfl, ?_, ?_⟩
    · intro hroom
      have hagain := hsecond.outcome_eq ((hread hline).mpr ⟨rfl, hroom⟩)
      rwa [Node.realign_realign] at hagain
    · intro hroom
      obtain ⟨fault, hfault⟩ := hrefused hline hroom
      exact hsecond.exitCode_of_error hfault

/-- A cell is read, realigned and printed, and printed again by a run on what was printed. -/
theorem rereads_own_json_cell :
    let node : Node := .root [.element "td" (some { align := some (.string "left") }) [.text "a"]]
    let settings : Settings := { json := true }
    let world (input : String) : World :=
      { file := fun _ => .error .missing, input := input.toUTF8, logFilter := none }
    let printed := (settings.outcome (world node.toJson)).output
    Node.ofJson node.toJson = .ok node ∧ WholeNumbers node.toJson ∧ node.LeavesRoom ∧
      settings.Reads (world node.toJson) {} node.toJson ∧
      settings.Reads (world printed) {} printed ∧
      (settings.outcome (world printed)).output = printed := by
  intro node settings world printed
  have hcanonical : node.Every Properties.Canonical := by
    refine ⟨⟨?_, trivial, trivial⟩, trivial⟩
    rintro p ⟨rfl⟩
    exact ⟨nofun, nofun, .nil, nofun⟩
  have hexact : node.Every fun p => p.encode.Exact := by
    refine ⟨⟨?_, trivial, trivial⟩, trivial⟩
    rintro p ⟨rfl⟩
    exact ⟨trivial, trivial⟩
  have hdepth : node.encode.depth < nestingLimit := by decide
  have htext := node.hasText_toJson
  have hread : Node.ofJson node.toJson = .ok node :=
    (htext.ofJson_eq_ok_iff hcanonical hexact).mpr ⟨rfl, Nat.le_of_lt hdepth⟩
  obtain ⟨rest, hvalue, -⟩ := htext.readValue_eq hexact (Nat.le_of_lt hdepth)
  have hwhole : WholeNumbers node.toJson := by
    intro value rest hother
    obtain ⟨rfl, -⟩ := Prod.mk.inj (Except.ok.inj (hvalue.symm.trans hother))
    exact Node.exact_encode node hexact
  have hreads (input : String) : settings.Reads (world input) {} input := by
    refine ⟨rfl, rfl, ?_⟩
    show (textOf input.toUTF8).mapError Failure.inputUnread = .ok input
    rw [textOf_toUTF8]
    rfl
  obtain ⟨-, -, hroom, hruns⟩ := rereads_own_json hread hwhole {}
  have hleaves := hroom node.encode rest hvalue hdepth
  exact ⟨hread, hwhole, hleaves, hreads _, hreads _,
    ((hruns (hreads _) (hreads _)).2.2.1 hleaves).2⟩

/-! ## A text that is just not too deep -/

/-- Roots inside each other, the innermost without children. -/
def nestedRoots : Nat → String
  | 0 => "\x7b\"type\":\"root\"\x7d"
  | n + 1 => Node.inRoot (nestedRoots n)

/-- The value of roots inside each other. -/
def nestedValue : Nat → Json.Value
  | 0 => .object [("type", .string "root")]
  | n + 1 => Node.wrapped (nestedValue n)

/-- The tree of roots inside each other. -/
def nestedTree : Nat → Node
  | 0 => .root []
  | n + 1 => .root [nestedTree n]

/-- Roots inside each other are read where there is room for their objects and arrays, but not for
an array in the innermost. -/
theorem readsPart_nestedRoots (n : Nat) :
    Json.ReadsPart (Json.readValue (2 * n + 1)) (nestedRoots n).toList (some (nestedValue n)) := by
  have hgap : Json.IsGap [] := nofun
  induction n with
  | zero =>
      have htext : (nestedRoots 0).toList =
          '\x7b' :: ('"' :: (['t', 'y', 'p', 'e'] ++ '"' :: ':' ::
            '"' :: (['r', 'o', 'o', 't'] ++ ['"'])) ++ ['\x7d']) := by decide
      have hroot := Node.reads_string ['r', 'o', 'o', 't'] (by decide) 0
      have htype := (hroot.part (Json.startsPart_cons rfl (by decide) (by decide) _)).member hgap
        (Node.reads_key ['t', 'y', 'p', 'e'] (by decide)) hgap
      have hrow := Json.ReadsRow.one (Json.takesParts_readField 0)
        (Json.endsNumeral_close (Or.inr rfl)) rfl (by decide) htype
      have hobject := hrow.object
      rw [htext, nestedValue]
      exact Json.Reads.part (by simpa using hobject)
        (Json.startsPart_cons rfl (by decide) (by decide) _)
  | succ n ih =>
      have hstarts : Json.StartsPart (nestedRoots (n + 1)).toList := by
        rw [nestedRoots, Node.toList_inRoot]
        exact Json.startsPart_cons rfl (by decide) (by decide) _
      exact (Node.reads_inRoot ih).part hstarts

/-- Roots inside each other are decoded into roots inside each other. -/
theorem decode_nestedValue (n : Nat) : Node.decode (nestedValue n) = .ok (nestedTree n) := by
  induction n with
  | zero => rfl
  | succ n ih => exact Node.decode_wrapped_eq_ok_iff.mpr ih

/-- There are no numbers in roots inside each other. -/
theorem exact_nestedValue (n : Nat) : (nestedValue n).Exact := by
  induction n with
  | zero => exact ⟨trivial, trivial⟩
  | succ n ih => exact ⟨trivial, ⟨ih, trivial⟩, trivial⟩

/-- The innermost of the roots stands as many steps down as there are roots around it. -/
theorem at?_nestedTree (n : Nat) : (nestedTree n).at? (List.replicate n 0) = some (.root []) := by
  induction n with
  | zero => rfl
  | succ n ih => rw [List.replicate_succ, Node.at?_cons]; exact ih

/-- Sixty-four roots inside each other are read, but not what is printed of them, for the innermost
has an array of its children then. -/
theorem own_json_refused :
    Node.ofJson (nestedRoots 63) = .ok (nestedTree 63) ∧ WholeNumbers (nestedRoots 63) ∧
      ∀ found, Node.ofJson (run {} (nestedTree 63)).tree.toJson ≠ .ok found := by
  have hpart : Json.ReadsPart (Json.readValue nestingLimit) (nestedRoots 63).toList
      (some (nestedValue 63)) := readsPart_nestedRoots 63
  obtain ⟨after, -, hread⟩ := Node.readValue_eq_ok_iff_of_readsPart hpart
  have hnode : Node.ofJson (nestedRoots 63) = .ok (nestedTree 63) := by
    refine (Node.ofJson_of_readsPart hpart).mpr ⟨_, rfl, ?_, decode_nestedValue 63⟩
    exact .object List.mem_cons_self
  have hwhole : WholeNumbers (nestedRoots 63) := by
    intro value rest hvalue
    obtain ⟨heq, -⟩ := hread.mp hvalue
    obtain rfl := Option.some.inj heq
    exact exact_nestedValue 63
  refine ⟨hnode, hwhole, fun found hfound => ?_⟩
  rw [run_tree] at hfound
  have htext := ((nestedTree 63).realign {}).hasText_toJson
  have hroom := ((Node.ofJson_realign_eq_ok_iff hnode hwhole htext).mp hfound).2
  have hinnermost := hroom _ _ (at?_nestedTree 63) rfl
  rw [List.length_replicate] at hinnermost
  exact absurd hinnermost (by decide)

end CellAlign.Command

import CellAlign.Proofs.Json.Reading
import CellAlign.Proofs.Tree.Decoding
import CellAlign.Tree.Reader

/-!
# Trees as texts, written and read

The outermost node of a text is read member by member, and its type comes first in a text that was
written.

* `readMember_eq`: a field of the outermost node is read like the member of any object;
* `walkObject_fields`: the outermost node is read up to its end;
* `ofJson_toJson`: a tree is read back from its text.
-/

namespace CellAlign.Node

open Json

/-- Puts a field before those read already. -/
def Draft.put (draft : Draft (String × Value)) (key : String) (value : Value) :
    Draft (String × Value) :=
  { draft with fields := (key, value) :: draft.fields }

/-- All fields that are put are there, last first. -/
theorem foldl_put (draft : Draft (String × Value)) (fields : List (String × Value)) :
    fields.foldl (fun draft m => draft.put m.1 m.2) draft =
      { draft with fields := fields.reverse ++ draft.fields } := by
  induction fields generalizing draft with
  | nil => rfl
  | cons m fields ih =>
      rw [List.foldl_cons, ih]
      simp [Draft.put]

/-- The type of the outermost node is read from its name. -/
theorem readMember_type (kind : Kind) (level : Nat) (rest : List Char) :
    readMember {} "type" (':' :: ' ' :: (Value.string kind.name).pretty level rest) =
      .ok ({ kind := some kind }, rest) := by
  obtain ⟨body, hbody, hread⟩ := Text.read_encode kind.name rest
  have hquote : isGap '"' = false := rfl
  have hgap : skipGap (' ' :: '"' :: body) = '"' :: body := skipGap_cons hquote body
  rw [readMember, if_pos rfl, Value.pretty, hbody]
  simp only [readColon_colon, readKind, readString, hgap, hread, Kind.ofName_name, mapRead]

/-- A field of the outermost node is read like the member of any object. -/
theorem readMember_eq {key : String} (h : key ≠ "type") (draft : Draft (String × Value))
    (text : List Char) :
    readMember draft key text =
      mapRead (fun fields => { draft with fields })
        (readField (nestingLimit - 1) draft.fields key text) := by
  rw [readMember, if_neg h, readField]
  cases readColon text with
  | error stop => rfl
  | ok text =>
      simp only
      cases readValue (nestingLimit - 1) text <;> rfl

/-- The outermost node is read up to its end. -/
theorem walkObject_fields (node : Node) (hexact : node.encode.Exact)
    (hdepth : node.encode.depth ≤ nestingLimit) (rest : List Char) :
    ∃ body, node.encode.pretty 0 rest = '\x7b' :: body ∧
      walkObject readMember {} body =
        .ok ({ kind := some node.kind, fields := node.fields.reverse }, rest) := by
  rw [encode_eq] at hexact hdepth ⊢
  rw [Value.Exact, Value.ExactMembers] at hexact
  rw [Value.depth, Value.depthMembers] at hdepth
  have hfields := takesMember_of_exact node.fields (nestingLimit - 1) hexact.2 (by omega)
  have hmember : ∀ m ∈ node.fields, TakesMember readMember Draft.put m.1 m.2 := by
    intro m hm draft level tail hends
    rw [readMember_eq (ne_type_of_mem_fields hm), hfields m hm draft.fields level tail hends]
    rfl
  have hwalk := walkObject_pretty (fun tail _ => readMember_type node.kind 1 tail) hmember 0 rest
  rw [foldl_put, List.append_nil] at hwalk
  exact ⟨_, rfl, hwalk⟩

/-- A tree whose properties are canonical, whose numbers are all whole and whose text is not nested
too deep is read back from its text. -/
theorem ofJson_toJson (node : Node) (hcanonical : node.Every Properties.Canonical)
    (hexact : node.encode.Exact) (hdepth : node.encode.depth ≤ nestingLimit) :
    ofJson node.toJson = .ok node := by
  obtain ⟨body, hbody, hwalk⟩ := walkObject_fields node hexact hdepth []
  have htext : node.toJson.toList = '\x7b' :: body := by
    rw [toJson, Value.toPretty, String.toList_ofList, hbody]
  rw [ofJson, htext, skipGap_cons (by decide)]
  simp only [hwalk, finish, List.reverse_reverse, ofMembers_fields node hcanonical]
  rfl

/-- A root with a cell that has properties of all kinds, and with elements that have none and an
empty set of them. -/
theorem ofJson_toJson_cell :
    let cell : Node := .element "td" (some {
        align := some (.string "\"left\"\n")
        className := .list []
        style := some (.list [.bool true, .list [.null]])
        other := [("colSpan", .number (.whole ⟨-2, by decide⟩)), ("title", .null)] })
      [.text "\x01 é", .comment "", .root []]
    let node : Node := .root [.doctype, cell, .element "tr" none [], .element "th" (some {}) []]
    node.Every Properties.Canonical ∧ node.encode.Exact ∧ node.encode.depth ≤ nestingLimit ∧
      ofJson node.toJson = .ok node := by
  intro cell node
  have hempty : ({} : Properties).Canonical :=
    ⟨nofun, nofun, .nil, nofun⟩
  have hcell : (cell.Every Properties.Canonical) := by
    refine ⟨?_, ?_⟩
    · rintro p ⟨rfl⟩
      exact ⟨nofun, nofun, by decide, by decide⟩
    · simp [EveryList, Every]
  have hcanonical : node.Every Properties.Canonical := by
    simp only [node, Every, EveryList]
    simp [hcell, hempty]
  have hexact : node.encode.Exact := by
    simp [node, cell, encode, encodeList, Properties.encode, Properties.members,
      PropertyValue.encode, PropertyValue.encodeList, ClassName.encode, ClassName.isAbsent,
      Value.Exact, Value.ExactItems, Value.ExactMembers]
  have hdepth : node.encode.depth ≤ nestingLimit := by decide
  exact ⟨hcanonical, hexact, hdepth, ofJson_toJson node hcanonical hexact hdepth⟩

end CellAlign.Node

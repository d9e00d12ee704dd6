import CellAlign.Proofs.Json.Settled
import CellAlign.Proofs.Tree.Outermost

/-!
# Nodes at the top and below

The outermost node of a text is read by rules of its own, for its type is looked at before the rest
has been read.  Put as the only child into a root, the same text is read as a value.  Both come to
the same tree, except that below the top the type may also be given by number.

* `inRoot`: a text as the only child of a root;
* `ofJson_inRoot_eq_ok_iff`: what is accepted there is accepted at the top, or gives its type by
  number and is not;
* `ofJson_inRoot_type_by_number`: such a text.
-/

namespace CellAlign.Node

open Json

variable {text : String} {node : Node}

/-- A text as the only child of a root. -/
def inRoot (text : String) : String :=
  "\x7b\"type\":\"root\",\"children\":[" ++ text ++ "]\x7d"

/-- The value of a root with a value as its only child. -/
def wrapped (value : Value) : Value :=
  .object [("type", .string "root"), ("children", .array [value])]

/-- The type of a node is given by number. -/
inductive TypedByNumber : Value → Prop
  | object {members : List (String × Value)} {index : Whole}
      (h : ("type", .number (.whole index)) ∈ members) : TypedByNumber (.object members)
  | array {index : Whole} {fields : List Value} :
      TypedByNumber (.array (.number (.whole index) :: fields))

/-! ## Texts -/

/-- A key without characters that have to be escaped is read. -/
theorem reads_key (key : List Char) (h : key.flatMap Text.encodeChar = key) :
    Reads Text.read (key ++ ['"']) (some (String.ofList key)) := by
  intro rest _
  have hread := Text.readBody_encode key rest
  rw [h] at hread
  rw [List.append_assoc, List.singleton_append, Text.read, hread]
  exact .ok _

/-- A string without characters that have to be escaped is read. -/
theorem reads_string (body : List Char) (h : body.flatMap Text.encodeChar = body) (room : Nat) :
    Reads (readValue room) ('"' :: (body ++ ['"'])) (some (.string (String.ofList body))) := by
  intro rest hrest
  rw [List.cons_append, readValue_scalar rfl rfl]
  exact (reads_key body h rest hrest).map Value.string

/-- The characters around the only child of a root. -/
theorem toList_inRoot (text : String) :
    (inRoot text).toList = '\x7b' :: ('"' :: (['t', 'y', 'p', 'e'] ++ '"' :: ':' :: '"' ::
      (['r', 'o', 'o', 't'] ++ '"' :: ',' :: '"' :: (['c', 'h', 'i', 'l', 'd', 'r', 'e', 'n'] ++
        '"' :: ':' :: '[' :: (text.toList ++ [']', '\x7d']))))) := by
  have hbefore : "\x7b\"type\":\"root\",\"children\":[".toList =
      '\x7b' :: '"' :: (['t', 'y', 'p', 'e'] ++ '"' :: ':' :: '"' ::
        (['r', 'o', 'o', 't'] ++ '"' :: ',' :: '"' :: (['c', 'h', 'i', 'l', 'd', 'r', 'e', 'n'] ++
          '"' :: ':' :: ['[']))) := by
    decide
  unfold inRoot
  rw [String.toList_append, String.toList_append, List.append_assoc, hbefore]
  rfl

/-- The only child of a root is read where there is room for the root and the array around it. -/
theorem reads_inRoot {room : Nat} {found : Option Value}
    (h : ReadsPart (readValue room) text.toList found) :
    Reads (readValue (room + 2)) (inRoot text).toList (found.map wrapped) := by
  have hgap : IsGap [] := nofun
  have harray : Reads (readValue (room + 1)) ('[' :: (text.toList ++ [']']))
      ((found.map ([·])).map .array) := by
    have hrow := ReadsRow.one (takesParts_readElement room) (endsNumeral_close (Or.inl rfl)) rfl
      (by decide) h
    exact hrow.array
  have hchildren := (harray.part (startsPart_cons rfl (by decide) (by decide) _)).member hgap
    (reads_key ['c', 'h', 'i', 'l', 'd', 'r', 'e', 'n'] (by decide)) hgap
  have hroot := reads_string ['r', 'o', 'o', 't'] (by decide) (room + 1)
  have htype := (hroot.part (startsPart_cons rfl (by decide) (by decide) _)).member hgap
    (reads_key ['t', 'y', 'p', 'e'] (by decide)) hgap
  have hrow := ReadsRow.cons (takesParts_readField (room + 1)) (by decide) htype
    (.one (takesParts_readField (room + 1)) (endsNumeral_close (Or.inr rfl)) rfl (by decide)
      hchildren)
  have hobject := hrow.object
  rw [toList_inRoot]
  cases found with
  | none => simpa using hobject
  | some value => simpa [wrapped] using hobject

/-- A text with gaps around a value is read or refused at the top, whatever room it needs. -/
theorem readValue_eq_ok_iff_of_readsPart {room : Nat} {found : Option Value}
    (h : ReadsPart (readValue room) text.toList found) :
    ∃ after, readEnd after = .ok () ∧ ∀ {value rest},
      readValue room text.toList = .ok (value, rest) ↔ found = some value ∧ rest = after := by
  obtain ⟨inner, after, -, hafter, hgives⟩ := h.gives
  have hread := hgives [] nofun
  rw [List.append_nil, List.append_nil] at hread
  refine ⟨after, ?_, fun {value rest} => hread.eq_ok_iff⟩
  have hskip := skipGap_append hafter []
  rw [List.append_nil] at hskip
  rw [readEnd, hskip]
  rfl

/-! ## Trees -/

/-- A root is decoded with its only child. -/
theorem decode_wrapped_eq_ok_iff {value : Value} :
    decode (wrapped value) = .ok (.root [node]) ↔ decode value = .ok node := by
  have hkind : Kind.ofMembers none [("type", .string "root"), ("children", .array [value])] =
      .ok .root := rfl
  rw [wrapped, decode_object, hkind]
  cases hvalue : decode value <;>
    simp [ofMembers, decodeRoot, decodeChildren, decodeList, hvalue]

/-- What is decoded has its type given by name or by number, but not both. -/
theorem typedByName_or_typedByNumber {value : Value} (h : decode value = .ok node) :
    TypedByName value ∧ ¬TypedByNumber value ∨ TypedByNumber value ∧ ¬TypedByName value := by
  have hkind {type : Value} {kind : Kind} (h : Kind.decode type = .ok kind) :
      (∃ name, type = .string name) ∨ ∃ index, type = .number (.whole index) := by
    unfold Kind.decode at h
    split at h
    · exact Or.inl ⟨_, rfl⟩
    · exact Or.inr ⟨_, rfl⟩
    · cases h
  obtain ⟨kind, fields, hform, -⟩ := decode_eq_ok_iff.mp h
  cases hform with
  | object hfield =>
      cases hfield with
      | present htype hdecode =>
          have hmem := mem_valuesOf.mp (htype ▸ List.mem_singleton.mpr rfl)
          have hone {type : Value} (h : ("type", type) ∈ fields) :=
            List.mem_singleton.mp (htype ▸ mem_valuesOf.mpr h)
          rcases hkind hdecode with ⟨name, rfl⟩ | ⟨index, rfl⟩
          · refine Or.inl ⟨.object hmem, ?_⟩
            rintro (hnumber | _)
            cases hone hnumber
          · refine Or.inr ⟨.object hmem, ?_⟩
            rintro (hname | _)
            cases hone hname
  | array hdecode =>
      rcases hkind hdecode with ⟨name, rfl⟩ | ⟨index, rfl⟩
      · exact Or.inl ⟨.array, nofun⟩
      · exact Or.inr ⟨.array, nofun⟩

/-- A text gives its type by number and is otherwise that of a tree. -/
def ReadsByNumber (text : String) (node : Node) : Prop :=
  ∃ value rest, readValue nestingLimit text.toList = .ok (value, rest) ∧ readEnd rest = .ok () ∧
    TypedByNumber value ∧ decode value = .ok node

section

variable {found : Option Value}

/-- As the only child of a root, a text is accepted if what it is read as is decoded. -/
theorem ofJson_inRoot_of_readsPart
    (h : ReadsPart (readValue (nestingLimit - 2)) text.toList found) :
    ofJson (inRoot text) = .ok (.root [node]) ↔
      ∃ value, found = some value ∧ decode value = .ok node := by
  have hread := reads_inRoot h [] nofun
  rw [List.append_nil] at hread
  rw [ofJson_eq_ok_iff]
  constructor
  · rintro ⟨outer, rest, houter, -, -, hdecode⟩
    obtain ⟨hfound, rfl⟩ := hread.eq_ok_iff.mp houter
    obtain ⟨value, hvalue, rfl⟩ := Option.map_eq_some_iff.mp hfound
    exact ⟨value, hvalue, decode_wrapped_eq_ok_iff.mp hdecode⟩
  · rintro ⟨value, rfl, hdecode⟩
    have hname : ("type", Value.string "root") ∈
        [("type", Value.string "root"), ("children", .array [value])] := List.mem_cons_self
    exact ⟨wrapped value, [], hread.eq_ok_iff.mpr ⟨rfl, rfl⟩, rfl, .object hname,
      decode_wrapped_eq_ok_iff.mpr hdecode⟩

variable (h : ReadsPart (readValue nestingLimit) text.toList found)

include h

/-- At the top, a text is accepted if what it is read as is decoded and names its type. -/
theorem ofJson_of_readsPart : ofJson text = .ok node ↔
    ∃ value, found = some value ∧ TypedByName value ∧ decode value = .ok node := by
  obtain ⟨after, hafter, htop⟩ := readValue_eq_ok_iff_of_readsPart h
  rw [ofJson_eq_ok_iff]
  constructor
  · rintro ⟨value, rest, hread, -, htyped, hdecode⟩
    exact ⟨value, (htop.mp hread).1, htyped, hdecode⟩
  · rintro ⟨value, hvalue, htyped, hdecode⟩
    exact ⟨value, after, htop.mpr ⟨hvalue, rfl⟩, hafter, htyped, hdecode⟩

/-- A text gives its type by number if what it is read as does, and is decoded. -/
theorem readsByNumber_of_readsPart : ReadsByNumber text node ↔
    ∃ value, found = some value ∧ TypedByNumber value ∧ decode value = .ok node := by
  obtain ⟨after, hafter, htop⟩ := readValue_eq_ok_iff_of_readsPart h
  constructor
  · rintro ⟨value, rest, hread, -, htyped, hdecode⟩
    exact ⟨value, (htop.mp hread).1, htyped, hdecode⟩
  · rintro ⟨value, hvalue, htyped, hdecode⟩
    exact ⟨value, after, htop.mpr ⟨hvalue, rfl⟩, hafter, htyped, hdecode⟩

end

/-- A text in the syntax of JSON, if it leaves room for a root and an array around it, is accepted
as the only child of a root if it is accepted at the top, and with the same tree, or if it would be
but for a type given by number; and then it is not accepted at the top. -/
theorem ofJson_inRoot_eq_ok_iff {depth : Nat} (h : Derives .element depth text.toList)
    (hdepth : depth + 2 ≤ nestingLimit) (node : Node) :
    (ofJson (inRoot text) = .ok (.root [node]) ↔ ofJson text = .ok node ∨ ReadsByNumber text node) ∧
      (ReadsByNumber text node → ∃ fault, ofJson text = .error fault) := by
  obtain ⟨found, hfound⟩ := settled_of_derives h
  have htop := hfound nestingLimit (by omega)
  rw [ofJson_inRoot_of_readsPart (hfound (nestingLimit - 2) (by omega)), ofJson_of_readsPart htop,
    readsByNumber_of_readsPart htop]
  constructor
  · constructor
    · rintro ⟨value, hvalue, hdecode⟩
      rcases typedByName_or_typedByNumber hdecode with ⟨htyped, -⟩ | ⟨htyped, -⟩
      · exact Or.inl ⟨value, hvalue, htyped, hdecode⟩
      · exact Or.inr ⟨value, hvalue, htyped, hdecode⟩
    · rintro (⟨value, hvalue, -, hdecode⟩ | ⟨value, hvalue, -, hdecode⟩)
      · exact ⟨value, hvalue, hdecode⟩
      · exact ⟨value, hvalue, hdecode⟩
  · rintro ⟨value, rfl, htyped, hdecode⟩
    cases htext : ofJson text with
    | error fault => exact ⟨fault, rfl⟩
    | ok other =>
        obtain ⟨_, heq, htyped', -⟩ := (ofJson_of_readsPart htop).mp htext
        obtain rfl := Option.some.inj heq
        rcases typedByName_or_typedByNumber hdecode with ⟨-, h⟩ | ⟨-, h⟩
        · exact absurd htyped h
        · exact absurd htyped' h

/-! ## Examples of texts -/

/-- A value without gaps around it. -/
theorem derives_element {depth : Nat} {text : List Char} (h : Derives .value depth text) :
    Derives .element depth text := by
  have hgap : IsGap [] := nofun
  have helement := Derives.element hgap h hgap
  rwa [List.nil_append, List.append_nil] at helement

/-- Characters that stand for themselves. -/
theorem isBody_of_plain {body : List Char}
    (h : (body.all fun c => c != '"' && c != '\\' && 0x20 ≤ c.toNat) = true) : IsBody body := by
  induction body with
  | nil => exact .nil
  | cons c body ih =>
      simp only [List.all_cons, Bool.and_eq_true, bne_iff_ne, decide_eq_true_eq] at h
      obtain ⟨⟨⟨hquote, hslash⟩, hplain⟩, hrest⟩ := h
      refine .plain hquote hslash hplain (ih ?_)
      simpa only [Bool.and_eq_true, bne_iff_ne, decide_eq_true_eq] using hrest

/-- A text given as an array of its type and its content. -/
theorem ofJson_inRoot_array :
    Derives .element 1 "[\"text\",\"a\"]".toList ∧ 1 + 2 ≤ nestingLimit ∧
      (ofJson (inRoot "[\"text\",\"a\"]") = .ok (.root [.text "a"]) ↔
        ofJson "[\"text\",\"a\"]" = .ok (.text "a") ∨
          ReadsByNumber "[\"text\",\"a\"]" (.text "a")) := by
  have htext : "[\"text\",\"a\"]".toList = '[' :: ('"' :: (['t', 'e', 'x', 't'] ++ ['"']) ++ ',' ::
      ('"' :: (['a'] ++ ['"'])) ++ [']']) := by decide
  have hderives : Derives .element 1 "[\"text\",\"a\"]".toList := by
    rw [htext]
    refine derives_element (.array (.moreElements (derives_element (.string ?_))
      (.lastElement (derives_element (.string ?_)))))
    · exact isBody_of_plain rfl
    · exact isBody_of_plain rfl
  exact ⟨hderives, by decide, (ofJson_inRoot_eq_ok_iff hderives (by decide) _).1⟩

/-- An object with a type by number is accepted below the top but not at the top. -/
theorem ofJson_inRoot_type_by_number :
    Derives .element 1 "\x7b\"type\":4\x7d".toList ∧
      ofJson (inRoot "\x7b\"type\":4\x7d") = .ok (.root [.doctype]) ∧
      ∀ node, ofJson "\x7b\"type\":4\x7d" ≠ .ok node := by
  have hgap : IsGap [] := nofun
  let four : Whole := ⟨4, by decide⟩
  have htext : "\x7b\"type\":4\x7d".toList =
      '\x7b' :: ('"' :: (['t', 'y', 'p', 'e'] ++ '"' :: ':' :: ['4']) ++ ['\x7d']) := by decide
  have hreads (room : Nat) : ReadsPart (readValue (room + 1)) "\x7b\"type\":4\x7d".toList
      (some (.object [("type", .number (.whole four))])) := by
    have hfour : Reads (readValue room) ['4'] (some (.number (.whole four))) := by
      intro rest hrest
      have hread := readValue_whole room four hrest
      have hdigits : (Number.whole four).text.toList = ['4'] := by decide
      rw [hdigits] at hread
      rw [hread]
      exact .ok _
    have hmember := (hfour.part (startsPart_digit rfl _)).member hgap
      (reads_key ['t', 'y', 'p', 'e'] (by decide)) hgap
    have hrow := ReadsRow.one (takesParts_readField room) (endsNumeral_close (Or.inr rfl)) rfl
      (by decide) hmember
    have hobject := hrow.object
    rw [htext]
    exact Reads.part (by simpa using hobject) (startsPart_cons rfl (by decide) (by decide) _)
  refine ⟨?_, (ofJson_inRoot_of_readsPart (hreads _)).mpr ⟨_, rfl, ?_⟩, fun node hnode => ?_⟩
  · rw [htext]
    have hwhole : IsWhole ['4'] := .digits rfl (by decide) nofun
    have hkey : IsBody ['t', 'y', 'p', 'e'] := isBody_of_plain rfl
    have hfour : Derives .element 0 ['4'] :=
      derives_element (.numeral (.unsigned (.parts hwhole .none .none)))
    exact derives_element (.object (.lastMember (.member hgap hkey hgap hfour)))
  · rw [decode_object]
    rfl
  · obtain ⟨value, heq, htyped, -⟩ := (ofJson_of_readsPart (hreads _)).mp hnode
    obtain rfl := Option.some.inj heq
    obtain ⟨hname⟩ := htyped
    simp at hname

end CellAlign.Node

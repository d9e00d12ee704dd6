import CellAlign.Proofs.Options.Choices

/-!
# What a configuration states

The tokens and the options are read as records.  What has been read of them is a draft, to which
each known member adds what it states, while the others are skipped.  So the options that are read
are those that the text states, and what it does not state has its default.

* `ClassNames.understands_read`: tokens are read from the records that state some of them;
* `Options.ofJson_eq_ok_iff`: the texts that options are read from, and what these are;
* `Options.exists_states`: whatever can be chosen can be stated.
-/

namespace CellAlign

open Json
open Json.Numeral (EndsNumeral)
open Json.Skip (Derivable)

/-! ## Readers of tokens -/

namespace ClassNames

/-- What a draft of tokens states. -/
def Draft.stated (draft : Draft) : Choice → Option String
  | .method => none
  | .center => draft.center
  | .left => draft.left
  | .right => draft.right

/-- The names of the tokens. -/
def names : List String := ["center", "left", "right"]

/-- A member is taken in for the token whose name it has, and skipped if there is none. -/
def takesMember (draft : Draft) (member : String × List Char) (next : Draft) : Prop :=
  (Assigns "center" IsString draft.center member next.center ∧
      Assigns "left" IsString draft.left member next.left ∧
      Assigns "right" IsString draft.right member next.right) ∧
    (member.1 ∉ names → Derivable .value member.2)

/-- Members of the tokens are read so. -/
theorem takesMembers_readMember : TakesMembers readMember takesMember := by
  intro draft key
  have hknown (seen : Option String) (store : String → Draft) :
      UnderstandsMember (knownMember key seen readToken store)
        fun value next => seen = none ∧ ∃ t, IsString value t ∧ store t = next :=
    understandsMember_knownMember (understands_readString "a string") key seen store
  obtain ⟨center, left, right⟩ := draft
  by_cases hcenter : key = "center"
  · subst hcenter
    refine (hknown center _).of_iff fun value ⟨center', left', right'⟩ => ?_
    simp only [takesMember, Assigns, names, Draft.mk.injEq]
    grind
  by_cases hleft : key = "left"
  · subst hleft
    refine (hknown left _).of_iff fun value ⟨center', left', right'⟩ => ?_
    simp only [takesMember, Assigns, names, Draft.mk.injEq]
    grind
  by_cases hright : key = "right"
  · subst hright
    refine (hknown right _).of_iff fun value ⟨center', left', right'⟩ => ?_
    simp only [takesMember, Assigns, names, Draft.mk.injEq]
    grind
  · have hother : readMember ⟨center, left, right⟩ key = skipMember ⟨center, left, right⟩ := by
      funext text
      rw [readMember, if_neg hcenter, if_neg hleft, if_neg hright]
    rw [hother]
    refine (understandsMember_skipMember _).of_iff fun value ⟨center', left', right'⟩ => ?_
    simp [takesMember, Assigns, names, hcenter, hleft, hright, and_comm]

/-- A draft of tokens holds three things apart. -/
theorem Draft.bijective_parts :
    Function.Bijective fun draft : Draft => (draft.center, (draft.left, draft.right)) := by
  refine ⟨?_, fun ⟨center, left, right⟩ => ⟨⟨center, left, right⟩, rfl⟩⟩
  rintro ⟨center, left, right⟩ ⟨center', left', right'⟩ heq
  simpa using heq

/-- Members of the tokens are taken in for each token on its own. -/
theorem steps_takesMember_iff {draft next : Draft} {members : List (String × List Char)} :
    Steps takesMember draft members next ↔
      (∀ member ∈ members, member.1 ∉ names → Derivable .value member.2) ∧
        Steps (Assigns "center" IsString) draft.center members next.center ∧
        Steps (Assigns "left" IsString) draft.left members next.left ∧
        Steps (Assigns "right" IsString) draft.right members next.right := by
  let sides (pair : Option String × Option String) (member : String × List Char)
      (next : Option String × Option String) : Prop :=
    Assigns "left" IsString pair.1 member next.1 ∧ Assigns "right" IsString pair.2 member next.2
  have hall := @steps_and_forall_iff _ _
    (fun draft member next => Assigns "center" IsString draft.center member next.center ∧
      sides (draft.left, draft.right) member (next.left, next.right)) draft next members
    fun member => member.1 ∉ names → Derivable .value member.2
  have hcenter := @steps_and_iff _ _ draft next members _ _ _ _ (Assigns "center" IsString) sides
    Draft.bijective_parts
  have hsides := @steps_and_iff _ _ (draft.left, draft.right) (next.left, next.right) members
    _ _ _ _ (Assigns "left" IsString) (Assigns "right" IsString) Function.bijective_id
  rw [and_comm, ← hsides, ← hcenter]
  exact hall

/-- What members state of the tokens. -/
def Draft.Holds (members : List (String × List Char)) (draft : Draft) : Prop :=
  ∀ choice, choice ≠ .method → CellAlign.Holds members choice.key IsString (draft.stated choice)

/-- The tokens are stated one by one. -/
theorem Draft.holds_iff {members : List (String × List Char)} {draft : Draft} :
    draft.Holds members ↔ CellAlign.Holds members "center" IsString draft.center ∧
      CellAlign.Holds members "left" IsString draft.left ∧
      CellAlign.Holds members "right" IsString draft.right := by
  constructor
  · intro h
    exact ⟨h .center nofun, h .left nofun, h .right nofun⟩
  · rintro ⟨hcenter, hleft, hright⟩ choice hmethod
    cases choice with
    | method => exact absurd rfl hmethod
    | center => exact hcenter
    | left => exact hleft
    | right => exact hright

/-- Members that state tokens have JSON behind their keys. -/
theorem Draft.Holds.derivable {members : List (String × List Char)} {draft : Draft}
    (h : draft.Holds members) : ∀ m ∈ members, m.1 ∈ names → Derivable .value m.2 := by
  obtain ⟨hcenter, hleft, hright⟩ := Draft.holds_iff.mp h
  have hstring (text : List Char) (string : String) (h : IsString text string) :
      Derivable .value text := h.derivable
  intro m hm hname
  simp only [names, List.mem_cons, List.not_mem_nil, or_false] at hname
  rcases hname with hname | hname | hname
  · exact hcenter.derivable hstring hm hname
  · exact hleft.derivable hstring hm hname
  · exact hright.derivable hstring hm hname

/-- The tokens that items of an array give, in the order of their names. -/
def takesItems : List (Draft → List Char → Draft → Prop) :=
  [fun draft value next => ∃ t, IsString value t ∧ { draft with center := some t } = next,
   fun draft value next => ∃ t, IsString value t ∧ { draft with left := some t } = next,
   fun draft value next => ∃ t, IsString value t ∧ { draft with right := some t } = next]

/-- A field that is a string is read from an item. -/
theorem takesValues_token (store : Draft → String → Draft) :
    TakesValues (fun draft text => mapRead (store draft) (readToken text))
      fun draft value next => ∃ t, IsString value t ∧ store draft t = next where
  understands draft := (understands_readString "a string").mapRead (store draft)
  starts := by
    rintro _ _ _ ⟨t, ⟨body, rfl, -⟩, -⟩
    exact ⟨'"', _, rfl, rfl, by decide⟩

/-- Items state the tokens to whose names they belong. -/
theorem fills_takesItems_iff {draft : Draft} {values : List (List Char)} :
    Fills takesItems {} values draft ↔
      values.length ≤ names.length ∧ draft.Holds (names.zip values) := by
  by_cases hlength : values.length ≤ names.length
  swap
  · exact iff_of_false (fun h => hlength h.length_le) fun h => hlength h.1
  obtain ⟨center, left, right⟩ := draft
  simp only [hlength, true_and, Draft.holds_iff, ← steps_assigns_iff]
  match values with
  | [] => simp [names, takesItems]
  | [a] => cases center <;> simp [names, takesItems, Assigns]
  | [a, b] => cases center <;> cases left <;> simp [names, takesItems, Assigns, and_assoc]
  | [a, b, c] =>
      cases center <;> cases left <;> cases right <;>
        simp [names, takesItems, Assigns, and_assoc]
  | _ :: _ :: _ :: _ :: _ =>
      simp only [names, List.length_cons, List.length_nil] at hlength
      omega

/-- The tokens of a record that states some of them. -/
def IsStated (value : List Char) (classes : ClassNames) : Prop :=
  ∃ draft : Draft, StatesTokens value draft.stated ∧ draft.finish = classes

/-- Tokens are JSON. -/
theorem IsStated.derivable {value : List Char} {classes : ClassNames}
    (h : IsStated value classes) : Derivable .value value := by
  obtain ⟨draft, ⟨members, hrecord, hholds⟩, -⟩ := h
  exact hrecord.derivable (Draft.Holds.derivable hholds)

/-- Tokens are read from a record that states some of them. -/
theorem understands_read (depth : Nat) : Understands (read (depth + 1)) IsStated := by
  have hrecord := understands_readRecord takesMembers_readMember
    (.cons (takesValues_token fun draft t => { draft with center := some t })
      (.cons (takesValues_token fun draft t => { draft with left := some t })
        (.cons (takesValues_token fun draft t => { draft with right := some t }) .nil)))
    depth "struct ClassNames" {}
  refine (hrecord.mapRead Draft.finish).of_iff fun value classes => ?_
  have hiff (draft : Draft) : Recorded takesMember takesItems {} value draft ↔
      StatesTokens value draft.stated :=
    recorded_iff (fun members => steps_takesMember_iff.trans
      (by rw [steps_assigns_iff, steps_assigns_iff, steps_assigns_iff, Draft.holds_iff]))
      fun values => fills_takesItems_iff
  exact exists_congr fun draft => and_congr_left' (hiff draft)

end ClassNames

/-! ## Readers of options -/

namespace Options

/-- The names of what options hold. -/
def names : List String := ["classes", "method"]

/-- What options hold as their method. -/
def IsMethod (value : List Char) (method : Method) : Prop := NamesMethod value method.name

/-- A member is taken in for the tokens or the method if it has their name, and skipped if not. -/
def takesMember (draft : Draft) (member : String × List Char) (next : Draft) : Prop :=
  (Assigns "classes" ClassNames.IsStated draft.classes member next.classes ∧
      Assigns "method" IsMethod draft.method member next.method) ∧
    (member.1 ∉ names → Derivable .value member.2)

/-- Members of the options are read so. -/
theorem takesMembers_readMember (depth : Nat) :
    TakesMembers (readMember (depth + 1)) takesMember := by
  rintro ⟨classes, method⟩ key
  by_cases hclasses : key = "classes"
  · subst hclasses
    refine (understandsMember_knownMember (ClassNames.understands_read depth) "classes" classes
      _).of_iff fun value ⟨classes', method'⟩ => ?_
    simp only [takesMember, Assigns, names, Draft.mk.injEq]
    grind
  by_cases hmethod : key = "method"
  · subst hmethod
    refine (understandsMember_knownMember (understands_readMethod depth) "method" method
      _).of_iff fun value ⟨classes', method'⟩ => ?_
    simp only [takesMember, Assigns, names, Draft.mk.injEq, IsMethod]
    grind
  · have hother : readMember (depth + 1) ⟨classes, method⟩ key = skipMember ⟨classes, method⟩ := by
      funext text
      rw [readMember, if_neg hclasses, if_neg hmethod]
    rw [hother]
    refine (understandsMember_skipMember _).of_iff fun value ⟨classes', method'⟩ => ?_
    simp [takesMember, Assigns, names, hclasses, hmethod, and_comm]

/-- A draft of options holds two things apart. -/
theorem Draft.bijective_parts :
    Function.Bijective fun draft : Draft => (draft.classes, draft.method) := by
  refine ⟨?_, fun ⟨classes, method⟩ => ⟨⟨classes, method⟩, rfl⟩⟩
  rintro ⟨classes, method⟩ ⟨classes', method'⟩ heq
  simpa using heq

/-- Members of the options are taken in for the tokens and for the method on its own. -/
theorem steps_takesMember_iff {draft next : Draft} {members : List (String × List Char)} :
    Steps takesMember draft members next ↔
      (∀ member ∈ members, member.1 ∉ names → Derivable .value member.2) ∧
        Steps (Assigns "classes" ClassNames.IsStated) draft.classes members next.classes ∧
        Steps (Assigns "method" IsMethod) draft.method members next.method := by
  have hall := @steps_and_forall_iff _ _
    (fun draft member next =>
      Assigns "classes" ClassNames.IsStated draft.classes member next.classes ∧
        Assigns "method" IsMethod draft.method member next.method) draft next members
    fun member => member.1 ∉ names → Derivable .value member.2
  have hboth := @steps_and_iff _ _ draft next members _ _ _ _
    (Assigns "classes" ClassNames.IsStated) (Assigns "method" IsMethod) Draft.bijective_parts
  rw [and_comm, ← hboth]
  exact hall

/-- What members state of the tokens and of the method. -/
def Draft.Holds (members : List (String × List Char)) (draft : Draft) : Prop :=
  CellAlign.Holds members "classes" ClassNames.IsStated draft.classes ∧
    CellAlign.Holds members "method" IsMethod draft.method

/-- Members that state options have JSON behind their keys. -/
theorem Draft.Holds.derivable {members : List (String × List Char)} {draft : Draft}
    (h : draft.Holds members) : ∀ m ∈ members, m.1 ∈ names → Derivable .value m.2 := by
  obtain ⟨hclasses, hmethod⟩ := h
  intro m hm hname
  simp only [names, List.mem_cons, List.not_mem_nil, or_false] at hname
  rcases hname with hname | hname
  · exact hclasses.derivable (fun _ _ hstated => hstated.derivable) hm hname
  · exact hmethod.derivable (fun _ _ hnames => NamesMethod.derivable hnames) hm hname

/-- What items of an array give, in the order of the names. -/
def takesItems : List (Draft → List Char → Draft → Prop) :=
  [fun draft value next =>
     ∃ c, ClassNames.IsStated value c ∧ { draft with classes := some c } = next,
   fun draft value next => ∃ m, IsMethod value m ∧ { draft with method := some m } = next]

/-- Items state the tokens and the method. -/
theorem fills_takesItems_iff {draft : Draft} {values : List (List Char)} :
    Fills takesItems {} values draft ↔
      values.length ≤ names.length ∧ draft.Holds (names.zip values) := by
  by_cases hlength : values.length ≤ names.length
  swap
  · exact iff_of_false (fun h => hlength h.length_le) fun h => hlength h.1
  obtain ⟨classes, method⟩ := draft
  simp only [hlength, true_and, Draft.Holds, ← steps_assigns_iff]
  match values with
  | [] => simp [names, takesItems]
  | [a] => cases classes <;> simp [names, takesItems, Assigns]
  | [a, b] => cases classes <;> cases method <;> simp [names, takesItems, Assigns, and_assoc]
  | _ :: _ :: _ :: _ =>
      simp only [names, List.length_cons, List.length_nil] at hlength
      omega

/-- The tokens are read from an item. -/
theorem takesValues_classes (depth : Nat) (store : Draft → ClassNames → Draft) :
    TakesValues (fun draft text => mapRead (store draft) (ClassNames.read (depth + 1) text))
      fun draft value next => ∃ c, ClassNames.IsStated value c ∧ store draft c = next where
  understands draft := (ClassNames.understands_read depth).mapRead (store draft)
  starts := by
    rintro _ _ _ ⟨c, ⟨draft, ⟨members, hrecord, -⟩, -⟩, -⟩
    cases hrecord with
    | object => exact ⟨'\x7b', _, rfl, rfl, by decide⟩
    | array => exact ⟨'[', _, rfl, rfl, by decide⟩

/-- The method is read from an item. -/
theorem takesValues_method (depth : Nat) (store : Draft → Method → Draft) :
    TakesValues (fun draft text => mapRead (store draft) (Method.read (depth + 1) text))
      fun draft value next => ∃ m, IsMethod value m ∧ store draft m = next where
  understands draft := (understands_readMethod depth).mapRead (store draft)
  starts := by
    rintro _ _ _ ⟨m, hmethod, -⟩
    exact NamesMethod.starts hmethod

/-- A record of the tokens and the method states what they choose, and the others have their
defaults. -/
theorem Draft.Holds.exists_statesChoices {value : List Char} {members : List (String × List Char)}
    {draft : Draft} (hrecord : Record names value members) (h : draft.Holds members) :
    ∃ stated, StatesChoices value stated ∧
      ∀ choice, draft.finish.value choice = (stated choice).getD choice.default := by
  obtain ⟨classes, method⟩ := draft
  obtain ⟨hclasses, hmethod⟩ := h
  have hnamed : CellAlign.Holds members "method" NamesMethod (method.map Method.name) :=
    hmethod.map fun _ _ h => h
  -- The tokens of the draft are those that some record states.
  obtain ⟨tokens, htokens, rfl⟩ : ∃ tokens : Option ClassNames.Draft,
      CellAlign.Holds members "classes" StatesTokens (tokens.map ClassNames.Draft.stated) ∧
        tokens.map ClassNames.Draft.finish = classes := by
    cases classes with
    | none => exact ⟨none, hclasses, rfl⟩
    | some found =>
        obtain ⟨value, hfilter, draft, hstated, rfl⟩ := hclasses
        exact ⟨some draft, ⟨value, hfilter, hstated⟩, rfl⟩
  let stated : Choice → Option String := fun choice =>
    if choice = .method then method.map Method.name
    else (tokens.map ClassNames.Draft.stated).bind (· choice)
  refine ⟨stated, ⟨members, _, hrecord, hnamed, htokens, fun choice hchoice => if_neg hchoice⟩, ?_⟩
  intro choice
  cases choice with
  | method => cases method <;> rfl
  | center | left | right => cases tokens <;> rfl

/-- What is stated of the method is a method. -/
theorem exists_holds_isMethod {members : List (String × List Char)} {name? : Option String}
    (h : Holds members "method" NamesMethod name?) :
    ∃ method : Option Method, method.map Method.name = name? ∧
      Holds members "method" IsMethod method := by
  cases name? with
  | none => exact ⟨none, rfl, h⟩
  | some name =>
      obtain ⟨value, hfilter, hnames⟩ := h
      obtain ⟨method, rfl⟩ := hnames.exists_eq_name
      exact ⟨some method, rfl, value, hfilter, hnames⟩

/-- What a record states of the choices is what its members state of the tokens and the method. -/
theorem exists_statesChoices_iff {value : List Char} {options : Options} :
    (∃ draft : Draft, (∃ members, Record names value members ∧ draft.Holds members) ∧
        draft.finish = options) ↔
      ∃ stated, StatesChoices value stated ∧
        ∀ choice, options.value choice = (stated choice).getD choice.default := by
  constructor
  · rintro ⟨draft, ⟨members, hrecord, hdraft⟩, rfl⟩
    exact hdraft.exists_statesChoices hrecord
  · rintro ⟨stated, ⟨members, tokens, hrecord, hmethod, htokens, hstated⟩, hvalue⟩
    let drafted (tokens : Choice → Option String) : ClassNames.Draft :=
      { center := tokens .center, left := tokens .left, right := tokens .right }
    have hclasses : Holds members "classes" ClassNames.IsStated
        (tokens.map fun tokens => (drafted tokens).finish) := by
      refine htokens.map fun value tokens ⟨inner, hinner, htokens⟩ => ?_
      refine ⟨drafted tokens, ⟨inner, hinner, fun choice hchoice => ?_⟩, rfl⟩
      cases choice with
      | method => exact absurd rfl hchoice
      | center | left | right => exact htokens _ hchoice
    obtain ⟨method, hname, hfound⟩ := exists_holds_isMethod hmethod
    refine ⟨⟨_, method⟩, ⟨members, hrecord, hclasses, hfound⟩, ext_value fun choice => ?_⟩
    rw [hvalue]
    by_cases hchoice : choice = .method
    · subst hchoice
      rw [← hname]
      cases method <;> rfl
    · rw [hstated choice hchoice]
      cases choice with
      | method => exact absurd rfl hchoice
      | center | left | right => cases tokens <;> rfl

/-- Options are read from a record that states some of the choices, and what it does not state has
its default. -/
theorem understands_read (depth : Nat) :
    Understands (read (depth + 2)) fun value options =>
      ∃ stated, StatesChoices value stated ∧
        ∀ choice, options.value choice = (stated choice).getD choice.default := by
  have hrecord := understands_readRecord (takesMembers_readMember depth)
    (.cons (takesValues_classes depth fun draft c => { draft with classes := some c })
      (.cons (takesValues_method depth fun draft m => { draft with method := some m }) .nil))
    (depth + 1) "struct TableAlignOptions" {}
  refine (hrecord.mapRead Draft.finish).of_iff fun value options => ?_
  have hiff (draft : Draft) : Recorded takesMember takesItems {} value draft ↔
      ∃ members, Record names value members ∧ draft.Holds members :=
    recorded_iff (fun members => steps_takesMember_iff.trans
      (by rw [steps_assigns_iff, steps_assigns_iff]; rfl)) fun values => fills_takesItems_iff
  rw [← exists_statesChoices_iff]
  exact exists_congr fun draft => and_congr_left' (hiff draft)

/-- Options are read just from the texts that state some of the choices, and what is not stated has
its default. -/
theorem ofJson_eq_ok_iff {text : String} {options : Options} :
    ofJson text = .ok options ↔
      ∃ stated, States text stated ∧
        ∀ choice, options.value choice = (stated choice).getD choice.default := by
  rw [ofJson, readWhole_eq_ok_iff_of_understands (understands_read 125)]
  constructor
  · rintro ⟨before, value, after, htext, hbefore, hafter, stated, hstated, hvalue⟩
    exact ⟨stated, ⟨before, value, after, htext, hbefore, hafter, hstated⟩, hvalue⟩
  · rintro ⟨stated, ⟨before, value, after, htext, hbefore, hafter, hstated⟩, hvalue⟩
    exact ⟨before, value, after, htext, hbefore, hafter, stated, hstated, hvalue⟩

/-- There are options for whatever can be chosen. -/
theorem exists_value (chosen : Choice → String)
    (hmethod : ∃ method : Method, chosen .method = method.name) :
    ∃ options : Options, ∀ choice, options.value choice = chosen choice := by
  obtain ⟨method, hname⟩ := hmethod
  refine ⟨{ classes := ⟨chosen .center, chosen .left, chosen .right⟩, method }, fun choice => ?_⟩
  cases choice with
  | method => exact hname.symm
  | center | left | right => rfl

/-- Only methods are stated as the method. -/
theorem States.exists_eq_name {text : String} {stated : Choice → Option String}
    (h : States text stated) :
    ∀ name, stated .method = some name → ∃ method : Method, name = method.name := by
  intro name hname
  obtain ⟨before, value, after, -, -, -, members, tokens, -, hmethod, -⟩ := h
  rw [hname] at hmethod
  obtain ⟨value, -, hnames⟩ := hmethod
  exact hnames.exists_eq_name

/-- Options are read from any text that states some of the choices. -/
theorem States.exists_ofJson {text : String} {stated : Choice → Option String}
    (h : States text stated) :
    ∃ options, ofJson text = .ok options ∧
      ∀ choice, options.value choice = (stated choice).getD choice.default := by
  have hmethod : ∃ method : Method,
      (stated .method).getD Choice.method.default = method.name := by
    cases hname : stated .method with
    | none => exact ⟨.byStyle, rfl⟩
    | some name => exact h.exists_eq_name name hname
  obtain ⟨options, hvalue⟩ :=
    exists_value (fun choice => (stated choice).getD choice.default) hmethod
  exact ⟨options, ofJson_eq_ok_iff.mpr ⟨stated, h, hvalue⟩, hvalue⟩

/-! ## Texts for what is chosen -/

/-- A written string is a string in quotes. -/
theorem isString_encode (string : String) : IsString (Text.encode string.toList) string := by
  obtain ⟨body, htext, hread⟩ := Text.read_encode string []
  obtain ⟨inner, rfl, hwrites⟩ := Text.read_eq_ok_iff.mp hread
  rw [List.append_nil] at htext
  exact ⟨inner, htext, hwrites⟩

/-- Members can be written one behind the other, whatever their values are. -/
theorem exists_row (separator : List Char) (members : List (String × List Char)) :
    ∃ row, Row IsMember separator row members := by
  have hempty : IsGap [] := nofun
  induction members generalizing separator with
  | nil => exact ⟨[], .nil hempty⟩
  | cons member members ih =>
      obtain ⟨row, hrow⟩ := ih [',']
      obtain ⟨body, -, hbody⟩ := isString_encode member.1
      exact ⟨_, .cons hempty hempty (.intro hbody hempty hempty) hrow⟩

/-- The member that states a choice, if it is stated. -/
def entry (stated : Choice → Option String) (choice : Choice) : List (String × List Char) :=
  ((stated choice).map fun string => (choice.key, Text.encode string.toList)).toList

/-- Such a member has the name of the choice. -/
theorem fst_of_mem_entry {stated : Choice → Option String} {choice : Choice}
    {member : String × List Char} (h : member ∈ entry stated choice) : member.1 = choice.key := by
  obtain ⟨string, -, rfl⟩ := Option.map_eq_some_iff.mp (Option.mem_toList.mp h)
  rfl

/-- Among the members that state choices, those with the name of a choice are its own. -/
theorem filter_entry (stated : Choice → Option String) (choice other : Choice) :
    (entry stated other).filter (·.1 = choice.key) =
      if other = choice then entry stated choice else [] := by
  by_cases hother : other = choice
  · subst hother
    cases hstated : stated other <;> simp [entry, hstated]
  · have hkey : other.key ≠ choice.key := fun h => hother (Choice.key_injective h)
    cases hstated : stated other <;> simp [entry, hstated, hother, hkey]

/-- Members state a choice if those with its name are its own. -/
theorem holds_of_filter {stated : Choice → Option String} {choice : Choice}
    {members : List (String × List Char)} {means : List Char → String → Prop}
    (hfilter : members.filter (·.1 = choice.key) = entry stated choice)
    (hmeans : ∀ string, stated choice = some string → means (Text.encode string.toList) string) :
    Holds members choice.key means (stated choice) := by
  cases hstated : stated choice with
  | none =>
      rw [entry, hstated] at hfilter
      simpa [List.filter_eq_nil_iff, Holds] using hfilter
  | some string =>
      rw [entry, hstated] at hfilter
      exact ⟨_, hfilter, hmeans string hstated⟩

/-- Whatever can be chosen can be stated. -/
theorem exists_states {stated : Choice → Option String}
    (hmethod : ∀ name, stated .method = some name → ∃ method : Method, name = method.name) :
    ∃ text, States text stated := by
  have hempty : IsGap [] := nofun
  -- The tokens come as an object, in front of the method.
  let tokens := entry stated .center ++ (entry stated .left ++ entry stated .right)
  obtain ⟨inner, hinner⟩ := exists_row [] tokens
  have hkeys : ∀ member ∈ tokens, member.1 ∈ ClassNames.names := by
    intro member hmember
    simp only [tokens, List.mem_append] at hmember
    rcases hmember with hmember | hmember | hmember <;>
      simp [fst_of_mem_entry hmember, ClassNames.names, Choice.key]
  have htokens : StatesTokens ('\x7b' :: (inner ++ ['\x7d'])) stated := by
    refine ⟨tokens, .object hinner fun member hmember hname => absurd (hkeys member hmember) hname,
      fun choice hchoice => ?_⟩
    refine holds_of_filter ?_ fun string _ => isString_encode string
    cases choice with
    | method => exact absurd rfl hchoice
    | center | left | right => simp [tokens, filter_entry]
  let members := ("classes", '\x7b' :: (inner ++ ['\x7d'])) :: entry stated .method
  obtain ⟨outer, houter⟩ := exists_row [] members
  have hnames : ∀ member ∈ members, member.1 ∈ names := by
    intro member hmember
    rcases List.mem_cons.mp hmember with rfl | hmember
    · exact List.mem_cons_self
    · simp [fst_of_mem_entry hmember, names, Choice.key]
  have hchoices : StatesChoices ('\x7b' :: (outer ++ ['\x7d'])) stated := by
    refine ⟨members, some stated,
      .object houter fun member hmember hname => absurd (hnames member hmember) hname, ?_, ?_,
      fun _ _ => rfl⟩
    · refine holds_of_filter ?_ fun string hstring => ?_
      · rw [List.filter_cons_of_neg (by simp [Choice.key]), filter_entry, if_pos rfl]
      · obtain ⟨method, rfl⟩ := hmethod string hstring
        exact .string method (isString_encode method.name)
    · refine ⟨_, ?_, htokens⟩
      cases hstated : stated .method <;> simp [members, entry, hstated, Choice.key]
  refine ⟨String.ofList ('\x7b' :: (outer ++ ['\x7d'])), [], _, [], ?_, hempty, hempty, hchoices⟩
  simp

end Options

end CellAlign

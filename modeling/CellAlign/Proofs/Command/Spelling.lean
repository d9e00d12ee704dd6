import CellAlign.Command.Arguments
import Mathlib.Data.List.Basic
import Mathlib.Data.List.Nodup

/-!
# How arguments are spelled

An argument is spelled by its name behind two dashes, `verbose` also by one letter behind one dash.
A value is attached to the name with an equals sign, or it is the text after it, which then must not
look like an argument itself.  Any other text that does not look like an argument is the file, and
so is every text behind two dashes alone.

The reader of arguments takes a value only when it has understood the text after it.  For what a
list of arguments comes to this makes no difference: it gives settings just if it spells arguments
of which none comes twice, `fragment` and `json` not both, and all with values that they can have.
What the settings say is then what the arguments say, in whatever order they come.

* `Spells`: the grammar of argument lists;
* `Reading.ends_iff_settle`: a value may as well be taken at once;
* `exists_spells_of_ofTexts`: every list of arguments that gives settings is spelled so;
* `ofTexts_eq_ok_iff`: the lists that give settings, and the settings they give.
-/

namespace CellAlign.Command

/-! ## The grammar -/

/-- A text that does not look like an argument: it starts with no dash, or is one dash alone. -/
def IsPlain (text : String) : Prop := text.toList = ['-'] ∨ ∀ c ∈ text.toList.head?, c ≠ '-'

/-- Texts that spell arguments, each with its value.  One that takes no value has the empty text for
it. -/
inductive Spells : List String → List (Argument × String) → Prop
  | nil : Spells [] []
  | flag {argument : Argument} {name : String} {texts : List String}
      {items : List (Argument × String)} (hname : argument.name? = some name)
      (hvalue : argument.value? = none) (hhelp : argument ≠ .help) (h : Spells texts items) :
      Spells (("--" ++ name) :: texts) ((argument, "") :: items)
  | letter {texts : List String} {items : List (Argument × String)} (h : Spells texts items) :
      Spells ("-v" :: texts) ((.verbose, "") :: items)
  | attached {argument : Argument} {name : String} {texts : List String}
      {items : List (Argument × String)} (hname : argument.name? = some name)
      (hvalue : argument.value? ≠ none) (value : String) (h : Spells texts items) :
      Spells (("--" ++ name ++ "=" ++ value) :: texts) ((argument, value) :: items)
  | apart {argument : Argument} {name value : String} {texts : List String}
      {items : List (Argument × String)} (hname : argument.name? = some name)
      (hvalue : argument.value? ≠ none) (hplain : IsPlain value) (h : Spells texts items) :
      Spells (("--" ++ name) :: value :: texts) ((argument, value) :: items)
  | file {text : String} {texts : List String} {items : List (Argument × String)}
      (hplain : IsPlain text) (h : Spells texts items) :
      Spells (text :: texts) ((.file, text) :: items)
  | files (texts : List String) : Spells ("--" :: texts) (texts.map fun text => (.file, text))

/-! ## Names and texts -/

namespace Argument

variable {argument : Argument} {name : String}

/-- An argument is found by its name, and by no other. -/
theorem ofName?_eq_some_iff : ofName? name = some argument ↔ argument.name? = some name := by
  constructor
  · intro h
    simpa using List.find?_some h
  · intro h
    cases argument <;> cases h <;> decide

/-- There is something to a name, but no equals sign. -/
theorem name_chars (h : argument.name? = some name) :
    name.toList ≠ [] ∧ ∀ c ∈ name.toList, c ≠ '=' := by
  cases argument <;> cases h <;> simp

/-- The file has no name. -/
theorem ne_file (h : argument.name? = some name) : argument ≠ .file := by
  rintro rfl
  cases h

end Argument

/-- What a text can look like: two dashes alone, a name, a name with a value, letters, or none of
those. -/
inductive Shape : String → Prop
  | dashes : Shape "--"
  | name {name : String} (hne : name.toList ≠ []) (hname : ∀ c ∈ name.toList, c ≠ '=') :
      Shape ("--" ++ name)
  | attached {name : String} (hname : ∀ c ∈ name.toList, c ≠ '=') (value : String) :
      Shape ("--" ++ name ++ "=" ++ value)
  | letters {c : Char} (hc : c ≠ '-') (rest : List Char) : Shape (String.ofList ('-' :: c :: rest))
  | plain {text : String} (h : IsPlain text) : Shape text

/-- Every text looks like one of those. -/
theorem shape (text : String) : Shape text := by
  have heq {characters : List Char} (h : text.toList = characters) :
      text = String.ofList characters := by
    rw [← h, String.ofList_toList]
  cases htext : text.toList with
  | nil => exact .plain (Or.inr (by simp [htext]))
  | cons c rest =>
      by_cases hc : c = '-'
      swap
      · exact .plain (Or.inr (by simp [htext, hc]))
      subst hc
      cases rest with
      | nil => exact .plain (Or.inl htext)
      | cons c rest =>
          by_cases hc : c = '-'
          swap
          · rw [heq htext]
            exact .letters hc rest
          subst hc
          by_cases hequals : '=' ∈ rest
          · obtain ⟨name, value, rfl, hname⟩ := List.eq_append_cons_of_mem hequals
            obtain rfl : text = "--" ++ String.ofList name ++ "=" ++ String.ofList value :=
              String.toList_inj.mp (by simp [htext])
            refine .attached (fun c hc => ?_) _
            rw [String.toList_ofList] at hc
            exact ne_of_mem_of_not_mem hc hname
          by_cases hne : rest = []
          · subst hne
            rw [heq htext]
            exact .dashes
          · obtain rfl : text = "--" ++ String.ofList rest :=
              String.toList_inj.mp (by simp [htext])
            refine .name (by simpa using hne) (fun c hc => ?_)
            rw [String.toList_ofList] at hc
            exact ne_of_mem_of_not_mem hc hequals

/-! ## Reading one text -/

namespace Reading

variable {reading next : Reading} {settings : Settings} {argument : Argument}
  {name value text : String}

/-- The state in which an argument waits for its value. -/
def awaiting (reading : Reading) (argument : Argument) : Reading :=
  { reading with pending := some { argument, value := none } }

/-- The state in which the value of an argument has not been looked at. -/
def holding (reading : Reading) (argument : Argument) (value : String) : Reading :=
  { reading with pending := some { argument, value := some value } }

/-- Two dashes alone make values of all further texts. -/
theorem text_dashes (h : reading.valuesOnly = false) :
    reading.text "--" = .ok { reading with valuesOnly := true } := by
  simp [Reading.text, h]

/-- Behind two dashes a name is read, with the value behind the equals sign if there is one. -/
theorem text_named (h : reading.valuesOnly = false) (hname : ∀ c ∈ name.toList, c ≠ '=')
    {rest : List Char} (hrest : ∀ c ∈ rest.head?, c = '=') (hne : name.toList ++ rest ≠ []) :
    reading.text ("--" ++ name ++ String.ofList rest) =
      reading.named name (if rest.isEmpty then none else some (String.ofList rest.tail)) := by
  have hall : ∀ c ∈ name.toList, (c != '=') = true := fun c hc => by simpa using hname c hc
  have htake : (name.toList ++ rest).takeWhile (· != '=') = name.toList := by
    rw [List.takeWhile_append_of_pos hall]
    cases rest with
    | nil => simp
    | cons c rest => simp [hrest c rfl]
  have hdrop : (name.toList ++ rest).dropWhile (· != '=') = rest := by
    rw [List.dropWhile_append_of_pos hall]
    cases rest with
    | nil => rfl
    | cons c rest => simp [hrest c rfl]
  have htext :
      ("--" ++ name ++ String.ofList rest).toList = '-' :: '-' :: (name.toList ++ rest) := by
    simp
  unfold Reading.text
  rw [h, htext]
  cases hchars : name.toList ++ rest with
  | nil => exact absurd hchars hne
  | cons c more =>
      rw [hchars] at htake hdrop
      simp only [htake, hdrop, String.ofList_toList]
      cases rest with
      | nil => rfl
      | cons => rfl

/-- A name is read without a value. -/
theorem text_name (h : reading.valuesOnly = false) (hne : name.toList ≠ [])
    (hname : ∀ c ∈ name.toList, c ≠ '=') :
    reading.text ("--" ++ name) = reading.named name none := by
  have hempty : ∀ c ∈ ([] : List Char).head?, c = '=' := nofun
  have hread := text_named h hname hempty (by simpa using hne)
  rwa [String.ofList_nil, String.append_empty] at hread

/-- A name is read with the value behind the equals sign. -/
theorem text_attached (h : reading.valuesOnly = false) (hname : ∀ c ∈ name.toList, c ≠ '=')
    (value : String) :
    reading.text ("--" ++ name ++ "=" ++ value) = reading.named name (some value) := by
  have hequals : ∀ c ∈ ('=' :: value.toList).head?, c = '=' := by simp
  have hread := text_named h hname hequals (by simp)
  have htext : "--" ++ name ++ "=" ++ value = "--" ++ name ++ String.ofList ('=' :: value.toList) :=
    String.toList_inj.mp (by simp)
  rw [htext, hread]
  simp

/-- Behind one dash there are letters. -/
theorem text_letters (h : reading.valuesOnly = false) {c : Char} (hc : c ≠ '-')
    (rest : List Char) :
    reading.text (String.ofList ('-' :: c :: rest)) = reading.letters (c :: rest) := by
  simp [Reading.text, h, hc]

/-- A text that does not look like an argument is a value. -/
theorem text_plain (h : reading.valuesOnly = false) (hplain : IsPlain text) :
    reading.text text = reading.value text := by
  unfold Reading.text
  rw [h]
  rcases hplain with hplain | hplain
  · simp [hplain]
  · cases htext : text.toList with
    | nil => simp
    | cons c rest =>
        have hc : c ≠ '-' := hplain c (by simp [htext])
        simp [hc]

/-- Behind two dashes alone every text is the file. -/
theorem text_valuesOnly (h : reading.valuesOnly = true) :
    reading.text text = reading.plain text := by
  rw [Reading.text, if_pos h]

/-! ## Taking arguments -/

/-- An argument is taken that was not taken before, with a value that it can have. -/
theorem take_eq_ok_iff :
    reading.take argument value = .ok next ↔
      argument ∉ reading.taken ∧ ∃ settings, reading.settings.set argument value = .ok settings ∧
        next = { reading with settings, taken := reading.taken ++ [argument] } := by
  unfold take
  by_cases htaken : argument ∈ reading.taken
  · simp [htaken]
  · cases hset : reading.settings.set argument value with
    | error e => simp [htaken]
    | ok settings => simp [htaken, eq_comm]

/-- With nothing pending there is nothing to take. -/
theorem settle_of_pending (h : reading.pending = none) : reading.settle = .ok reading := by
  rw [settle, h]

/-- A pending argument with a value is taken. -/
theorem settle_of_value (h : reading.pending = some { argument, value := some value }) :
    reading.settle = { reading with pending := none }.take argument value := by
  rw [settle, h]

/-- A pending argument without a value cannot be taken. -/
theorem settle_of_noValue (h : reading.pending = some { argument, value := none }) :
    reading.settle = .error (.usage (.missingValue argument)) := by
  rw [settle, h]

/-- Afterwards nothing is pending, and nothing else that is read next has changed. -/
theorem settle_keeps (h : reading.settle = .ok next) :
    next.pending = none ∧ next.hasFile = reading.hasFile ∧
      next.valuesOnly = reading.valuesOnly := by
  unfold settle at h
  split at h
  · next hpending =>
    cases h
    exact ⟨hpending, rfl, rfl⟩
  · cases h
  · obtain ⟨-, settings, -, rfl⟩ := take_eq_ok_iff.mp h
    exact ⟨rfl, rfl, rfl⟩

/-- That further texts are values does not matter to the pending argument. -/
theorem settle_valuesOnly :
    { reading with valuesOnly := true }.settle =
      reading.settle.map fun next => { next with valuesOnly := true } := by
  obtain ⟨settings, taken, pending, hasFile, valuesOnly⟩ := reading
  match pending with
  | none => rfl
  | some { argument, value := none } => rfl
  | some { argument, value := some value } =>
      simp only [settle, take]
      split
      · rfl
      · cases settings.set argument value <;> rfl

/-- What is settled stays as it is. -/
theorem settle_settle (h : reading.settle = .ok next) : next.settle = .ok next :=
  settle_of_pending (settle_keeps h).1

/-! ## What the readers do

Each of them takes what is pending and goes on from there. -/

/-- The file is pending once it is read, and there may be no second one. -/
theorem plain_eq_ok_iff :
    reading.plain text = .ok next ↔
      ∃ settled, reading.settle = .ok settled ∧ settled.hasFile = false ∧
        { settled.holding .file text with hasFile := true } = next := by
  unfold plain
  cases hsettle : reading.settle with
  | error stop => cases reading.hasFile <;> simp
  | ok settled =>
      obtain ⟨-, hfile, -⟩ := settle_keeps hsettle
      rw [← hfile]
      cases hsome : settled.hasFile <;> simp [hsome, holding]

/-- An argument that takes no value is taken, unless it asks for help. -/
theorem flag_eq_ok_iff :
    reading.flag argument = .ok next ↔
      ∃ settled, reading.settle = .ok settled ∧ argument ≠ .help ∧
        settled.take argument "" = .ok next := by
  unfold flag
  cases reading.settle with
  | error stop => simp
  | ok settled =>
      by_cases hhelp : argument = .help
      · simp [hhelp]
      · simp [hhelp]

/-- A name stands for an argument.  One that takes no value is taken, one with its value too, and
any other waits for its value. -/
theorem named_eq_ok_iff {value : Option String} :
    reading.named name value = .ok next ↔
      ∃ settled, reading.settle = .ok settled ∧ ∃ argument : Argument,
        argument.name? = some name ∧
          ((argument.value? = none ∧ value = none ∧ argument ≠ .help ∧
              settled.take argument "" = .ok next) ∨
            (argument.value? ≠ none ∧ ∃ v, value = some v ∧ settled.take argument v = .ok next) ∨
            argument.value? ≠ none ∧ value = none ∧ settled.awaiting argument = next) := by
  simp only [← Argument.ofName?_eq_some_iff]
  unfold named
  cases hname : Argument.ofName? name with
  | none =>
      simp only [unknownName]
      split <;> simp
  | some argument =>
      cases hvalue : argument.value? with
      | none =>
          cases value with
          | none => simp [hvalue, flag_eq_ok_iff]
          | some v => simp [hvalue]
      | some valueName =>
          cases value with
          | none => cases reading.settle <;> simp [hvalue, awaiting]
          | some v => cases reading.settle <;> simp [hvalue]

/-- Behind one dash every letter asks for `verbose`. -/
theorem letters_eq_ok_iff {c : Char} {rest : List Char} :
    reading.letters (c :: rest) = .ok next ↔
      ∃ settled, reading.settle = .ok settled ∧ c = 'v' ∧
        ∃ between, settled.take .verbose "" = .ok between ∧
          between.letters rest = .ok next := by
  constructor
  · intro h
    by_cases hv : c = 'v'
    · subst hv
      cases hflag : reading.flag .verbose with
      | error stop => simp [letters, hflag] at h
      | ok between =>
          obtain ⟨settled, hsettle, -, htake⟩ := flag_eq_ok_iff.mp hflag
          exact ⟨settled, hsettle, rfl, between, htake, by simpa [letters, hflag] using h⟩
    by_cases hh : c = 'h'
    · subst hh
      cases hflag : reading.flag .help with
      | error stop => simp [letters, hflag] at h
      | ok between =>
          obtain ⟨_, -, hhelp, -⟩ := flag_eq_ok_iff.mp hflag
          exact (hhelp rfl).elim
    · simp [letters, hv, hh] at h
  · rintro ⟨settled, hsettle, rfl, between, htake, hrest⟩
    have hhelp : Argument.verbose ≠ .help := by decide
    have hflag : reading.flag .verbose = .ok between :=
      flag_eq_ok_iff.mpr ⟨settled, hsettle, hhelp, htake⟩
    simpa [letters, hflag] using hrest

/-! ## Taking a value at once -/

/-- A text that is not two dashes alone is read behind what is pending, unless that waits for its
value. -/
theorem text_eq_ok_iff (hpending : ∀ argument, reading.pending ≠ some { argument, value := none })
    (htext : reading.valuesOnly = true ∨ text ≠ "--") :
    reading.text text = .ok next ↔
      ∃ settled, reading.settle = .ok settled ∧ settled.text text = .ok next := by
  have hvalue (text : String) : reading.value text = reading.plain text := by
    unfold Reading.value
    split
    · next argument h => exact absurd h (hpending argument)
    · rfl
  -- What is settled reads the text in the same way, and has nothing to settle itself.
  have hreads {read : Reading → Except Stop Reading} {step : Reading → Prop}
      (hread : ∀ reading : Reading, read reading = .ok next ↔
        ∃ settled, reading.settle = .ok settled ∧ step settled)
      (heq : reading.text text = read reading)
      (hsettled : ∀ settled, reading.settle = .ok settled → settled.text text = read settled) :
      reading.text text = .ok next ↔
        ∃ settled, reading.settle = .ok settled ∧ settled.text text = .ok next := by
    rw [heq, hread]
    refine exists_congr fun settled => and_congr_right fun hsettle => ?_
    rw [hsettled settled hsettle, hread]
    simp [settle_settle hsettle]
  have hnone {settled : Reading} (hsettle : reading.settle = .ok settled) (text : String) :
      settled.value text = settled.plain text := by
    rw [Reading.value, (settle_keeps hsettle).1]
  cases honly : reading.valuesOnly with
  | true =>
      refine hreads (fun _ => plain_eq_ok_iff) (text_valuesOnly honly) fun settled hsettle => ?_
      exact text_valuesOnly ((settle_keeps hsettle).2.2.trans honly)
  | false =>
      have hboth {settled : Reading} (hsettle : reading.settle = .ok settled) :
          settled.valuesOnly = false := (settle_keeps hsettle).2.2.trans honly
      cases shape text with
      | dashes => simp [honly] at htext
      | name hne hname =>
          exact hreads (fun _ => named_eq_ok_iff) (text_name honly hne hname) fun settled hsettle =>
            text_name (hboth hsettle) hne hname
      | attached hname value =>
          exact hreads (fun _ => named_eq_ok_iff) (text_attached honly hname value)
            fun settled hsettle => text_attached (hboth hsettle) hname value
      | letters hc rest =>
          exact hreads (fun _ => letters_eq_ok_iff) (text_letters honly hc rest)
            fun settled hsettle => text_letters (hboth hsettle) hc rest
      | plain hplain =>
          have hplainly {reading : Reading} : reading.plain text = .ok next ↔
              ∃ settled, reading.settle = .ok settled ∧ settled.hasFile = false ∧
                { settled.holding .file text with hasFile := true } = next := plain_eq_ok_iff
          refine hreads (fun _ => hplainly) ?_ fun settled hsettle => ?_
          · rw [text_plain honly hplain, hvalue]
          · rw [text_plain (hboth hsettle) hplain, hnone hsettle]

/-- Reading texts from a state on ends with settings. -/
def Ends (reading : Reading) (texts : List String) (settings : Settings) : Prop :=
  ∃ last, reading.texts texts = .ok last ∧ last.finish = .ok settings

variable {texts : List String}

/-- At the end of the texts the settings are those of the state. -/
theorem ends_nil : reading.Ends [] settings ↔ reading.finish = .ok settings := by
  constructor
  · rintro ⟨last, h, hfinish⟩
    cases h
    exact hfinish
  · intro h
    exact ⟨reading, rfl, h⟩

/-- A text is read, and then the others. -/
theorem ends_cons :
    reading.Ends (text :: texts) settings ↔
      ∃ next, reading.text text = .ok next ∧ next.Ends texts settings := by
  unfold Ends
  simp only [Reading.texts]
  cases reading.text text with
  | error stop => simp
  | ok next => simp

/-- A pending value may as well be taken at once: the texts behind it decide whether settings are
reached, but never what it is. -/
theorem ends_iff_settle
    (hpending : ∀ argument, reading.pending ≠ some { argument, value := none }) :
    reading.Ends texts settings ↔
      ∃ settled, reading.settle = .ok settled ∧ settled.Ends texts settings := by
  induction texts generalizing reading with
  | nil =>
      simp only [ends_nil, finish]
      cases hsettle : reading.settle with
      | error stop => simp
      | ok settled => simp [settle_settle hsettle]
  | cons text texts ih =>
      by_cases hdashes : reading.valuesOnly = true ∨ text ≠ "--"
      · simp only [ends_cons, text_eq_ok_iff hpending hdashes]
        constructor
        · rintro ⟨next, ⟨settled, hsettle, htext⟩, hends⟩
          exact ⟨settled, hsettle, next, htext, hends⟩
        · rintro ⟨settled, hsettle, next, htext, hends⟩
          exact ⟨next, ⟨settled, hsettle, htext⟩, hends⟩
      · obtain ⟨honly, rfl⟩ : reading.valuesOnly = false ∧ text = "--" := by simpa using hdashes
        rw [ends_cons]
        simp only [text_dashes honly, Except.ok.injEq, exists_eq_left']
        have hlater := @ih { reading with valuesOnly := true } hpending
        rw [hlater, settle_valuesOnly]
        cases hsettle : reading.settle with
        | error stop => simp [Except.map]
        | ok settled =>
            have honly' := (settle_keeps hsettle).2.2.trans honly
            simp [Except.map, ends_cons, text_dashes honly']

end Reading

/-! ## What a list of arguments adds -/

/-- Sets arguments one after the other. -/
def Settings.setAll (settings : Settings) : List (Argument × String) → Except UsageError Settings
  | [] => .ok settings
  | (argument, value) :: items =>
    match settings.set argument value with
    | .ok settings => settings.setAll items
    | .error e => .error e

/-- Arguments can be added to those taken, and then the settings are these: none comes twice, each
has a value that it can have, and they go with each other. -/
structure Adds (taken : List Argument) (start : Settings) (items : List (Argument × String))
    (settings : Settings) : Prop where
  distinct : (items.map Prod.fst).Nodup
  fresh : ∀ argument ∈ items.map Prod.fst, argument ∉ taken
  set : start.setAll items = .ok settings
  compatible :
    ¬(Argument.fragment ∈ taken ++ items.map Prod.fst ∧ .json ∈ taken ++ items.map Prod.fst)

/-- The first argument is added, and then the others. -/
theorem adds_cons {taken : List Argument} {start settings : Settings} {argument : Argument}
    {value : String} {items : List (Argument × String)} :
    Adds taken start ((argument, value) :: items) settings ↔
      argument ∉ taken ∧ ∃ between, start.set argument value = .ok between ∧
        Adds (taken ++ [argument]) between items settings := by
  have hset : start.setAll ((argument, value) :: items) = .ok settings ↔
      ∃ between, start.set argument value = .ok between ∧ between.setAll items = .ok settings := by
    rw [Settings.setAll]
    cases start.set argument value <;> simp
  constructor
  · rintro ⟨hdistinct, hfresh, hsettings, hcompatible⟩
    obtain ⟨between, hbetween, hrest⟩ := hset.mp hsettings
    rw [List.map_cons, List.nodup_cons] at hdistinct
    refine ⟨hfresh argument List.mem_cons_self, between, hbetween, hdistinct.2, ?_, hrest, ?_⟩
    · intro other hother htaken
      rcases List.mem_append.mp htaken with htaken | htaken
      · exact hfresh other (List.mem_cons_of_mem _ hother) htaken
      · obtain rfl := List.mem_singleton.mp htaken
        exact hdistinct.1 hother
    · simpa using hcompatible
  · rintro ⟨hnew, between, hbetween, hdistinct, hfresh, hrest, hcompatible⟩
    refine ⟨?_, ?_, hset.mpr ⟨between, hbetween, hrest⟩, by simpa using hcompatible⟩
    · rw [List.map_cons, List.nodup_cons]
      refine ⟨fun hmem => ?_, hdistinct⟩
      exact hfresh argument hmem (List.mem_append_right taken List.mem_cons_self)
    · intro other hother htaken
      rcases List.mem_cons.mp hother with rfl | hother
      · exact hnew htaken
      · exact hfresh other hother (List.mem_append_left _ htaken)

namespace Reading

variable {reading next : Reading} {settings : Settings} {argument : Argument} {text : String}
  {texts : List String} {items : List (Argument × String)}

/-- Nothing is pending, and there was a text for the file just if the file was taken. -/
structure Idle (reading : Reading) : Prop where
  pending : reading.pending = none
  hasFile : reading.hasFile = true ↔ Argument.file ∈ reading.taken

/-- At the end nothing is added, and only what is taken must go with each other. -/
theorem finish_eq_ok_iff (h : reading.Idle) :
    reading.finish = .ok settings ↔ Adds reading.taken reading.settings [] settings := by
  have hconflict : (reading.taken.findSome? fun argument =>
      (rival? argument).bind fun rival =>
        if reading.taken.contains rival then some (argument, rival) else none) = none ↔
        ¬(Argument.fragment ∈ reading.taken ∧ .json ∈ reading.taken) := by
    rw [List.findSome?_eq_none_iff]
    constructor
    · rintro hnone ⟨hfragment, hjson⟩
      have hboth := hnone _ hfragment
      simp [rival?, hjson] at hboth
    · intro hnot argument hmem
      cases argument with
      | fragment =>
          have hjson : Argument.json ∉ reading.taken := fun hjson => hnot ⟨hmem, hjson⟩
          simp [rival?, hjson]
      | json =>
          have hfragment : Argument.fragment ∉ reading.taken := fun hother => hnot ⟨hother, hmem⟩
          simp [rival?, hfragment]
      | classCenter | classLeft | classRight | config | file | method | verbose | help => rfl
  have hfinish : reading.finish = .ok settings ↔
      ¬(Argument.fragment ∈ reading.taken ∧ .json ∈ reading.taken) ∧
        reading.settings = settings := by
    rw [← hconflict, finish, settle_of_pending h.pending]
    dsimp only
    split
    · next heq =>
      rw [heq]
      simp
    · next heq =>
      rw [heq]
      simp
  rw [hfinish]
  constructor
  · rintro ⟨hnot, rfl⟩
    exact ⟨List.nodup_nil, nofun, rfl, by simpa using hnot⟩
  · rintro ⟨-, -, hset, hnot⟩
    exact ⟨by simpa using hnot, Except.ok.inj hset⟩

/-- An argument is taken from an idle state, and the state is idle again. -/
theorem Idle.take (h : reading.Idle) (hfile : argument ≠ .file)
    (htake : reading.take argument text = .ok next) :
    next.Idle ∧ next.valuesOnly = reading.valuesOnly := by
  obtain ⟨-, settings, -, rfl⟩ := take_eq_ok_iff.mp htake
  refine ⟨⟨h.pending, ?_⟩, rfl⟩
  simpa [hfile.symm] using h.hasFile

/-- The settings that an argument and further texts lead to, if they do so from the state in which
the argument is taken. -/
theorem Idle.take_ends_iff (h : reading.Idle) (hfile : argument ≠ .file)
    (hrest : ∀ next : Reading, next.Idle → next.valuesOnly = reading.valuesOnly →
      (next.Ends texts settings ↔ Adds next.taken next.settings items settings)) :
    (∃ next, reading.take argument text = .ok next ∧ next.Ends texts settings) ↔
      Adds reading.taken reading.settings ((argument, text) :: items) settings := by
  rw [adds_cons]
  constructor
  · rintro ⟨next, htake, hends⟩
    obtain ⟨hidle, honly⟩ := h.take hfile htake
    obtain ⟨hnew, between, hset, rfl⟩ := take_eq_ok_iff.mp htake
    exact ⟨hnew, between, hset, (hrest _ hidle honly).mp hends⟩
  · rintro ⟨hnew, between, hset, hadds⟩
    have htake := take_eq_ok_iff.mpr ⟨hnew, between, hset, rfl⟩
    obtain ⟨hidle, honly⟩ := h.take hfile htake
    exact ⟨_, htake, (hrest _ hidle honly).mpr hadds⟩

/-- A text for the file is taken if there was none before. -/
theorem Idle.ends_plain_iff (h : reading.Idle) (htext : reading.text text = reading.plain text) :
    reading.Ends (text :: texts) settings ↔
      Argument.file ∉ reading.taken ∧ ∃ next : Reading, next.Idle ∧
        next.valuesOnly = reading.valuesOnly ∧ next.taken = reading.taken ++ [.file] ∧
        reading.settings.set .file text = .ok next.settings ∧ next.Ends texts settings := by
  rw [ends_cons, htext]
  simp only [plain_eq_ok_iff, settle_of_pending h.pending]
  have hfile : reading.hasFile = false ↔ Argument.file ∉ reading.taken := by
    rw [← h.hasFile, Bool.not_eq_true]
  -- The file is pending behind its text, and may as well be taken there.
  have hends : ({ reading.holding .file text with hasFile := true } : Reading).Ends texts settings ↔
      ∃ next : Reading, ({ reading with pending := none, hasFile := true } : Reading).take .file
        text = .ok next ∧ next.Ends texts settings := by
    rw [ends_iff_settle (by simp [holding]), settle_of_value rfl]
    rfl
  constructor
  · rintro ⟨_, ⟨settled, hsettled, hnone, rfl⟩, hlater⟩
    cases hsettled
    obtain ⟨next, htake, hlater⟩ := hends.mp hlater
    obtain ⟨hnew, between, hset, rfl⟩ := take_eq_ok_iff.mp htake
    exact ⟨hnew, ⟨between, reading.taken ++ [.file], none, true, reading.valuesOnly⟩,
      ⟨rfl, by simp⟩, rfl, rfl, hset, hlater⟩
  · rintro ⟨hnew, ⟨between, taken, pending, hasFile, only⟩, ⟨hpending, hhas⟩, honly, htaken, hset,
      hlater⟩
    dsimp only at hpending hhas honly htaken hset
    subst htaken hpending honly
    obtain rfl : hasFile = true := hhas.mpr (by simp)
    have hpending := hends.mpr ⟨_, take_eq_ok_iff.mpr ⟨hnew, between, hset, rfl⟩, hlater⟩
    exact ⟨_, ⟨reading, rfl, hfile.mpr hnew, rfl⟩, hpending⟩

/-- The settings that a text for the file and further texts lead to. -/
theorem Idle.plain_ends_iff (h : reading.Idle) (htext : reading.text text = reading.plain text)
    (hrest : ∀ next : Reading, next.Idle → next.valuesOnly = reading.valuesOnly →
      (next.Ends texts settings ↔ Adds next.taken next.settings items settings)) :
    reading.Ends (text :: texts) settings ↔
      Adds reading.taken reading.settings ((.file, text) :: items) settings := by
  rw [h.ends_plain_iff htext, adds_cons]
  refine and_congr_right fun hnew => ?_
  constructor
  · rintro ⟨next, hidle, honly, htaken, hset, hends⟩
    exact ⟨next.settings, hset, htaken ▸ (hrest next hidle honly).mp hends⟩
  · rintro ⟨between, hset, hadds⟩
    let next : Reading := ⟨between, reading.taken ++ [.file], none, true, reading.valuesOnly⟩
    have hidle : next.Idle := ⟨rfl, by simp [next]⟩
    exact ⟨next, hidle, rfl, rfl, hset, (hrest next hidle rfl).mpr hadds⟩

/-- Behind two dashes alone all texts are files. -/
theorem Idle.ends_iff_files (h : reading.Idle) (honly : reading.valuesOnly = true) :
    reading.Ends texts settings ↔
      Adds reading.taken reading.settings (texts.map fun text => (.file, text)) settings := by
  induction texts generalizing reading with
  | nil => rw [ends_nil, finish_eq_ok_iff h, List.map_nil]
  | cons text texts ih =>
      refine h.plain_ends_iff (text_valuesOnly honly) fun next hidle hnext => ?_
      exact ih hidle (hnext.trans honly)

/-- In an idle state there is nothing to settle. -/
theorem Idle.eq_of_settle (h : reading.Idle) {settled : Reading}
    (hsettled : reading.settle = .ok settled) : settled = reading :=
  (Except.ok.inj ((settle_of_pending h.pending).symm.trans hsettled)).symm

/-- In an idle state a name is read as that of its argument. -/
theorem Idle.named_eq_ok_iff (h : reading.Idle) {name : String} (hname : argument.name? = some name)
    {value : Option String} :
    reading.named name value = .ok next ↔
      (argument.value? = none ∧ value = none ∧ argument ≠ .help ∧
          reading.take argument "" = .ok next) ∨
        (argument.value? ≠ none ∧ ∃ v, value = some v ∧ reading.take argument v = .ok next) ∨
        argument.value? ≠ none ∧ value = none ∧ reading.awaiting argument = next := by
  rw [Reading.named_eq_ok_iff]
  constructor
  · rintro ⟨settled, hsettled, other, hother, hcases⟩
    obtain rfl := h.eq_of_settle hsettled
    obtain rfl : other = argument := by
      have hfound := Argument.ofName?_eq_some_iff.mpr hother
      exact Option.some.inj (hfound.symm.trans (Argument.ofName?_eq_some_iff.mpr hname))
    exact hcases
  · intro hcases
    exact ⟨reading, settle_of_pending h.pending, argument, hname, hcases⟩

/-- In an idle state a single `v` is read as `verbose`; a second letter would ask for it again. -/
theorem Idle.letters_eq_ok_iff (h : reading.Idle) {c : Char} {more : List Char} :
    reading.letters (c :: more) = .ok next ↔
      c = 'v' ∧ more = [] ∧ reading.take .verbose "" = .ok next := by
  rw [Reading.letters_eq_ok_iff]
  constructor
  · rintro ⟨settled, hsettled, rfl, between, htake, hmore⟩
    obtain rfl := h.eq_of_settle hsettled
    cases more with
    | nil => exact ⟨rfl, rfl, htake.trans hmore⟩
    | cons d more =>
        obtain ⟨again, hsettled, -, _, hagain, -⟩ := Reading.letters_eq_ok_iff.mp hmore
        obtain ⟨hidle, -⟩ := h.take (by decide) htake
        obtain rfl := hidle.eq_of_settle hsettled
        obtain ⟨-, _, -, rfl⟩ := take_eq_ok_iff.mp htake
        exact absurd (by simp) (take_eq_ok_iff.mp hagain).1
  · rintro ⟨rfl, rfl, htake⟩
    exact ⟨reading, settle_of_pending h.pending, rfl, next, htake, rfl⟩

/-- A text that does not look like an argument is the value of one that waits. -/
theorem text_awaiting (honly : reading.valuesOnly = false) (hplain : IsPlain text) :
    (reading.awaiting argument).text text = .ok (reading.holding argument text) := by
  have hawaiting : (reading.awaiting argument).valuesOnly = false := honly
  rw [text_plain hawaiting hplain]
  rfl

/-- A value that has not been looked at may as well be taken at once. -/
theorem Idle.ends_holding_iff (h : reading.Idle) :
    (reading.holding argument text).Ends texts settings ↔
      ∃ next, reading.take argument text = .ok next ∧ next.Ends texts settings := by
  have hidle : { reading.holding argument text with pending := none } = reading := by
    rw [holding, ← h.pending]
  rw [ends_iff_settle (by simp [holding]), settle_of_value rfl, hidle]

/-- What texts come to that spell arguments is what comes of adding these. -/
theorem Idle.ends_iff (h : reading.Idle) (honly : reading.valuesOnly = false)
    (hspells : Spells texts items) :
    reading.Ends texts settings ↔ Adds reading.taken reading.settings items settings := by
  induction hspells generalizing reading with
  | nil => rw [ends_nil, finish_eq_ok_iff h]
  | flag hname hvalue hhelp _ ih =>
      obtain ⟨hne, hequals⟩ := Argument.name_chars hname
      rw [ends_cons, text_name honly hne hequals]
      simp only [h.named_eq_ok_iff hname, hvalue, hhelp, ne_eq, not_true, not_false_iff, true_and,
        false_and, or_false]
      exact h.take_ends_iff (Argument.ne_file hname) fun next hidle hnext =>
        ih hidle (hnext.trans honly)
  | letter _ ih =>
      have hletters : ("-v" : String) = String.ofList ['-', 'v'] := rfl
      rw [ends_cons, hletters, text_letters honly (by decide)]
      simp only [h.letters_eq_ok_iff, true_and]
      exact h.take_ends_iff (by decide) fun next hidle hnext => ih hidle (hnext.trans honly)
  | attached hname hvalue value _ ih =>
      obtain ⟨hne, hequals⟩ := Argument.name_chars hname
      rw [ends_cons, text_attached honly hequals]
      simp only [h.named_eq_ok_iff hname, hvalue, ne_eq, not_false_iff, true_and, false_and,
        reduceCtorEq, and_false, or_false, false_or, Option.some.injEq, exists_eq_left']
      exact h.take_ends_iff (Argument.ne_file hname) fun next hidle hnext =>
        ih hidle (hnext.trans honly)
  | apart hname hvalue hplain _ ih =>
      obtain ⟨hne, hequals⟩ := Argument.name_chars hname
      rw [ends_cons, text_name honly hne hequals]
      simp only [h.named_eq_ok_iff hname, hvalue, ne_eq, not_false_iff, true_and, false_and,
        reduceCtorEq, and_false, false_or, exists_eq_left', exists_false]
      rw [ends_cons, text_awaiting honly hplain]
      simp only [Except.ok.injEq, exists_eq_left']
      rw [h.ends_holding_iff]
      exact h.take_ends_iff (Argument.ne_file hname) fun next hidle hnext =>
        ih hidle (hnext.trans honly)
  | file hplain _ ih =>
      refine h.plain_ends_iff ?_ fun next hidle hnext => ih hidle (hnext.trans honly)
      rw [text_plain honly hplain, Reading.value, h.pending]
  | files texts =>
      rw [ends_cons, text_dashes honly]
      simp only [Except.ok.injEq, exists_eq_left']
      exact Idle.ends_iff_files ⟨h.pending, h.hasFile⟩ rfl

/-- An argument that waits for its value finds it in the next text. -/
theorem ends_of_awaiting (honly : reading.valuesOnly = false)
    (hends : (reading.awaiting argument).Ends texts settings) :
    ∃ text rest, texts = text :: rest ∧ IsPlain text ∧
      (reading.holding argument text).Ends rest settings := by
  have hawaiting : (reading.awaiting argument).valuesOnly = false := honly
  have hsettle {reading : Reading} :
      (reading.awaiting argument).settle = .error (.usage (.missingValue argument)) :=
    settle_of_noValue rfl
  cases texts with
  | nil =>
      rw [ends_nil, finish, hsettle] at hends
      cases hends
  | cons text rest =>
      obtain ⟨next, hnext, hends⟩ := ends_cons.mp hends
      cases shape text with
      | dashes =>
          rw [text_dashes hawaiting] at hnext
          cases hnext
          -- Neither the end of the texts nor a file can follow now.
          cases rest with
          | nil =>
              rw [ends_nil, finish, settle_valuesOnly, hsettle] at hends
              cases hends
          | cons other rest =>
              obtain ⟨next, hnext, -⟩ := ends_cons.mp hends
              rw [text_valuesOnly rfl] at hnext
              obtain ⟨settled, hsettled, -⟩ := plain_eq_ok_iff.mp hnext
              rw [settle_valuesOnly, hsettle] at hsettled
              cases hsettled
      | name hne hname =>
          rw [text_name hawaiting hne hname] at hnext
          obtain ⟨settled, hsettled, -⟩ := named_eq_ok_iff.mp hnext
          cases hsettle.symm.trans hsettled
      | attached hname value =>
          rw [text_attached hawaiting hname] at hnext
          obtain ⟨settled, hsettled, -⟩ := named_eq_ok_iff.mp hnext
          cases hsettle.symm.trans hsettled
      | letters hc more =>
          rw [text_letters hawaiting hc] at hnext
          obtain ⟨settled, hsettled, -⟩ := letters_eq_ok_iff.mp hnext
          cases hsettle.symm.trans hsettled
      | plain hplain =>
          rw [text_awaiting honly hplain] at hnext
          cases hnext
          exact ⟨text, rest, rfl, hplain, hends⟩

/-- Texts that come to settings spell arguments, and behind a name that waits for its value they do
so behind the first of them. -/
theorem exists_spells_of_ends (texts : List String) :
    (∀ reading : Reading, reading.Idle → reading.valuesOnly = false →
        reading.Ends texts settings → ∃ items, Spells texts items) ∧
      ∀ (reading : Reading) (argument : Argument), reading.Idle → reading.valuesOnly = false →
        argument ≠ .file → (reading.awaiting argument).Ends texts settings →
        ∃ text rest items, texts = text :: rest ∧ IsPlain text ∧ Spells rest items := by
  induction texts with
  | nil =>
      refine ⟨fun _ _ _ _ => ⟨[], .nil⟩, fun reading argument _ honly _ hends => ?_⟩
      obtain ⟨text, rest, heq, -⟩ := ends_of_awaiting honly hends
      cases heq
  | cons text texts ih =>
      obtain ⟨ihidle, ihawaiting⟩ := ih
      have htaken {reading next : Reading} {argument : Argument} {value : String}
          (h : reading.Idle) (honly : reading.valuesOnly = false) (hfile : argument ≠ .file)
          (htake : reading.take argument value = .ok next) (hends : next.Ends texts settings) :
          ∃ items, Spells texts items := by
        obtain ⟨hidle, hnext⟩ := h.take hfile htake
        exact ihidle next hidle (hnext.trans honly) hends
      constructor
      · intro reading h honly hends
        obtain ⟨next, hnext, hlater⟩ := ends_cons.mp hends
        cases shape text with
        | dashes => exact ⟨_, .files texts⟩
        | name hne hname =>
            rw [text_name honly hne hname] at hnext
            obtain ⟨_, -, argument, hargument, -⟩ := named_eq_ok_iff.mp hnext
            have hfile := Argument.ne_file hargument
            rcases (h.named_eq_ok_iff hargument).mp hnext with
              ⟨hvalue, -, hhelp, htake⟩ | ⟨-, value, hnone, -⟩ | ⟨hvalue, -, rfl⟩
            · obtain ⟨items, hitems⟩ := htaken h honly hfile htake hlater
              exact ⟨_, .flag hargument hvalue hhelp hitems⟩
            · cases hnone
            · obtain ⟨value, rest, items, rfl, hplain, hitems⟩ :=
                ihawaiting reading argument h honly hfile hlater
              exact ⟨_, .apart hargument hvalue hplain hitems⟩
        | attached hname value =>
            rw [text_attached honly hname] at hnext
            obtain ⟨_, -, argument, hargument, -⟩ := named_eq_ok_iff.mp hnext
            rcases (h.named_eq_ok_iff hargument).mp hnext with
              ⟨-, hnone, -⟩ | ⟨hvalue, v, hsome, htake⟩ | ⟨-, hnone, -⟩
            · cases hnone
            · obtain rfl := Option.some.inj hsome
              obtain ⟨items, hitems⟩ := htaken h honly (Argument.ne_file hargument) htake hlater
              exact ⟨_, .attached hargument hvalue value hitems⟩
            · cases hnone
        | letters hc more =>
            rw [text_letters honly hc] at hnext
            obtain ⟨rfl, rfl, htake⟩ := h.letters_eq_ok_iff.mp hnext
            obtain ⟨items, hitems⟩ := htaken h honly (by decide) htake hlater
            exact ⟨_, .letter hitems⟩
        | plain hplain =>
            have htext : reading.text text = reading.plain text := by
              rw [text_plain honly hplain, Reading.value, h.pending]
            obtain ⟨-, next, hidle, hnext, -, -, hlater⟩ := (h.ends_plain_iff htext).mp hends
            obtain ⟨items, hitems⟩ := ihidle next hidle (hnext.trans honly) hlater
            exact ⟨_, .file hplain hitems⟩
      · intro reading argument h honly hfile hends
        obtain ⟨value, rest, heq, hplain, hends⟩ := ends_of_awaiting honly hends
        obtain ⟨rfl, rfl⟩ := List.cons.inj heq
        obtain ⟨next, htake, hends⟩ := h.ends_holding_iff.mp hends
        obtain ⟨items, hitems⟩ := htaken h honly hfile htake hends
        exact ⟨text, texts, items, rfl, hplain, hitems⟩

end Reading

/-! ## Settings -/

section

variable {texts : List String} {items : List (Argument × String)} {settings : Settings}

/-- The settings of texts are those that the reading ends with. -/
theorem Settings.ofTexts_eq_ok_iff :
    Settings.ofTexts texts = .ok settings ↔ Reading.Ends {} texts settings := by
  rw [Settings.ofTexts, Reading.Ends]
  cases Reading.texts {} texts <;> simp

/-- Every list of texts that gives settings spells arguments. -/
theorem exists_spells_of_ofTexts (h : Settings.ofTexts texts = .ok settings) :
    ∃ items, Spells texts items :=
  (Reading.exists_spells_of_ends texts).1 {} ⟨rfl, by simp⟩ rfl (Settings.ofTexts_eq_ok_iff.mp h)

/-- Texts that spell arguments give settings just if these can be added one after the other. -/
theorem ofTexts_eq_ok_iff_adds (h : Spells texts items) :
    Settings.ofTexts texts = .ok settings ↔ Adds [] {} items settings := by
  have hidle : Reading.Idle {} := ⟨rfl, by simp⟩
  rw [Settings.ofTexts_eq_ok_iff]
  exact hidle.ends_iff rfl h

end

end CellAlign.Command

import CellAlign.Proofs.Command.Outcomes
import CellAlign.Proofs.Command.Rereading
import CellAlign.Proofs.Options.Stated

/-!
# Where the options of a run come from

The method and the three tokens can be given as arguments, and they can be stated in a
configuration.  Each of the four is decided on its own: it is what its argument says, or else what
the configuration states, or else its default.  So it makes no difference to a run whether an
argument gives one of them or the configuration states it instead.

* `Choice.flag`, `Settings.ConfigStates`: the arguments that give the choices, and what the
  configuration states of them;
* `Settings.readOptions_eq_ok_iff`: the options of a run;
* `merge_of_ofTexts`: the options for a list of arguments, and lists of arguments from which choices
  are moved to the configuration.
-/

namespace CellAlign

/-- The argument that gives a choice. -/
def Choice.flag : Choice → Command.Argument
  | method => .method
  | center => .classCenter
  | left => .classLeft
  | right => .classRight

namespace Command

namespace Settings

/-- What the configuration of a run states: nothing if there is none. -/
inductive ConfigStates (settings : Settings) (world : World) : (Choice → Option String) → Prop
  | none (hconfig : settings.config = .none) : ConfigStates settings world fun _ => .none
  | file {path text : String} {stated : Choice → Option String}
      (hconfig : settings.config = some path) (hread : world.fileText path = .ok text)
      (hstates : Options.States text stated) : ConfigStates settings world stated

variable {settings settings' : Settings} {world world' : World}
  {stated stated' : Choice → Option String}

/-- An argument goes before the configuration. -/
theorem value_options (base : Options) (choice : Choice) :
    (settings.options base).value choice =
      (settings.given? choice.flag).getD (base.value choice) := by
  cases choice with
  | method =>
      cases hmethod : settings.method <;>
        simp [options, Options.value, given?, Choice.flag, hmethod]
  | center | left | right => rfl

/-- By default each choice has its default. -/
theorem value_default (choice : Choice) : ({} : Options).value choice = choice.default := by
  cases choice <;> rfl

/-- Only methods are given as the method. -/
theorem exists_eq_name_of_given? {name : String} (h : settings.given? .method = some name) :
    ∃ method : Method, name = method.name := by
  obtain ⟨method, -, rfl⟩ := Option.map_eq_some_iff.mp h
  exact ⟨method, rfl⟩

/-- Only methods are stated as the method. -/
theorem ConfigStates.exists_eq_name (h : settings.ConfigStates world stated) {name : String}
    (hname : stated .method = some name) : ∃ method : Method, name = method.name := by
  cases h with
  | none hconfig => cases hname
  | file hconfig hread hstates => exact hstates.exists_eq_name name hname

/-- Whatever a configuration gives, the arguments go before it. -/
theorem value_merged {base : Options}
    (hbase : ∀ choice, base.value choice = (stated choice).getD choice.default) (choice : Choice) :
    (settings.options base).value choice =
      ((settings.given? choice.flag).or (stated choice)).getD choice.default := by
  rw [value_options, hbase, Option.getD_or]

/-- Options are read if the configuration states something, or if there is none. -/
theorem ConfigStates.exists_readOptions (h : settings.ConfigStates world stated) :
    ∃ options, settings.readOptions world = .ok options ∧ ∀ choice,
      options.value choice =
        ((settings.given? choice.flag).or (stated choice)).getD choice.default := by
  cases h with
  | none hconfig => exact ⟨_, by simp only [readOptions, hconfig], value_merged value_default⟩
  | file hconfig hread hstates =>
      obtain ⟨base, hparse, hbase⟩ := hstates.exists_ofJson
      exact ⟨_, by simp only [readOptions, hconfig, hread, Options.ofText, hparse],
        value_merged hbase⟩

/-- The options of a run choose what the arguments say, or else what the configuration states, or
else the default. -/
theorem readOptions_eq_ok_iff {options : Options} :
    settings.readOptions world = .ok options ↔
      ∃ stated, settings.ConfigStates world stated ∧ ∀ choice,
        options.value choice =
          ((settings.given? choice.flag).or (stated choice)).getD choice.default := by
  constructor
  · intro h
    unfold readOptions at h
    split at h
    · next hconfig =>
      cases h
      exact ⟨_, .none hconfig, value_merged value_default⟩
    · next path hconfig =>
      split at h
      · cases h
      · next text hread =>
        cases hparse : Options.ofJson text with
        | error fault => simp [Options.ofText, hparse] at h
        | ok base =>
            simp only [Options.ofText, hparse] at h
            cases h
            obtain ⟨stated, hstates, hbase⟩ := Options.ofJson_eq_ok_iff.mp hparse
            exact ⟨stated, .file hconfig hread hstates, value_merged hbase⟩
  · rintro ⟨stated, hstated, hvalue⟩
    obtain ⟨found, hfound, hmerged⟩ := hstated.exists_readOptions
    rw [hfound, Options.ext_value fun choice => (hmerged choice).trans (hvalue choice).symm]

/-- Runs with the same input, in which each choice comes to the same, are the same. -/
theorem execute_congr (hstated : settings.ConfigStates world stated)
    (hstated' : settings'.ConfigStates world' stated')
    (hsame : ∀ choice, (settings'.given? choice.flag).or (stated' choice) =
      (settings.given? choice.flag).or (stated choice))
    (hjson : settings'.json = settings.json) (hfragment : settings'.fragment = settings.fragment)
    (hinput : settings'.readInput world' = settings.readInput world) :
    settings'.execute world' = settings.execute world := by
  obtain ⟨options, hoptions, hvalue⟩ := hstated.exists_readOptions
  have hoptions' : settings'.readOptions world' = .ok options :=
    readOptions_eq_ok_iff.mpr ⟨stated', hstated', fun choice => by rw [hsame, hvalue]⟩
  have hformat : settings'.format = settings.format := by
    rw [format, format, hjson, hfragment]
  simp only [execute, hoptions, hoptions', hinput, readTree, hformat, render, hjson]

end Settings

/-! ## Lists of arguments -/

/-- With distinct keys, what is looked up is what is there. -/
theorem lookup_eq_some_iff {items : List (Argument × String)}
    (hdistinct : (items.map Prod.fst).Nodup) {argument : Argument} {value : String} :
    items.lookup argument = some value ↔ (argument, value) ∈ items := by
  induction items with
  | nil => simp
  | cons item items ih =>
      obtain ⟨key, found⟩ := item
      rw [List.map_cons, List.nodup_cons] at hdistinct
      by_cases hkey : argument = key
      · subst hkey
        have hnone : (argument, value) ∉ items :=
          fun hmem => hdistinct.1 (List.mem_map.mpr ⟨_, hmem, rfl⟩)
        simp [hnone, eq_comm]
      · have hne : (argument == key) = false := by simpa using hkey
        simp [List.lookup_cons, hne, hkey, ih hdistinct.2]

/-- Only the file has no name. -/
theorem Argument.exists_name {argument : Argument} (h : argument ≠ .file) :
    ∃ name, argument.name? = some name := by
  cases argument <;> first | exact ⟨_, rfl⟩ | exact absurd rfl h

/-- Arguments can be spelled by their names, with values behind equals signs, and the file behind
two dashes at the end. -/
theorem exists_spells {items : List (Argument × String)}
    (hitems : ∀ item ∈ items, item.1 ≠ .help ∧ (item.1.value? = none → item.2 = "")) :
    ∃ texts items', Spells texts items' ∧ items'.Perm items := by
  have hnamed : ∀ named : List (Argument × String),
      (∀ item ∈ named, item ∈ items ∧ item.1 ≠ .file) → ∀ files : List String,
        ∃ texts, Spells texts (named ++ files.map fun text => (.file, text)) := by
    intro named
    induction named with
    | nil => exact fun _ files => ⟨_, .files files⟩
    | cons item named ih =>
        intro hall files
        obtain ⟨⟨hmem, hfile⟩, hall⟩ := List.forall_mem_cons.mp hall
        obtain ⟨texts, htexts⟩ := ih hall files
        obtain ⟨argument, value⟩ := item
        obtain ⟨name, hname⟩ := Argument.exists_name hfile
        obtain ⟨hhelp, hempty⟩ := hitems _ hmem
        by_cases hvalue : argument.value? = none
        · obtain rfl : value = "" := hempty hvalue
          exact ⟨_, .flag hname hvalue hhelp htexts⟩
        · exact ⟨_, .attached hname hvalue value htexts⟩
  let named := items.filter (·.1 ≠ .file)
  let files := items.filter (·.1 = .file)
  have hfiles : (files.map Prod.snd).map (fun text => (Argument.file, text)) = files := by
    rw [List.map_map]
    refine (List.map_congr_left fun item hitem => ?_).trans (List.map_id files)
    have hfile : item.1 = .file := by simpa using (List.mem_filter.mp hitem).2
    exact Prod.ext hfile.symm rfl
  obtain ⟨texts, htexts⟩ := hnamed named (by simp [named]) (files.map Prod.snd)
  rw [hfiles] at htexts
  refine ⟨texts, _, htexts, ?_⟩
  have hperm := List.filter_append_perm (fun item : Argument × String => item.1 ≠ .file) items
  simpa [named, files] using hperm

/-- Which arguments stay when choices are moved to a configuration, and the one that was there is
replaced. -/
def Argument.stays (moved : Choice → Bool) : Argument → Bool
  | .config => false
  | .method => !moved .method
  | .classCenter => !moved .center
  | .classLeft => !moved .left
  | .classRight => !moved .right
  | .fragment | .file | .json | .verbose | .help => true

/-- What a configuration states to which choices are moved: for these what their arguments gave, if
they did, and otherwise what was stated before. -/
def movedTo (moved : Choice → Bool) (items : List (Argument × String))
    (stated : Choice → Option String) (choice : Choice) : Option String :=
  if moved choice then (items.lookup choice.flag).or (stated choice) else stated choice

/-- The arguments that are left when choices are moved to the configuration with a path. -/
def movedFrom (moved : Choice → Bool) (items : List (Argument × String)) (path : String) :
    List (Argument × String) :=
  (.config, path) :: items.filter (·.1.stays moved)

section

variable {moved : Choice → Bool} {items : List (Argument × String)} {path : String}

/-- What is left when choices are moved is as acceptable as before. -/
theorem Acceptable.movedFrom (h : Acceptable items) (hpath : path ≠ "") :
    Acceptable (movedFrom moved items path) := by
  have hkeys : ((items.filter (·.1.stays moved)).map Prod.fst).Sublist (items.map Prod.fst) :=
    List.filter_sublist.map Prod.fst
  constructor
  · rw [Command.movedFrom, List.map_cons, List.nodup_cons]
    refine ⟨?_, hkeys.nodup h.distinct⟩
    intro hmem
    obtain ⟨item, hitem, heq⟩ := List.mem_map.mp hmem
    have hstays := (List.mem_filter.mp hitem).2
    rw [heq] at hstays
    cases hstays
  · rw [Command.movedFrom, List.forall_mem_cons]
    exact ⟨hpath, fun item hitem => h.allowed item (List.mem_of_mem_filter hitem)⟩
  · rintro ⟨hfragment, hjson⟩
    have hkept {argument : Argument} (hne : argument ≠ .config)
        (hmem : argument ∈ (Command.movedFrom moved items path).map Prod.fst) :
        argument ∈ items.map Prod.fst := by
      rw [Command.movedFrom, List.map_cons] at hmem
      exact hkeys.subset ((List.mem_cons.mp hmem).resolve_left hne)
    exact h.compatible ⟨hkept nofun hfragment, hkept nofun hjson⟩

/-- An argument that stays is there just if it was before. -/
theorem mem_movedFrom_iff {argument : Argument} {value : String} (hne : argument ≠ .config) :
    (argument, value) ∈ movedFrom moved items path ↔
      argument.stays moved ∧ (argument, value) ∈ items := by
  simp [movedFrom, hne, and_comm]

/-- The argument of a choice stays just if the choice is not moved. -/
theorem stays_flag (choice : Choice) : choice.flag.stays moved = !moved choice := by
  cases choice <;> rfl

/-- Settings say of an argument what is found for it in their list. -/
theorem given?_eq_lookup {texts : List String} {settings : Settings} (h : Spells texts items)
    (hsettings : Settings.ofTexts texts = .ok settings) (argument : Argument) :
    settings.given? argument = items.lookup argument := by
  obtain ⟨hitems, hgiven⟩ := (ofTexts_eq_ok_iff h).mp hsettings
  refine Option.ext fun value => ?_
  rw [hgiven, lookup_eq_some_iff hitems.distinct]

/-- When choices are moved, settings say the same of all arguments that stay, nothing of the others,
and have the configuration to which they are moved. -/
theorem given?_of_movedFrom {texts texts' : List String} {items' : List (Argument × String)}
    {settings settings' : Settings} (h : Spells texts items)
    (hsettings : Settings.ofTexts texts = .ok settings) (h' : Spells texts' items')
    (hsettings' : Settings.ofTexts texts' = .ok settings')
    (hperm : items'.Perm (movedFrom moved items path)) :
    settings'.config = some path ∧ ∀ argument, argument ≠ .config →
      settings'.given? argument =
        if argument.stays moved then settings.given? argument else none := by
  have hgiven := ((ofTexts_eq_ok_iff h).mp hsettings).2
  have hgiven' := ((ofTexts_eq_ok_iff h').mp hsettings').2
  constructor
  · exact (hgiven' .config path).mpr (hperm.mem_iff.mpr List.mem_cons_self)
  · intro argument hne
    refine Option.ext fun value => ?_
    rw [hgiven', hperm.mem_iff, mem_movedFrom_iff hne, ← hgiven]
    cases argument.stays moved <;> simp

variable {texts : List String} {settings : Settings} {world : World}
  {stated : Choice → Option String}

/-- A run for which choices were moved: their arguments are gone, and its configuration states what
they gave. -/
structure Moved (moved : Choice → Bool) (items : List (Argument × String))
    (stated : Choice → Option String) (path : String) (texts : List String) (world : World) :
    Prop where
  spells : ∃ left, Spells texts left ∧ left.Perm (movedFrom moved items path)
  states : ∃ text, world.fileText path = .ok text ∧
    Options.States text (movedTo moved items stated)

/-- A configuration can state whatever is moved to it, and what is left can be spelled. -/
theorem exists_moved (h : Spells texts items) (hsettings : Settings.ofTexts texts = .ok settings)
    (hstated : settings.ConfigStates world stated) (moved : Choice → Bool) (path : String) :
    ∃ texts' text, ∀ world' : World, world'.fileText path = .ok text →
      Moved moved items stated path texts' world' := by
  have hitems : ∀ item ∈ movedFrom moved items path,
      item.1 ≠ .help ∧ (item.1.value? = none → item.2 = "") := by
    rw [movedFrom, List.forall_mem_cons]
    exact ⟨⟨nofun, nofun⟩, fun item hitem => h.value_eq item (List.mem_of_mem_filter hitem)⟩
  have hmethod : ∀ name, movedTo moved items stated .method = some name →
      ∃ method : Method, name = method.name := by
    intro name hname
    unfold movedTo at hname
    rw [← given?_eq_lookup h hsettings] at hname
    split at hname
    · rcases Option.or_eq_some_iff.mp hname with hgiven | ⟨-, hname⟩
      · exact Settings.exists_eq_name_of_given? hgiven
      · exact hstated.exists_eq_name hname
    · exact hstated.exists_eq_name hname
  obtain ⟨texts', left, hspells, hperm⟩ := exists_spells hitems
  obtain ⟨text, hstates⟩ := Options.exists_states hmethod
  exact ⟨texts', text, fun world' hread => ⟨⟨left, hspells, hperm⟩, text, hread, hstates⟩⟩

/-- A run for which choices were moved comes to the same on the same input. -/
theorem Moved.execute_eq {texts' : List String} {world' : World}
    (hmoved : Moved moved items stated path texts' world') (hpath : path ≠ "")
    (h : Spells texts items) (hsettings : Settings.ofTexts texts = .ok settings)
    (hstated : settings.ConfigStates world stated)
    (hinput : settings.readInput world' = settings.readInput world) :
    ∃ settings', Settings.ofTexts texts' = .ok settings' ∧
      settings'.execute world' = settings.execute world := by
  obtain ⟨⟨left, hspells, hperm⟩, text, hread, hstates⟩ := hmoved
  have hitems := ((ofTexts_eq_ok_iff h).mp hsettings).1
  obtain ⟨settings', hsettings'⟩ :=
    (exists_ofTexts_iff hspells).mpr ((hitems.movedFrom hpath).perm hperm.symm)
  obtain ⟨hconfig, hkept⟩ := given?_of_movedFrom h hsettings hspells hsettings' hperm
  have hsame (choice : Choice) :
      (settings'.given? choice.flag).or (movedTo moved items stated choice) =
        (settings.given? choice.flag).or (stated choice) := by
    have hflag : choice.flag ≠ .config := by
      cases choice <;> nofun
    rw [hkept choice.flag hflag, stays_flag, movedTo, given?_eq_lookup h hsettings]
    cases moved choice <;> simp
  have hjson : settings'.json = settings.json := by
    have hgiven := hkept .json nofun
    cases hboth : settings'.json <;> simp_all [Settings.given?, Argument.stays]
  have hfragment : settings'.fragment = settings.fragment := by
    have hgiven := hkept .fragment nofun
    cases hboth : settings'.fragment <;> simp_all [Settings.given?, Argument.stays]
  have hfile : settings'.file = settings.file := hkept .file nofun
  have hsameInput : settings'.readInput world' = settings.readInput world := by
    rw [← hinput, Settings.readInput, Settings.readInput, hfile]
  exact ⟨settings', hsettings',
    Settings.execute_congr hstated (.file hconfig hread hstates) hsame hjson hfragment hsameInput⟩

end

/-! ## Options of lists of arguments -/

/-- The options for a list of arguments choose, each on its own, what the arguments say, or else
what the configuration states, or else the default; and the order of the arguments does not matter.
So any of the choices can be moved from the arguments to a configuration, and on the same input the
run exits and prints as before. -/
theorem merge_of_ofTexts {arguments : List String} {settings : Settings}
    (hsettings : Settings.ofTexts arguments = .ok settings) (world : World) :
    (∃ items, Spells arguments items) ∧
      ∀ {items : List (Argument × String)}, Spells arguments items →
        (∀ options, settings.readOptions world = .ok options ↔
          ∃ stated, settings.ConfigStates world stated ∧ ∀ choice,
            options.value choice =
              ((items.lookup choice.flag).or (stated choice)).getD choice.default) ∧
        (∀ {arguments' : List String} {items' : List (Argument × String)},
          Spells arguments' items' → items'.Perm items →
            Settings.ofTexts arguments' = .ok settings) ∧
        ∀ {stated : Choice → Option String}, settings.ConfigStates world stated →
          (∃ options, settings.readOptions world = .ok options) ∧
          ∀ (moved : Choice → Bool) {path : String}, path ≠ "" →
            (∃ arguments' text, ∀ world' : World, world'.fileText path = .ok text →
              Moved moved items stated path arguments' world') ∧
            ∀ {arguments' : List String} {world' : World},
              Moved moved items stated path arguments' world' →
              settings.readInput world' = settings.readInput world →
              (∃ settings', Settings.ofTexts arguments' = .ok settings') ∧
                (outcome arguments' world').exitCode = (outcome arguments world).exitCode ∧
                (outcome arguments' world').output = (outcome arguments world).output := by
  refine ⟨exists_spells_of_ofTexts hsettings, ?_⟩
  intro items hspells
  refine ⟨?_, ?_, ?_⟩
  · intro options
    simp only [Settings.readOptions_eq_ok_iff, given?_eq_lookup hspells hsettings]
  · intro arguments' items' hspells' hperm
    exact ofTexts_congr hspells hspells' hperm.symm hsettings
  · intro stated hstated
    obtain ⟨options, hoptions, -⟩ := hstated.exists_readOptions
    refine ⟨⟨options, hoptions⟩, fun moved path hpath => ⟨?_, ?_⟩⟩
    · exact exists_moved hspells hsettings hstated moved path
    · intro arguments' world' hmoved hinput
      obtain ⟨settings', hsettings', hexecute⟩ :=
        hmoved.execute_eq hpath hspells hsettings hstated hinput
      have houtcome : outcome arguments world = settings.outcome world := by
        simp only [outcome, hsettings]
      have houtcome' : outcome arguments' world' = settings'.outcome world' := by
        simp only [outcome, hsettings']
      rw [houtcome, houtcome']
      exact ⟨⟨settings', hsettings'⟩, Settings.outcome_congr hexecute⟩

/-- The method moves to a configuration, and the token stays among the arguments. -/
theorem merge_of_ofTexts_method :
    let arguments : List String := ["--method=class", "--class-left=l", "t"]
    let turned : List String := ["t", "--class-left=l", "--method=class"]
    let arguments' : List String := ["--class-left=l", "t", "--config=c"]
    let settings : Settings := { method := some .byClass, classLeft := some "l", file := some "t" }
    let items : List (Argument × String) := [(.method, "class"), (.classLeft, "l"), (.file, "t")]
    let stated : Choice → Option String := fun _ => none
    let moved : Choice → Bool := fun choice => choice = .method
    let text : String := "\x7b\"method\": \"class\"\x7d"
    let cell : ByteArray := "<table><tr><td align=left>".toUTF8
    let world : World := { file := fun _ => .ok cell, input := ByteArray.empty, logFilter := none }
    let world' : World :=
      { world with file := fun path => .ok (if path = "c" then text.toUTF8 else cell) }
    Spells arguments items ∧ Settings.ofTexts arguments = .ok settings ∧
      Spells turned items.reverse ∧ Settings.ofTexts turned = .ok settings ∧
      settings.ConfigStates world stated ∧ Moved moved items stated "c" arguments' world' ∧
      settings.readInput world' = settings.readInput world ∧
      (outcome arguments' world').exitCode = (outcome arguments world).exitCode ∧
      (outcome arguments' world').output = (outcome arguments world).output := by
  intro arguments turned arguments' settings items stated moved text cell world world'
  have hempty : Json.IsGap [] := nofun
  have hsettings : Settings.ofTexts arguments = .ok settings := by rfl
  have hplain : IsPlain "t" := Or.inr (by simp)
  have hspells :
      Spells ["--" ++ "method" ++ "=" ++ "class", "--" ++ "class-left" ++ "=" ++ "l", "t"] items :=
    .attached rfl (by decide) "class" (.attached rfl (by decide) "l" (.file hplain .nil))
  have hturned :
      Spells ["t", "--" ++ "class-left" ++ "=" ++ "l", "--" ++ "method" ++ "=" ++ "class"]
        items.reverse :=
    .file hplain (.attached rfl (by decide) "l" (.attached rfl (by decide) "class" .nil))
  have hspells' : Spells ["--" ++ "class-left" ++ "=" ++ "l", "t", "--" ++ "config" ++ "=" ++ "c"]
      [(.classLeft, "l"), (.file, "t"), (.config, "c")] :=
    .attached rfl (by decide) "l" (.file hplain (.attached rfl (by decide) "c" .nil))
  have hstated : settings.ConfigStates world stated := .none rfl
  have hperm : [(.classLeft, "l"), (.file, "t"), (.config, "c")].Perm
      (movedFrom moved items "c") := by decide
  have hread : world'.fileText "c" = .ok text := textOf_toUTF8 text
  have hkey : Json.Text.Writes "method".toList "method".toList := .plain (by simp)
  have hvalue : IsString ('"' :: ("class".toList ++ ['"'])) "class" :=
    ⟨"class".toList, rfl, .plain (by simp)⟩
  have hbetween : Json.IsGap [' '] := by simp [Json.IsGap, Json.isGap]
  have hmember : Json.IsMember _ ("method", '"' :: ("class".toList ++ ['"'])) :=
    .intro hkey hempty hbetween
  have hrow : Json.Row Json.IsMember [] _ [("method", '"' :: ("class".toList ++ ['"']))] :=
    .cons hempty hempty hmember (.nil hempty)
  have hstates : Options.States text (movedTo moved items stated) := by
    refine ⟨[], _, [], ?_, hempty, hempty, _, none, .object hrow ?_, ?_, ?_, ?_⟩
    · simp [text]
    · simp
    · exact ⟨_, rfl, .string .byClass hvalue⟩
    · simp [Holds]
    · intro choice hchoice
      simp [movedTo, moved, stated, hchoice]
  obtain ⟨-, hmerge⟩ := merge_of_ofTexts hsettings world
  obtain ⟨-, horder, hmoved⟩ := hmerge hspells
  obtain ⟨-, hmoved⟩ := hmoved hstated
  obtain ⟨-, hmoved⟩ := hmoved moved (show "c" ≠ "" by decide)
  have hmoves : Moved moved items stated "c" arguments' world' :=
    ⟨⟨_, hspells', hperm⟩, text, hread, hstates⟩
  obtain ⟨-, hexit, houtput⟩ := hmoved hmoves rfl
  exact ⟨hspells, hsettings, hturned, horder hturned (List.reverse_perm items), hstated, hmoves,
    rfl, hexit, houtput⟩

end Command

end CellAlign

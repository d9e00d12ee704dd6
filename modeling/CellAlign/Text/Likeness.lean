/-!
# How alike two words are

To guess which known word was meant by an unknown one, the two are compared letter by letter.  Each
letter of the first word takes the first free equal letter of the second that is not too far away.
The likeness is the mean of three ratios: the letters taken among those of the first word, among
those of the second, and among the taken letters those that stand in order.
-/

namespace CellAlign.Text

/-- Takes the first free letter `c` among those at the positions from `low` to `high`. -/
def takePartner (c : Char) (low high : Nat) : Nat → List (Char × Bool) → Option (List (Char × Bool))
  | _, [] => none
  | i, (d, taken) :: rest =>
    if high < i then none
    else if low ≤ i ∧ c = d ∧ !taken then some ((d, true) :: rest)
    else (takePartner c low high (i + 1) rest).map ((d, taken) :: ·)

/-- Lets the letters of a word take partners from position `i` on: the letters that found one, and
the other word with its letters marked. -/
def takePartners (reach : Nat) : Nat → List Char → List (Char × Bool) → List Char × List (Char × Bool)
  | _, [], other => ([], other)
  | i, c :: rest, other =>
    match takePartner c (i - reach) (i + reach) 0 other with
    | some other =>
      let (found, other) := takePartners reach (i + 1) rest other
      (c :: found, other)
    | none => takePartners reach (i + 1) rest other

/-- A ratio of natural numbers. -/
structure Likeness where
  part : Nat
  whole : Nat

namespace Likeness

/-- The order of two ratios. -/
def le (a b : Likeness) : Bool := a.part * b.whole ≤ b.part * a.whole

/-- How alike two words are. -/
def between (word other : List Char) : Likeness :=
  let n := word.length
  let k := other.length
  let reach := max n k / 2 - 1
  let (found, marked) := takePartners reach 0 word (other.map fun c => (c, false))
  let partners := (marked.filter fun (_, taken) => taken).map fun (c, _) => c
  let m := found.length
  let swapped := ((found.zip partners).filter fun (c, d) => c != d).length / 2
  if m = 0 then { part := 0, whole := 1 }
  else { part := m * k * m + m * n * m + (m - swapped) * n * k, whole := 3 * n * k * m }

end Likeness

/-- The later of two candidates unless the earlier is more alike. -/
def preferCandidate (best : Option (Likeness × String)) (candidate : Likeness × String) :
    Option (Likeness × String) :=
  match best with
  | none => some candidate
  | some known => if known.1.le candidate.1 then some candidate else some known

/-- The candidate most like a word, if one is alike at least by seven parts in ten. -/
def closest? (word : String) (candidates : List String) : Option String :=
  let compared := candidates.map fun c => (Likeness.between word.toList c.toList, c)
  let alike := compared.filter fun (likeness, _) => Likeness.le ⟨7, 10⟩ likeness
  (alike.foldl preferCandidate none).map fun (_, c) => c

end CellAlign.Text

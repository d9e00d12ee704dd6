/-!
# Written things that can be told apart

A way of writing things is delimited if what is written and what follows it say together which thing
was written and where it ends: two things written in front of something are the same thing, and the
same follows them.  What may follow is often restricted, as in front of a run of letters of which no
letter may follow.  Delimited things are put together to delimited ones.

* `delimited_of_read`: what a reader reads back;
* `Delimited.flatMap`: one thing after the other;
* `Delimited.append`, `Delimited.between`: a thing behind another, or between two fixed texts;
* `delimited_run`: the longest run of certain characters.
-/

namespace CellAlign.Text

/-- Things that fit can be told apart as they are written, in front of whatever may follow. -/
def Delimited {α : Type} (fits : α → Prop) (follows : List Char → Prop) (written : α → List Char) :
    Prop :=
  ∀ ⦃a b : α⦄ ⦃s t : List Char⦄, fits a → fits b → follows s → follows t →
    written a ++ s = written b ++ t → a = b ∧ s = t

section

variable {α β : Type} {fits : α → Prop} {follows : List Char → Prop} {written : α → List Char}

/-- Things can be told apart if a reader reads them back, whatever follows. -/
theorem delimited_of_read (read? : List Char → Option (α × List Char))
    (h : ∀ a s, fits a → read? (written a ++ s) = some (a, s)) :
    Delimited fits (fun _ => True) written := by
  intro a b s t ha hb _ _ heq
  have hread : some (a, s) = some (b, t) := by rw [← h a s ha, heq, h b t hb]
  cases hread
  exact ⟨rfl, rfl⟩

/-- Fewer things can be told apart in front of less. -/
theorem Delimited.mono (h : Delimited fits follows written) {fits' : α → Prop}
    {follows' : List Char → Prop} (hfits : ∀ a, fits' a → fits a)
    (hfollows : ∀ s, follows' s → follows s) : Delimited fits' follows' written :=
  fun a b s t ha hb hs ht heq =>
    h (hfits a ha) (hfits b hb) (hfollows s hs) (hfollows t ht) heq

/-- Texts can be told apart by their characters. -/
theorem Delimited.ofChars {fits : List Char → Prop} {written : List Char → List Char}
    (h : Delimited fits follows written) :
    Delimited (fun text : String => fits text.toList) follows
      (fun text => written text.toList) := by
  intro a b s t ha hb hs ht heq
  obtain ⟨hchars, hst⟩ := h ha hb hs ht heq
  exact ⟨String.toList_injective hchars, hst⟩

/-- Things that are written one after the other can be told apart if none of them can be read at
the start of what follows the last one. -/
theorem Delimited.flatMap (h : Delimited fits (fun _ => True) written) :
    Delimited (fun as : List α => ∀ a ∈ as, fits a)
      (fun s => ∀ a t, fits a → s ≠ written a ++ t) (List.flatMap written) := by
  intro as bs s t has hbs hs ht heq
  induction as generalizing bs with
  | nil =>
      cases bs with
      | nil => exact ⟨rfl, heq⟩
      | cons b bs =>
          rw [List.flatMap_nil, List.nil_append, List.flatMap_cons, List.append_assoc] at heq
          exact absurd heq (hs b _ (hbs b List.mem_cons_self))
  | cons a as ih =>
      obtain ⟨ha, hmore⟩ := List.forall_mem_cons.mp has
      cases bs with
      | nil =>
          rw [List.flatMap_nil, List.nil_append, List.flatMap_cons, List.append_assoc] at heq
          exact absurd heq.symm (ht a _ ha)
      | cons b bs =>
          obtain ⟨hb, hothers⟩ := List.forall_mem_cons.mp hbs
          rw [List.flatMap_cons, List.flatMap_cons, List.append_assoc, List.append_assoc] at heq
          obtain ⟨rfl, hrest⟩ := h ha hb trivial trivial heq
          obtain ⟨rfl, rfl⟩ := ih hmore hothers hrest
          exact ⟨rfl, rfl⟩

/-- A thing behind another: what is written of the second may follow the first. -/
theorem Delimited.append {fits' : β → Prop} {follows' : List Char → Prop}
    {written' : β → List Char} (h : Delimited fits follows written)
    (h' : Delimited fits' follows' written')
    (hnext : ∀ b s, fits' b → follows' s → follows (written' b ++ s)) :
    Delimited (fun p : α × β => fits p.1 ∧ fits' p.2) follows'
      (fun p => written p.1 ++ written' p.2) := by
  rintro ⟨a, a'⟩ ⟨b, b'⟩ s t ⟨ha, ha'⟩ ⟨hb, hb'⟩ hs ht heq
  simp only [List.append_assoc] at heq
  obtain ⟨rfl, hrest⟩ := h ha hb (hnext a' s ha' hs) (hnext b' t hb' ht) heq
  obtain ⟨rfl, rfl⟩ := h' ha' hb' hs ht hrest
  exact ⟨rfl, rfl⟩

/-- A thing between two fixed texts, of which the second may follow the thing. -/
theorem Delimited.between (h : Delimited fits follows written) (before behind : List Char)
    (hnext : ∀ s, follows (behind ++ s)) :
    Delimited fits (fun _ => True) (fun a => before ++ written a ++ behind) := by
  intro a b s t ha hb _ _ heq
  simp only [List.append_assoc] at heq
  obtain ⟨rfl, hrest⟩ := h ha hb (hnext s) (hnext t) (List.append_cancel_left heq)
  exact ⟨rfl, List.append_cancel_left hrest⟩

end

/-- A run of certain characters can be told apart in front of anything that does not go on with one
of them. -/
theorem delimited_run (p : Char → Prop) :
    Delimited (fun chars => ∀ c ∈ chars, p c) (fun s => ∀ c t, p c → s ≠ c :: t)
      (fun chars => chars) := by
  have hone : Delimited p (fun _ => True) (fun c => [c]) := by
    intro c d s t _ _ _ _ heq
    exact List.cons.inj heq
  have hwritten : List.flatMap (fun c : Char => [c]) = fun chars => chars :=
    funext List.flatMap_singleton'
  exact hwritten ▸ hone.flatMap

end CellAlign.Text

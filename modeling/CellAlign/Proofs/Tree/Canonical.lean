import CellAlign.Proofs.Json.Walks
import CellAlign.Proofs.Tree.Decoding
import CellAlign.Tree.Reader

/-!
# What is decoded is canonical

A properties object is decoded into canonical properties, whatever its members are: null is the same
as absence for the known ones, and all others are put among the entries, where a key that comes
again takes the place it has.

* `Entries.keys_put`: the keys of entries after one is put;
* `Properties.canonical_ofMembers`, `Properties.canonical_ofJson`: properties that are read.
-/

namespace CellAlign

open Json (Value Cause Outcome)

/-- A mapped answer comes from an answer. -/
theorem exists_of_map_eq_ok {ε α β : Type} {f : α → β} {outcome : Except ε α} {b : β}
    (h : outcome.map f = .ok b) : ∃ a, outcome = .ok a ∧ f a = b := by
  cases outcome with
  | error e => cases h
  | ok a =>
      cases h
      exact ⟨a, rfl, rfl⟩

namespace Entries

variable {α : Type}

/-- A key that is put stays where it is, or goes to the end if it is new. -/
theorem keys_put (key : String) (value : α) (entries : Entries α) :
    keys (put key value entries) =
      if key ∈ keys entries then keys entries else keys entries ++ [key] := by
  induction entries with
  | nil => rfl
  | cons entry entries ih =>
      obtain ⟨k, v⟩ := entry
      have hcons : ∀ rest : Entries α, keys ((k, v) :: rest) = k :: keys rest := fun _ => rfl
      by_cases hk : k = key
      · subst hk
        simp [put, keys]
      · rw [put, if_neg hk, hcons, hcons, ih]
        by_cases hmem : key ∈ keys entries
        · rw [if_pos hmem, if_pos (List.mem_cons_of_mem _ hmem)]
        · rw [if_neg hmem, if_neg, List.cons_append]
          rintro (_ | ⟨_, hmem'⟩)
          · exact hk rfl
          · exact hmem hmem'

/-- Keys that are distinct stay so. -/
theorem nodup_keys_put {entries : Entries α} (h : entries.keys.Nodup) (key : String) (value : α) :
    (keys (put key value entries)).Nodup := by
  rw [keys_put]
  split
  · exact h
  · next hnew =>
    refine List.nodup_append.mpr ⟨h, by simp, ?_⟩
    intro k hk other hother
    obtain rfl := List.mem_singleton.mp hother
    exact fun heq => hnew (heq ▸ hk)

/-- The keys are those before and the one that is put. -/
theorem mem_keys_put {key k : String} {value : α} {entries : Entries α} :
    k ∈ keys (put key value entries) ↔ k ∈ keys entries ∨ k = key := by
  rw [keys_put]
  split
  · next hmem =>
    constructor
    · exact Or.inl
    · rintro (hk | rfl)
      · exact hk
      · exact hmem
  · rw [List.mem_append, List.mem_singleton]

end Entries

namespace PropertyValue

/-- Only null stands for null. -/
theorem eq_null_of_ofValue? {value : Value} (h : ofValue? value = some .null) : value = .null := by
  cases value with
  | null => rfl
  | bool | number | string => simp [ofValue?] at h
  | array items =>
      rw [ofValue?] at h
      split at h <;> cases h
  | object members => simp [ofValue?] at h

/-- The value of a known property is not null. -/
theorem decodeKnown_ne_null {value : Value} {found : Option PropertyValue}
    (h : decodeKnown value = .ok found) : found ≠ some .null := by
  rintro rfl
  unfold decodeKnown at h
  split at h
  · cases h
  · next hnull =>
    obtain ⟨v, hv, heq⟩ := exists_of_map_eq_ok h
    cases heq
    unfold decode at hv
    split at hv
    · next found hfound =>
      cases hv
      exact hnull (eq_null_of_ofValue? hfound)
    · cases hv

end PropertyValue

namespace Properties

namespace Draft

/-- What is known of a properties object will do for canonical properties: no known property is
null, and the members that are kept have unknown keys. -/
structure Sound (draft : Draft) : Prop where
  align : draft.align ≠ some (some .null)
  style : draft.style ≠ some (some .null)
  unknown : ∀ m ∈ draft.other, m.1 ∉ knownKeys

/-- Nothing is known at first. -/
theorem sound_empty : ({} : Draft).Sound := ⟨nofun, nofun, nofun⟩

/-- A member that is taken in is a known one that is not null, or it is kept. -/
theorem Sound.take {draft next : Draft} {key : String} {value : Value} (h : draft.Sound)
    (htake : draft.take key value = .ok next) : next.Sound := by
  unfold Draft.take at htake
  split at htake
  · obtain ⟨v, hv, rfl⟩ := exists_of_map_eq_ok htake
    have hnull := PropertyValue.decodeKnown_ne_null hv
    exact ⟨fun heq => hnull (Option.some.inj heq), h.style, h.unknown⟩
  · split at htake
    · obtain ⟨c, -, rfl⟩ := exists_of_map_eq_ok htake
      exact ⟨h.align, h.style, h.unknown⟩
    · split at htake
      · obtain ⟨v, hv, rfl⟩ := exists_of_map_eq_ok htake
        have hnull := PropertyValue.decodeKnown_ne_null hv
        exact ⟨h.align, fun heq => hnull (Option.some.inj heq), h.unknown⟩
      · next halign hclass hstyle =>
        cases htake
        refine ⟨h.align, h.style, fun m hm => ?_⟩
        rcases List.mem_cons.mp hm with rfl | hm
        · simp [knownKeys, halign, hclass, hstyle]
        · exact h.unknown m hm

/-- Members are taken in one after the other. -/
theorem Sound.takeAll {draft next : Draft} {members : List (String × Value)} (h : draft.Sound)
    (htake : draft.takeAll members = .ok next) : next.Sound := by
  induction members generalizing draft with
  | nil =>
      obtain rfl : draft = next := by simpa [Draft.takeAll] using htake
      exact h
  | cons member members ih =>
      obtain ⟨key, value⟩ := member
      rw [Draft.takeAll] at htake
      split at htake
      · cases htake
      · split at htake
        · cases htake
        · next hmember => exact ih (h.take hmember) htake

/-- Entries have distinct keys, those seen before and those of the members. -/
theorem entries_keys {seen found : Entries PropertyValue} {members : List (String × Value)}
    (hseen : seen.keys.Nodup) (h : entries seen members = .ok found) :
    found.keys.Nodup ∧ ∀ key ∈ found.keys, key ∈ seen.keys ∨ key ∈ members.map Prod.fst := by
  induction members generalizing seen with
  | nil =>
      obtain rfl : seen = found := by simpa [entries] using h
      exact ⟨hseen, fun key hkey => Or.inl hkey⟩
  | cons member members ih =>
      obtain ⟨k, value⟩ := member
      rw [entries] at h
      split at h
      · next v hv =>
        obtain ⟨hnodup, hmem⟩ := ih (Entries.nodup_keys_put hseen k v) h
        refine ⟨hnodup, fun key hkey => ?_⟩
        rcases hmem key hkey with hput | hlater
        · rcases Entries.mem_keys_put.mp hput with hold | rfl
          · exact Or.inl hold
          · exact Or.inr List.mem_cons_self
        · exact Or.inr (List.mem_cons_of_mem _ hlater)
      · cases h

/-- The properties of an object at its end are canonical. -/
theorem Sound.finish {draft : Draft} {properties : Properties} (h : draft.Sound)
    (hfinish : draft.finish = .ok properties) : properties.Canonical := by
  obtain ⟨other, hother, rfl⟩ := exists_of_map_eq_ok hfinish
  have hgetD : ∀ found : Option (Option PropertyValue), found ≠ some (some .null) →
      found.getD none ≠ some .null := by
    rintro (_ | found) hfound
    · exact nofun
    · exact fun heq => hfound (congrArg some heq)
  have hnone : (Entries.keys ([] : Entries PropertyValue)).Nodup := .nil
  obtain ⟨hnodup, hkeys⟩ := entries_keys hnone hother
  refine ⟨hgetD _ h.align, hgetD _ h.style, hnodup, fun key hkey => ?_⟩
  rcases hkeys key hkey with hseen | hmember
  · cases hseen
  · obtain ⟨m, hm, rfl⟩ := List.mem_map.mp hmember
    exact h.unknown m (List.mem_reverse.mp hm)

end Draft

/-- The properties that the members of an object stand for are canonical. -/
theorem canonical_ofMembers {members : List (String × Value)} {properties : Properties}
    (h : ofMembers members = .ok properties) : properties.Canonical := by
  unfold ofMembers at h
  split at h
  · next draft hdraft => exact (Draft.sound_empty.takeAll hdraft).finish h
  · cases h

/-- The properties of an element are canonical, if it has any. -/
theorem canonical_decode {value : Value} {found : Option Properties}
    (h : decode value = .ok found) : ∀ p ∈ found, p.Canonical := by
  intro p hp
  unfold decode at h
  split at h
  · cases h
    cases hp
  · obtain ⟨properties, hproperties, rfl⟩ := exists_of_map_eq_ok h
    cases hp
    exact canonical_ofMembers hproperties
  · cases h

end Properties

/-! ## Texts -/

/-- What was decoded is accepted if only a gap follows it. -/
theorem atEnd_eq_ok_iff {α : Type} {text rest : List Char} {value found : α} :
    atEnd text value rest = .ok found ↔ Json.readEnd rest = .ok () ∧ value = found := by
  rw [atEnd]
  cases Json.readEnd rest <;> simp

namespace Properties

/-- A member that is read is taken in. -/
theorem Draft.Sound.readMember {draft next : Draft} {key : String} {text rest : List Char}
    (h : draft.Sound) (hread : readMember draft key text = .ok (next, rest)) : next.Sound := by
  unfold Properties.readMember at hread
  split at hread
  · cases hread
  · split at hread
    · cases hread
    · split at hread
      · cases hread
      · split at hread
        · cases hread
        · next taken htake =>
          cases hread
          exact h.take htake

/-- The properties of a JSON text are canonical. -/
theorem canonical_ofJson {text : String} {properties : Properties}
    (h : ofJson text = .ok properties) : properties.Canonical := by
  unfold ofJson at h
  split at h
  · cases h
  · next found rest hread =>
    obtain ⟨-, rfl⟩ := atEnd_eq_ok_iff.mp h
    unfold read at hread
    split at hread
    · split at hread
      · cases hread
      · next draft _ hwalk =>
        have hsound : draft.Sound :=
          Json.walkObject_keeps Draft.Sound (fun hdraft hmember => hdraft.readMember hmember)
            Draft.sound_empty hwalk
        split at hread
        · cases hread
        · next hfinish =>
          cases hread
          exact hsound.finish hfinish
    · exact absurd hread (Json.readUnwanted_ne_ok _ _ _)

end Properties

end CellAlign

/-
# Tables of weak references

A table remembers the object last made for a key without keeping it alive. As long as
an object is only made when the table has nothing alive for its key, the table knows
every object that is alive, and there is one for each key at most.

Which objects are alive, and the keys they were made for, is a relation; it shrinks
when objects go, behind the table's back.
-/

import FerroRemote.Math.Table

namespace FerroRemote.WeakTable

/-- The table has every object that is alive under the key it was made for. -/
def Tracks (entries : Table Nat) (alive : Nat → Nat → Prop) : Prop :=
  ∀ ⦃o k : Nat⦄, alive o k → entries[k]? = some o

/-- What locking the reference under a key gives. -/
def lock (entries : Table Nat) (isAlive : Nat → Bool) (k : Nat) : Option Nat :=
  entries[k]?.filter isAlive

variable {entries : Table Nat} {alive alive' : Nat → Nat → Prop} {isAlive : Nat → Bool}
  {o o' k : Nat}

theorem lock_eq_some_iff :
    lock entries isAlive k = some o ↔ entries[k]? = some o ∧ isAlive o = true := by
  rw [lock, Option.filter_eq_some_iff]

theorem tracks_empty (hnone : ∀ o k, ¬ alive o k) : Tracks ∅ alive :=
  fun o k halive => absurd halive (hnone o k)

theorem Tracks.unique (htracks : Tracks entries alive) (ho : alive o k) (ho' : alive o' k) :
    o = o' :=
  Option.some_inj.mp ((htracks ho).symm.trans (htracks ho'))

theorem Tracks.shrink (htracks : Tracks entries alive)
    (hless : ∀ o k, alive' o k → alive o k) : Tracks entries alive' :=
  fun o k halive => htracks (hless o k halive)

theorem Tracks.lock_eq (htracks : Tracks entries alive) (halive : alive o k)
    (hisAlive : isAlive o = true) : lock entries isAlive k = some o :=
  lock_eq_some_iff.mpr ⟨htracks halive, hisAlive⟩

theorem Tracks.none_alive (htracks : Tracks entries alive)
    (hisAlive : ∀ o k, alive o k → isAlive o = true)
    (hnone : lock entries isAlive k = none) (o : Nat) : ¬ alive o k := by
  intro halive
  rw [htracks.lock_eq halive (hisAlive o k halive)] at hnone
  cases hnone

/-- An object is made for a key that has none. -/
theorem Tracks.create (htracks : Tracks entries alive) (hnone : ∀ o, ¬ alive o k)
    (hmore : ∀ o' k', alive' o' k' → alive o' k' ∨ o' = o ∧ k' = k) :
    Tracks (entries.insert k o) alive' := by
  intro o' k' halive
  rw [Table.getElem?_insert_eq]
  cases hmore o' k' halive with
  | inl hold =>
      have hne : k ≠ k' := fun heq => hnone o' (heq ▸ hold)
      rw [if_neg hne]
      exact htracks hold
  | inr hnew => rw [if_pos hnew.2.symm, hnew.1]

/-- The entry of a key that has no object may be forgotten. -/
theorem Tracks.forget (htracks : Tracks entries alive) (hnone : ∀ o, ¬ alive o k) :
    Tracks (entries.erase k) alive := by
  intro o k' halive
  have hne : k ≠ k' := fun heq => hnone o (heq ▸ halive)
  rw [Table.getElem?_erase_of_ne hne]
  exact htracks halive

end FerroRemote.WeakTable

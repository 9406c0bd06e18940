/-
# Tables that lose keys

`Without` compares a table with the one it becomes when some of its keys go, and
`SameKeys` two tables that are kept beside each other. Tables that lose the same keys have
the same keys as long as they had them before.
-/

import FerroRemote.Math.Table

namespace FerroRemote

namespace Table

universe u v

variable {V : Type u} {W : Type v}

/-- The second table is the first without the entries of some keys. -/
def Without (t t' : Table V) (gone : List Nat) : Prop :=
  ∀ k : Nat, t'[k]? = if k ∈ gone then none else t[k]?

/-- Every key of one table is a key of the other. -/
def SameKeys (t : Table V) (w : Table W) : Prop := ∀ k, k ∈ t ↔ k ∈ w

theorem SameKeys.insert {t : Table V} {w : Table W} (hsame : SameKeys t w) (k : Nat) (v : V)
    (v' : W) : SameKeys (t.insert k v) (w.insert k v') := by
  intro a
  rw [mem_insert_iff, mem_insert_iff, hsame a]

theorem SameKeys.congr {t t' : Table V} {w w' : Table W} (hsame : SameKeys t w)
    (ht : ∀ k, k ∈ t' ↔ k ∈ t) (hw : ∀ k, k ∈ w' ↔ k ∈ w) : SameKeys t' w' := by
  intro k
  rw [ht, hw, hsame]

section Without

variable {t t' : Table V} {gone : List Nat}

/-- A table that loses the keys of a predicate loses those of a list when the two agree on
the keys that were there. -/
theorem without_iff {p : Nat → Prop} [DecidablePred p]
    (hlost : ∀ k : Nat, t'[k]? = if p k then none else t[k]?) :
    Without t t' gone ↔ ∀ k ∈ t, (p k ↔ k ∈ gone) := by
  apply Iff.intro
  · intro hwithout k hk
    have hvalue := (hlost k).symm.trans (hwithout k)
    have hsome := Std.ExtTreeMap.isSome_getElem?_iff_mem.mpr hk
    by_cases hp : p k <;> by_cases hgone : k ∈ gone
    · exact iff_of_true hp hgone
    · rw [if_pos hp, if_neg hgone] at hvalue
      rw [← hvalue] at hsome
      cases hsome
    · rw [if_neg hp, if_pos hgone] at hvalue
      rw [hvalue] at hsome
      cases hsome
    · exact iff_of_false hp hgone
  · intro hagree k
    rw [hlost]
    by_cases hk : k ∈ t
    · simp only [hagree k hk]
    · rw [(not_mem_iff t k).mp hk, ite_self, ite_self]

theorem without_self_iff : Without t t gone ↔ ∀ k ∈ t, k ∉ gone := by
  rw [without_iff (t := t) (p := fun _ => False) fun k => (if_neg not_false).symm]
  simp only [false_iff]

theorem without_erase_iff {a : Nat} :
    Without t (t.erase a) gone ↔ ∀ k ∈ t, (a = k ↔ k ∈ gone) :=
  without_iff (getElem?_erase_eq t a)

theorem Without.mem_iff (hwithout : Without t t' gone) (k : Nat) :
    k ∈ t' ↔ k ∉ gone ∧ k ∈ t := by
  rw [← Std.ExtTreeMap.isSome_getElem?_iff_mem, hwithout k]
  by_cases hgone : k ∈ gone
  · simp [hgone]
  · simp [hgone]

theorem Without.eq_of_absent (hwithout : Without t t' gone) (habsent : ∀ k ∈ gone, k ∉ t) :
    t' = t := by
  apply Std.ExtTreeMap.ext_getElem?
  intro k
  rw [hwithout k]
  split
  · next hgone => exact ((not_mem_iff t k).mp (habsent k hgone)).symm
  · rfl

theorem without_refl (t : Table V) : Without t t [] := fun _ => (if_neg List.not_mem_nil).symm

theorem Without.trans {t'' : Table V} {more : List Nat} (hfirst : Without t t' gone)
    (hsecond : Without t' t'' more) : Without t t'' (gone ++ more) := by
  intro k
  rw [hsecond k, hfirst k]
  by_cases hmore : k ∈ more <;> by_cases hgone : k ∈ gone <;> simp [hmore, hgone]

/-- Which keys are lost matters where there is an entry. -/
theorem Without.iff_of_lists {more : List Nat} (hwithout : Without t t' gone) :
    Without t t' more ↔ ∀ k ∈ t, (k ∈ gone ↔ k ∈ more) :=
  without_iff hwithout

theorem without_erase (t : Table V) (k : Nat) : Without t (t.erase k) [k] := by
  rw [without_erase_iff]
  intro a _
  rw [List.mem_singleton, eq_comm]

theorem Without.sameKeys (hwithout : Without t t' gone) {w w' : Table W}
    (hwithout' : Without w w' gone) (hsame : SameKeys t w) : SameKeys t' w' := by
  intro k
  rw [hwithout.mem_iff, hwithout'.mem_iff, hsame]

end Without

end Table

end FerroRemote

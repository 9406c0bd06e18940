/-
# Finite tables with numeric keys

An ordered map from naturals, used for every `std::map` of the program. The
type is the extensional tree map of the standard library; this module only adds
the few facts about emptiness, filtering and enumeration that the developments
on top of it rely on.
-/

import Mathlib.Tactic.Common

namespace FerroRemote

universe u v

/-- An ordered finite map whose keys are unsigned numbers. -/
abbrev Table (V : Type u) : Type u := Std.ExtTreeMap Nat V compare

namespace Table

variable {V : Type u} {W : Type v}

theorem getElem?_insert_eq (t : Table V) (k a : Nat) (v : V) :
    (t.insert k v)[a]? = if k = a then some v else t[a]? := by
  simp [Std.ExtTreeMap.getElem?_insert]

theorem getElem?_erase_eq (t : Table V) (k a : Nat) :
    (t.erase k)[a]? = if k = a then none else t[a]? := by
  simp [Std.ExtTreeMap.getElem?_erase]

theorem getElem?_insert_self (t : Table V) (k : Nat) (v : V) : (t.insert k v)[k]? = some v := by
  rw [getElem?_insert_eq, if_pos rfl]

theorem getElem?_insert_of_ne {t : Table V} {k a : Nat} (hne : k ≠ a) (v : V) :
    (t.insert k v)[a]? = t[a]? := by
  rw [getElem?_insert_eq, if_neg hne]

theorem getElem?_erase_self (t : Table V) (k : Nat) : (t.erase k)[k]? = none := by
  rw [getElem?_erase_eq, if_pos rfl]

theorem getElem?_erase_of_ne {t : Table V} {k a : Nat} (hne : k ≠ a) :
    (t.erase k)[a]? = t[a]? := by
  rw [getElem?_erase_eq, if_neg hne]

/-- What is found after erasing was there, at another key. -/
theorem getElem?_erase_eq_some_iff {t : Table V} {k a : Nat} {v : V} :
    (t.erase k)[a]? = some v ↔ k ≠ a ∧ t[a]? = some v := by
  rw [getElem?_erase_eq]
  by_cases heq : k = a
  · rw [if_pos heq]
    exact iff_of_false (Option.some_ne_none v).symm (fun hfound => hfound.1 heq)
  · rw [if_neg heq]
    exact (and_iff_right heq).symm

theorem getElem?_insertIfNew_eq (t : Table V) (k a : Nat) (v : V) :
    (t.insertIfNew k v)[a]? = if k = a ∧ t[k]? = none then some v else t[a]? := by
  simp [Std.ExtTreeMap.getElem?_insertIfNew]

theorem getElem?_empty_ne (k : Nat) (v : V) : (∅ : Table V)[k]? ≠ some v := by
  rw [Std.ExtTreeMap.getElem?_empty]
  exact (Option.some_ne_none v).symm

theorem insert_of_getElem? {t : Table V} {k : Nat} {v : V} (hk : t[k]? = some v) :
    t.insert k v = t := by
  refine Std.ExtTreeMap.ext_getElem? fun a => ?_
  rw [getElem?_insert_eq]
  split
  · next heq => exact heq ▸ hk.symm
  · rfl

theorem insertIfNew_of_getElem? {t : Table V} {k : Nat} {v : V} (hk : t[k]? = some v) (w : V) :
    t.insertIfNew k w = t := by
  refine Std.ExtTreeMap.ext_getElem? fun a => ?_
  rw [getElem?_insertIfNew_eq, if_neg]
  intro hnew
  rw [hk] at hnew
  cases hnew.2

/-- Storing twice under one key keeps the second value only. -/
theorem insert_insert_self (t : Table V) (k : Nat) (v w : V) :
    (t.insert k v).insert k w = t.insert k w := by
  refine Std.ExtTreeMap.ext_getElem? fun a => ?_
  simp only [getElem?_insert_eq]
  split <;> rfl

/-- Erasing a key before storing under it makes no difference. -/
theorem insert_erase_self (t : Table V) (k : Nat) (v : V) :
    (t.erase k).insert k v = t.insert k v := by
  refine Std.ExtTreeMap.ext_getElem? fun a => ?_
  simp only [getElem?_insert_eq, getElem?_erase_eq]
  split <;> rfl

theorem erase_of_getElem? {t : Table V} {k : Nat} (hk : t[k]? = none) : t.erase k = t := by
  refine Std.ExtTreeMap.ext_getElem? fun a => ?_
  rw [getElem?_erase_eq]
  split
  · next heq => exact heq ▸ hk.symm
  · rfl

theorem mem_iff_exists (t : Table V) (k : Nat) : k ∈ t ↔ ∃ v, t[k]? = some v := by
  rw [← Option.isSome_iff_exists, Std.ExtTreeMap.isSome_getElem?_iff_mem]

theorem not_mem_iff (t : Table V) (k : Nat) : k ∉ t ↔ t[k]? = none := by
  rw [← Std.ExtTreeMap.isSome_getElem?_iff_mem, Option.not_isSome_iff_eq_none]

theorem mem_insert_iff (t : Table V) (k a : Nat) (v : V) : a ∈ t.insert k v ↔ k = a ∨ a ∈ t := by
  simp [Std.ExtTreeMap.mem_insert]

theorem mem_erase_iff (t : Table V) (k a : Nat) : a ∈ t.erase k ↔ k ≠ a ∧ a ∈ t := by
  simp [Std.ExtTreeMap.mem_erase]

/-- Storing under a key that is there adds no key. -/
theorem mem_insert_of_mem {t : Table V} {k : Nat} (hk : k ∈ t) (v : V) (a : Nat) :
    a ∈ t.insert k v ↔ a ∈ t := by
  rw [mem_insert_iff]
  apply or_iff_right_of_imp
  rintro rfl
  exact hk

/-- What holds of the keys holds of them and one more. -/
theorem forall_mem_insert {t : Table V} {k : Nat} {p : Nat → Prop} (v : V) (hk : p k)
    (hall : ∀ a ∈ t, p a) : ∀ a ∈ t.insert k v, p a := by
  intro a ha
  rcases (mem_insert_iff t k a v).mp ha with rfl | hold
  · exact hk
  · exact hall a hold

/-- The bound of the keys is used as a key, and moves up. -/
theorem forall_lt_insert {t : Table V} {n : Nat} (v : V) (hall : ∀ a ∈ t, a < n) :
    ∀ a ∈ t.insert n v, a < n + 1 :=
  forall_mem_insert v (Nat.lt_succ_self n) fun a ha => Nat.lt_succ_of_lt (hall a ha)

theorem mem_congr {t t' : Table V} {k : Nat} (h : t[k]? = t'[k]?) : k ∈ t ↔ k ∈ t' := by
  rw [mem_iff_exists, mem_iff_exists, h]

theorem isEmpty_iff_forall (t : Table V) :
    t.isEmpty = true ↔ ∀ k : Nat, t[k]? = none := by
  constructor
  · intro hempty k
    have hmap : t = ∅ := Std.ExtTreeMap.isEmpty_iff.mp hempty
    simp [hmap]
  · intro hnone
    have hmap : t = ∅ := Std.ExtTreeMap.ext_getElem? fun k => by simpa using hnone k
    simp [hmap]

theorem isEmpty_eq_false_iff_exists (t : Table V) :
    t.isEmpty = false ↔ ∃ (k : Nat) (v : V), t[k]? = some v := by
  constructor
  · intro hempty
    by_contra hnone
    have hall : ∀ k : Nat, t[k]? = none := by
      intro k
      cases hk : t[k]? with
      | none => rfl
      | some v => exact absurd ⟨k, v, hk⟩ hnone
    rw [(isEmpty_iff_forall t).mpr hall] at hempty
    cases hempty
  · rintro ⟨k, v, hk⟩
    by_contra hempty
    have hnone := (isEmpty_iff_forall t).mp (by simpa using hempty) k
    rw [hk] at hnone
    cases hnone

theorem getElem?_filter_eq (t : Table V) (keep : Nat → V → Bool) (k : Nat) :
    (t.filter keep)[k]? = t[k]?.filter (keep k) := by
  rw [Std.ExtTreeMap.getElem?_filter]
  simp only [Std.ExtTreeMap.getKey_eq, Option.pfilter_eq_filter]

theorem any_toList_iff (t : Table V) (p : Nat → V → Bool) :
    t.toList.any (fun entry => p entry.1 entry.2) = true ↔
      ∃ (k : Nat) (v : V), t[k]? = some v ∧ p k v = true := by
  rw [List.any_eq_true]
  constructor
  · rintro ⟨⟨k, v⟩, hmem, hp⟩
    exact ⟨k, v, Std.ExtTreeMap.mem_toList_iff_getElem?_eq_some.mp hmem, hp⟩
  · rintro ⟨k, v, hk, hp⟩
    exact ⟨(k, v), Std.ExtTreeMap.mem_toList_iff_getElem?_eq_some.mpr hk, hp⟩

theorem nodup_toList (t : Table V) : t.toList.Nodup := by
  refine (Std.ExtTreeMap.distinct_keys_toList (t := t)).imp ?_
  intro a b hkey heq
  exact hkey (by simp [heq])

/-- A new key adds its pair to the enumeration. -/
theorem toList_insert_perm {t : Table V} {k : Nat} (v : V) (hk : t[k]? = none) :
    (t.insert k v).toList.Perm ((k, v) :: t.toList) := by
  have hnew : (k, v) ∉ t.toList := by
    rw [Std.ExtTreeMap.mem_toList_iff_getElem?_eq_some, hk]
    exact (Option.some_ne_none v).symm
  apply (List.perm_ext_iff_of_nodup (nodup_toList _)
    (List.nodup_cons.mpr ⟨hnew, nodup_toList t⟩)).mpr
  rintro ⟨a, w⟩
  rw [List.mem_cons, Std.ExtTreeMap.mem_toList_iff_getElem?_eq_some,
    Std.ExtTreeMap.mem_toList_iff_getElem?_eq_some, getElem?_insert_eq, Prod.mk.injEq]
  by_cases heq : k = a
  · subst heq
    rw [if_pos rfl, hk, Option.some_inj, or_iff_left (Option.some_ne_none w).symm, and_iff_right rfl,
      eq_comm]
  · rw [if_neg heq, or_iff_right fun hboth => heq hboth.1.symm]

/-- An erased key takes its pair from the enumeration. -/
theorem toList_erase_perm {t : Table V} {k : Nat} {v : V} (hk : t[k]? = some v) :
    t.toList.Perm ((k, v) :: (t.erase k).toList) := by
  have hnone : (t.erase k)[k]? = none := getElem?_erase_self t k
  have hinsert := toList_insert_perm v hnone
  rwa [insert_erase_self, insert_of_getElem? hk] at hinsert

/-- When one stored pair passes a test, the enumeration shows just this pair. -/
theorem filter_toList_of_unique {t : Table V} {k : Nat} {v : V} (p : Nat → V → Bool)
    (hk : t[k]? = some v) (hp : p k v = true)
    (hunique : ∀ (k' : Nat) (v' : V), t[k']? = some v' → p k' v' = true → k' = k) :
    (t.toList.filter fun entry => p entry.1 entry.2) = [(k, v)] := by
  have hall : ∀ entry ∈ t.toList.filter (fun entry => p entry.1 entry.2), entry = (k, v) := by
    intro entry hentry
    obtain ⟨hmem, hpass⟩ := List.mem_filter.mp hentry
    have hvalue := Std.ExtTreeMap.mem_toList_iff_getElem?_eq_some.mp hmem
    have hkey := hunique entry.1 entry.2 hvalue hpass
    rw [hkey, hk] at hvalue
    exact Prod.ext hkey (Option.some.inj hvalue).symm
  have hin : (k, v) ∈ t.toList.filter (fun entry => p entry.1 entry.2) :=
    List.mem_filter.mpr ⟨Std.ExtTreeMap.mem_toList_iff_getElem?_eq_some.mpr hk, hp⟩
  have hnodup := (nodup_toList t).filter fun entry => p entry.1 entry.2
  cases hlist : t.toList.filter (fun entry => p entry.1 entry.2) with
  | nil =>
      rw [hlist] at hin
      cases hin
  | cons a as =>
      rw [hlist] at hall hnodup
      cases as with
      | nil => rw [hall a List.mem_cons_self]
      | cons b bs =>
          have ha := hall a List.mem_cons_self
          have hb := hall b (List.mem_cons_of_mem _ List.mem_cons_self)
          exact absurd (List.mem_cons.mpr (.inl (ha.trans hb.symm))) (List.nodup_cons.mp hnodup).1

/-- The enumeration shows a key's value and nothing else under that key. -/
theorem filter_toList {t : Table V} {k : Nat} {v : V} (hk : t[k]? = some v) :
    (t.toList.filter fun entry => entry.1 = k) = [(k, v)] := by
  apply filter_toList_of_unique (fun k' _ => decide (k' = k)) hk (decide_eq_true rfl)
  intro k' v' _ hpass
  exact of_decide_eq_true hpass

end Table

end FerroRemote

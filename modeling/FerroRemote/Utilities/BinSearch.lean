/-
# The searches of `bin-search.h`

Three loops halve a range of iterators until nothing is left of it, or until the element in
the middle is equal to the value. They differ in what they do with that element. A range
keeps its begin before its end, which is why the loops may ask whether the two are
different and need not ask which is first.

The loops also say which positions they access.
-/

import FerroRemote.Math.BinarySearch
import Mathlib.Order.RelClasses

namespace FerroRemote.Utilities

structure IterRange where
  first : Nat
  last : Nat
  le : first ≤ last

namespace IterRange

variable (r : IterRange)

/-- `std::distance( begin, end ) >> 1` behind the begin -/
def middle : Nat := r.first + (r.last - r.first) / 2

variable {r}

theorem middle_lt (hne : r.first ≠ r.last) : r.middle < r.last := by
  have hle := r.le
  rw [middle]
  omega

theorem le_middle : r.first ≤ r.middle := Nat.le_add_right _ _

variable (r)

/-- `begin = m; std::advance( begin, 1 )` -/
def behind (hne : r.first ≠ r.last) : IterRange := ⟨r.middle + 1, r.last, middle_lt hne⟩

/-- `end = m` -/
def before : IterRange := ⟨r.first, r.middle, le_middle⟩

@[simp]
theorem behind_first (hne : r.first ≠ r.last) : (r.behind hne).first = r.middle + 1 := rfl

@[simp]
theorem behind_last (hne : r.first ≠ r.last) : (r.behind hne).last = r.last := rfl

@[simp]
theorem before_first : r.before.first = r.first := rfl

@[simp]
theorem before_last : r.before.last = r.middle := rfl

end IterRange

/-- How a loop ends: at an element, or where the range has become empty. -/
structure Halved where
  found : Option Nat
  first : Nat
  accessed : List Nat
  deriving DecidableEq, Repr

/-- The turns of a loop after one that accessed `m` -/
def Halved.after (m : Nat) (h : Halved) : Halved := { h with accessed := m :: h.accessed }

@[simp]
theorem Halved.after_found (m : Nat) (h : Halved) : (h.after m).found = h.found := rfl

@[simp]
theorem Halved.after_first (m : Nat) (h : Halved) : (h.after m).first = h.first := rfl

@[simp]
theorem Halved.after_accessed (m : Nat) (h : Halved) :
    (h.after m).accessed = m :: h.accessed := rfl

/-- The loop of the searches. It goes on behind the element in the middle, or before it, or
stops there. -/
def halve (comp : Nat → Ordering) (r : IterRange) : Halved :=
  if hne : r.first ≠ r.last then
    match comp r.middle with
    | .lt => (halve comp (r.behind hne)).after r.middle
    | .gt => (halve comp r.before).after r.middle
    | .eq => ⟨some r.middle, r.first, [r.middle]⟩
  else ⟨none, r.first, []⟩
termination_by r.last - r.first
decreasing_by
  · have hlt := IterRange.middle_lt hne
    have hle := r.le_middle
    simp only [IterRange.behind_first, IterRange.behind_last]
    omega
  · have hlt := IterRange.middle_lt hne
    have hle := r.le
    simp only [IterRange.before_first, IterRange.before_last]
    omega

section Searches

variable {α : Type} (lt : α → α → Prop) [DecidableRel lt] (elem : Nat → α) (value : α)

/-- The comparisons of `bin_search` -/
def searchSide (m : Nat) : Ordering :=
  if lt (elem m) value then .lt else if lt value (elem m) then .gt else .eq

/-- The comparison of `bin_lower_bound` -/
def lowerSide (m : Nat) : Ordering := if lt (elem m) value then .lt else .gt

/-- The comparison of `bin_upper_bound` -/
def upperSide (m : Nat) : Ordering := if lt value (elem m) then .gt else .lt

def binSearch (r : IterRange) : Nat :=
  (halve (searchSide lt elem value) r).found.getD r.last

def binLowerBound (r : IterRange) : Nat := (halve (lowerSide lt elem value) r).first

def binUpperBound (r : IterRange) : Nat := (halve (upperSide lt elem value) r).first

end Searches

section Loop

variable {comp : Nat → Ordering} {r : IterRange}

theorem halve_lt (hne : r.first ≠ r.last) (hcomp : comp r.middle = .lt) :
    halve comp r = (halve comp (r.behind hne)).after r.middle := by
  rw [halve, dif_pos hne, hcomp]

theorem halve_gt (hne : r.first ≠ r.last) (hcomp : comp r.middle = .gt) :
    halve comp r = (halve comp r.before).after r.middle := by
  rw [halve, dif_pos hne, hcomp]

theorem halve_eq (hne : r.first ≠ r.last) (hcomp : comp r.middle = .eq) :
    halve comp r = ⟨some r.middle, r.first, [r.middle]⟩ := by
  rw [halve, dif_pos hne, hcomp]

theorem halve_empty (hempty : ¬ r.first ≠ r.last) : halve comp r = ⟨none, r.first, []⟩ := by
  rw [halve, dif_neg hempty]

/-- No more positions are accessed than there are, and all are inside the range. -/
theorem halve_accessed (comp : Nat → Ordering) (r : IterRange) :
    (halve comp r).accessed.length ≤ r.last - r.first ∧
      ∀ m ∈ (halve comp r).accessed, r.first ≤ m ∧ m < r.last := by
  induction r using halve.induct comp with
  | case1 r hne hcomp ih =>
      have hlt := IterRange.middle_lt hne
      have hle := r.le_middle
      rw [IterRange.behind_first, IterRange.behind_last] at ih
      rw [halve_lt hne hcomp, Halved.after_accessed, List.length_cons, List.forall_mem_cons]
      refine ⟨by omega, ⟨hle, hlt⟩, fun m hm => ?_⟩
      have hm := ih.2 m hm
      omega
  | case2 r hne hcomp ih =>
      have hlt := IterRange.middle_lt hne
      have hle := r.le_middle
      rw [IterRange.before_first, IterRange.before_last] at ih
      rw [halve_gt hne hcomp, Halved.after_accessed, List.length_cons, List.forall_mem_cons]
      refine ⟨by omega, ⟨hle, hlt⟩, fun m hm => ?_⟩
      have hm := ih.2 m hm
      omega
  | case3 r hne hcomp =>
      have hlt := IterRange.middle_lt hne
      have hle := r.le_middle
      rw [halve_eq hne hcomp, List.forall_mem_singleton, List.length_singleton]
      exact ⟨by omega, hle, hlt⟩
  | case4 r hempty =>
      rw [halve_empty hempty]
      exact ⟨Nat.zero_le _, fun m hm => absurd hm List.not_mem_nil⟩

theorem halve_found (comp : Nat → Ordering) (r : IterRange) :
    (halve comp r).found = binarySearch comp r.first r.last := by
  induction r using halve.induct comp with
  | case1 r hne hcomp ih =>
      have hlt : r.first < r.last := Nat.lt_of_le_of_ne r.le hne
      rw [halve_lt hne hcomp, Halved.after_found, ih, binarySearch.eq_def comp r.first,
        if_pos hlt]
      rw [IterRange.middle] at hcomp
      simp only [hcomp]
      rfl
  | case2 r hne hcomp ih =>
      have hlt : r.first < r.last := Nat.lt_of_le_of_ne r.le hne
      rw [halve_gt hne hcomp, Halved.after_found, ih, binarySearch.eq_def comp r.first,
        if_pos hlt]
      rw [IterRange.middle] at hcomp
      simp only [hcomp]
      rfl
  | case3 r hne hcomp =>
      have hlt : r.first < r.last := Nat.lt_of_le_of_ne r.le hne
      rw [halve_eq hne hcomp, binarySearch, if_pos hlt]
      rw [IterRange.middle] at hcomp
      simp only [hcomp]
      rfl
  | case4 r hempty =>
      rw [halve_empty hempty, binarySearch, if_neg (by omega)]

/-- A loop that does not stop at an element ends at the first that is not below. -/
theorem halve_first (hcomp : ∀ m, comp m ≠ .eq) (r : IterRange) :
    (halve comp r).first = lowerBound (fun m => comp m == .lt) r.first r.last := by
  induction r using halve.induct comp with
  | case1 r hne hside ih =>
      have hlt : r.first < r.last := Nat.lt_of_le_of_ne r.le hne
      rw [halve_lt hne hside, Halved.after_first, ih, lowerBound.eq_def _ r.first, if_pos hlt]
      rw [IterRange.middle] at hside
      simp only [hside, beq_self_eq_true, if_true]
      rfl
  | case2 r hne hside ih =>
      have hlt : r.first < r.last := Nat.lt_of_le_of_ne r.le hne
      have hnot : (Ordering.gt == Ordering.lt) = false := rfl
      rw [halve_gt hne hside, Halved.after_first, ih, lowerBound.eq_def _ r.first, if_pos hlt]
      rw [IterRange.middle] at hside
      simp only [hside, hnot, Bool.false_eq_true, if_false]
      rfl
  | case3 r hne hside => exact absurd hside (hcomp r.middle)
  | case4 r hempty =>
      rw [halve_empty hempty, lowerBound, if_neg (by omega)]

end Loop

namespace IterRange

/-- The first position of a range with the property, or the end -/
def IsFirst (r : IterRange) (P : Nat → Prop) (n : Nat) : Prop :=
  r.first ≤ n ∧ n ≤ r.last ∧ (n < r.last → P n) ∧ ∀ i, r.first ≤ i → i < n → ¬ P i

/-- A position of a range with the property, or the end if there is none -/
def IsSome (r : IterRange) (P : Nat → Prop) (n : Nat) : Prop :=
  r.first ≤ n ∧ n < r.last ∧ P n ∨ n = r.last ∧ ∀ i, r.first ≤ i → i < r.last → ¬ P i

variable {r : IterRange} {P Q : Nat → Prop} {n : Nat}

theorem IsFirst.congr (hPQ : ∀ i, P i ↔ Q i) (hP : r.IsFirst P n) : r.IsFirst Q n := by
  rcases hP with ⟨hge, hle, hat, hbefore⟩
  refine ⟨hge, hle, fun hlt => (hPQ n).mp (hat hlt), ?_⟩
  intro i hi hin hQ
  exact hbefore i hi hin ((hPQ i).mpr hQ)

theorem IsSome.congr (hPQ : ∀ i, P i ↔ Q i) (hP : r.IsSome P n) : r.IsSome Q n := by
  rcases hP with ⟨hge, hlt, hat⟩ | ⟨hend, hnone⟩
  · exact .inl ⟨hge, hlt, (hPQ n).mp hat⟩
  · refine .inr ⟨hend, fun i hi hil hQ => ?_⟩
    exact hnone i hi hil ((hPQ i).mpr hQ)

end IterRange

/-- What is below comes first in a range. -/
def LowFirst (comp : Nat → Ordering) (r : IterRange) : Prop :=
  ∀ i j, r.first ≤ i → i < j → j < r.last → comp j = .lt → comp i = .lt

/-- What is above comes last in a range. -/
def HighLast (comp : Nat → Ordering) (r : IterRange) : Prop :=
  ∀ i j, r.first ≤ i → i < j → j < r.last → comp i = .gt → comp j = .gt

theorem halve_isFirst {comp : Nat → Ordering} {r : IterRange} (hcomp : ∀ m, comp m ≠ .eq)
    (hlow : LowFirst comp r) : r.IsFirst (fun i => comp i ≠ .lt) (halve comp r).first := by
  have hdown : ∀ i j, r.first ≤ i → i < j → j < r.last →
      (comp j == .lt) = true → (comp i == .lt) = true := by
    intro i j hi hij hj hbelow
    rw [beq_iff_eq] at hbelow ⊢
    exact hlow i j hi hij hj hbelow
  rcases exists_turn r.le hdown with ⟨n, hge, hle, hturn⟩
  have hfirst : (halve comp r).first = n := by
    rw [halve_first hcomp]
    exact lowerBound_eq hge hle hturn
  rw [hfirst]
  refine ⟨hge, hle, ?_, ?_⟩
  · intro hlt hbelow
    have hself := (hturn n hge hlt).mp (beq_iff_eq.mpr hbelow)
    omega
  · intro i hi hin hnot
    exact hnot (beq_iff_eq.mp ((hturn i hi (by omega)).mpr hin))

theorem halve_isSome {comp : Nat → Ordering} {r : IterRange} (hlow : LowFirst comp r)
    (hhigh : HighLast comp r) :
    r.IsSome (fun i => comp i = .eq) ((halve comp r).found.getD r.last) := by
  rw [halve_found]
  cases hfound : binarySearch comp r.first r.last with
  | some n => exact .inl (of_binarySearch_eq_some hfound)
  | none => exact .inr ⟨rfl, fun i => of_binarySearch_eq_none hlow hhigh hfound⟩

section Sorted

variable {α : Type} (lt : α → α → Prop) (elem : Nat → α)

/-- No element of the range is less than one before it. -/
def SortedRange (r : IterRange) : Prop :=
  ∀ i j, r.first ≤ i → i < j → j < r.last → ¬ lt (elem j) (elem i)

variable {lt elem}

section Sides

variable [DecidableRel lt] {value : α} {m : Nat}

theorem lowerSide_eq_lt : lowerSide lt elem value m = .lt ↔ lt (elem m) value := by
  rw [lowerSide]
  split_ifs with hlt
  · exact ⟨fun _ => hlt, fun _ => rfl⟩
  · exact ⟨fun hside => (nomatch hside), fun h => absurd h hlt⟩

theorem lowerSide_ne_eq : lowerSide lt elem value m ≠ .eq := by
  rw [lowerSide]
  split_ifs
  · decide
  · decide

theorem upperSide_eq_lt : upperSide lt elem value m = .lt ↔ ¬ lt value (elem m) := by
  rw [upperSide]
  split_ifs with hlt
  · exact ⟨fun hside => (nomatch hside), fun h => absurd hlt h⟩
  · exact ⟨fun _ => hlt, fun _ => rfl⟩

theorem upperSide_ne_eq : upperSide lt elem value m ≠ .eq := by
  rw [upperSide]
  split_ifs
  · decide
  · decide

theorem searchSide_eq_lt : searchSide lt elem value m = .lt ↔ lt (elem m) value := by
  rw [searchSide]
  split_ifs with hlt hgt
  · exact ⟨fun _ => hlt, fun _ => rfl⟩
  · exact ⟨fun hside => (nomatch hside), fun h => absurd h hlt⟩
  · exact ⟨fun hside => (nomatch hside), fun h => absurd h hlt⟩

theorem searchSide_eq_eq :
    searchSide lt elem value m = .eq ↔ ¬ lt (elem m) value ∧ ¬ lt value (elem m) := by
  rw [searchSide]
  split_ifs with hlt hgt
  · exact ⟨fun hside => (nomatch hside), fun h => absurd hlt h.1⟩
  · exact ⟨fun hside => (nomatch hside), fun h => absurd hgt h.2⟩
  · exact ⟨fun _ => ⟨hlt, hgt⟩, fun _ => rfl⟩

end Sides

variable [IsStrictWeakOrder α lt]

/-- In a strict weak order a third element is above the less one or below the other. -/
theorem lt_or_lt_of_lt {a b c : α} (hac : lt a c) : lt a b ∨ lt b c := by
  by_contra hnot
  rw [not_or] at hnot
  have hba : ¬ lt b a := fun hba => hnot.2 (IsTrans.trans _ _ _ hba hac)
  have hcb : ¬ lt c b := fun hcb => hnot.1 (IsTrans.trans _ _ _ hac hcb)
  exact (IsStrictWeakOrder.incomp_trans a b c ⟨hnot.1, hba⟩ ⟨hnot.2, hcb⟩).1 hac

variable {r : IterRange} {value : α}

theorem SortedRange.lt_value (hsorted : SortedRange lt elem r) {i j : Nat}
    (hi : r.first ≤ i) (hij : i < j) (hj : j < r.last) (hlt : lt (elem j) value) :
    lt (elem i) value :=
  (lt_or_lt_of_lt hlt).resolve_left (hsorted i j hi hij hj)

theorem SortedRange.value_lt (hsorted : SortedRange lt elem r) {i j : Nat}
    (hi : r.first ≤ i) (hij : i < j) (hj : j < r.last) (hlt : lt value (elem i)) :
    lt value (elem j) :=
  (lt_or_lt_of_lt hlt).resolve_right (hsorted i j hi hij hj)

variable [DecidableRel lt]

/-- The second comparison is made where the first fails, which loses nothing: of two elements
only one is less. -/
theorem searchSide_eq_gt {m : Nat} : searchSide lt elem value m = .gt ↔ lt value (elem m) := by
  rw [searchSide]
  split_ifs with hlt hgt
  · exact ⟨fun hside => (nomatch hside), fun h => absurd hlt (asymm_of lt h)⟩
  · exact ⟨fun _ => hgt, fun _ => rfl⟩
  · exact ⟨fun hside => (nomatch hside), fun h => absurd h hgt⟩

theorem binLowerBound_isFirst (hsorted : SortedRange lt elem r) (value : α) :
    r.IsFirst (fun i => ¬ lt (elem i) value) (binLowerBound lt elem value r) := by
  have hlow : LowFirst (lowerSide lt elem value) r := by
    intro i j hi hij hj hside
    rw [lowerSide_eq_lt] at hside ⊢
    exact hsorted.lt_value hi hij hj hside
  exact (halve_isFirst (fun _ => lowerSide_ne_eq) hlow).congr fun i => not_congr lowerSide_eq_lt

theorem binUpperBound_isFirst (hsorted : SortedRange lt elem r) (value : α) :
    r.IsFirst (fun i => lt value (elem i)) (binUpperBound lt elem value r) := by
  have hlow : LowFirst (upperSide lt elem value) r := by
    intro i j hi hij hj hside
    rw [upperSide_eq_lt] at hside ⊢
    exact fun hlt => hside (hsorted.value_lt hi hij hj hlt)
  apply (halve_isFirst (fun _ => upperSide_ne_eq) hlow).congr
  intro i
  rw [ne_eq, upperSide_eq_lt, not_not]

theorem binSearch_isSome (hsorted : SortedRange lt elem r) (value : α) :
    r.IsSome (fun i => ¬ lt (elem i) value ∧ ¬ lt value (elem i))
      (binSearch lt elem value r) := by
  have hlow : LowFirst (searchSide lt elem value) r := by
    intro i j hi hij hj hside
    rw [searchSide_eq_lt] at hside ⊢
    exact hsorted.lt_value hi hij hj hside
  have hhigh : HighLast (searchSide lt elem value) r := by
    intro i j hi hij hj hside
    rw [searchSide_eq_gt] at hside ⊢
    exact hsorted.value_lt hi hij hj hside
  exact (halve_isSome hlow hhigh).congr fun i => searchSide_eq_eq

/-- In a sorted range the bounds are the first element that is not less than the value and
the first that is greater, and a search finds an equal one if there is any. None of the loops
accesses more elements than the range has, or one outside it. -/
theorem searches_find (hsorted : SortedRange lt elem r) (value : α) :
    r.IsFirst (fun i => ¬ lt (elem i) value) (binLowerBound lt elem value r) ∧
      r.IsFirst (fun i => lt value (elem i)) (binUpperBound lt elem value r) ∧
      r.IsSome (fun i => ¬ lt (elem i) value ∧ ¬ lt value (elem i))
        (binSearch lt elem value r) ∧
      ∀ side ∈ [searchSide lt elem value, lowerSide lt elem value, upperSide lt elem value],
        (halve side r).accessed.length ≤ r.last - r.first ∧
          ∀ m ∈ (halve side r).accessed, r.first ≤ m ∧ m < r.last :=
  ⟨binLowerBound_isFirst hsorted value, binUpperBound_isFirst hsorted value,
    binSearch_isSome hsorted value, fun side _ => halve_accessed side r⟩

end Sorted

/-- A range with a run of equal elements inside -/
def runElem (i : Nat) : Nat := [1, 2, 2, 2, 3].getD i 0

theorem runElem_sorted : SortedRange (· < ·) runElem ⟨0, 5, by decide⟩ := by
  have hsorted : ∀ j < 5, ∀ i < j, ¬ runElem j < runElem i := by decide
  intro i j _ hij hj
  exact hsorted j hj i hij

/-- It and the three searches for what the run consists of -/
theorem searches_find_run :
    (binLowerBound (· < ·) runElem 2 ⟨0, 5, by decide⟩,
        binUpperBound (· < ·) runElem 2 ⟨0, 5, by decide⟩,
        binSearch (· < ·) runElem 2 ⟨0, 5, by decide⟩) = (1, 4, 2) ∧
      IterRange.IsFirst ⟨0, 5, by decide⟩ (fun i => ¬ runElem i < 2)
        (binLowerBound (· < ·) runElem 2 ⟨0, 5, by decide⟩) :=
  have : IsStrictWeakOrder Nat (· < ·) := isStrictWeakOrder_of_isOrderConnected
  ⟨by decide +kernel, (searches_find runElem_sorted 2).1⟩

end FerroRemote.Utilities

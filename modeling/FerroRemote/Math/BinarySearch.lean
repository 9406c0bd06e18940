/-
# Binary search by halving a range

Two loops over a range `[b, e)` of indices, written with a comparison and nothing else:
one narrows the range down to the first index that is not below, the other also stops
at an index it hits. Neither asks whether the range is in order; the laws say what they
find when it is, in terms of the place where the order turns.
-/

import Mathlib.Data.Nat.Find
import Mathlib.Tactic.Common

namespace FerroRemote

/-- The first index of a range that is not below what is looked for. -/
def lowerBound (below : Nat → Bool) (b e : Nat) : Nat :=
  if b < e then
    let m := b + (e - b) / 2
    if below m then lowerBound below (m + 1) e else lowerBound below b m
  else b
termination_by e - b

/-- An index of a range that compares equal, if the search comes across one. -/
def binarySearch (comp : Nat → Ordering) (b e : Nat) : Option Nat :=
  if b < e then
    let m := b + (e - b) / 2
    match comp m with
    | .lt => binarySearch comp (m + 1) e
    | .gt => binarySearch comp b m
    | .eq => some m
  else none
termination_by e - b

/-- The range turns at `n`: what is before it is below, and nothing else is. -/
theorem lowerBound_eq {below : Nat → Bool} {b e n : Nat} (hb : b ≤ n) (he : n ≤ e)
    (hturn : ∀ i, b ≤ i → i < e → (below i = true ↔ i < n)) : lowerBound below b e = n := by
  induction b, e using lowerBound.induct below with
  | case1 b e hlt m hbelow ih =>
      have hm : m < n := (hturn m (by omega) (by omega)).mp hbelow
      rw [lowerBound, if_pos hlt]
      simp only [m, hbelow, if_true]
      apply ih (by omega) he
      intro i hi hie
      exact hturn i (by omega) hie
  | case2 b e hlt m hbelow ih =>
      have hm : n ≤ m := by
        apply Nat.le_of_not_lt
        intro hlow
        exact hbelow ((hturn m (by omega) (by omega)).mpr hlow)
      rw [lowerBound, if_pos hlt]
      simp only [m, hbelow, Bool.false_eq_true, if_false]
      apply ih hb hm
      intro i hi him
      exact hturn i hi (by omega)
  | case3 b e hge =>
      rw [lowerBound, if_neg hge]
      omega

theorem exists_turn {below : Nat → Bool} {b e : Nat} (hle : b ≤ e)
    (hdown : ∀ i j, b ≤ i → i < j → j < e → below j = true → below i = true) :
    ∃ n, b ≤ n ∧ n ≤ e ∧ ∀ i, b ≤ i → i < e → (below i = true ↔ i < n) := by
  have hstop : ∃ n, b ≤ n ∧ (n = e ∨ below n = false) := ⟨e, hle, .inl rfl⟩
  have hfound := Nat.find_spec hstop
  refine ⟨Nat.find hstop, hfound.1, Nat.find_min' hstop ⟨hle, .inl rfl⟩, ?_⟩
  intro i hi hie
  apply Iff.intro
  · intro hbelow
    apply Nat.lt_of_not_le
    intro hge
    have hnot := hfound.2.resolve_left (by omega)
    rcases Nat.eq_or_lt_of_le hge with heq | hlt
    · rw [heq, hbelow] at hnot
      cases hnot
    · rw [hdown _ i hfound.1 hlt hie hbelow] at hnot
      cases hnot
  · intro hlt
    have hmin := Nat.find_min hstop hlt
    rw [not_and_or, not_or, Bool.not_eq_false] at hmin
    exact (hmin.resolve_left fun hnot => hnot hi).2

theorem of_binarySearch_eq_some {comp : Nat → Ordering} {b e n : Nat}
    (hhit : binarySearch comp b e = some n) : b ≤ n ∧ n < e ∧ comp n = .eq := by
  induction b, e using binarySearch.induct comp with
  | case1 b e hlt m hcomp ih =>
      rw [binarySearch, if_pos hlt] at hhit
      simp only [m, hcomp] at hhit
      have hn := ih hhit
      exact ⟨by omega, hn.2⟩
  | case2 b e hlt m hcomp ih =>
      rw [binarySearch, if_pos hlt] at hhit
      simp only [m, hcomp] at hhit
      have hn := ih hhit
      exact ⟨hn.1, by omega, hn.2.2⟩
  | case3 b e hlt m hcomp =>
      rw [binarySearch, if_pos hlt] at hhit
      simp only [m] at hcomp
      simp only [hcomp, Option.some_inj] at hhit
      subst hhit
      exact ⟨by omega, by omega, hcomp⟩
  | case4 b e hge =>
      rw [binarySearch, if_neg hge] at hhit
      cases hhit

/-- Where what is below comes first and what is above comes last, a search that hits nothing
has nothing to hit. -/
theorem of_binarySearch_eq_none {comp : Nat → Ordering} {b e : Nat}
    (hbelow : ∀ i j, b ≤ i → i < j → j < e → comp j = .lt → comp i = .lt)
    (habove : ∀ i j, b ≤ i → i < j → j < e → comp i = .gt → comp j = .gt)
    (hnone : binarySearch comp b e = none) {n : Nat} (hb : b ≤ n) (he : n < e) :
    comp n ≠ .eq := by
  induction b, e using binarySearch.induct comp with
  | case1 b e hlt m hcomp ih =>
      rw [binarySearch, if_pos hlt] at hnone
      simp only [m, hcomp] at hnone
      rcases Nat.lt_trichotomy n m with hnm | heq | hmn
      · rw [hbelow n m hb hnm (by omega) hcomp]
        decide
      · rw [heq, hcomp]
        decide
      · exact ih (fun i j hi => hbelow i j (by omega)) (fun i j hi => habove i j (by omega)) hnone
          hmn he
  | case2 b e hlt m hcomp ih =>
      rw [binarySearch, if_pos hlt] at hnone
      simp only [m, hcomp] at hnone
      rcases Nat.lt_trichotomy n m with hnm | heq | hmn
      · exact ih (fun i j hi hij hj => hbelow i j hi hij (by omega))
          (fun i j hi hij hj => habove i j hi hij (by omega)) hnone hb hnm
      · rw [heq, hcomp]
        decide
      · rw [habove m n (by omega) hmn he hcomp]
        decide
  | case3 b e hlt m hcomp =>
      rw [binarySearch, if_pos hlt] at hnone
      simp only [m] at hcomp
      simp only [hcomp] at hnone
      cases hnone
  | case4 b e hge => omega

/-- What is before `n` is below and what is behind it is above, so that only `n` can
be hit. -/
theorem binarySearch_eq {comp : Nat → Ordering} {b e n : Nat} (hb : b ≤ n)
    (hbefore : ∀ i, b ≤ i → i < e → i < n → comp i = .lt)
    (hbehind : ∀ i, b ≤ i → i < e → n < i → comp i = .gt)
    (hturn : n < e → comp n ≠ .lt) :
    binarySearch comp b e = if n < e ∧ comp n = .eq then some n else none := by
  induction b, e using binarySearch.induct comp with
  | case1 b e hlt m hcomp ih =>
      have hm : m < n := by
        apply Nat.lt_of_not_le
        intro hle
        cases Nat.eq_or_lt_of_le hle with
        | inl heq => exact hturn (by omega) (heq ▸ hcomp)
        | inr hgt => rw [hbehind m (by omega) (by omega) hgt] at hcomp; cases hcomp
      rw [binarySearch, if_pos hlt]
      simp only [m, hcomp]
      apply ih (by omega) _ _ hturn
      · intro i hi hie hin
        exact hbefore i (by omega) hie hin
      · intro i hi hie hni
        exact hbehind i (by omega) hie hni
  | case2 b e hlt m hcomp ih =>
      have hm : n ≤ m := by
        apply Nat.le_of_not_lt
        intro hlow
        rw [hbefore m (by omega) (by omega) hlow] at hcomp
        cases hcomp
      have hhit : n < e ∧ comp n = .eq ↔ n < m ∧ comp n = .eq := by
        constructor
        · rintro ⟨-, heq⟩
          cases Nat.eq_or_lt_of_le hm with
          | inl hnm => rw [hnm, hcomp] at heq; cases heq
          | inr hnm => exact ⟨hnm, heq⟩
        · rintro ⟨hnm, heq⟩
          exact ⟨by omega, heq⟩
      rw [binarySearch, if_pos hlt]
      simp only [m, hcomp, hhit]
      apply ih hb
      · intro i hi him hin
        exact hbefore i hi (by omega) hin
      · intro i hi him hni
        exact hbehind i hi (by omega) hni
      · intro hnm
        exact hturn (by omega)
  | case3 b e hlt m hcomp =>
      have hm : m = n := by
        apply Nat.le_antisymm
        · apply Nat.le_of_not_lt
          intro hni
          rw [hbehind m (by omega) (by omega) hni] at hcomp
          cases hcomp
        · apply Nat.le_of_not_lt
          intro hin
          rw [hbefore m (by omega) (by omega) hin] at hcomp
          cases hcomp
      rw [binarySearch, if_pos hlt]
      simp only [m] at hm hcomp
      simp only [hcomp, ← hm, and_true]
      rw [if_pos (by omega)]
  | case4 b e hge =>
      rw [binarySearch, if_neg hge, if_neg (by omega)]

end FerroRemote

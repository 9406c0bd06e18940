/-
# Rounding to a number of significant bits

Rounding a natural number to its first bit and `p` more, to the nearest and to even in the
middle. A number that has no more bits is kept, a rounded number has no more, and so
rounding twice is rounding once.
-/

import Mathlib.Tactic.Common
import Mathlib.Algebra.Order.Ring.Nat

namespace FerroRemote.Rounding

/-- The bits beyond the first and `p` more. -/
def excess (p m : Nat) : Nat := Nat.log2 m - p

/-- All of these bits are zero. -/
def Fits (p m : Nat) : Prop := 2 ^ excess p m ∣ m

instance (p m : Nat) : Decidable (Fits p m) := inferInstanceAs (Decidable (_ ∣ _))

/-- To the nearest, and to even in the middle. -/
def round (p m : Nat) : Nat :=
  let unit := 2 ^ excess p m
  if unit < 2 * (m % unit) ∨ (unit = 2 * (m % unit) ∧ m / unit % 2 = 1) then
    (m / unit + 1) * unit
  else m / unit * unit

variable {p m : Nat}

theorem round_of_fits (hfits : Fits p m) : round p m = m := by
  have hzero : m % 2 ^ excess p m = 0 := Nat.mod_eq_zero_of_dvd hfits
  have hpos : 0 < 2 ^ excess p m := Nat.two_pow_pos _
  rw [round, hzero, if_neg (by omega), Nat.div_mul_cancel hfits]

/-- A number with few significant bits fits, wherever they stand. -/
theorem fits_mul_two_pow {a : Nat} (ha : a ≤ 2 ^ (p + 1)) (e : Nat) : Fits p (a * 2 ^ e) := by
  rw [Fits, excess]
  by_cases hzero : a * 2 ^ e = 0
  · rw [hzero]
    exact Nat.dvd_zero _
  · have hlow : 2 ^ Nat.log2 (a * 2 ^ e) ≤ a * 2 ^ e := Nat.log2_self_le hzero
    have hhigh : a * 2 ^ e ≤ 2 ^ (p + 1 + e) := by
      rw [Nat.pow_add]
      exact Nat.mul_le_mul_right _ ha
    have hlog : Nat.log2 (a * 2 ^ e) ≤ p + 1 + e :=
      (Nat.pow_le_pow_iff_right Nat.one_lt_two).mp (hlow.trans hhigh)
    by_cases htop : Nat.log2 (a * 2 ^ e) ≤ p + e
    · exact (Nat.pow_dvd_pow 2 (by omega)).trans (Nat.dvd_mul_left _ _)
    · have heq : Nat.log2 (a * 2 ^ e) = p + 1 + e := by omega
      rw [heq] at hlow
      rw [heq, Nat.le_antisymm hhigh hlow]
      exact Nat.pow_dvd_pow 2 (by omega)

theorem round_fits (p m : Nat) : Fits p (round p m) := by
  have hquotient : m / 2 ^ excess p m < 2 ^ (p + 1) := by
    apply Nat.div_lt_of_lt_mul
    apply Nat.lt_of_lt_of_le Nat.lt_log2_self
    rw [← Nat.pow_add]
    apply Nat.pow_le_pow_right Nat.two_pos
    rw [excess]
    omega
  rw [round]
  split
  · exact fits_mul_two_pow hquotient _
  · exact fits_mul_two_pow hquotient.le _

/-- **The numbers that rounding keeps.** -/
theorem round_eq_self_iff : round p m = m ↔ Fits p m := by
  apply Iff.intro
  · intro hround
    have hfits := round_fits p m
    rwa [hround] at hfits
  · exact round_of_fits

theorem round_pos (p : Nat) (hm : 0 < m) : 0 < round p m := by
  have hunit : 0 < 2 ^ excess p m := Nat.two_pow_pos _
  have hle : 2 ^ excess p m ≤ m := by
    apply Nat.le_trans _ (Nat.log2_self_le (Nat.ne_of_gt hm))
    exact Nat.pow_le_pow_right Nat.two_pos (Nat.sub_le _ _)
  have hquotient : 0 < m / 2 ^ excess p m := Nat.div_pos hle hunit
  rw [round]
  split
  · exact Nat.mul_pos (Nat.succ_pos _) hunit
  · exact Nat.mul_pos hquotient hunit

def roundInt (p : Nat) (n : Int) : Int :=
  if 0 ≤ n then round p n.toNat else -(round p (-n).toNat)

theorem roundInt_neg_iff (p : Nat) (n : Int) : roundInt p n < 0 ↔ n < 0 := by
  rw [roundInt]
  split
  · next hge =>
      apply iff_of_false _ (by omega)
      exact Int.not_lt.mpr (Int.natCast_nonneg _)
  · next hlt =>
      have hpos : 0 < round p (-n).toNat := round_pos p (by omega)
      exact iff_of_true (by omega) (by omega)

theorem roundInt_eq_self_iff {n : Int} : roundInt p n = n ↔ Fits p n.natAbs := by
  rw [← round_eq_self_iff, roundInt]
  split
  · next hsign =>
      have hnat : n.toNat = n.natAbs := by omega
      rw [hnat]
      omega
  · next hsign =>
      have hnat : (-n).toNat = n.natAbs := by omega
      rw [hnat]
      omega

theorem roundInt_roundInt (p : Nat) (n : Int) : roundInt p (roundInt p n) = roundInt p n := by
  rw [roundInt_eq_self_iff, roundInt]
  split
  · rw [Int.natAbs_natCast]
    exact round_fits p _
  · rw [Int.natAbs_neg, Int.natAbs_natCast]
    exact round_fits p _

end FerroRemote.Rounding

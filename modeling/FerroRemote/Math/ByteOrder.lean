/-
# Words in bytes of either order

A word is cut into bytes from its low end, the bytes are put down in one order or in the
other, and a loop of shifts and ors puts a word together again. The number of bytes need not
be the size of the word: what does not fit is lost, and what is left over is zero. A loop
that extends the sign makes a signed number of the bytes.
-/

import Mathlib.Data.List.Induction
import Mathlib.Algebra.Order.Ring.Nat
import Mathlib.Tactic.Common
import Mathlib.Tactic.Ring

namespace FerroRemote.ByteOrder

/-- Bytes from the low end, the lowest first -/
def lowFirst : Nat → Nat → List Nat
  | 0, _ => []
  | size + 1, value => value % 256 :: lowFirst size (value / 256)

/-- Bytes from the low end, put down from the last place to the first -/
def highFirst : Nat → Nat → List Nat → List Nat
  | 0, _, filled => filled
  | size + 1, value, filled => highFirst size (value / 256) (value % 256 :: filled)

/-- The number with these bytes, the highest first -/
def valueOf (bytes : List Nat) : Nat := bytes.foldl (fun l b => l * 256 + b) 0

variable {size value : Nat}

theorem length_lowFirst (size value : Nat) : (lowFirst size value).length = size := by
  induction size generalizing value with
  | zero => rfl
  | succ size ih => rw [lowFirst, List.length_cons, ih]

theorem highFirst_eq (size value : Nat) (filled : List Nat) :
    highFirst size value filled = (lowFirst size value).reverse ++ filled := by
  induction size generalizing value filled with
  | zero => rfl
  | succ size ih =>
      rw [highFirst, ih, lowFirst, List.reverse_cons, List.append_assoc, List.singleton_append]

theorem lt_of_mem_lowFirst {b : Nat} (hmem : b ∈ lowFirst size value) : b < 256 := by
  induction size generalizing value with
  | zero => cases hmem
  | succ size ih =>
      rcases List.mem_cons.mp hmem with rfl | hrest
      · exact Nat.mod_lt _ (by decide)
      · exact ih hrest

theorem valueOf_append_singleton (bytes : List Nat) (b : Nat) :
    valueOf (bytes ++ [b]) = valueOf bytes * 256 + b := by
  rw [valueOf, List.foldl_append]
  rfl

theorem valueOf_reverse_lowFirst (size value : Nat) :
    valueOf (lowFirst size value).reverse = value % 256 ^ size := by
  induction size generalizing value with
  | zero => rw [pow_zero, Nat.mod_one]; rfl
  | succ size ih =>
      rw [lowFirst, List.reverse_cons, valueOf_append_singleton, ih, pow_succ',
        Nat.mod_mul]
      ring

/-- The loop that puts a word together -/
def gather (bytes : List Nat) : BitVec 64 :=
  bytes.foldl (fun l b => l <<< 8 ||| BitVec.ofNat 64 b) 0#64

theorem shift_or (l : Nat) {b : Nat} (hb : b < 256) :
    BitVec.ofNat 64 l <<< 8 ||| BitVec.ofNat 64 b = BitVec.ofNat 64 (l * 256 + b) := by
  have hshift : BitVec.ofNat 64 l <<< 8 = BitVec.ofNat 64 (l * 256) := by
    apply BitVec.eq_of_toNat_eq
    simp [BitVec.toNat_shiftLeft, Nat.shiftLeft_eq]
  have hdisjoint : BitVec.ofNat 64 l <<< 8 &&& BitVec.ofNat 64 b = 0#64 := by
    apply BitVec.eq_of_getLsbD_eq
    intro i hi
    rw [BitVec.getLsbD_and, BitVec.getLsbD_shiftLeft, BitVec.getLsbD_zero]
    by_cases hlow : i < 8
    · simp [hlow]
    · have hbit : b.testBit i = false := by
        apply Nat.testBit_lt_two_pow
        exact hb.trans_le (Nat.pow_le_pow_right Nat.two_pos (Nat.not_lt.mp hlow))
      rw [BitVec.getLsbD_ofNat (x := b), hbit, Bool.and_false, Bool.and_false]
  rw [← BitVec.add_eq_or_of_and_eq_zero _ _ hdisjoint, hshift]
  apply BitVec.eq_of_toNat_eq
  simp

theorem gather_eq {bytes : List Nat} (hbytes : ∀ b ∈ bytes, b < 256) :
    gather bytes = BitVec.ofNat 64 (valueOf bytes) := by
  induction bytes using List.reverseRecOn with
  | nil => rfl
  | append_singleton bytes b ih =>
      have hb : b < 256 := hbytes b (by simp)
      rw [valueOf_append_singleton, gather, List.foldl_append, ← gather,
        ih fun c hc => hbytes c (List.mem_append_left _ hc)]
      exact shift_or _ hb

/-- The sign bit of a number of `size` bytes, and all above it -/
def signMask (size : Nat) : BitVec 64 := BitVec.allOnes 64 <<< (size * 8 - 1)

/-- A word whose sign is extended when a bit of the mask is set -/
def extended (size : Nat) (l : BitVec 64) : BitVec 64 :=
  if l &&& signMask size ≠ 0#64 then l ||| signMask size else l

theorem getLsbD_signMask (size i : Nat) :
    (signMask size).getLsbD i = (decide (i < 64) && decide (size * 8 - 1 ≤ i)) := by
  rw [signMask, BitVec.getLsbD_shiftLeft, BitVec.getLsbD_allOnes]
  by_cases hi : i < 64
  · by_cases hlow : size * 8 - 1 ≤ i
    · have hsub : i - (size * 8 - 1) < 64 := by omega
      simp [hi, hlow, hsub]
    · have hlt : i < size * 8 - 1 := by omega
      simp [hi, hlow, hlt]
  · simp [hi]

theorem mask_hits_iff (hpos : 0 < size) (hsize : size ≤ 8) {v : BitVec 64}
    (hv : v.toNat < 2 ^ (size * 8)) :
    v &&& signMask size ≠ 0#64 ↔ v.getLsbD (size * 8 - 1) = true := by
  have htop : ∀ i, size * 8 ≤ i → v.getLsbD i = false := by
    intro i hi
    exact Nat.testBit_lt_two_pow (hv.trans_le (Nat.pow_le_pow_right (by decide) hi))
  apply Iff.intro
  · intro hhits
    by_contra hbit
    apply hhits
    apply BitVec.eq_of_getLsbD_eq
    intro i hi
    rw [BitVec.getLsbD_and, getLsbD_signMask, BitVec.getLsbD_zero]
    rcases Nat.lt_trichotomy i (size * 8 - 1) with hlt | rfl | hgt
    · have hno : ¬ size * 8 - 1 ≤ i := by omega
      simp [hno]
    · rw [Bool.not_eq_true] at hbit
      rw [hbit, Bool.false_and]
    · rw [htop i (by omega), Bool.false_and]
  · intro hbit hzero
    have hat : (v &&& signMask size).getLsbD (size * 8 - 1) = false := by
      rw [hzero, BitVec.getLsbD_zero]
    have hlt : size * 8 - 1 < 64 := by omega
    rw [BitVec.getLsbD_and, getLsbD_signMask, hbit] at hat
    simp [hlt] at hat

theorem extended_eq (hpos : 0 < size) (hsize : size ≤ 8) {v : BitVec 64}
    (hv : v.toNat < 2 ^ (size * 8)) :
    extended size v = (v.setWidth (size * 8)).signExtend 64 := by
  have htop : ∀ i, size * 8 ≤ i → v.getLsbD i = false := by
    intro i hi
    exact Nat.testBit_lt_two_pow (hv.trans_le (Nat.pow_le_pow_right (by decide) hi))
  have hmsb : (v.setWidth (size * 8)).msb = v.getLsbD (size * 8 - 1) := by
    have hlt : size * 8 - 1 < size * 8 := by omega
    rw [BitVec.msb_eq_getLsbD_last, BitVec.getLsbD_setWidth]
    simp [hlt]
  apply BitVec.eq_of_getLsbD_eq
  intro i hi
  rw [BitVec.getLsbD_signExtend, hmsb, BitVec.getLsbD_setWidth, extended]
  by_cases hbit : v.getLsbD (size * 8 - 1) = true
  · rw [if_pos ((mask_hits_iff hpos hsize hv).mpr hbit), BitVec.getLsbD_or, getLsbD_signMask]
    by_cases hlow : i < size * 8
    · by_cases hlast : i = size * 8 - 1
      · subst hlast
        simp [hlow, hbit, hi]
      · have hno : ¬ size * 8 - 1 ≤ i := by omega
        simp [hlow, hno, hi]
    · have hle : size * 8 - 1 ≤ i := by omega
      simp [hlow, hbit, hi, hle]
  · rw [if_neg fun h => hbit ((mask_hits_iff hpos hsize hv).mp h)]
    rw [Bool.not_eq_true] at hbit
    by_cases hlow : i < size * 8
    · simp [hlow, hi]
    · simp [hlow, hbit, htop i (by omega)]

/-- **Reading a signed number.** It is the one of its residues that lies around zero. -/
theorem toInt_extended (hpos : 0 < size) (hsize : size ≤ 8) {n : Nat}
    (hn : n < 2 ^ (size * 8)) :
    (extended size (BitVec.ofNat 64 n)).toInt = Int.bmod n (2 ^ (size * 8)) := by
  have hword : n < 2 ^ 64 := hn.trans_le (Nat.pow_le_pow_right (by decide) (by omega))
  have hnat : (BitVec.ofNat 64 n).toNat = n := by
    rw [BitVec.toNat_ofNat, Nat.mod_eq_of_lt hword]
  have hle : size * 8 ≤ 64 := by omega
  rw [extended_eq hpos hsize (by rwa [hnat]), BitVec.toInt_signExtend, Nat.min_eq_right hle,
    BitVec.toInt_setWidth, hnat, Int.bmod_bmod]

/-- A number modulo a smaller power is the same with or without the word around it. -/
theorem bmod_ofInt (hsize : size ≤ 8) (n : Int) :
    Int.bmod (((BitVec.ofInt 64 n).toNat % 2 ^ (size * 8) : Nat) : Int) (2 ^ (size * 8)) =
      Int.bmod n (2 ^ (size * 8)) := by
  have hdvd : (2 ^ (size * 8) : Nat) ∣ 2 ^ 64 := Nat.pow_dvd_pow 2 (by omega)
  have hnonneg : 0 ≤ n % ((2 ^ 64 : Nat) : Int) := Int.emod_nonneg _ (by decide)
  rw [BitVec.toNat_ofInt, Int.natCast_emod, Int.toNat_of_nonneg hnonneg, Int.emod_bmod,
    ← Int.emod_bmod n, ← Int.emod_emod_of_dvd n (Int.natCast_dvd_natCast.mpr hdvd),
    Int.emod_bmod]

end FerroRemote.ByteOrder

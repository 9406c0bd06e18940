/-
# Words, bytes and signs

A byte is taken out of a word with a shift and a mask, and bytes are put together with
shifts and ors. When two halves of a word are extended with their signs before they are put
together, the sign of the lower half covers the upper one.
-/

import Mathlib.Data.List.Basic
import Mathlib.Tactic.Common

namespace FerroRemote.Words

variable {n : Nat}

theorem byte_extract (v : BitVec n) (k : Nat) :
    (v >>> k &&& (BitVec.allOnes 8).setWidth n).setWidth 8 = v.extractLsb' k 8 := by
  apply BitVec.eq_of_getLsbD_eq
  intro i hi
  simp only [BitVec.getLsbD_setWidth, BitVec.getLsbD_and, BitVec.getLsbD_extractLsb',
    BitVec.getLsbD_allOnes, BitVec.getLsbD_ushiftRight, hi, decide_true, Bool.true_and]
  by_cases hn : i < n
  · simp only [hn, decide_true, Bool.and_true]
  · have hv : v.getLsbD (k + i) = false := BitVec.getLsbD_of_ge v (k + i) (by omega)
    rw [hv, Bool.false_and]

theorem two_bytes (b₀ b₁ : BitVec 8) :
    (b₀.setWidth 32 ||| b₁.setWidth 32 <<< 8).setWidth 16 = b₁ ++ b₀ := by
  apply BitVec.eq_of_getLsbD_eq
  intro i hi
  simp only [BitVec.setWidth_or, Nat.reduceLeDiff, BitVec.setWidth_setWidth_of_le,
    BitVec.setWidth_shiftLeft_of_le, BitVec.getLsbD_or, BitVec.getLsbD_setWidth,
    BitVec.getLsbD_shiftLeft, Nat.reduceAdd]
  grind

theorem four_bytes (b₀ b₁ b₂ b₃ : BitVec 8) :
    b₀.setWidth 32 ||| b₁.setWidth 32 <<< 8 ||| b₂.setWidth 32 <<< 16 ||| b₃.setWidth 32 <<< 24 =
      b₃ ++ b₂ ++ b₁ ++ b₀ := by
  apply BitVec.eq_of_getLsbD_eq
  intro i hi
  simp only [BitVec.getLsbD_or, BitVec.getLsbD_setWidth, BitVec.getLsbD_shiftLeft, Nat.reduceAdd]
  grind

theorem append_bytes (v : BitVec n) (k : Nat) :
    v.extractLsb' (k + 24) 8 ++ v.extractLsb' (k + 16) 8 ++ v.extractLsb' (k + 8) 8 ++
      v.extractLsb' k 8 = v.extractLsb' k 32 := by
  rw [BitVec.extractLsb'_append_extractLsb'_eq_extractLsb' (by omega),
    BitVec.extractLsb'_append_extractLsb'_eq_extractLsb' (by omega),
    BitVec.extractLsb'_append_extractLsb'_eq_extractLsb' (by omega)]

theorem signExtend_shiftLeft (x : BitVec n) : x.signExtend (n + n) <<< n = x ++ 0#n := by
  apply BitVec.eq_of_getLsbD_eq
  intro i hi
  rw [BitVec.getLsbD_shiftLeft, BitVec.getLsbD_signExtend, BitVec.getLsbD_append]
  by_cases hlow : i < n
  · simp [hlow]
  · have hsub : i - n < n := by omega
    have hsub' : i - n < n + n := by omega
    simp [hlow, hi, hsub, hsub']

theorem signExtend_double (x : BitVec n) :
    x.signExtend (n + n) = (if x.msb then BitVec.allOnes n else 0#n) ++ x := by
  apply BitVec.eq_of_getLsbD_eq
  intro i hi
  rw [BitVec.getLsbD_signExtend, BitVec.getLsbD_append]
  by_cases hlow : i < n
  · simp [hlow, hi]
  · have hsub : i - n < n := by omega
    simp only [hlow, hi, if_false, decide_true, Bool.true_and]
    cases x.msb with
    | false => simp
    | true => simp [hsub]

/-- The halves come back unless the lower one is negative and the upper one is not all
ones. -/
theorem joined_eq_iff (upper lower : BitVec n) :
    upper.signExtend (n + n) <<< n ||| lower.signExtend (n + n) = upper ++ lower ↔
      lower.msb = false ∨ upper = BitVec.allOnes n := by
  rw [signExtend_shiftLeft, signExtend_double, BitVec.or_append, BitVec.zero_or,
    BitVec.append_left_inj]
  cases lower.msb with
  | false => simp
  | true => simp [eq_comm]

end FerroRemote.Words

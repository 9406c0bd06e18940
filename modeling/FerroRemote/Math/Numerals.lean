/-
# Numbers as the C library reads them

`strtoul` and `strtol` read the same text: blanks, a sign, and decimal digits, as far
as they go. They differ in what becomes of a number that does not fit. `strtoul`
gives the greatest `unsigned long` for one that is too long, and negates what has a
minus in unsigned arithmetic; `strtol` gives the nearest `long`, and `atoi` is its
lower half.

What a 16-bit number keeps of both is compared here, for any width of `long`.
-/

import Mathlib.Algebra.Order.Ring.Int
import Mathlib.Tactic.Common

namespace FerroRemote

/-- What comes before the last `sep`, and what after it. -/
def splitLast (sep : Char) : List Char → Option (List Char × List Char)
  | [] => none
  | c :: text =>
    match splitLast sep text with
    | some (before, rest) => some (c :: before, rest)
    | none => if c = sep then some ([], text) else none

theorem eq_of_splitLast {sep : Char} {text before rest : List Char}
    (hsplit : splitLast sep text = some (before, rest)) : text = before ++ sep :: rest := by
  induction text generalizing before with
  | nil => cases hsplit
  | cons c text ih =>
      rw [splitLast] at hsplit
      cases hrest : splitLast sep text with
      | some found =>
          obtain ⟨front, back⟩ := found
          rw [hrest] at hsplit
          cases hsplit
          rw [ih hrest, List.cons_append]
      | none =>
          rw [hrest] at hsplit
          by_cases heq : c = sep
          · rw [if_pos heq, Option.some_inj] at hsplit
            cases hsplit
            rw [heq, List.nil_append]
          · rw [if_neg heq] at hsplit
            cases hsplit

theorem splitLast_eq_none {sep : Char} {text : List Char} (hfree : sep ∉ text) :
    splitLast sep text = none := by
  induction text with
  | nil => rfl
  | cons c text ih =>
      have hne : c ≠ sep := fun heq => hfree (heq ▸ List.mem_cons_self)
      rw [splitLast, ih (fun hmem => hfree (List.mem_cons_of_mem _ hmem)), if_neg hne]

theorem splitLast_append {sep : Char} {rest : List Char} (before : List Char)
    (hfree : sep ∉ rest) : splitLast sep (before ++ sep :: rest) = some (before, rest) := by
  induction before with
  | nil => rw [List.nil_append, splitLast, splitLast_eq_none hfree, if_pos rfl]
  | cons c before ih => rw [List.cons_append, splitLast, ih]

/-- A text is made from its parts in one way. -/
theorem append_sep_inj {sep : Char} {before rest before' rest' : List Char}
    (hfree : sep ∉ rest) (hfree' : sep ∉ rest')
    (heq : before ++ sep :: rest = before' ++ sep :: rest') : before = before' ∧ rest = rest' := by
  have hsplit := splitLast_append before hfree
  rw [heq, splitLast_append before' hfree', Option.some_inj, Prod.mk.injEq] at hsplit
  exact ⟨hsplit.1.symm, hsplit.2.symm⟩

def decimal (n : Nat) : List Char := Nat.toDigits 10 n

theorem decimal_inj {n m : Nat} (heq : decimal n = decimal m) : n = m := by
  have hread := congrArg (Nat.ofDigitChars 10 · 0) heq
  simpa only [decimal, Nat.ofDigitChars_ten_toDigits] using hread

theorem not_mem_decimal {c : Char} (n : Nat) (hc : ¬ c.isDigit) : c ∉ decimal n := by
  intro hmem
  exact hc (Nat.isDigit_of_mem_toDigits (by decide) (by decide) hmem)

structure Numeral where
  negative : Bool
  magnitude : Nat
  deriving DecidableEq, Repr

namespace Numeral

def isSpace (c : Char) : Bool :=
  c == ' ' || c == '\t' || c == '\n' || c == '\x0b' || c == '\x0c' || c == '\r'

def ofDigits (digits : List Char) : Nat :=
  digits.foldl (fun n c => 10 * n + (c.toNat - '0'.toNat)) 0

/-- The number at the beginning of a text, 0 if there is none. -/
def scan (text : List Char) : Numeral :=
  match text.dropWhile isSpace with
  | '-' :: rest => ⟨true, ofDigits (rest.takeWhile Char.isDigit)⟩
  | '+' :: rest => ⟨false, ofDigits (rest.takeWhile Char.isDigit)⟩
  | rest => ⟨false, ofDigits (rest.takeWhile Char.isDigit)⟩

variable (w : Nat) (n : Numeral)

/-- `ULONG_MAX`, for a `long` of `w` bits. -/
def ulongMax : Nat := 2 ^ w - 1

def strtoul : Nat :=
  if 2 ^ w ≤ n.magnitude then ulongMax w
  else if n.negative then (2 ^ w - n.magnitude) % 2 ^ w
  else n.magnitude

/-- `strtoul` sets `errno` to `ERANGE`. -/
def overflows : Bool := 2 ^ w ≤ n.magnitude

def strtol : Int :=
  if n.negative then max (-(n.magnitude : Int)) (-(2 ^ (w - 1) : Nat))
  else min (n.magnitude : Int) ((2 ^ (w - 1) : Nat) - 1)

/-- `atoi`: the `int` that is in the lower bits of the `long`. -/
def atoi : Int := (n.strtol w).bmod (2 ^ 32)

/-- The greatest `unsigned long`, written out or as minus one: what `strtoul` makes
its greatest result from without an overflow. -/
def AllOnes : Prop :=
  if n.negative then n.magnitude = 1 else n.magnitude = ulongMax w

/-- `strtoul` and `atoi` have the same lower 16 bits: the number fits in a `long`, or
it happens to end in the bits of the nearest one. -/
def LowBitsAgree : Prop :=
  if n.negative then
    n.magnitude ≤ 2 ^ (w - 1) ∨ (n.magnitude < 2 ^ w ∧ n.magnitude % 2 ^ 16 = 0)
  else
    n.magnitude < 2 ^ (w - 1) ∨ 2 ^ w ≤ n.magnitude ∨ n.magnitude % 2 ^ 16 = 2 ^ 16 - 1

/-- `strtoul` has the same lower 16 bits for two widths: the number fits in both or in
neither, or it ends in the bits of the greatest number. -/
def SameLowBits (w v : Nat) (n : Numeral) : Prop :=
  (2 ^ w ≤ n.magnitude ↔ 2 ^ v ≤ n.magnitude) ∨
    n.magnitude % 2 ^ 16 = if n.negative then 1 else 2 ^ 16 - 1

instance : Decidable (n.AllOnes w) := by
  unfold AllOnes
  infer_instance

instance : Decidable (n.LowBitsAgree w) := by
  unfold LowBitsAgree
  infer_instance

instance (w v : Nat) : Decidable (n.SameLowBits w v) := by
  unfold SameLowBits
  infer_instance

variable {w n}

theorem width_units (hw : 17 ≤ w) :
    ∃ k, 0 < k ∧ 2 ^ (w - 1) = 65536 * k ∧ 2 ^ w = 131072 * k := by
  refine ⟨2 ^ (w - 17), Nat.two_pow_pos _, ?_, ?_⟩
  · rw [← Nat.pow_add 2 16 (w - 17)]
    congr 1
    omega
  · rw [← Nat.pow_add 2 17 (w - 17)]
    congr 1
    omega

theorem atoi_emod : n.atoi w % 65536 = n.strtol w % 65536 := by
  have hdvd : (65536 : Int) ∣ (2 ^ 32 : Nat) := by decide
  rw [atoi, ← Int.emod_emod_of_dvd _ hdvd, Int.bmod_emod, Int.emod_emod_of_dvd _ hdvd]

theorem strtoul_eq_max_iff (hw : 17 ≤ w) (hfits : ¬ 2 ^ w ≤ n.magnitude) :
    n.strtoul w = ulongMax w ↔ n.AllOnes w := by
  obtain ⟨k, hk, -, hword⟩ := width_units hw
  rw [strtoul, if_neg hfits, AllOnes, ulongMax]
  rw [hword] at hfits ⊢
  cases n.negative with
  | false =>
    simp only [Bool.false_eq_true, if_false]
  | true =>
    simp only [if_true]
    by_cases hzero : n.magnitude = 0
    · rw [hzero, Nat.sub_zero, Nat.mod_self]
      omega
    · rw [Nat.mod_eq_of_lt (by omega)]
      omega

theorem low_bits_iff (hw : 17 ≤ w) :
    ((n.strtoul w : Nat) : Int) % 65536 = n.strtol w % 65536 ↔ n.LowBitsAgree w := by
  obtain ⟨k, hk, hhalf, hword⟩ := width_units hw
  rw [strtoul, strtol, LowBitsAgree, ulongMax, hhalf, hword]
  cases n.negative with
  | false =>
    simp only [Bool.false_eq_true, if_false]
    split
    · omega
    · omega
  | true =>
    simp only [if_true]
    split
    · omega
    · by_cases hzero : n.magnitude = 0
      · rw [hzero, Nat.sub_zero, Nat.mod_self]
        omega
      · rw [Nat.mod_eq_of_lt (by omega)]
        omega

theorem same_low_bits_iff {v : Nat} (hw : 17 ≤ w) (hv : 17 ≤ v) :
    n.strtoul w % 65536 = n.strtoul v % 65536 ↔ n.SameLowBits w v := by
  obtain ⟨k, hk, -, hword⟩ := width_units hw
  obtain ⟨j, hj, -, hother⟩ := width_units hv
  rw [strtoul, strtoul, SameLowBits, ulongMax, ulongMax, hword, hother]
  cases n.negative with
  | false =>
    simp only [Bool.false_eq_true, if_false]
    split <;> split <;> omega
  | true =>
    simp only [if_true]
    by_cases hzero : n.magnitude = 0
    · rw [hzero, Nat.sub_zero, Nat.sub_zero, Nat.mod_self, Nat.mod_self]
      split <;> split <;> omega
    · split
      · split
        · omega
        · rw [Nat.mod_eq_of_lt (a := 131072 * j - n.magnitude) (by omega)]
          omega
      · rw [Nat.mod_eq_of_lt (a := 131072 * k - n.magnitude) (by omega)]
        split
        · omega
        · rw [Nat.mod_eq_of_lt (a := 131072 * j - n.magnitude) (by omega)]
          omega

theorem AllOnes.fits (hones : n.AllOnes w) (hw : 17 ≤ w) : ¬ 2 ^ w ≤ n.magnitude := by
  obtain ⟨k, hk, -, hword⟩ := width_units hw
  rw [AllOnes, ulongMax, hword] at hones
  rw [hword]
  split at hones
  · omega
  · omega

theorem AllOnes.atoi_emod_ne (hones : n.AllOnes w) (hw : 17 ≤ w) : n.atoi w % 65536 ≠ 0 := by
  obtain ⟨k, hk, hhalf, hword⟩ := width_units hw
  rw [atoi_emod, strtol, hhalf]
  rw [AllOnes, ulongMax, hword] at hones
  split
  · rw [if_pos ‹_›] at hones
    omega
  · rw [if_neg ‹_›] at hones
    omega

end Numeral

end FerroRemote

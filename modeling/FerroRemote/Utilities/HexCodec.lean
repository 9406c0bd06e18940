/-
# The hex codec

The agent and the client library have a copy each of `bin2hex` and `hex2bin`. The
copies of `bin2hex` differ in what the result holds before the first digit is
appended: nothing in the client's copy, and four letters in the agent's. Both refuse
to encode nothing, and both decode texts that are not of hexadecimal digits, since only
one digit of each byte is checked.
-/

import Mathlib.Tactic.Common

namespace FerroRemote.Utilities

/-- A `result`: it has a value in any case, and is a failure when it has an error. -/
structure Result (T E : Type) where
  value : T
  error : Option E := none
  deriving DecidableEq, Repr

namespace Result

variable {T E : Type}

def fail [Inhabited T] (err : E) : Result T E := ⟨default, some err⟩

/-- `operator bool`. -/
def ok (res : Result T E) : Bool := res.error.isNone

end Result

/-- An `h2b_result` for text. -/
abbrev HexResult := Result (List Char) String

/-- An `h2b_result` for bytes. -/
abbrev BinResult := Result (List UInt8) String

def hexes (n : UInt8) : Char :=
  match n.toNat with
  | 0 => '0' | 1 => '1' | 2 => '2' | 3 => '3' | 4 => '4'
  | 5 => '5' | 6 => '6' | 7 => '7' | 8 => '8' | 9 => '9'
  | 10 => 'A' | 11 => 'B' | 12 => 'C' | 13 => 'D' | 14 => 'E'
  | _ => 'F'

/-- `int_to_hex`. The byte is a signed `char`, and its sign is shifted in before the
upper half is masked out. -/
def intToHex (c : UInt8) : List Char :=
  [hexes ((c.toInt8 >>> 4).toUInt8 &&& 0x0F), hexes (c &&& 0x0F)]

/-- `bin2hex`, with what its `tmp` is made from. -/
def bin2hexFrom (tmp : List Char) (bytes : List UInt8) : HexResult :=
  if bytes.isEmpty then .fail "nullptr"
  else { value := bytes.foldl (fun tmp c => tmp ++ intToHex c) tmp }

def hexToInt (c : Char) : UInt8 :=
  if '0' ≤ c ∧ c ≤ '9' then (c.toNat - '0'.toNat).toUInt8
  else if 'a' ≤ c ∧ c ≤ 'f' then (c.toNat - 'a'.toNat + 10).toUInt8
  else if 'A' ≤ c ∧ c ≤ 'F' then (c.toNat - 'A'.toNat + 10).toUInt8
  else 0xFF

/-- The loop of `hex2bin`, with what it has decoded. The second digit of a pair is not
checked, and may be missing at the end. -/
def hex2binLoop : List Char → List UInt8 → BinResult
  | [], tmp => { value := tmp }
  | c :: rest, tmp =>
    let h := hexToInt c
    if h = 0xFF then .fail "Bad serialized string"
    else
      match rest with
      | [] => { value := tmp ++ [h <<< 4] }
      | d :: rest => hex2binLoop rest (tmp ++ [h <<< 4 ||| (hexToInt d &&& 0x0F)])

namespace Agent

/-- `bin2hex` of the agent. -/
def bin2hex : List UInt8 → HexResult := bin2hexFrom "asda".toList

/-- `hex2bin` of the agent. -/
def hex2bin (input : List Char) : BinResult := hex2binLoop input []

end Agent

namespace Client

/-- `bin2hex` of the client library. -/
def bin2hex : List UInt8 → HexResult := bin2hexFrom []

/-- `hex2bin` of the client library. -/
def hex2bin (input : List Char) : BinResult := hex2binLoop input []

end Client

/-- The two copies. -/
inductive Copy
  | agent
  | client
  deriving DecidableEq, Repr

namespace Copy

def bin2hex : Copy → List UInt8 → HexResult
  | agent => Agent.bin2hex
  | client => Client.bin2hex

def hex2bin : Copy → List Char → BinResult
  | agent => Agent.hex2bin
  | client => Client.hex2bin

end Copy

/-- The upper-case digit for a number below 16. -/
def upperDigit (n : Nat) : Char := (Nat.digitChar n).toUpper

/-- Two digits for each byte, the upper half first. -/
def hexText (x : List UInt8) : List Char :=
  x.flatMap fun b => [upperDigit (b.toNat / 16), upperDigit (b.toNat % 16)]

/-- A copy of the codec encodes `x` with two upper-case digits a byte, and decodes that
again. -/
structure RoundTrips (copy : Copy) (x : List UInt8) : Prop where
  encodes : copy.bin2hex x = { value := hexText x }
  decodes : copy.hex2bin (copy.bin2hex x).value = { value := x }

theorem byte_digits (b : UInt8) :
    intToHex b = [upperDigit (b.toNat / 16), upperDigit (b.toNat % 16)] ∧
      hexToInt (upperDigit (b.toNat / 16)) ≠ 0xFF ∧
      hexToInt (upperDigit (b.toNat / 16)) <<< 4 |||
        (hexToInt (upperDigit (b.toNat % 16)) &&& 0x0F) = b := by
  have hall : ∀ n < 256, intToHex (UInt8.ofNat n) = [upperDigit (n / 16), upperDigit (n % 16)] ∧
      hexToInt (upperDigit (n / 16)) ≠ 0xFF ∧
      hexToInt (upperDigit (n / 16)) <<< 4 |||
        (hexToInt (upperDigit (n % 16)) &&& 0x0F) = UInt8.ofNat n := by
    decide +kernel
  have hbyte := hall b.toNat b.toNat_lt
  rw [UInt8.ofNat_toNat] at hbyte
  exact hbyte

theorem hexText_cons (b : UInt8) (x : List UInt8) :
    hexText (b :: x) = upperDigit (b.toNat / 16) :: upperDigit (b.toNat % 16) :: hexText x := rfl

theorem foldl_intToHex (tmp : List Char) (x : List UInt8) :
    x.foldl (fun tmp c => tmp ++ intToHex c) tmp = tmp ++ hexText x := by
  induction x generalizing tmp with
  | nil => exact (List.append_nil tmp).symm
  | cons b x ih =>
      rw [List.foldl_cons, ih, (byte_digits b).1, hexText_cons, List.append_assoc]
      rfl

/-- Digits are appended to what the result holds already. -/
theorem bin2hexFrom_of_ne_nil {x : List UInt8} (hx : x ≠ []) (tmp : List Char) :
    bin2hexFrom tmp x = { value := tmp ++ hexText x } := by
  have hsome : ¬ x.isEmpty = true := by
    intro hempty
    exact hx (List.isEmpty_iff.mp hempty)
  rw [bin2hexFrom, if_neg hsome, foldl_intToHex]

/-- Decoding takes two digits at a time; the induction is on the bytes they stand for. -/
theorem hex2binLoop_hexText (x tmp : List UInt8) :
    hex2binLoop (hexText x) tmp = { value := tmp ++ x } := by
  induction x generalizing tmp with
  | nil => rw [List.append_nil, hexText, List.flatMap_nil, hex2binLoop]
  | cons b x ih =>
      obtain ⟨-, hdigit, hbyte⟩ := byte_digits b
      rw [hexText_cons, hex2binLoop]
      simp only [if_neg hdigit, hbyte]
      rw [ih, List.append_assoc, List.singleton_append]

theorem client_bin2hex {x : List UInt8} (hx : x ≠ []) :
    Client.bin2hex x = { value := hexText x } :=
  bin2hexFrom_of_ne_nil hx []

theorem agent_bin2hex {x : List UInt8} (hx : x ≠ []) :
    Agent.bin2hex x = { value := 'a' :: 's' :: 'd' :: 'a' :: hexText x } :=
  bin2hexFrom_of_ne_nil hx "asda".toList

theorem not_roundTrips_nil (copy : Copy) : ¬ RoundTrips copy [] := by
  intro htrips
  have herror := congrArg Result.error htrips.encodes
  cases copy with
  | agent => cases herror
  | client => cases herror

theorem not_roundTrips_agent (x : List UInt8) : ¬ RoundTrips .agent x := by
  by_cases hx : x = []
  · rw [hx]
    exact not_roundTrips_nil .agent
  · intro htrips
    have hvalue := congrArg Result.value ((agent_bin2hex hx).symm.trans htrips.encodes)
    have hlength := congrArg List.length hvalue
    simp only [List.length_cons] at hlength
    omega

theorem roundTrips_client {x : List UInt8} (hx : x ≠ []) : RoundTrips .client x where
  encodes := client_bin2hex hx
  decodes := by
    change Client.hex2bin (Client.bin2hex x).value = _
    rw [client_bin2hex hx]
    exact hex2binLoop_hexText x []

/-- **The codec, exactly.** The client's copy is right about everything but nothing,
the agent's about nothing at all, and they agree on refusing the empty string only. -/
theorem roundTrips_iff (x : List UInt8) :
    (∀ copy, RoundTrips copy x ↔ copy = .client ∧ x ≠ []) ∧
      (Agent.bin2hex x = Client.bin2hex x ↔ x = []) := by
  constructor
  · intro copy
    cases copy with
    | agent =>
        apply iff_of_false (not_roundTrips_agent x)
        rintro ⟨hcopy, -⟩
        cases hcopy
    | client =>
        constructor
        · intro htrips
          refine ⟨rfl, ?_⟩
          rintro rfl
          exact not_roundTrips_nil .client htrips
        · rintro ⟨-, hx⟩
          exact roundTrips_client hx
  · constructor
    · intro hsame
      by_contra hx
      apply not_roundTrips_agent x
      exact {
        encodes := hsame.trans (client_bin2hex hx)
        decodes := by
          change Agent.hex2bin (Agent.bin2hex x).value = _
          rw [hsame]
          exact (roundTrips_client hx).decodes }
    · rintro rfl
      rfl

/-- A byte that the agent encodes to six characters, which it decodes to three bytes;
and nothing, which the client does not encode. -/
theorem agent_adds_letters :
    Agent.bin2hex [0x5A] = { value := "asda5A".toList } ∧
      Agent.hex2bin "asda5A".toList = { value := [0xAF, 0xDA, 0x5A] } ∧
      Client.bin2hex [0x5A] = { value := "5A".toList } ∧
      ¬ RoundTrips .agent [0x5A] ∧ ¬ RoundTrips .client [] := by
  refine ⟨by decide +kernel, by decide +kernel, by decide +kernel, ?_, ?_⟩
  · exact not_roundTrips_agent [0x5A]
  · exact not_roundTrips_nil .client

/-- The number that a hexadecimal digit stands for. -/
def hexValue (c : Char) : Option Nat :=
  if '0' ≤ c ∧ c ≤ '9' then some (c.toNat - '0'.toNat)
  else if 'a' ≤ c ∧ c ≤ 'f' then some (c.toNat - 'a'.toNat + 10)
  else if 'A' ≤ c ∧ c ≤ 'F' then some (c.toNat - 'A'.toNat + 10)
  else none

/-- The halves of bytes, the upper one first. -/
def nibbles (x : List UInt8) : List Nat := x.flatMap fun b => [b.toNat / 16, b.toNat % 16]

/-- The character is a hexadecimal digit. -/
def IsHex (c : Char) : Prop := (hexValue c).isSome = true

instance (c : Char) : Decidable (IsHex c) := inferInstanceAs (Decidable (_ = _))

/-- A copy of the codec accepts exactly the texts of hexadecimal digits, and decodes one to
the bytes that have the digits for their halves, with a zero after a last digit that is
alone. -/
structure DecodesRight (copy : Copy) (input : List Char) : Prop where
  accepts : (copy.hex2bin input).ok = true ↔ ∀ c ∈ input, IsHex c
  length : (∀ c ∈ input, IsHex c) → (copy.hex2bin input).value.length = (input.length + 1) / 2
  digits : (∀ c ∈ input, IsHex c) → nibbles (copy.hex2bin input).value =
    input.filterMap hexValue ++ List.replicate (input.length % 2) 0

/-- A character that should be an upper half is not a digit. -/
def BadUpper (input : List Char) : Prop := ∃ i c, input[2 * i]? = some c ∧ ¬ IsHex c

theorem le_char {a b : Char} : a ≤ b ↔ a.toNat ≤ b.toNat := Iff.rfl

theorem hexToInt_cases (c : Char) :
    (hexToInt c = 0xFF ∧ hexValue c = none) ∨
      ∃ n < 16, hexToInt c = UInt8.ofNat n ∧ hexValue c = some n := by
  have h0 : '0'.toNat = 48 := rfl
  have h9 : '9'.toNat = 57 := rfl
  have ha : 'a'.toNat = 97 := rfl
  have hf : 'f'.toNat = 102 := rfl
  have hA : 'A'.toNat = 65 := rfl
  have hF : 'F'.toNat = 70 := rfl
  unfold hexToInt hexValue
  simp only [le_char]
  split
  · exact Or.inr ⟨_, by omega, rfl, rfl⟩
  · split
    · exact Or.inr ⟨_, by omega, rfl, rfl⟩
    · split
      · exact Or.inr ⟨_, by omega, rfl, rfl⟩
      · exact Or.inl ⟨rfl, rfl⟩

theorem not_isHex_iff (c : Char) : hexToInt c = 0xFF ↔ ¬ IsHex c := by
  obtain ⟨hbad, hnone⟩ | ⟨n, hn, hread, hsome⟩ := hexToInt_cases c
  · simp [IsHex, hbad, hnone]
  · have hne : UInt8.ofNat n ≠ 0xFF := by
      intro heq
      have := congrArg UInt8.toNat heq
      rw [UInt8.toNat_ofNat'] at this
      change n % 256 = 255 at this
      omega
    simp [IsHex, hread, hsome, hne]

theorem not_badUpper_nil : ¬ BadUpper [] := by
  rintro ⟨i, c, hc, -⟩
  cases hc

theorem badUpper_singleton (c : Char) : BadUpper [c] ↔ ¬ IsHex c := by
  constructor
  · rintro ⟨i, d, hd, hbad⟩
    cases i with
    | zero =>
        cases hd
        exact hbad
    | succ i => cases hd
  · intro hbad
    exact ⟨0, c, rfl, hbad⟩

theorem badUpper_cons_cons (c d : Char) (rest : List Char) :
    BadUpper (c :: d :: rest) ↔ ¬ IsHex c ∨ BadUpper rest := by
  constructor
  · rintro ⟨i, e, he, hbad⟩
    cases i with
    | zero =>
        cases he
        exact Or.inl hbad
    | succ i => exact Or.inr ⟨i, e, he, hbad⟩
  · rintro (hbad | ⟨i, e, he, hbad⟩)
    · exact ⟨0, c, rfl, hbad⟩
    · exact ⟨i + 1, e, he, hbad⟩

theorem not_badUpper_of_all {input : List Char} (hall : ∀ c ∈ input, IsHex c) :
    ¬ BadUpper input := by
  rintro ⟨i, c, hc, hbad⟩
  exact hbad (hall c (List.mem_of_getElem? hc))

/-- The loop refuses what has a bad upper half, and nothing else. -/
theorem hex2binLoop_ok (input : List Char) (tmp : List UInt8) :
    (hex2binLoop input tmp).ok = true ↔ ¬ BadUpper input := by
  fun_induction hex2binLoop input tmp with
  | case1 tmp => exact iff_of_true rfl not_badUpper_nil
  | case2 c rest tmp h hbad =>
      apply iff_of_false
      · decide
      · rw [not_not]
        exact ⟨0, c, rfl, (not_isHex_iff c).mp hbad⟩
  | case3 c tmp h hgood =>
      apply iff_of_true rfl
      rw [badUpper_singleton]
      exact fun hbad => hgood ((not_isHex_iff c).mpr hbad)
  | case4 c tmp h hgood d rest ih =>
      rw [ih, badUpper_cons_cons]
      have hc : ¬ ¬ IsHex c := fun hbad => hgood ((not_isHex_iff c).mpr hbad)
      simp [hc]

theorem nibbles_append (x y : List UInt8) : nibbles (x ++ y) = nibbles x ++ nibbles y :=
  List.flatMap_append

theorem nibbles_byte {m n : Nat} (hm : m < 16) (hn : n < 16) :
    nibbles [UInt8.ofNat m <<< (4 : UInt8) ||| (UInt8.ofNat n &&& 0x0F)] = [m, n] := by
  have hall : ∀ m < 16, ∀ n < 16,
      nibbles [UInt8.ofNat m <<< (4 : UInt8) ||| (UInt8.ofNat n &&& 0x0F)] = [m, n] := by
    decide +kernel
  exact hall m hm n hn

theorem nibbles_upper {m : Nat} (hm : m < 16) : nibbles [UInt8.ofNat m <<< (4 : UInt8)] = [m, 0] := by
  have hall : ∀ m < 16, nibbles [UInt8.ofNat m <<< (4 : UInt8)] = [m, 0] := by decide +kernel
  exact hall m hm

theorem hex2binLoop_digits (input : List Char) (tmp : List UInt8) (hall : ∀ c ∈ input, IsHex c) :
    (hex2binLoop input tmp).value.length = tmp.length + (input.length + 1) / 2 ∧
      nibbles (hex2binLoop input tmp).value =
        nibbles tmp ++ input.filterMap hexValue ++ List.replicate (input.length % 2) 0 := by
  fun_induction hex2binLoop input tmp with
  | case1 tmp => simp
  | case2 c rest tmp h hbad => exact absurd (hall c (by simp)) ((not_isHex_iff c).mp hbad)
  | case3 c tmp h hgood =>
      obtain ⟨hbad, -⟩ | ⟨n, hn, hread, hsome⟩ := hexToInt_cases c
      · exact absurd hbad hgood
      · change hexToInt c = _ at hread
        simp only [h, hread, nibbles_append, nibbles_upper hn]
        simp [hsome]
  | case4 c tmp h hgood d rest ih =>
      obtain ⟨hbad, -⟩ | ⟨m, hm, hupper, hc⟩ := hexToInt_cases c
      · exact absurd hbad hgood
      obtain ⟨-, hbad⟩ | ⟨n, hn, hlower, hd⟩ := hexToInt_cases d
      · have hhex : IsHex d := hall d (by simp)
        rw [IsHex, hbad] at hhex
        cases hhex
      have hrest : ∀ c ∈ rest, IsHex c := fun e he => hall e (by simp [he])
      obtain ⟨hlength, hnibbles⟩ := ih hrest
      constructor
      · rw [hlength]
        simp only [List.length_append, List.length_cons, List.length_nil]
        omega
      · have hparity : (rest.length + 1 + 1) % 2 = rest.length % 2 := by omega
        rw [hnibbles, nibbles_append]
        simp only [h, hupper, hlower, nibbles_byte hm hn]
        simp [hc, hd, hparity]

theorem hex2bin_eq (copy : Copy) (input : List Char) : copy.hex2bin input = hex2binLoop input [] := by
  cases copy <;> rfl

/-- **The decoder, exactly.** A copy is right about a text of digits, and about one with a
character that is no digit where an upper half should be. -/
theorem decodesRight_iff (copy : Copy) (input : List Char) :
    DecodesRight copy input ↔ (∀ c ∈ input, IsHex c) ∨ BadUpper input := by
  constructor
  · intro hright
    by_cases hall : ∀ c ∈ input, IsHex c
    · exact Or.inl hall
    · apply Or.inr
      by_contra hgood
      apply hall
      rw [← hright.accepts, hex2bin_eq]
      exact (hex2binLoop_ok input []).mpr hgood
  · intro hcond
    have haccepts : (copy.hex2bin input).ok = true ↔ ¬ BadUpper input := by
      rw [hex2bin_eq]
      exact hex2binLoop_ok input []
    obtain hall | hbad := hcond
    · have hdigits := hex2binLoop_digits input [] hall
      rw [← hex2bin_eq copy] at hdigits
      constructor
      · exact iff_of_true (haccepts.mpr (not_badUpper_of_all hall)) hall
      · intro _
        rw [hdigits.1, List.length_nil, Nat.zero_add]
      · intro _
        exact hdigits.2
    · have hnot : ¬ ∀ c ∈ input, IsHex c := fun hall => not_badUpper_of_all hall hbad
      constructor
      · exact iff_of_false (fun hok => haccepts.mp hok hbad) hnot
      · exact fun hall => absurd hall hnot
      · exact fun hall => absurd hall hnot

/-- `0g` is decoded, to one byte. -/
theorem lower_half_not_checked :
    (∀ copy : Copy, copy.hex2bin "0g".toList = { value := [0x0F] }) ∧
      ∀ copy, ¬ DecodesRight copy "0g".toList := by
  have hread (copy : Copy) : copy.hex2bin "0g".toList = { value := [0x0F] } := by
    cases copy <;> decide +kernel
  refine ⟨hread, fun copy hright => ?_⟩
  have hall := hright.accepts.mp (by rw [hread copy]; rfl)
  have hg : ¬ IsHex 'g' := by decide +kernel
  exact hg (hall 'g' (by decide))

end FerroRemote.Utilities

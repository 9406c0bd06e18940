/-
# SPI registers

A register is written and read with one transfer each: two bytes of address and register,
and the value, its lower bytes first. The bytes of a value are put together as `int`s, to
which `unsigned char` is promoted, and an `int` is extended with its sign when it becomes
64 bits wide.
-/

import Mathlib.Algebra.Order.Ring.Nat
import FerroRemote.Math.Device
import FerroRemote.Math.Words
import FerroRemote.Agent.OsFiles

namespace FerroRemote.Agent

inductive RegWidth
  | reg8
  | reg16
  | reg32
  | reg64
  deriving DecidableEq, Repr

def RegWidth.Value : RegWidth → Type
  | reg8 => UInt8
  | reg16 => UInt16
  | reg32 => UInt32
  | reg64 => UInt64

/-- What a transfer is made for. It does not show on the wire. -/
inductive RegAccess
  | set
  | get
  deriving DecidableEq, Repr

/-- A transfer of `set_regN` or `get_regN`. -/
structure RegTransfer where
  access : RegAccess
  buf : List UInt8
  deriving DecidableEq, Repr

def RegTransfer.header (t : RegTransfer) : List UInt8 := t.buf.take 2

def RegTransfer.payload (t : RegTransfer) : List UInt8 := t.buf.drop 2

/-- A device that is sent as many bytes as it sends. -/
abbrev SpiRegisters :=
  Device RegTransfer fun t => Except Errno { rx : List UInt8 // rx.length = t.buf.length }

/-- What was on the stack where a function has its `buf`. -/
abbrev RegStack := Vector UInt8 16

/-- `buf[0]` and `buf[1]`. -/
def regHeader (addr reg : UInt32) : List UInt8 := [(addr &&& 0xFF).toUInt8, (reg &&& 0xFF).toUInt8]

/-- The bytes from `buf[2]` on, for a value of 16 bits. -/
def bytes16 (val : UInt16) : List UInt8 :=
  [((val >>> 0x00) &&& 0xFF).toUInt8, ((val >>> 0x08) &&& 0xFF).toUInt8]

def bytes32 (val : UInt32) : List UInt8 :=
  [((val >>> 0x00) &&& 0xFF).toUInt8, ((val >>> 0x08) &&& 0xFF).toUInt8,
    ((val >>> 0x10) &&& 0xFF).toUInt8, ((val >>> 0x18) &&& 0xFF).toUInt8]

def bytes64 (val : UInt64) : List UInt8 :=
  [((val >>> 0x00) &&& 0xFF).toUInt8, ((val >>> 0x08) &&& 0xFF).toUInt8,
    ((val >>> 0x10) &&& 0xFF).toUInt8, ((val >>> 0x18) &&& 0xFF).toUInt8,
    ((val >>> 0x20) &&& 0xFF).toUInt8, ((val >>> 0x28) &&& 0xFF).toUInt8,
    ((val >>> 0x30) &&& 0xFF).toUInt8, ((val >>> 0x38) &&& 0xFF).toUInt8]

/-- An `unsigned char` as an operand. -/
def promote (b : UInt8) : Int32 := b.toUInt32.toInt32

/-- `a | (b << 8)` -/
def two (a b : UInt8) : Int32 := promote a ||| promote b <<< 8

/-- `a | (b << 8) | (c << 16) | (d << 24)` -/
def four (a b c d : UInt8) : Int32 :=
  promote a ||| promote b <<< 8 ||| promote c <<< 16 ||| promote d <<< 24

/-- The value of 16 bits in a buffer. -/
def value16 (buf : List UInt8) : UInt16 := (two (buf.getD 2 0) (buf.getD 3 0)).toUInt32.toUInt16

def value32 (buf : List UInt8) : UInt32 :=
  (four (buf.getD 2 0) (buf.getD 3 0) (buf.getD 4 0) (buf.getD 5 0)).toUInt32

/-- The value of 64 bits: each half is an `int` that is extended. -/
def value64 (buf : List UInt8) : UInt64 :=
  let low := (four (buf.getD 2 0) (buf.getD 3 0) (buf.getD 4 0) (buf.getD 5 0)).toInt64.toUInt64
  let hig := (four (buf.getD 6 0) (buf.getD 7 0) (buf.getD 8 0) (buf.getD 9 0)).toInt64.toUInt64
  hig <<< 32 ||| low

section Functions

variable (dev : SpiRegisters) (stack : RegStack) (addr reg : UInt32)

/-- `transfer`, with what is in the buffer afterwards. -/
def regTransfer (t : RegTransfer) : FerroRemote.Action Error (List RegTransfer) (List UInt8) := do
  let res ← dev.ask t
  FerroRemote.Action.ofExcept (errnoAssert "spi_transfer" (res.map (·.val)))

/-- The transfer of `set_regN`. -/
def sendReg (payload : List UInt8) : FerroRemote.Action Error (List RegTransfer) Unit := do
  let _ ← regTransfer dev ⟨.set, regHeader addr reg ++ payload⟩
  return ()

/-- The transfer of `get_regN`: the value is left as it is on the stack. -/
def receiveReg (bytes : Nat) : FerroRemote.Action Error (List RegTransfer) (List UInt8) :=
  regTransfer dev ⟨.get, regHeader addr reg ++ (stack.toList.drop 2).take bytes⟩

def setReg8 (val : UInt8) : FerroRemote.Action Error (List RegTransfer) Unit :=
  sendReg dev addr reg [val]

def setReg16 (val : UInt16) : FerroRemote.Action Error (List RegTransfer) Unit :=
  sendReg dev addr reg (bytes16 val)

def setReg32 (val : UInt32) : FerroRemote.Action Error (List RegTransfer) Unit :=
  sendReg dev addr reg (bytes32 val)

def setReg64 (val : UInt64) : FerroRemote.Action Error (List RegTransfer) Unit :=
  sendReg dev addr reg (bytes64 val)

def getReg8 : FerroRemote.Action Error (List RegTransfer) UInt8 := do
  let buf ← receiveReg dev stack addr reg 1
  return buf.getD 2 0

def getReg16 : FerroRemote.Action Error (List RegTransfer) UInt16 := do
  let buf ← receiveReg dev stack addr reg 2
  return value16 buf

def getReg32 : FerroRemote.Action Error (List RegTransfer) UInt32 := do
  let buf ← receiveReg dev stack addr reg 4
  return value32 buf

def getReg64 : FerroRemote.Action Error (List RegTransfer) UInt64 := do
  let buf ← receiveReg dev stack addr reg 8
  return value64 buf

/-- The function that sets a register of a width. -/
def setReg : (w : RegWidth) → w.Value → FerroRemote.Action Error (List RegTransfer) Unit
  | .reg8, val => setReg8 dev addr reg val
  | .reg16, val => setReg16 dev addr reg val
  | .reg32, val => setReg32 dev addr reg val
  | .reg64, val => setReg64 dev addr reg val

def getReg : (w : RegWidth) → FerroRemote.Action Error (List RegTransfer) w.Value
  | .reg8 => getReg8 dev stack addr reg
  | .reg16 => getReg16 dev stack addr reg
  | .reg32 => getReg32 dev stack addr reg
  | .reg64 => getReg64 dev stack addr reg

end Functions

/-- A device that keeps what a register was set to last, and returns it. -/
def Stores (dev : SpiRegisters) : Prop :=
  ∀ (log between : List RegTransfer) (set get : RegTransfer), set.access = .set →
    get.access = .get → get.header = set.header → get.buf.length = set.buf.length →
    (∀ t ∈ between, t.access = .set → t.header ≠ set.header) →
    ∀ rx rx', dev.answer log set = .ok rx → dev.answer (log ++ [set] ++ between) get = .ok rx' →
      rx'.val.drop 2 = set.payload

/-- The value comes back, by transfers of the same length and with the same header. -/
structure ComesBack {w : RegWidth} (val got : w.Value) (log between log' : List RegTransfer) :
    Prop where
  value : got = val
  transfers : ∃ set get, log' = log ++ [set] ++ between ++ [get] ∧
    get.buf.length = set.buf.length ∧ get.header = set.header

/-- Bit 31 is the sign of the lower half, which covers the upper one. -/
def Survives : (w : RegWidth) → w.Value → Prop
  | .reg64, val => val.toNat % 2 ^ 32 < 2 ^ 31 ∨ val.toNat / 2 ^ 32 = 2 ^ 32 - 1
  | _, _ => True

theorem two_toBitVec (a b : UInt8) :
    (two a b).toUInt32.toUInt16.toBitVec = b.toBitVec ++ a.toBitVec :=
  Words.two_bytes a.toBitVec b.toBitVec

theorem four_toBitVec (a b c d : UInt8) :
    (four a b c d).toBitVec = d.toBitVec ++ c.toBitVec ++ b.toBitVec ++ a.toBitVec :=
  Words.four_bytes a.toBitVec b.toBitVec c.toBitVec d.toBitVec

theorem four_extract {n : Nat} (v : BitVec n) (k : Nat) {a b c d : UInt8}
    (ha : a.toBitVec = v.extractLsb' k 8) (hb : b.toBitVec = v.extractLsb' (k + 8) 8)
    (hc : c.toBitVec = v.extractLsb' (k + 16) 8) (hd : d.toBitVec = v.extractLsb' (k + 24) 8) :
    (four a b c d).toBitVec = v.extractLsb' k 32 := by
  rw [four_toBitVec, ha, hb, hc, hd, Words.append_bytes]

/-- The bytes of 16 bits make them up again. -/
theorem value16_bytes16 (x y : UInt8) (val : UInt16) : value16 (x :: y :: bytes16 val) = val := by
  apply UInt16.eq_of_toBitVec_eq
  calc (value16 (x :: y :: bytes16 val)).toBitVec
      = ((val >>> 0x08) &&& 0xFF).toUInt8.toBitVec ++ ((val >>> 0x00) &&& 0xFF).toUInt8.toBitVec :=
        two_toBitVec _ _
    _ = val.toBitVec.extractLsb' 8 8 ++ val.toBitVec.extractLsb' 0 8 :=
        congrArg₂ (· ++ ·) (Words.byte_extract val.toBitVec 0x08)
          (Words.byte_extract val.toBitVec 0x00)
    _ = val.toBitVec.extractLsb' 0 16 :=
        BitVec.extractLsb'_append_extractLsb'_eq_extractLsb' (by omega)
    _ = val.toBitVec := BitVec.extractLsb'_eq_self

theorem value32_bytes32 (x y : UInt8) (val : UInt32) : value32 (x :: y :: bytes32 val) = val := by
  apply UInt32.eq_of_toBitVec_eq
  calc (value32 (x :: y :: bytes32 val)).toBitVec
      = val.toBitVec.extractLsb' 0 32 :=
        four_extract val.toBitVec 0 (Words.byte_extract val.toBitVec 0x00)
          (Words.byte_extract val.toBitVec 0x08) (Words.byte_extract val.toBitVec 0x10)
          (Words.byte_extract val.toBitVec 0x18)
    _ = val.toBitVec := BitVec.extractLsb'_eq_self

/-- What the bytes of 64 bits make up: two halves with signs. -/
theorem value64_bytes64 (x y : UInt8) (val : UInt64) :
    (value64 (x :: y :: bytes64 val)).toBitVec =
      (val.toBitVec.extractLsb' 32 32).signExtend (32 + 32) <<< 32 |||
        (val.toBitVec.extractLsb' 0 32).signExtend (32 + 32) := by
  have hlow := four_extract val.toBitVec 0 (Words.byte_extract val.toBitVec 0x00)
    (Words.byte_extract val.toBitVec 0x08) (Words.byte_extract val.toBitVec 0x10)
    (Words.byte_extract val.toBitVec 0x18)
  have hhig := four_extract val.toBitVec 32 (Words.byte_extract val.toBitVec 0x20)
    (Words.byte_extract val.toBitVec 0x28) (Words.byte_extract val.toBitVec 0x30)
    (Words.byte_extract val.toBitVec 0x38)
  rw [← hlow, ← hhig]
  rfl

theorem upper_eq_allOnes_iff (v : BitVec 64) :
    v.extractLsb' 32 32 = BitVec.allOnes 32 ↔ v.toNat / 2 ^ 32 = 2 ^ 32 - 1 := by
  have hlt : v.toNat / 2 ^ 32 < 2 ^ 32 := by omega
  rw [← BitVec.toNat_inj, BitVec.extractLsb'_toNat, Nat.shiftRight_eq_div_pow,
    Nat.mod_eq_of_lt hlt, BitVec.toNat_allOnes]

theorem lower_msb_iff (v : BitVec 64) :
    (v.extractLsb' 0 32).msb = false ↔ v.toNat % 2 ^ 32 < 2 ^ 31 := by
  rw [BitVec.msb_eq_decide, BitVec.extractLsb'_toNat, Nat.shiftRight_zero, decide_eq_false_iff_not,
    Nat.not_le]

/-- The bytes of 64 bits make them up again if the lower half has no sign, or the upper
half is what the sign makes of it. -/
theorem value64_bytes64_iff (x y : UInt8) (val : UInt64) :
    value64 (x :: y :: bytes64 val) = val ↔
      val.toNat % 2 ^ 32 < 2 ^ 31 ∨ val.toNat / 2 ^ 32 = 2 ^ 32 - 1 := by
  have hhalves : val.toBitVec =
      val.toBitVec.extractLsb' 32 32 ++ val.toBitVec.extractLsb' 0 32 := by
    rw [BitVec.extractLsb'_append_extractLsb'_eq_extractLsb' (by omega)]
    exact BitVec.extractLsb'_eq_self.symm
  rw [← UInt64.toBitVec_inj, value64_bytes64]
  nth_rewrite 3 [hhalves]
  rw [Words.joined_eq_iff, lower_msb_iff, upper_eq_allOnes_iff]
  rfl

/-- The bytes of a value, lower ones first. -/
def RegWidth.encode : (w : RegWidth) → w.Value → List UInt8
  | reg8, val => [val]
  | reg16, val => bytes16 val
  | reg32, val => bytes32 val
  | reg64, val => bytes64 val

def RegWidth.decode : (w : RegWidth) → List UInt8 → w.Value
  | reg8, buf => buf.getD 2 0
  | reg16, buf => value16 buf
  | reg32, buf => value32 buf
  | reg64, buf => value64 buf

def RegWidth.bytes : RegWidth → Nat
  | reg8 => 1
  | reg16 => 2
  | reg32 => 4
  | reg64 => 8

theorem RegWidth.length_encode (w : RegWidth) (val : w.Value) :
    (w.encode val).length = w.bytes := by
  cases w <;> rfl

theorem RegWidth.bytes_le (w : RegWidth) : w.bytes ≤ 14 := by
  cases w <;> decide

theorem RegWidth.decode_encode_iff (w : RegWidth) (x y : UInt8) (val : w.Value) :
    w.decode (x :: y :: w.encode val) = val ↔ Survives w val := by
  cases w with
  | reg8 => exact iff_of_true rfl trivial
  | reg16 => exact iff_of_true (value16_bytes16 x y val) trivial
  | reg32 => exact iff_of_true (value32_bytes32 x y val) trivial
  | reg64 => exact value64_bytes64_iff x y val

section Transfers

variable {dev : SpiRegisters} {stack : RegStack} {addr reg : UInt32} {log log' : List RegTransfer}

theorem regTransfer_done {t : RegTransfer} {buf : List UInt8}
    (hrun : regTransfer dev t log = .done buf log') :
    ∃ rx, dev.answer log t = .ok rx ∧ buf = rx.val ∧ log' = log ++ [t] := by
  simp only [regTransfer, Device.ask_bind] at hrun
  cases hanswer : dev.answer log t with
  | ok rx =>
      rw [hanswer] at hrun
      cases hrun
      exact ⟨rx, rfl, rfl, rfl⟩
  | error e =>
      rw [hanswer] at hrun
      cases hrun

/-- What `set_regN` sends. -/
def setTransfer (addr reg : UInt32) (w : RegWidth) (val : w.Value) : RegTransfer :=
  ⟨.set, regHeader addr reg ++ w.encode val⟩

/-- What `get_regN` sends. -/
def getTransfer (stack : RegStack) (addr reg : UInt32) (w : RegWidth) : RegTransfer :=
  ⟨.get, regHeader addr reg ++ (stack.toList.drop 2).take w.bytes⟩

theorem setReg_done {w : RegWidth} {val : w.Value}
    (hrun : setReg dev addr reg w val log = .done () log') :
    ∃ rx, dev.answer log (setTransfer addr reg w val) = .ok rx ∧
      log' = log ++ [setTransfer addr reg w val] := by
  have hsend : setReg dev addr reg w val = sendReg dev addr reg (w.encode val) := by
    cases w <;> rfl
  rw [hsend, sendReg] at hrun
  obtain ⟨buf, log₁, hbuf, hpure⟩ := FerroRemote.Action.of_bind_done hrun
  obtain ⟨rx, hanswer, -, hlog⟩ := regTransfer_done hbuf
  cases hpure
  exact ⟨rx, hanswer, hlog⟩

theorem getReg_done {w : RegWidth} {got : w.Value}
    (hrun : getReg dev stack addr reg w log = .done got log') :
    ∃ rx, dev.answer log (getTransfer stack addr reg w) = .ok rx ∧ got = w.decode rx.val ∧
      log' = log ++ [getTransfer stack addr reg w] := by
  have hreceive : getReg dev stack addr reg w =
      receiveReg dev stack addr reg w.bytes >>= fun buf => pure (w.decode buf) := by
    cases w <;> rfl
  rw [hreceive, receiveReg] at hrun
  obtain ⟨buf, log₁, hbuf, hpure⟩ := FerroRemote.Action.of_bind_done hrun
  obtain ⟨rx, hanswer, rfl, hlog⟩ := regTransfer_done hbuf
  cases hpure
  exact ⟨rx, hanswer, rfl, hlog⟩

theorem length_setTransfer (w : RegWidth) (val : w.Value) :
    (setTransfer addr reg w val).buf.length = 2 + w.bytes := by
  change (regHeader addr reg ++ w.encode val).length = _
  rw [List.length_append, RegWidth.length_encode]
  rfl

theorem length_getTransfer (w : RegWidth) :
    (getTransfer stack addr reg w).buf.length = 2 + w.bytes := by
  have hle := w.bytes_le
  change (regHeader addr reg ++ (stack.toList.drop 2).take w.bytes).length = _
  rw [List.length_append, List.length_take, List.length_drop, Vector.length_toList,
    Nat.min_eq_left hle]
  rfl

/-- The get returns what the set sent, behind two bytes that are not looked at. -/
theorem decode_eq_iff {w : RegWidth} {val : w.Value} {buf : List UInt8}
    (hlength : buf.length = 2 + w.bytes) (hstored : buf.drop 2 = w.encode val) :
    w.decode buf = val ↔ Survives w val := by
  match buf with
  | [] => simp at hlength; omega
  | [_] => simp at hlength; cases w <;> simp [RegWidth.bytes] at hlength
  | x :: y :: rest =>
      cases hstored
      exact w.decode_encode_iff x y val

end Transfers

/-- A register of 64 bits comes back when bit 31 is not set, or when all of the upper half
is. Others come back. -/
theorem comesBack_iff (dev : SpiRegisters) (hstores : Stores dev) (stack : RegStack)
    (addr reg : UInt32) (w : RegWidth) (val got : w.Value)
    (log logset between log' : List RegTransfer)
    (hset : setReg dev addr reg w val log = .done () logset)
    (hbetween : ∀ t ∈ between, t.access = .set → t.header ≠ regHeader addr reg)
    (hget : getReg dev stack addr reg w (logset ++ between) = .done got log') :
    ComesBack val got log between log' ↔ Survives w val := by
  obtain ⟨rx, hanswer, rfl⟩ := setReg_done hset
  obtain ⟨rx', hanswer', rfl, rfl⟩ := getReg_done hget
  have hlength : (getTransfer stack addr reg w).buf.length =
      (setTransfer addr reg w val).buf.length := by
    rw [length_getTransfer, length_setTransfer]
  have hstored := hstores log between (setTransfer addr reg w val)
    (getTransfer stack addr reg w) rfl rfl rfl hlength hbetween rx rx' hanswer hanswer'
  have hrx' : rx'.val.length = 2 + w.bytes := rx'.property.trans (length_getTransfer w)
  rw [← decode_eq_iff hrx' hstored]
  constructor
  · intro hback
    exact hback.value
  · intro hvalue
    exact ⟨hvalue, _, _, rfl, hlength, rfl⟩

def RegTransfer.Sets (s t : RegTransfer) : Prop :=
  s.access = .set ∧ s.header = t.header ∧ s.buf.length = t.buf.length

instance (s t : RegTransfer) : Decidable (s.Sets t) := inferInstanceAs (Decidable (_ ∧ _))

def setLast (log : List RegTransfer) (t : RegTransfer) : Option RegTransfer :=
  log.reverse.find? fun s => s.Sets t

theorem length_payload (t : RegTransfer) : t.payload.length = t.buf.length - 2 := by
  rw [RegTransfer.payload, List.length_drop]

theorem length_kept (log : List RegTransfer) (t : RegTransfer) :
    (t.header ++ ((setLast log t).getD t).payload).length = t.buf.length := by
  have hlength : ((setLast log t).getD t).buf.length = t.buf.length := by
    cases hlast : setLast log t with
    | none => rfl
    | some last =>
        have hsets : last.Sets t := of_decide_eq_true
          (List.find?_some (p := fun s : RegTransfer => decide (s.Sets t)) hlast)
        exact hsets.2.2
  rw [List.length_append, length_payload, hlength, RegTransfer.header, List.length_take]
  omega

/-- Registers that are kept by their headers. -/
def memory : SpiRegisters where
  answer log t := .ok ⟨t.header ++ ((setLast log t).getD t).payload, length_kept log t⟩

theorem setLast_append (log between : List RegTransfer) {set get : RegTransfer}
    (hsets : set.Sets get) (hbetween : ∀ t ∈ between, t.access = .set → t.header ≠ set.header) :
    setLast (log ++ [set] ++ between) get = some set := by
  have hnone : between.reverse.find? (fun s => decide (s.Sets get)) = none := by
    rw [List.find?_eq_none]
    intro t ht hmatch
    have hagain : t.Sets get := of_decide_eq_true hmatch
    exact hbetween t (List.mem_reverse.mp ht) hagain.1 (hagain.2.1.trans hsets.2.1.symm)
  rw [setLast, List.reverse_append, List.reverse_append, List.find?_append, hnone, Option.none_or]
  exact List.find?_cons_of_pos (decide_eq_true hsets)

theorem memory_stores : Stores memory := by
  intro log between set get hset hget hheader hlength hbetween rx rx' hanswer hanswer'
  have hlast := setLast_append log between ⟨hset, hheader.symm, hlength.symm⟩ hbetween
  cases hanswer'
  change (get.header ++ ((setLast (log ++ [set] ++ between) get).getD get).payload).drop 2 = _
  rw [hlast, hheader]
  change (set.buf.take 2 ++ set.buf.drop 2).drop 2 = _
  rw [List.take_append_drop]
  rfl

/-- Another register is set before the first one is got. -/
theorem comesBack_memory :
    ComesBack (w := .reg32) (0x80000001 : UInt32) (0x80000001 : UInt32) []
      [⟨.set, [1, 3, 0, 0, 0, 0]⟩]
      [⟨.set, [1, 2, 1, 0, 0, 0x80]⟩, ⟨.set, [1, 3, 0, 0, 0, 0]⟩, ⟨.get, [1, 2, 7, 7, 7, 7]⟩] ↔
      Survives .reg32 (0x80000001 : UInt32) :=
  comesBack_iff memory memory_stores (Vector.replicate 16 7) 0x101 2 .reg32
    (0x80000001 : UInt32) (0x80000001 : UInt32) [] [⟨.set, [1, 2, 1, 0, 0, 0x80]⟩]
    [⟨.set, [1, 3, 0, 0, 0, 0]⟩] _ rfl (by decide) rfl

/-- A value with bit 31 comes back with ones above it. -/
theorem upper_half_is_covered :
    ¬ ∀ (dev : SpiRegisters) (_ : Stores dev) (stack : RegStack) (addr reg : UInt32)
      (w : RegWidth) (val got : w.Value) (log logset between log' : List RegTransfer),
      setReg dev addr reg w val log = .done () logset →
        (∀ t ∈ between, t.access = .set → t.header ≠ regHeader addr reg) →
          getReg dev stack addr reg w (logset ++ between) = .done got log' →
            ComesBack val got log between log' := by
  intro hall
  have hback := hall memory memory_stores (Vector.replicate 16 7) 0 0 .reg64
    (0x80000000 : UInt64) (0xFFFFFFFF80000000 : UInt64) [] _ [] _ rfl (by simp) rfl
  have hvalue : (0xFFFFFFFF80000000 : UInt64) = 0x80000000 := hback.value
  exact absurd hvalue (by decide)

end FerroRemote.Agent

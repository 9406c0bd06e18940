/-
# SMBus transfers on the agent

The i2c service reads and writes lists of registers of the chip that a handle's
descriptor addresses. Commands and values travel as 32-bit numbers and are cut to
what the bus takes: commands to 8 bits, values to 8 or 16. The chips answer: no transfer
fails here.
-/

import Mathlib.Logic.Function.Basic
import FerroRemote.Agent.BusServices

namespace FerroRemote.Agent

/-- The registers of a chip, as `I2C_SMBUS_BYTE_DATA` and `I2C_SMBUS_WORD_DATA`
transfers find them. -/
structure SmbusRegisters where
  bytes : UInt8 → UInt8
  words : UInt8 → UInt16

namespace SmbusRegisters

/-- Values put into registers one after the other. -/
def putBytes (regs : SmbusRegisters) (values : List (UInt8 × UInt8)) : SmbusRegisters :=
  { regs with bytes := values.foldl (fun bytes v => Function.update bytes v.1 v.2) regs.bytes }

def putWords (regs : SmbusRegisters) (values : List (UInt8 × UInt16)) : SmbusRegisters :=
  { regs with words := values.foldl (fun words v => Function.update words v.1 v.2) regs.words }

end SmbusRegisters

/-- The chips behind the buses, and the one each helper has been set to. -/
structure SmbusChips where
  /-- The chip that the descriptor of a helper addresses. -/
  chip : Nat → Nat
  registers : Nat → SmbusRegisters

namespace SmbusChips

/-- The registers a helper works on. -/
def of (chips : SmbusChips) (dev : I2cHelper) : SmbusRegisters :=
  chips.registers (chips.chip dev.id)

/-- The registers a helper works on are different now, and no others. -/
def set (chips : SmbusChips) (dev : I2cHelper) (regs : SmbusRegisters) : SmbusChips :=
  { chips with registers := Function.update chips.registers (chips.chip dev.id) regs }

def smbusReadByteData (chips : SmbusChips) (dev : I2cHelper) (cmd : UInt8) : UInt8 :=
  (chips.of dev).bytes cmd

def smbusWriteByteData (chips : SmbusChips) (dev : I2cHelper) (cmd value : UInt8) : SmbusChips :=
  chips.set dev ((chips.of dev).putBytes [(cmd, value)])

def smbusReadWordData (chips : SmbusChips) (dev : I2cHelper) (cmd : UInt8) : UInt16 :=
  (chips.of dev).words cmd

def smbusWriteWordData (chips : SmbusChips) (dev : I2cHelper) (cmd : UInt8) (value : UInt16) :
    SmbusChips :=
  chips.set dev ((chips.of dev).putWords [(cmd, value)])

@[simp]
theorem of_set (chips : SmbusChips) (dev : I2cHelper) (regs : SmbusRegisters) :
    (chips.set dev regs).of dev = regs := Function.update_self _ _ _

@[simp]
theorem set_set (chips : SmbusChips) (dev : I2cHelper) (first second : SmbusRegisters) :
    (chips.set dev first).set dev second = chips.set dev second := by
  simp only [set, Function.update_idem]

@[simp]
theorem set_of (chips : SmbusChips) (dev : I2cHelper) : chips.set dev (chips.of dev) = chips := by
  simp only [set, of, Function.update_eq_self]

end SmbusChips

/-- The fields of a `code_data` that these requests use. -/
structure CodeData where
  code : UInt32 := 0
  value : UInt32 := 0
  deriving DecidableEq, Repr

namespace I2cInstance

def i2cByIndex (i2c : I2cInstance) (id : Nat) : Except Error I2cHelper :=
  match i2c.devices[id]? with
  | none => .error (.system EINVAL "Bad I2C handle.")
  | some dev => .ok dev

variable (i2c : I2cInstance) (chips : SmbusChips) (hdl : Nat) (request : List CodeData)

def readBytes : Except Error (List CodeData) :=
  (i2c.i2cByIndex hdl).map fun dev =>
    request.map fun next =>
      let b : UInt8 := chips.smbusReadByteData dev next.code.toUInt8
      { code := next.code, value := b.toUInt32 }

def writeBytes : Except Error SmbusChips :=
  (i2c.i2cByIndex hdl).map fun dev =>
    request.foldl (fun chips next =>
      chips.smbusWriteByteData dev next.code.toUInt8 (next.value &&& 0xFF).toUInt8) chips

/-- `read_words`, which keeps the word in a `uint8_t`. -/
def readWords : Except Error (List CodeData) :=
  (i2c.i2cByIndex hdl).map fun dev =>
    request.map fun next =>
      let b : UInt8 := (chips.smbusReadWordData dev next.code.toUInt8).toUInt8
      { code := next.code, value := b.toUInt32 }

def writeWords : Except Error SmbusChips :=
  (i2c.i2cByIndex hdl).map fun dev =>
    request.foldl (fun chips next =>
      chips.smbusWriteWordData dev next.code.toUInt8 (next.value &&& 0xFFFF).toUInt16) chips

end I2cInstance

/-- Writing bytes one by one is writing the list. -/
theorem foldl_smbusWriteByteData (dev : I2cHelper) (values : List (UInt8 × UInt8))
    (chips : SmbusChips) :
    values.foldl (fun chips v => chips.smbusWriteByteData dev v.1 v.2) chips =
      chips.set dev ((chips.of dev).putBytes values) := by
  induction values generalizing chips with
  | nil => exact (chips.set_of dev).symm
  | cons v values ih =>
      rw [List.foldl_cons, ih, SmbusChips.smbusWriteByteData, SmbusChips.of_set, SmbusChips.set_set]
      rfl

theorem foldl_smbusWriteWordData (dev : I2cHelper) (values : List (UInt8 × UInt16))
    (chips : SmbusChips) :
    values.foldl (fun chips v => chips.smbusWriteWordData dev v.1 v.2) chips =
      chips.set dev ((chips.of dev).putWords values) := by
  induction values generalizing chips with
  | nil => exact (chips.set_of dev).symm
  | cons v values ih =>
      rw [List.foldl_cons, ih, SmbusChips.smbusWriteWordData, SmbusChips.of_set, SmbusChips.set_set]
      rfl

end FerroRemote.Agent

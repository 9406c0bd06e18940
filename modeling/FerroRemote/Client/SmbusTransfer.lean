/-
# SMBus transfers, from the client to the bus

A client passes commands and values as 8- and 16-bit numbers, and the messages
carry them as 32-bit ones. What is written arrives in the registers as it was
given. A word that is read is cut to a byte on the way, by the handler and again
by the client, so that it comes through exactly when its high byte is zero.
-/

import FerroRemote.Agent.SmbusService

namespace FerroRemote.Client

open FerroRemote.Agent

section Calls

variable (call : List CodeData → Except Error (List CodeData))

def readImpl (cmd : UInt8) : Except Error UInt32 :=
  (call [{ code := cmd.toUInt32 }]).map fun res => (res.headD {}).value

/-- `read_many_impl`. The values are cast to the type of the commands. -/
def readManyImpl (cmds : List UInt8) : Except Error (List (UInt8 × UInt8)) :=
  (call (cmds.map fun cmd => { code := cmd.toUInt32 })).map fun res =>
    res.map fun next => (next.code.toUInt8, next.value.toUInt8)

end Calls

def writeImpl {β : Type} (call : List CodeData → Except Error β) (cmd : UInt8) (val : UInt32) :
    Except Error β :=
  call [{ code := cmd.toUInt32, value := val }]

/-- `write_many_impl`, for values of either width. -/
def writeManyImpl {β V : Type} (call : List CodeData → Except Error β) (widen : V → UInt32)
    (cmds : List (UInt8 × V)) : Except Error β :=
  call (cmds.map fun b => { code := b.1.toUInt32, value := widen b.2 })

section Device

variable (i2c : I2cInstance) (chips : SmbusChips) (hdl : Nat)

def readByte (cmd : UInt8) : Except Error UInt8 :=
  (readImpl (i2c.readBytes chips hdl) cmd).map UInt32.toUInt8

def writeByte (cmd value : UInt8) : Except Error SmbusChips :=
  writeImpl (i2c.writeBytes chips hdl) cmd value.toUInt32

def readBytes (cmds : List UInt8) : Except Error (List (UInt8 × UInt8)) :=
  readManyImpl (i2c.readBytes chips hdl) cmds

def writeBytes (cmds : List (UInt8 × UInt8)) : Except Error SmbusChips :=
  writeManyImpl (i2c.writeBytes chips hdl) UInt8.toUInt32 cmds

/-- `read_word`, with the cast of `read_byte`. -/
def readWord (cmd : UInt8) : Except Error UInt16 :=
  (readImpl (i2c.readWords chips hdl) cmd).map fun value => value.toUInt8.toUInt16

def writeWord (cmd : UInt8) (value : UInt16) : Except Error SmbusChips :=
  writeImpl (i2c.writeWords chips hdl) cmd value.toUInt32

/-- `read_words`; a pair of bytes becomes a pair of a byte and a word. -/
def readWords (cmds : List UInt8) : Except Error (List (UInt8 × UInt16)) :=
  (readManyImpl (i2c.readWords chips hdl) cmds).map fun result =>
    result.map fun next => (next.1, next.2.toUInt16)

def writeWords (cmds : List (UInt8 × UInt16)) : Except Error SmbusChips :=
  writeManyImpl (i2c.writeWords chips hdl) UInt16.toUInt32 cmds

end Device

/-- What a client reads is what the bus reports, and what it writes is what the
registers get, one after the other. -/
structure SmbusFaithful (i2c : I2cInstance) (chips : SmbusChips) (hdl : Nat) (dev : I2cHelper)
    (cmds : List UInt8) (bytes : List (UInt8 × UInt8)) (words : List (UInt8 × UInt16)) : Prop where
  readByte : ∀ cmd ∈ cmds, readByte i2c chips hdl cmd = .ok ((chips.of dev).bytes cmd)
  readWord : ∀ cmd ∈ cmds, readWord i2c chips hdl cmd = .ok ((chips.of dev).words cmd)
  readBytes : readBytes i2c chips hdl cmds =
    .ok (cmds.map fun cmd => (cmd, (chips.of dev).bytes cmd))
  readWords : readWords i2c chips hdl cmds =
    .ok (cmds.map fun cmd => (cmd, (chips.of dev).words cmd))
  writeByte : ∀ v ∈ bytes, writeByte i2c chips hdl v.1 v.2 =
    .ok (chips.set dev ((chips.of dev).putBytes [v]))
  writeWord : ∀ v ∈ words, writeWord i2c chips hdl v.1 v.2 =
    .ok (chips.set dev ((chips.of dev).putWords [v]))
  writeBytes : writeBytes i2c chips hdl bytes = .ok (chips.set dev ((chips.of dev).putBytes bytes))
  writeWords : writeWords i2c chips hdl words = .ok (chips.set dev ((chips.of dev).putWords words))

theorem toUInt8_and_mask (value : UInt8) : (value.toUInt32 &&& 0xFF).toUInt8 = value := by
  have hmask : value &&& 255 = value := UInt8.and_neg_one
  simpa using hmask

theorem toUInt16_and_mask (value : UInt16) : (value.toUInt32 &&& 0xFFFF).toUInt16 = value := by
  have hmask : value &&& 65535 = value := UInt16.and_neg_one
  simpa using hmask

/-- A word survives in a byte when it fits. -/
theorem toUInt16_toUInt8_eq_iff (value : UInt16) :
    value.toUInt8.toUInt16 = value ↔ value < 256 := by
  rw [← UInt16.toNat_inj, UInt16.lt_iff_toNat_lt]
  simp

section Requests

variable {i2c : I2cInstance} {hdl : Nat} {dev : I2cHelper} (chips : SmbusChips)

theorem i2cByIndex_of (hdev : i2c.devices[hdl]? = some dev) : i2c.i2cByIndex hdl = .ok dev := by
  simp only [I2cInstance.i2cByIndex, hdev]

variable (hdev : i2c.devices[hdl]? = some dev)
include hdev

theorem readBytes_eq (cmds : List UInt8) : readBytes i2c chips hdl cmds =
    .ok (cmds.map fun cmd => (cmd, (chips.of dev).bytes cmd)) := by
  simp only [readBytes, readManyImpl, I2cInstance.readBytes, i2cByIndex_of hdev, Except.map,
    SmbusChips.smbusReadByteData, List.map_map, Function.comp_def, UInt8.toUInt8_toUInt32]

theorem readByte_eq (cmd : UInt8) :
    readByte i2c chips hdl cmd = .ok ((chips.of dev).bytes cmd) := by
  simp only [readByte, readImpl, I2cInstance.readBytes, i2cByIndex_of hdev, Except.map,
    SmbusChips.smbusReadByteData, List.map_cons, List.headD_cons, UInt8.toUInt8_toUInt32]

/-- The words come back with the commands they were read from, less their high
bytes. -/
theorem readWords_eq (cmds : List UInt8) : readWords i2c chips hdl cmds =
    .ok (cmds.map fun cmd => (cmd, ((chips.of dev).words cmd).toUInt8.toUInt16)) := by
  simp only [readWords, readManyImpl, I2cInstance.readWords, i2cByIndex_of hdev, Except.map,
    SmbusChips.smbusReadWordData, List.map_map, Function.comp_def, UInt8.toUInt8_toUInt32]

theorem readWord_eq (cmd : UInt8) :
    readWord i2c chips hdl cmd = .ok ((chips.of dev).words cmd).toUInt8.toUInt16 := by
  simp only [readWord, readImpl, I2cInstance.readWords, i2cByIndex_of hdev, Except.map,
    SmbusChips.smbusReadWordData, List.map_cons, List.headD_cons, UInt8.toUInt8_toUInt32]

theorem writeBytes_eq (values : List (UInt8 × UInt8)) : writeBytes i2c chips hdl values =
    .ok (chips.set dev ((chips.of dev).putBytes values)) := by
  simp only [writeBytes, writeManyImpl, I2cInstance.writeBytes, i2cByIndex_of hdev, Except.map,
    List.foldl_map, UInt8.toUInt8_toUInt32, toUInt8_and_mask]
  rw [foldl_smbusWriteByteData]

theorem writeByte_eq (cmd value : UInt8) : writeByte i2c chips hdl cmd value =
    .ok (chips.set dev ((chips.of dev).putBytes [(cmd, value)])) :=
  writeBytes_eq chips hdev [(cmd, value)]

theorem writeWords_eq (values : List (UInt8 × UInt16)) : writeWords i2c chips hdl values =
    .ok (chips.set dev ((chips.of dev).putWords values)) := by
  simp only [writeWords, writeManyImpl, I2cInstance.writeWords, i2cByIndex_of hdev, Except.map,
    List.foldl_map, UInt8.toUInt8_toUInt32, toUInt16_and_mask]
  rw [foldl_smbusWriteWordData]

theorem writeWord_eq (cmd : UInt8) (value : UInt16) : writeWord i2c chips hdl cmd value =
    .ok (chips.set dev ((chips.of dev).putWords [(cmd, value)])) :=
  writeWords_eq chips hdev [(cmd, value)]

theorem readWord_eq_iff (cmd : UInt8) :
    readWord i2c chips hdl cmd = .ok ((chips.of dev).words cmd) ↔
      (chips.of dev).words cmd < 256 := by
  rw [readWord_eq chips hdev, Except.ok.injEq, toUInt16_toUInt8_eq_iff]

/-- Everything but the high byte of a word that is read comes through: transfers
are faithful exactly when no word among those to be read has one. -/
theorem smbusFaithful_iff (cmds : List UInt8) (bytes : List (UInt8 × UInt8))
    (words : List (UInt8 × UInt16)) :
    SmbusFaithful i2c chips hdl dev cmds bytes words ↔
      ∀ cmd ∈ cmds, (chips.of dev).words cmd < 256 := by
  constructor
  · intro hfaithful cmd hcmd
    exact (readWord_eq_iff chips hdev cmd).mp (hfaithful.readWord cmd hcmd)
  · intro hsmall
    have hwords : (cmds.map fun cmd => (cmd, ((chips.of dev).words cmd).toUInt8.toUInt16)) =
        cmds.map fun cmd => (cmd, (chips.of dev).words cmd) := by
      apply List.map_congr_left
      intro cmd hcmd
      rw [(toUInt16_toUInt8_eq_iff _).mpr (hsmall cmd hcmd)]
    exact
      { readByte := fun cmd _ => readByte_eq chips hdev cmd
        readWord := fun cmd hcmd => (readWord_eq_iff chips hdev cmd).mpr (hsmall cmd hcmd)
        readBytes := readBytes_eq chips hdev cmds
        readWords := hwords ▸ readWords_eq chips hdev cmds
        writeByte := fun v _ => writeByte_eq chips hdev v.1 v.2
        writeWord := fun v _ => writeWord_eq chips hdev v.1 v.2
        writeBytes := writeBytes_eq chips hdev bytes
        writeWords := writeWords_eq chips hdev words }

end Requests

def oneI2c : I2cInstance where
  devices := (∅ : Table I2cHelper).insert 101 ⟨0, 1⟩
  index := 101

/-- A chip whose registers all report one word. -/
def wordChip (word : UInt16) : SmbusChips where
  chip := fun _ => 0
  registers := fun _ => { bytes := fun _ => 0, words := fun _ => word }

theorem oneI2c_device : oneI2c.devices[101]? = some ⟨0, 1⟩ := by
  simp [oneI2c]

/-- A chip with a small word is served faithfully. -/
theorem smbusFaithful_small :
    SmbusFaithful oneI2c (wordChip 0x34) 101 ⟨0, 1⟩ [0, 7] [(1, 2)] [(3, 0xBEEF)] := by
  apply (smbusFaithful_iff (wordChip 0x34) oneI2c_device [0, 7] [(1, 2)] [(3, 0xBEEF)]).mpr
  intro cmd _
  exact (by decide : (0x34 : UInt16) < 256)

/-- Of 0x1234 the client gets 0x34. -/
theorem high_byte_lost :
    readWord oneI2c (wordChip 0x1234) 101 0 = .ok 0x34 ∧
      readWords oneI2c (wordChip 0x1234) 101 [0] = .ok [(0, 0x34)] ∧
      ¬ SmbusFaithful oneI2c (wordChip 0x1234) 101 ⟨0, 1⟩ [0] [] [] := by
  constructor
  · exact readWord_eq (wordChip 0x1234) oneI2c_device 0
  constructor
  · exact readWords_eq (wordChip 0x1234) oneI2c_device [0]
  · intro hfaithful
    have hread := hfaithful.readWord 0 (List.mem_singleton.mpr rfl)
    rw [readWord_eq_iff (wordChip 0x1234) oneI2c_device 0] at hread
    exact absurd hread (by decide)

end FerroRemote.Client

/-
# SMBus blocks

A block travels to the bus with its length in one byte in front of it, and has 32 bytes at
most. Three helpers put a string of any length into a block; two of them cut its length to
8 bits before they compare it with 32, and one afterwards.
-/

import FerroRemote.Math.Device
import FerroRemote.Agent.OsFiles
import FerroRemote.Agent.SmbusService

namespace FerroRemote.Agent

/-- `I2C_SMBUS_BLOCK_MAX`. -/
def smbusBlockMax : Nat := 32

/-- `I2C_SMBUS_READ` and `I2C_SMBUS_WRITE`. -/
inductive SmbusDirection
  | read
  | write
  deriving DecidableEq, Repr

/-- The kinds of transactions that move blocks, and the call with a word. -/
inductive SmbusSize
  | procCall
  | blockData
  | i2cBlockBroken
  | blockProcCall
  deriving DecidableEq, Repr

/-- An `I2C_SMBUS` ioctl, with the 34 bytes of its `i2c_smbus_data`. -/
structure SmbusIoctl where
  fd : Nat
  readWrite : SmbusDirection
  command : UInt8
  size : SmbusSize
  data : List UInt8
  deriving DecidableEq, Repr

namespace SmbusIoctl

/-- `block[0]`. -/
def lengthByte (t : SmbusIoctl) : UInt8 := t.data.headD 0

/-- The bytes that the length byte announces. -/
def payload (t : SmbusIoctl) : List UInt8 := (t.data.drop 1).take t.lengthByte.toNat

end SmbusIoctl

/-- The buses. An ioctl that does not fail may change the data. -/
abbrev SmbusBus := Device SmbusIoctl fun _ => Except Errno (List UInt8)

/-- What was on the stack where an `i2c_smbus_data` is. -/
abbrev StackBytes := Vector UInt8 34

/-- The `write_read_data` of a request or a response. -/
structure WriteReadData where
  value : Option UInt32 := none
  block : Option (List UInt8) := none
  brokenBlock : Bool := false
  deriving DecidableEq, Repr

namespace I2cHelper

variable (bus : SmbusBus) (stack : StackBytes) (dev : I2cHelper) (cmd : UInt8)

/-- `smbus_write`, with the data after it. -/
def smbusWrite (size : SmbusSize) (data : List UInt8) :
    Action Error (List SmbusIoctl) (List UInt8) := do
  let res ← bus.ask ⟨dev.id, .write, cmd, size, data⟩
  Action.ofExcept (errnoAssert "smbus_write" res)

/-- `block[0] = len; memcpy( &block[1], data, len )`. -/
def fillBlock (len : UInt8) (data : List UInt8) : List UInt8 :=
  len :: data.take len.toNat ++ stack.toList.drop (1 + len.toNat)

/-- The helpers that write `length` bytes from a pointer. -/
def writeBlockFrom (size : SmbusSize) (data : List UInt8) (length : UInt8) :
    Action Error (List SmbusIoctl) Unit := do
  let len := if length.toNat > smbusBlockMax then UInt8.ofNat smbusBlockMax else length
  let _ ← dev.smbusWrite bus cmd size (fillBlock stack len data)
  return ()

def smbusWriteBlockData (data : List UInt8) : Action Error (List SmbusIoctl) Unit :=
  let len := UInt8.ofNat data.length
  dev.writeBlockFrom bus stack cmd .blockData data len

def smbusWriteBlockBroken (data : List UInt8) : Action Error (List SmbusIoctl) Unit :=
  let len := UInt8.ofNat data.length
  dev.writeBlockFrom bus stack cmd .i2cBlockBroken data len

def smbusBlockProcessCall (data : List UInt8) : Action Error (List SmbusIoctl) (List UInt8) := do
  let len := if data.length > smbusBlockMax then UInt8.ofNat smbusBlockMax
    else UInt8.ofNat data.length
  let ldata ← dev.smbusWrite bus cmd .blockProcCall (fillBlock stack len data)
  return (ldata.drop 1).take (ldata.headD 0).toNat

/-- `smbus_process_call`, with a word in the first bytes of the data. -/
def smbusProcessCall (value : UInt16) : Action Error (List SmbusIoctl) UInt16 := do
  let word := [value.toUInt8, (value >>> 8).toUInt8]
  let data ← dev.smbusWrite bus cmd .procCall (word ++ stack.toList.drop 2)
  return (data.headD 0).toUInt16 ||| ((data.drop 1).headD 0).toUInt16 <<< 8

end I2cHelper

namespace I2cInstance

variable (bus : SmbusBus) (stack : StackBytes) (i2c : I2cInstance) (hdl : Nat) (code : UInt32)
variable (data : WriteReadData)

def writeBlock : Action Error (List SmbusIoctl) WriteReadData := do
  let dev ← Action.ofExcept (i2c.i2cByIndex hdl)
  if data.brokenBlock then dev.smbusWriteBlockBroken bus stack code.toUInt8 (data.block.getD [])
  else dev.smbusWriteBlockData bus stack code.toUInt8 (data.block.getD [])
  return {}

def processCall : Action Error (List SmbusIoctl) WriteReadData := do
  let dev ← Action.ofExcept (i2c.i2cByIndex hdl)
  let cmd := (code &&& 0xFFFF).toUInt16
  match data.value, data.block with
  | some value, _ =>
    let res ← dev.smbusProcessCall bus stack cmd.toUInt8 (value &&& 0xFFFF).toUInt16
    return { value := some res.toUInt32 }
  | none, some block =>
    let res ← dev.smbusBlockProcessCall bus stack cmd.toUInt8 block
    return { block := some res }
  | none, none => Action.throw (.system EINVAL "Empty data or code received.")

end I2cInstance

inductive BlockCall
  | writeBlock
  | writeBlockBroken
  | processCall
  deriving DecidableEq, Repr

/-- The handler of a request with a string. -/
def BlockCall.serve (bus : SmbusBus) (stack : StackBytes) (i2c : I2cInstance) (hdl : Nat)
    (code : UInt32) (data : List UInt8) :
    BlockCall → Action Error (List SmbusIoctl) WriteReadData
  | writeBlock => i2c.writeBlock bus stack hdl code { block := some data }
  | writeBlockBroken => i2c.writeBlock bus stack hdl code { block := some data, brokenBlock := true }
  | processCall => i2c.processCall bus stack hdl code { block := some data }

/-- A handle that was opened and not closed. -/
structure OpenI2c where
  i2c : I2cInstance
  hdl : Nat
  dev : I2cHelper
  isOpen : i2c.i2cByIndex hdl = .ok dev

/-- The log has one transaction more, with the first 32 bytes of a string, or all it has. -/
def SubmitsString (dev : I2cHelper) (data : List UInt8) (log log' : List SmbusIoctl) : Prop :=
  ∃ t, log' = log ++ [t] ∧ t.fd = dev.id ∧ t.readWrite = .write ∧
    t.lengthByte.toNat = min data.length smbusBlockMax ∧
    t.payload = data.take (min data.length smbusBlockMax)

/-- A request makes one transaction with the string. -/
def BlockCall.SubmitsOnce (bus : SmbusBus) (stack : StackBytes) (o : OpenI2c) (code : UInt32)
    (data : List UInt8) (call : BlockCall) : Prop :=
  ∀ log, ∃ log', (call.serve bus stack o.i2c o.hdl code data log).final = some log' ∧
    SubmitsString o.dev data log log'

section Helpers

variable (bus : SmbusBus) (stack : StackBytes) (dev : I2cHelper) (cmd : UInt8)
variable (log : List SmbusIoctl)

theorem smbusWrite_final (size : SmbusSize) (data : List UInt8) :
    (dev.smbusWrite bus cmd size data log).final =
      some (log ++ [⟨dev.id, .write, cmd, size, data⟩]) := by
  rw [I2cHelper.smbusWrite, Device.ask_bind]
  cases errnoAssert "smbus_write" (bus.answer log ⟨dev.id, .write, cmd, size, data⟩) <;> rfl

theorem writeBlockFrom_final (size : SmbusSize) (data : List UInt8) (length : UInt8) :
    (dev.writeBlockFrom bus stack cmd size data length log).final =
      some (log ++ [⟨dev.id, .write, cmd, size, I2cHelper.fillBlock stack
        (if length.toNat > smbusBlockMax then UInt8.ofNat smbusBlockMax else length) data⟩]) := by
  rw [I2cHelper.writeBlockFrom, Action.final_bind (fun _ _ => rfl), smbusWrite_final]

theorem smbusBlockProcessCall_final (data : List UInt8) :
    (dev.smbusBlockProcessCall bus stack cmd data log).final =
      some (log ++ [⟨dev.id, .write, cmd, .blockProcCall, I2cHelper.fillBlock stack
        (if data.length > smbusBlockMax then UInt8.ofNat smbusBlockMax
          else UInt8.ofNat data.length) data⟩]) := by
  rw [I2cHelper.smbusBlockProcessCall, Action.final_bind (fun _ _ => rfl), smbusWrite_final]

end Helpers

/-- The length byte that each request puts in front of its string. -/
def BlockCall.lengthOf (data : List UInt8) : BlockCall → UInt8
  | writeBlock | writeBlockBroken =>
    if (UInt8.ofNat data.length).toNat > smbusBlockMax then UInt8.ofNat smbusBlockMax
    else UInt8.ofNat data.length
  | processCall =>
    if data.length > smbusBlockMax then UInt8.ofNat smbusBlockMax else UInt8.ofNat data.length

theorem serve_final (bus : SmbusBus) (stack : StackBytes) (o : OpenI2c) (code : UInt32)
    (data : List UInt8) (call : BlockCall) (log : List SmbusIoctl) :
    ∃ cmd size, (call.serve bus stack o.i2c o.hdl code data log).final =
      some (log ++ [⟨o.dev.id, .write, cmd, size,
        I2cHelper.fillBlock stack (call.lengthOf data) data⟩]) := by
  cases call with
  | writeBlock =>
      refine ⟨code.toUInt8, .blockData, ?_⟩
      simp only [BlockCall.serve, I2cInstance.writeBlock, o.isOpen, Bool.false_eq_true, if_false]
      rw [Action.bind_done (Action.ofExcept_ok o.dev log), Action.final_bind (fun _ _ => rfl)]
      exact writeBlockFrom_final bus stack o.dev code.toUInt8 log .blockData data _
  | writeBlockBroken =>
      refine ⟨code.toUInt8, .i2cBlockBroken, ?_⟩
      simp only [BlockCall.serve, I2cInstance.writeBlock, o.isOpen, if_true]
      rw [Action.bind_done (Action.ofExcept_ok o.dev log), Action.final_bind (fun _ _ => rfl)]
      exact writeBlockFrom_final bus stack o.dev code.toUInt8 log .i2cBlockBroken data _
  | processCall =>
      refine ⟨(code &&& 0xFFFF).toUInt16.toUInt8, .blockProcCall, ?_⟩
      simp only [BlockCall.serve, I2cInstance.processCall, o.isOpen]
      rw [Action.bind_done (Action.ofExcept_ok o.dev log), Action.final_bind (fun _ _ => rfl)]
      exact smbusBlockProcessCall_final bus stack o.dev _ log data

theorem lengthByte_fillBlock (fd : Nat) (cmd : UInt8) (size : SmbusSize) (stack : StackBytes)
    (len : UInt8) (data : List UInt8) :
    (SmbusIoctl.mk fd .write cmd size (I2cHelper.fillBlock stack len data)).lengthByte = len := rfl

/-- The payload is the beginning of the string, as long as the length byte says. -/
theorem payload_fillBlock (fd : Nat) (cmd : UInt8) (size : SmbusSize) (stack : StackBytes)
    {len : UInt8} {data : List UInt8} (hlen : len.toNat ≤ data.length) :
    (SmbusIoctl.mk fd .write cmd size (I2cHelper.fillBlock stack len data)).payload =
      data.take len.toNat := by
  rw [SmbusIoctl.payload, lengthByte_fillBlock]
  simp only [I2cHelper.fillBlock, List.cons_append, List.drop_succ_cons, List.drop_zero]
  exact List.take_left' (List.length_take_of_le hlen)

/-- The process call cuts the length to 32, the others do so with its lower 8 bits. -/
theorem lengthOf_toNat (data : List UInt8) (call : BlockCall) :
    (call.lengthOf data).toNat =
      if call = .processCall then min data.length 32 else min (data.length % 256) 32 := by
  have hbyte : (UInt8.ofNat data.length).toNat = data.length % 256 := UInt8.toNat_ofNat'
  have hlimit : smbusBlockMax = 32 := rfl
  have hmax : (UInt8.ofNat 32).toNat = 32 := rfl
  cases call <;> simp only [BlockCall.lengthOf, apply_ite UInt8.toNat, hbyte, hlimit, hmax,
    reduceCtorEq, if_true, if_false] <;> split <;> omega

theorem lengthOf_le (data : List UInt8) (call : BlockCall) :
    (call.lengthOf data).toNat ≤ data.length := by
  rw [lengthOf_toNat]
  split <;> omega

/-- A length is kept when it fits into 8 bits, or is cut to one that is great enough. -/
theorem lengthOf_eq_iff (data : List UInt8) (call : BlockCall) :
    (call.lengthOf data).toNat = min data.length smbusBlockMax ↔
      call = .processCall ∨ data.length < 256 ∨ 32 ≤ data.length % 256 := by
  rw [lengthOf_toNat, smbusBlockMax]
  split
  · next hcall => exact iff_of_true rfl (Or.inl hcall)
  · next hcall =>
      simp only [hcall, false_or]
      omega

/-- A call is right about a string when it is about its length. -/
theorem submitsOnce_iff_length (bus : SmbusBus) (stack : StackBytes) (o : OpenI2c)
    (code : UInt32) (data : List UInt8) (call : BlockCall) :
    call.SubmitsOnce bus stack o code data ↔
      (call.lengthOf data).toNat = min data.length smbusBlockMax := by
  constructor
  · intro hsubmits
    obtain ⟨log', hfinal, t, ht, -, -, hlength, -⟩ := hsubmits []
    obtain ⟨cmd, size, hserve⟩ := serve_final bus stack o code data call []
    rw [hserve, Option.some_inj, ht] at hfinal
    cases hfinal
    rw [lengthByte_fillBlock] at hlength
    exact hlength
  · intro hlength log
    obtain ⟨cmd, size, hserve⟩ := serve_final bus stack o code data call log
    refine ⟨_, hserve, _, rfl, rfl, rfl, ?_, ?_⟩
    · rw [lengthByte_fillBlock, hlength]
    · rw [payload_fillBlock _ _ _ _ (lengthOf_le data call), hlength]

/-- **Blocks, exactly.** The process call is right about every string. The two others are
right when the length fits into a byte, or when its lower 8 bits make 32 or more. -/
theorem submitsOnce_iff (bus : SmbusBus) (stack : StackBytes) (o : OpenI2c) (code : UInt32)
    (data : List UInt8) (call : BlockCall) :
    call.SubmitsOnce bus stack o code data ↔
      call = .processCall ∨ data.length < 256 ∨ 32 ≤ data.length % 256 :=
  (submitsOnce_iff_length bus stack o code data call).trans (lengthOf_eq_iff data call)

/-- A bus on which everything goes well. -/
def echoBus : SmbusBus := ⟨fun _ t => .ok t.data⟩

def openI2c : OpenI2c where
  i2c := { devices := (∅ : Table I2cHelper).insert 101 ⟨0, 1⟩ }
  hdl := 101
  dev := ⟨0, 1⟩
  isOpen := rfl

/-- A string of 256 bytes goes out as an empty block. -/
theorem long_block_is_lost :
    ¬ BlockCall.writeBlock.SubmitsOnce echoBus (.replicate 34 0) openI2c 0
        (List.replicate 256 0xFF) ∧
      ¬ BlockCall.writeBlockBroken.SubmitsOnce echoBus (.replicate 34 0) openI2c 0
        (List.replicate 256 0xFF) := by
  constructor
  · rw [submitsOnce_iff_length, lengthOf_eq_iff, List.length_replicate]
    decide
  · rw [submitsOnce_iff_length, lengthOf_eq_iff, List.length_replicate]
    decide

end FerroRemote.Agent

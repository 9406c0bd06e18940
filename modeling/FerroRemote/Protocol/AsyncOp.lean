/-
# The message behind every event

`async_op_data` is what the agent sends to a client when something happens to a
descriptor the client has registered. Its id is the operation id, cut to the 32
bits of the field; a client reads absent fields as zero and as empty.
-/

namespace FerroRemote

structure ErrorData where
  code : Nat
  text : String
  deriving DecidableEq, Repr

/-- `async_op_data`. -/
structure AsyncOp where
  id : Nat
  error : Option ErrorData := none
  data : Option (List UInt8) := none
  tickCount : Nat
  deriving DecidableEq, Repr

namespace AsyncOp

/-- `set_id` keeps the low 32 bits. -/
def idField (op : Nat) : Nat := op % UInt32.size

/-- `error( ).code( )`, zero when there is no error. -/
def errorCode (m : AsyncOp) : Nat := (m.error.map (·.code)).getD 0

/-- `data( )`, empty when there is none. -/
def bytes (m : AsyncOp) : List UInt8 := m.data.getD []

/-- The data fields of a sequence of messages, concatenated. -/
def allBytes (ms : List AsyncOp) : List UInt8 := ms.flatMap bytes

@[simp]
theorem allBytes_append (ms ms' : List AsyncOp) :
    allBytes (ms ++ ms') = allBytes ms ++ allBytes ms' := by
  simp [allBytes]

@[simp]
theorem allBytes_singleton (m : AsyncOp) : allBytes [m] = m.bytes := by
  simp [allBytes]

end AsyncOp

end FerroRemote

/-
# The client's table of asynchronous operations

`client_core` keeps one callback for every operation id it has been told to
expect. `async_op` looks the id of a message up and calls what it finds; a
message whose id is not in the table is dropped without a trace.
-/

import FerroRemote.Math.Table
import FerroRemote.Protocol.AsyncOp

namespace FerroRemote.Client

/-- `callbacks_info`, over whatever identifies a callback. -/
structure AsyncOps (C : Type) where
  acb : Table C := ∅

namespace AsyncOps

variable {C : Type}

def registerAsyncOp (t : AsyncOps C) (id : Nat) (cb : C) : AsyncOps C :=
  { t with acb := t.acb.insert id cb }

def unregisterAsyncOp (t : AsyncOps C) (id : Nat) : AsyncOps C :=
  { t with acb := t.acb.erase id }

/-- `proto_event_impl::async_op`: the callback that is called, if any. -/
def asyncOp (t : AsyncOps C) (m : AsyncOp) : Option C := t.acb[m.id]?

@[simp]
theorem acb_registerAsyncOp (t : AsyncOps C) (id a : Nat) (cb : C) :
    (t.registerAsyncOp id cb).acb[a]? = if id = a then some cb else t.acb[a]? := by
  rw [registerAsyncOp, Table.getElem?_insert_eq]

end AsyncOps

end FerroRemote.Client

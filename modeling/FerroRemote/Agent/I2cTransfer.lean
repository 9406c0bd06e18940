/-
# I2C transfers

A transfer writes a string and reads what the chip has to say to it. The string for the
answer is made with `reserve`, which leaves its size at zero, and its size is how many
bytes are asked for.
-/

import FerroRemote.Agent.SmbusBlocks

namespace FerroRemote.Agent

/-- A `std::string`, as far as a buffer is made of it. -/
structure StdString where
  chars : List UInt8 := []
  capacity : Nat := 15
  deriving DecidableEq, Repr

namespace StdString

variable (s : StdString)

def size : Nat := s.chars.length

def reserve (n : Nat) : StdString := { s with capacity := max s.capacity n }

/-- Bytes that are written from `&s[0]` on. -/
def put (bytes : List UInt8) : StdString :=
  { s with chars := bytes ++ s.chars.drop bytes.length }

def resize (n : Nat) : StdString where
  chars := s.chars.take n ++ List.replicate (n - s.size) 0
  capacity := max s.capacity n

end StdString

/-- A call on the descriptor of a helper. -/
inductive I2cCall
  | write (fd : Nat) (data : List UInt8)
  | read (fd : Nat) (length : Nat)
  deriving DecidableEq, Repr

/-- A call takes or gives any number of bytes up to what it is asked for, or fails. -/
def I2cCall.Answer : I2cCall → Type
  | write _ data => Except Errno { n : Nat // n ≤ data.length }
  | read _ length => Except Errno (Block length)

/-- The chips behind the buses. -/
abbrev I2cWire := Device I2cCall I2cCall.Answer

namespace I2cWire

variable (wire : I2cWire) (fd : Nat) (data : List UInt8) (length : Nat) (log : List I2cCall)

def writes : Except Errno { n : Nat // n ≤ data.length } := wire.answer log (.write fd data)

def reads : Except Errno (Block length) := wire.answer log (.read fd length)

def write : Action Error (List I2cCall) (Except Errno { n : Nat // n ≤ data.length }) :=
  wire.ask (.write fd data)

def read : Action Error (List I2cCall) (Except Errno (Block length)) := wire.ask (.read fd length)

variable {α : Type}

@[simp]
theorem write_bind (f : Except Errno { n : Nat // n ≤ data.length } →
    Action Error (List I2cCall) α) :
    (wire.write fd data >>= f) log = f (wire.writes fd data log) (log ++ [.write fd data]) := rfl

end I2cWire

/-- The `transfer_info` of a request. -/
structure TransferInfo where
  data : List UInt8 := []
  rxlen : UInt32 := 0
  deriving DecidableEq, Repr

variable (wire : I2cWire)

/-- `transfer_impl`: what it has put into the buffer, as many bytes as it returns. -/
def transferImpl (fd : Nat) (txbuf : List UInt8) (rxlen : Nat) :
    Action Error (List I2cCall) (Except Errno (List UInt8)) := do
  match ← wire.write fd txbuf with
  | .error code => return .error code
  | .ok _ =>
    if rxlen > 0 then
      let res ← wire.read fd rxlen
      return res.map (·.val)
    else return .ok []

def I2cHelper.transfer (dev : I2cHelper) (txbuf : List UInt8) (rxlen : Nat) :
    Action Error (List I2cCall) (List UInt8) := do
  let ret := ({} : StdString).reserve rxlen
  let res ← transferImpl wire dev.id txbuf ret.size
  let bytes ← Action.ofExcept (errnoAssert "i2c_transfer" res)
  return ((ret.put bytes).resize bytes.length).chars

namespace I2cInstance

variable (i2c : I2cInstance) (hdl : Nat)

def transfer (info : TransferInfo) : Action Error (List I2cCall) (List UInt8) := do
  let dev ← Action.ofExcept (i2c.i2cByIndex hdl)
  dev.transfer wire info.data info.rxlen.toNat

/-- The loop of `transfer_list`, with the data added to the response. -/
def addTransfers (dev : I2cHelper) :
    List TransferInfo → List (List UInt8) → Action Error (List I2cCall) (List (List UInt8))
  | [], response => return response
  | i :: infos, response => do
    let data ← dev.transfer wire i.data i.rxlen.toNat
    addTransfers dev infos (response ++ [data])

def transferList (infos : List TransferInfo) :
    Action Error (List I2cCall) (List (List UInt8)) := do
  let dev ← Action.ofExcept (i2c.i2cByIndex hdl)
  addTransfers wire dev infos []

end I2cInstance

/-- The string is written once. When that has worked, and something is to be read, the chip
is asked for as many bytes, and what it gives is the result. What fails is an exception. -/
def TransfersWell (dev : I2cHelper) (info : TransferInfo) (log : List I2cCall)
    (out : Conclusion Error (List I2cCall) (List UInt8)) : Prop :=
  let written := log ++ [.write dev.id info.data]
  let asked := written ++ [.read dev.id info.rxlen.toNat]
  match wire.writes dev.id info.data log with
  | .error _ => ∃ err, out = .thrown err written
  | .ok _ =>
    if info.rxlen = 0 then out = .done [] written
    else
      match wire.reads dev.id info.rxlen.toNat written with
      | .error _ => ∃ err, out = .thrown err asked
      | .ok data => out = .done data.val asked

/-- The size of the string is zero, so nothing is read. -/
theorem I2cHelper.transfer_eq (dev : I2cHelper) (txbuf : List UInt8) (rxlen : Nat)
    (log : List I2cCall) :
    dev.transfer wire txbuf rxlen log =
      match wire.writes dev.id txbuf log with
      | .error code => .thrown (.errno "i2c_transfer" code) (log ++ [.write dev.id txbuf])
      | .ok _ => .done [] (log ++ [.write dev.id txbuf]) := by
  have himpl : transferImpl wire dev.id txbuf 0 log =
      match wire.writes dev.id txbuf log with
      | .error code => .done (.error code) (log ++ [.write dev.id txbuf])
      | .ok _ => .done (.ok []) (log ++ [.write dev.id txbuf]) := by
    rw [transferImpl, I2cWire.write_bind]
    cases wire.writes dev.id txbuf log <;> rfl
  have hsize : (({} : StdString).reserve rxlen).size = 0 := rfl
  simp only [I2cHelper.transfer, hsize]
  cases hanswer : wire.writes dev.id txbuf log with
  | error code =>
      rw [hanswer] at himpl
      rw [Action.bind_done himpl]
      rfl
  | ok n =>
      rw [hanswer] at himpl
      rw [Action.bind_done himpl]
      rfl

theorem transfer_open (o : OpenI2c) (info : TransferInfo) (log : List I2cCall) :
    o.i2c.transfer wire o.hdl info log = o.dev.transfer wire info.data info.rxlen.toNat log := by
  simp only [I2cInstance.transfer, o.isOpen]
  rfl

/-- A call that is missing in the log cannot be made up for. -/
theorem append_ne_append_append (log : List I2cCall) (c c' : I2cCall) :
    log ++ [c] ≠ log ++ [c] ++ [c'] := by
  intro heq
  have hlength := congrArg List.length heq
  simp at hlength

/-- A transfer is as it should be when there is nothing to read, or nothing was written. -/
theorem transfersWell_iff (o : OpenI2c) (info : TransferInfo) (log : List I2cCall) :
    TransfersWell wire o.dev info log (o.i2c.transfer wire o.hdl info log) ↔
      info.rxlen = 0 ∨ ∃ code, wire.writes o.dev.id info.data log = .error code := by
  rw [transfer_open, I2cHelper.transfer_eq, TransfersWell]
  cases hwrite : wire.writes o.dev.id info.data log with
  | error code => exact iff_of_true ⟨_, rfl⟩ (Or.inr ⟨code, rfl⟩)
  | ok n =>
      simp only [reduceCtorEq, exists_false, or_false]
      constructor
      · intro hwell
        by_contra hread
        rw [if_neg hread] at hwell
        split at hwell
        · exact hwell
        · rw [Conclusion.done.injEq] at hwell
          exact append_ne_append_append _ _ _ hwell.2
      · intro hread
        rw [if_pos hread]
        trivial

/-- The loop gives what is in the response already, and a result for each element. -/
theorem addTransfers_inOrder (dev : I2cHelper) (infos : List TransferInfo)
    (response : List (List UInt8)) (log : List I2cCall) :
    ∃ out, Action.InOrder (fun info => dev.transfer wire info.data info.rxlen.toNat) infos log out ∧
      I2cInstance.addTransfers wire dev infos response log =
        match out with
        | .done data log' => .done (response ++ data) log'
        | .thrown err log' => .thrown err log'
        | .left => .left := by
  induction infos generalizing response log with
  | nil =>
      refine ⟨.done [] log, .nil log, ?_⟩
      rw [I2cInstance.addTransfers]
      simp only [Action.pure_apply, List.append_nil]
  | cons info infos ih =>
      cases hfirst : dev.transfer wire info.data info.rxlen.toNat log with
      | done data log₁ =>
          obtain ⟨out, horder, hrest⟩ := ih (response ++ [data]) log₁
          rw [I2cInstance.addTransfers, Action.bind_done hfirst, hrest]
          cases horder' : out with
          | done datas log₂ =>
              rw [horder'] at horder
              refine ⟨.done (data :: datas) log₂, .done hfirst horder, ?_⟩
              simp only [List.append_assoc, List.singleton_append]
          | thrown err log₂ =>
              rw [horder'] at horder
              exact ⟨.thrown err log₂, .thrownLater hfirst horder, rfl⟩
          | left =>
              rw [horder'] at horder
              cases horder
      | thrown err log₁ =>
          refine ⟨.thrown err log₁, .thrown hfirst, ?_⟩
          rw [I2cInstance.addTransfers, Action.bind_thrown hfirst]
      | left =>
          rw [I2cHelper.transfer_eq] at hfirst
          split at hfirst <;> cases hfirst

theorem transferList_inOrder (o : OpenI2c) (infos : List TransferInfo) (log : List I2cCall) :
    Action.InOrder (o.i2c.transfer wire o.hdl) infos log
      (o.i2c.transferList wire o.hdl infos log) := by
  have hsame : o.i2c.transfer wire o.hdl =
      fun info => o.dev.transfer wire info.data info.rxlen.toNat := by
    funext info log
    exact transfer_open wire o info log
  have hlist : o.i2c.transferList wire o.hdl infos log =
      I2cInstance.addTransfers wire o.dev infos [] log := by
    simp only [I2cInstance.transferList, o.isOpen]
    rfl
  obtain ⟨out, horder, hout⟩ := addTransfers_inOrder wire o.dev infos [] log
  rw [hsame, hlist, hout]
  cases out with
  | done data log' => exact horder
  | thrown err log' => exact horder
  | left => cases horder

/-- **Transfers, exactly.** A transfer is as it should be when it has nothing to read or
fails to write, and a list of transfers always is what one after the other would be. -/
theorem i2c_transfers_iff (o : OpenI2c) (log : List I2cCall) :
    (∀ info, TransfersWell wire o.dev info log (o.i2c.transfer wire o.hdl info log) ↔
      info.rxlen = 0 ∨ ∃ code, wire.writes o.dev.id info.data log = .error code) ∧
      ∀ infos, Action.InOrder (o.i2c.transfer wire o.hdl) infos log
        (o.i2c.transferList wire o.hdl infos log) :=
  ⟨fun info => transfersWell_iff wire o info log, fun infos => transferList_inOrder wire o infos log⟩

/-- A chip that takes everything and has one byte to say. -/
def talkingChip : I2cWire where
  answer
    | _, .write _ data => (.ok ⟨data.length, Nat.le_refl _⟩ : Except Errno _)
    | _, .read _ 0 => (.ok ⟨[], Nat.le_refl _⟩ : Except Errno (Block 0))
    | _, .read _ (n + 1) => (.ok ⟨[0x2A], by simp⟩ : Except Errno (Block (n + 1)))

/-- The chip is not asked for its byte. -/
theorem nothing_is_received :
    openI2c.i2c.transfer talkingChip openI2c.hdl ⟨[0x10], 1⟩ [] =
        .done [] [.write 0 [0x10]] ∧
      ¬ TransfersWell talkingChip openI2c.dev ⟨[0x10], 1⟩ []
        (openI2c.i2c.transfer talkingChip openI2c.hdl ⟨[0x10], 1⟩ []) := by
  constructor
  · rfl
  · rw [transfersWell_iff]
    rintro (hzero | ⟨code, hcode⟩)
    · cases hzero
    · cases hcode

end FerroRemote.Agent

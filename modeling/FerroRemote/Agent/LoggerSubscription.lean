/-
# Subscribing to the log

Every client that uses the logger service gets an instance of its own, which
remembers one connection to the logger's signal. `subscribe` connects a slot and
stores its handle, `unsubscribe` and the destructor disconnect the handle that
is stored. The history of the RPCs says who is subscribed, with which operation
id; the question is whether the signal agrees.

What the signal's slots send is written out as `on_write2` has it. The encoding
of `write_data` belongs to generated code and is a parameter.
-/

import FerroRemote.Math.Machine
import FerroRemote.Math.Signal
import FerroRemote.Protocol.AsyncOp
import FerroRemote.Agent.Logger

namespace FerroRemote.Agent

structure WriteData where
  level : LogLevel
  text : String
  microsec : Nat
  deriving DecidableEq, Repr

/-- `time2ticks`, an unsigned 64-bit number. -/
def time2ticks (time : Int) : Nat := (time % (UInt64.size : Int)).toNat

/-- The slot `on_write2` bound to its instance and to an operation id. -/
structure LogSlot where
  inst : Nat
  opId : Nat
  deriving DecidableEq, Repr

/-- `proto_looger_impl::on_write2`: the message it sends on the instance's event
channel. -/
def onWrite2 (serialize : WriteData → List UInt8) (info : LogRecordInfo) (data : List String)
    (opId tick : Nat) : AsyncOp :=
  { id := AsyncOp.idField opId
    data := some (serialize
      { level := lvl2proto info.level
        text := String.join (data.map fun d => d ++ "\n")
        microsec := time2ticks info.time })
    tickCount := tick }

/-- The logger, the instances of its service, and what happened to them. -/
structure LoggingState where
  /-- The level of the logger. -/
  level : Nat
  /-- `queue_`, oldest record first; one `do_write` is posted for each. -/
  queue : List QueueElement := []
  /-- `on_write_`. -/
  onWrite : Signal LogSlot := .silent
  /-- The instances that exist, with their `connect_`. -/
  insts : Table (Option Nat) := ∅
  /-- The next unused identity of an instance. -/
  born : Nat := 0
  /-- The messages sent, each with the instance whose channel it went to. -/
  sent : List (Nat × AsyncOp) := []
  /-- The instances whose last `subscribe` has not been followed by an
  `unsubscribe`, with the operation id it drew. -/
  subscriptions : Table Nat := ∅

/-- What can happen to the logger and its clients. -/
inductive LoggingAction
  /-- A client obtains its `proto_looger_impl`. -/
  | connect
  /-- `subscribe`, for which `next_op_id` answers `op`. -/
  | subscribe (inst op : Nat)
  | unsubscribe (inst : Nat)
  /-- The instance is destroyed. -/
  | disconnect (inst : Nat)
  | setLevel (level : Nat)
  /-- Some part of the agent logs a text. -/
  | log (level : Nat) (data : String) (split : Bool) (time : Int)
  /-- The strand runs a `do_write`. -/
  | write (tick : Nat)

namespace LoggingState

def createService (s : LoggingState) : LoggingState :=
  { s with insts := s.insts.insert s.born none, born := s.born + 1 }

/-- `proto_looger_impl::subscribe`, answering the operation id. The handle of an
earlier connection is overwritten. -/
def subscribe (s : LoggingState) (inst op : Nat) : Nat × LoggingState :=
  let (connection, onWrite) := s.onWrite.connect ⟨inst, op⟩
  (AsyncOp.idField op, { s with
    onWrite := onWrite
    insts := s.insts.insert inst (some connection)
    subscriptions := s.subscriptions.insert inst op })

/-- `proto_looger_impl::unsubscribe`; `handle` is `connect_`. -/
def unsubscribe (s : LoggingState) (inst : Nat) (handle : Option Nat) : LoggingState :=
  { s with
    onWrite := s.onWrite.disconnect handle
    subscriptions := s.subscriptions.erase inst }

/-- `~proto_looger_impl`. -/
def destroy (s : LoggingState) (inst : Nat) (handle : Option Nat) : LoggingState :=
  { s with
    onWrite := s.onWrite.disconnect handle
    insts := s.insts.erase inst
    subscriptions := s.subscriptions.erase inst }

/-- The destructor of `string_accumulator`, with `send_data` or
`send_data_nosplit` behind it. -/
def log (s : LoggingState) (level : Nat) (data : String) (split : Bool) (time : Int) : LoggingState :=
  if level ≤ s.level then { s with queue := s.queue ++ [⟨⟨level, time⟩, data, split⟩] } else s

section Messages

variable (serialize : WriteData → List UInt8)

/-- What calling `on_write_` with a record sends, slot by slot. -/
def messages (s : LoggingState) (info : LogRecordInfo) (data : List String) (tick : Nat) :
    List (Nat × AsyncOp) :=
  s.onWrite.connected.map fun slot => (slot.inst, onWrite2 serialize info data slot.opId tick)

def doWrite (s : LoggingState) (splitString : String) (tick : Nat) : Option LoggingState :=
  match s.queue with
  | [] => none
  | e :: rest =>
    some { s with
      queue := rest
      sent := s.sent ++ s.messages serialize e.info (loggerData splitString e) tick }

/-- One step. A call on an instance that does not exist is not enabled. -/
def step (splitString : String) (s : LoggingState) : LoggingAction → Option LoggingState
  | .connect => some s.createService
  | .subscribe inst op => s.insts[inst]?.map fun _ => (s.subscribe inst op).2
  | .unsubscribe inst => s.insts[inst]?.map fun handle => s.unsubscribe inst handle
  | .disconnect inst => s.insts[inst]?.map fun handle => s.destroy inst handle
  | .setLevel level => some { s with level := level }
  | .log level data split time => some (s.log level data split time)
  | .write tick => s.doWrite serialize splitString tick

end Messages

end LoggingState

/-- The logger of an agent that starts with a level and a split string. -/
def logging (serialize : WriteData → List UInt8) (level : Nat) (splitString : String) :
    Machine LoggingState LoggingAction where
  init := { level := level }
  step := LoggingState.step serialize splitString

namespace LoggingState

/-- Whichever record is written next is sent once to every instance that is
subscribed, under the operation id it was answered, and to nobody else; and
every slot belongs to an instance that exists. -/
structure Served (serialize : WriteData → List UInt8) (s : LoggingState) : Prop where
  once : ∀ (info : LogRecordInfo) (data : List String) (tick inst : Nat),
    ((s.messages serialize info data tick).filter fun m => m.1 = inst) =
      match s.subscriptions[inst]? with
      | none => []
      | some op => [(inst, onWrite2 serialize info data op tick)]
  alive : ∀ {c : Nat} {slot : LogSlot}, s.onWrite.slots[c]? = some slot → slot.inst ∈ s.insts

/-- An instance subscribes only while it is not subscribed. -/
def SubscribesOnce (s : LoggingState) : LoggingAction → Prop
  | .subscribe inst _ => s.subscriptions[inst]? = none
  | _ => True

/-- The connected slots are those the handles of subscribed instances refer to. -/
structure Matched (s : LoggingState) : Prop where
  connected : ∀ {inst op : Nat}, s.subscriptions[inst]? = some op →
    ∃ c, s.insts[inst]? = some (some c) ∧ s.onWrite.slots[c]? = some ⟨inst, op⟩
  subscribed : ∀ {c : Nat} {slot : LogSlot}, s.onWrite.slots[c]? = some slot →
    s.insts[slot.inst]? = some (some c) ∧ s.subscriptions[slot.inst]? = some slot.opId
  /-- No two instances remember the same connection. -/
  handleKey : ∀ {inst inst' c : Nat}, s.insts[inst]? = some (some c) →
    s.insts[inst']? = some (some c) → inst = inst'
  /-- Also a handle whose slot is gone is an old one. -/
  handleOld : ∀ {inst c : Nat}, s.insts[inst]? = some (some c) → c < s.onWrite.next
  born : ∀ inst ∈ s.insts, inst < s.born

theorem matched_init (level : Nat) : Matched { level := level } where
  connected hsub := absurd hsub (Table.getElem?_empty_ne _ _)
  subscribed hslot := absurd hslot (Table.getElem?_empty_ne _ _)
  handleKey hinst := absurd hinst (Table.getElem?_empty_ne _ _)
  handleOld hinst := absurd hinst (Table.getElem?_empty_ne _ _)
  born _ hmem := absurd hmem Std.ExtTreeMap.not_mem_empty

/-- One slot of an instance is one message to it. -/
theorem Matched.served {s : LoggingState} (hs : s.Matched) (serialize : WriteData → List UInt8) :
    s.Served serialize where
  alive {c slot} hslot := by
    have hinst := (hs.subscribed hslot).1
    exact (Table.mem_iff_exists _ _).mpr ⟨_, hinst⟩
  once info data tick inst := by
    rw [messages, List.filter_map]
    have hown : ∀ (c : Nat) (slot : LogSlot), s.onWrite.slots[c]? = some slot →
        decide (slot.inst = inst) = true →
          s.insts[inst]? = some (some c) ∧ s.subscriptions[inst]? = some slot.opId := by
      intro c slot hslot hinst
      rw [← of_decide_eq_true hinst]
      exact hs.subscribed hslot
    cases hsub : s.subscriptions[inst]? with
    | none =>
        have hnone : s.onWrite.connected.filter (fun slot => slot.inst = inst) = [] := by
          rw [List.filter_eq_nil_iff]
          intro slot hmem hinst
          obtain ⟨c, hslot⟩ := Signal.mem_connected.mp hmem
          have hsome := (hown c slot hslot hinst).2
          rw [hsub] at hsome
          cases hsome
        exact congrArg (List.map _) hnone
    | some op =>
        obtain ⟨c, hhandle, hslot⟩ := hs.connected hsub
        have hone : s.onWrite.connected.filter (fun slot => slot.inst = inst) = [⟨inst, op⟩] := by
          apply Signal.connected_filter_of_unique _ hslot (decide_eq_true rfl)
          intro a slot' hslot' hinst
          have hother := (hown a slot' hslot' hinst).1
          rw [hhandle, Option.some_inj, Option.some_inj] at hother
          exact hother.symm
        exact congrArg (List.map _) hone

/-- The invariant reads the signal, the instances and the subscriptions. -/
theorem Matched.congr {s s' : LoggingState} (hs : s.Matched) (hwrite : s'.onWrite = s.onWrite)
    (hinsts : s'.insts = s.insts) (hborn : s'.born = s.born)
    (hsubs : s'.subscriptions = s.subscriptions) : s'.Matched := by
  constructor
  · rw [hwrite, hinsts, hsubs]
    exact hs.connected
  · rw [hwrite, hinsts, hsubs]
    exact hs.subscribed
  · rw [hinsts]
    exact hs.handleKey
  · rw [hwrite, hinsts]
    exact hs.handleOld
  · rw [hinsts, hborn]
    exact hs.born

theorem Matched.createService {s : LoggingState} (hs : s.Matched) : s.createService.Matched := by
  have hnew : s.insts[s.born]? = none := by
    rw [← Table.not_mem_iff]
    intro hmem
    exact Nat.lt_irrefl _ (hs.born _ hmem)
  have hlookup : ∀ inst : Nat, s.createService.insts[inst]? =
      if s.born = inst then some none else s.insts[inst]? := fun inst =>
    Table.getElem?_insert_eq _ _ _ _
  have hhandle : ∀ {inst c : Nat}, s.createService.insts[inst]? = some (some c) →
      s.insts[inst]? = some (some c) := by
    intro inst c hinst
    rw [hlookup] at hinst
    split at hinst
    · cases hinst
    · exact hinst
  have hkept : ∀ {inst : Nat} {handle : Option Nat}, s.insts[inst]? = some handle →
      s.createService.insts[inst]? = some handle := by
    intro inst handle hinst
    rw [hlookup, if_neg]
    · exact hinst
    · rintro rfl
      rw [hnew] at hinst
      cases hinst
  constructor
  · intro inst op hsub
    obtain ⟨c, hinst, hslot⟩ := hs.connected hsub
    exact ⟨c, hkept hinst, hslot⟩
  · intro c slot hslot
    obtain ⟨hinst, hsub⟩ := hs.subscribed hslot
    exact ⟨hkept hinst, hsub⟩
  · intro inst inst' c hinst hinst'
    exact hs.handleKey (hhandle hinst) (hhandle hinst')
  · intro inst c hinst
    exact hs.handleOld (hhandle hinst)
  · exact Table.forall_lt_insert none hs.born

theorem Matched.subscribe {s : LoggingState} (hs : s.Matched) {inst : Nat} {handle : Option Nat}
    (hinst : s.insts[inst]? = some handle) (hfree : s.subscriptions[inst]? = none) (op : Nat) :
    (s.subscribe inst op).2.Matched := by
  have hlookup : ∀ i : Nat, (s.subscribe inst op).2.insts[i]? =
      if inst = i then some (some s.onWrite.next) else s.insts[i]? := fun i =>
    Table.getElem?_insert_eq _ _ _ _
  have hsubs : ∀ i : Nat, (s.subscribe inst op).2.subscriptions[i]? =
      if inst = i then some op else s.subscriptions[i]? := fun i =>
    Table.getElem?_insert_eq _ _ _ _
  have hslots : ∀ c : Nat, (s.subscribe inst op).2.onWrite.slots[c]? =
      if s.onWrite.next = c then some ⟨inst, op⟩ else s.onWrite.slots[c]? := fun c =>
    Signal.getElem?_connect _ _ _
  constructor
  · intro i op' hsub
    rw [hsubs] at hsub
    split at hsub
    · next heq =>
        subst heq
        cases hsub
        exact ⟨s.onWrite.next, by rw [hlookup, if_pos rfl], by rw [hslots, if_pos rfl]⟩
    · next hne =>
        obtain ⟨c, hi, hslot⟩ := hs.connected hsub
        refine ⟨c, by rw [hlookup, if_neg hne]; exact hi, ?_⟩
        rw [hslots, if_neg (Nat.ne_of_gt (Signal.lt_next hslot))]
        exact hslot
  · intro c slot hslot
    rw [hslots] at hslot
    split at hslot
    · next heq =>
        subst heq
        cases hslot
        exact ⟨by rw [hlookup, if_pos rfl], by rw [hsubs, if_pos rfl]⟩
    · obtain ⟨hi, hsub⟩ := hs.subscribed hslot
      -- the instance has no slot yet
      have hne : inst ≠ slot.inst := by
        rintro rfl
        rw [hfree] at hsub
        cases hsub
      rw [hlookup, hsubs, if_neg hne, if_neg hne]
      exact ⟨hi, hsub⟩
  · intro i i' c hi hi'
    rw [hlookup] at hi hi'
    split at hi <;> split at hi'
    · next heq heq' => exact heq.symm.trans heq'
    · cases hi
      exact absurd (hs.handleOld hi') (Nat.lt_irrefl _)
    · cases hi'
      exact absurd (hs.handleOld hi) (Nat.lt_irrefl _)
    · exact hs.handleKey hi hi'
  · intro i c hi
    rw [hlookup] at hi
    split at hi
    · cases hi
      exact Nat.lt_succ_self _
    · exact Nat.lt_succ_of_lt (hs.handleOld hi)
  · exact Table.forall_mem_insert _
      (hs.born inst ((Table.mem_iff_exists _ _).mpr ⟨handle, hinst⟩)) hs.born

/-- The stored handle refers to the instance's slot or to none. -/
theorem Matched.unsubscribe {s : LoggingState} (hs : s.Matched) {inst : Nat} {handle : Option Nat}
    (hinst : s.insts[inst]? = some handle) : (s.unsubscribe inst handle).Matched := by
  have hslots : ∀ c : Nat, (s.unsubscribe inst handle).onWrite.slots[c]? =
      if handle = some c then none else s.onWrite.slots[c]? := fun c =>
    Signal.getElem?_disconnect _ _ _
  have hsubs : ∀ i : Nat, (s.unsubscribe inst handle).subscriptions[i]? =
      if inst = i then none else s.subscriptions[i]? := fun i =>
    Table.getElem?_erase_eq _ _ _
  constructor
  · intro i op hsub
    rw [hsubs] at hsub
    split at hsub
    · cases hsub
    · next hne =>
        obtain ⟨c, hi, hslot⟩ := hs.connected hsub
        refine ⟨c, hi, ?_⟩
        rw [hslots, if_neg]
        · exact hslot
        · rintro rfl
          exact hne (hs.handleKey hinst hi)
  · intro c slot hslot
    rw [hslots] at hslot
    split at hslot
    · cases hslot
    · next hne =>
        obtain ⟨hi, hsub⟩ := hs.subscribed hslot
        refine ⟨hi, ?_⟩
        rw [hsubs, if_neg]
        · exact hsub
        · rintro rfl
          rw [hinst] at hi
          exact hne (Option.some.inj hi)
  · exact hs.handleKey
  · intro i c hi
    have hnext : (s.unsubscribe inst handle).onWrite.next = s.onWrite.next :=
      Signal.disconnect_next _ _
    rw [hnext]
    exact hs.handleOld hi
  · exact hs.born

theorem Matched.eraseInst {s : LoggingState} (hs : s.Matched) {inst : Nat}
    (hfree : s.subscriptions[inst]? = none) :
    Matched { s with insts := s.insts.erase inst } := by
  have hold : ∀ {i c : Nat}, (s.insts.erase inst)[i]? = some (some c) →
      s.insts[i]? = some (some c) := by
    intro i c hi
    rw [Table.getElem?_erase_eq_some_iff] at hi
    exact hi.2
  have hkept : ∀ {i op c : Nat}, s.subscriptions[i]? = some op → s.insts[i]? = some (some c) →
      (s.insts.erase inst)[i]? = some (some c) := by
    intro i op c hsub hi
    rw [Table.getElem?_erase_eq, if_neg]
    · exact hi
    · rintro rfl
      rw [hfree] at hsub
      cases hsub
  constructor
  · intro i op hsub
    obtain ⟨c, hi, hslot⟩ := hs.connected hsub
    exact ⟨c, hkept hsub hi, hslot⟩
  · intro c slot hslot
    obtain ⟨hi, hsub⟩ := hs.subscribed hslot
    exact ⟨hkept hsub hi, hsub⟩
  · intro i i' c hi hi'
    exact hs.handleKey (hold hi) (hold hi')
  · intro i c hi
    exact hs.handleOld (hold hi)
  · intro i hmem
    exact hs.born i (Std.ExtTreeMap.mem_erase.mp hmem).2

theorem Matched.destroy {s : LoggingState} (hs : s.Matched) {inst : Nat} {handle : Option Nat}
    (hinst : s.insts[inst]? = some handle) : (s.destroy inst handle).Matched := by
  have hunsubscribed := hs.unsubscribe hinst
  have hfree : (s.unsubscribe inst handle).subscriptions[inst]? = none := by
    simp [LoggingState.unsubscribe]
  exact hunsubscribed.eraseInst hfree

theorem Matched.log {s : LoggingState} (hs : s.Matched) (level : Nat) (data : String) (split : Bool)
    (time : Int) : (s.log level data split time).Matched := by
  unfold LoggingState.log
  split
  · exact hs.congr rfl rfl rfl rfl
  · exact hs

theorem Matched.doWrite {s s' : LoggingState} (hs : s.Matched) {serialize : WriteData → List UInt8}
    {splitString : String} {tick : Nat} (hwrite : s.doWrite serialize splitString tick = some s') :
    s'.Matched := by
  unfold LoggingState.doWrite at hwrite
  split at hwrite
  · cases hwrite
  · cases hwrite
    exact hs.congr rfl rfl rfl rfl

theorem matched_step {serialize : WriteData → List UInt8} {splitString : String}
    {s s' : LoggingState} {a : LoggingAction} (hs : s.Matched) (honce : s.SubscribesOnce a)
    (hstep : s.step serialize splitString a = some s') : s'.Matched := by
  cases a with
  | connect =>
      cases hstep
      exact hs.createService
  | subscribe inst op =>
      obtain ⟨handle, hinst, rfl⟩ := Option.map_eq_some_iff.mp hstep
      exact hs.subscribe hinst honce op
  | unsubscribe inst =>
      obtain ⟨handle, hinst, rfl⟩ := Option.map_eq_some_iff.mp hstep
      exact hs.unsubscribe hinst
  | disconnect inst =>
      obtain ⟨handle, hinst, rfl⟩ := Option.map_eq_some_iff.mp hstep
      exact hs.destroy hinst
  | setLevel level =>
      cases hstep
      exact hs.congr rfl rfl rfl rfl
  | log level data split time =>
      cases hstep
      exact hs.log level data split time
  | write tick => exact hs.doWrite hstep

theorem subscribesOnce_of_served {serialize : WriteData → List UInt8} {splitString : String}
    {s s' : LoggingState} {a : LoggingAction} (hs : s.Matched)
    (hstep : s.step serialize splitString a = some s') (hserved : s'.Served serialize) :
    s.SubscribesOnce a := by
  cases a with
  | connect | unsubscribe | disconnect | setLevel | log | write => trivial
  | subscribe inst op =>
      obtain ⟨handle, hinst, rfl⟩ := Option.map_eq_some_iff.mp hstep
      show s.subscriptions[inst]? = none
      by_contra hsub
      obtain ⟨old, hsub⟩ := Option.ne_none_iff_exists'.mp hsub
      obtain ⟨c, -, hslot⟩ := hs.connected hsub
      have hsubs : (s.subscribe inst op).2.subscriptions[inst]? = some op := by
        simp [LoggingState.subscribe]
      have hslots : ∀ a : Nat, (s.subscribe inst op).2.onWrite.slots[a]? =
          if s.onWrite.next = a then some ⟨inst, op⟩ else s.onWrite.slots[a]? := fun a =>
        Signal.getElem?_connect _ _ _
      have hnew : (s.subscribe inst op).2.onWrite.slots[s.onWrite.next]? = some ⟨inst, op⟩ := by
        rw [hslots, if_pos rfl]
      have hold : (s.subscribe inst op).2.onWrite.slots[c]? = some ⟨inst, old⟩ := by
        rw [hslots, if_neg (Nat.ne_of_gt (Signal.lt_next hslot))]
        exact hslot
      have hmessages := hserved.once ⟨0, 0⟩ [] 0 inst
      rw [hsubs, messages, List.filter_map] at hmessages
      have hone := congrArg List.length hmessages
      rw [List.length_map] at hone
      have heq := Signal.eq_of_connected_filter hone hold (decide_eq_true rfl) hnew
        (decide_eq_true rfl)
      exact Nat.ne_of_lt (Signal.lt_next hslot) heq

end LoggingState

/-- **Logger subscriptions, exactly.** In every state of a run each record is
sent once to every subscribed instance and to no other, and no slot is left of
an instance that is gone, if and only if nobody subscribes twice. -/
theorem served_iff_subscribesOnce (serialize : WriteData → List UInt8) (level : Nat)
    (splitString : String) (as : List LoggingAction) :
    (logging serialize level splitString).Along (LoggingState.Served serialize) as ↔
      (logging serialize level splitString).Meets LoggingState.SubscribesOnce as :=
  Machine.along_iff_meets (LoggingState.matched_init level)
    (fun _ _ _ hs honce hstep => LoggingState.matched_step hs honce hstep)
    (fun _ hs => hs.served serialize)
    (fun _ _ _ hs hstep hserved => LoggingState.subscribesOnce_of_served hs hstep hserved) as

/-- A client that subscribes twice and disconnects leaves a slot bound to its
instance behind. -/
theorem slot_outlives_instance :
    ¬ (logging (fun _ => []) 3 "\n").Along (LoggingState.Served fun _ => [])
      [.connect, .subscribe 0 101, .subscribe 0 102, .disconnect 0] := by
  refine Machine.not_along_of_run rfl fun hserved => ?_
  have hslot : ((((({ level := 3 } : LoggingState).createService.subscribe 0 101).2.subscribe 0
      102).2.destroy 0 (some 1)).onWrite.slots)[0]? = some ⟨0, 101⟩ := by decide +kernel
  have hmem := hserved.alive hslot
  revert hmem
  decide +kernel

end FerroRemote.Agent

/-
# The stream of bytes behind a registered descriptor

A descriptor a client has registered is watched edge-triggered: it is reported
once for bytes that arrive, and once on registration when bytes are waiting.
The reactor takes the report, and then, at some later moment, runs
`event_handler`, which makes one `read` of up to 1024 bytes and sends what it got.
Bytes may arrive at any time, also between the two.

What is reported is always a prefix of what arrived. It is everything in the end
exactly when no `read` leaves bytes behind that no further report is due for.
-/

import FerroRemote.Math.Machine
import FerroRemote.Protocol.AsyncOp
import FerroRemote.Agent.Kernel

namespace FerroRemote.Agent

/-- A descriptor, the reactor's view of it, and the history of the present
registration. -/
structure EventStream where
  /-- The unread bytes. -/
  queue : List UInt8 := []
  /-- An edge is pending in the poll set. -/
  edge : Bool := false
  /-- `epoll_wait` has reported the descriptor and `make_callback` is due. -/
  woken : Bool := false
  /-- The operation id the registered callback is bound to. -/
  registered : Option Nat := none
  /-- The bytes that were waiting at registration or have arrived since. -/
  arrived : List UInt8 := []
  /-- The messages sent for the registration, oldest first. -/
  sent : List AsyncOp := []

/-- What can happen to a registered descriptor. -/
inductive StreamAction
  /-- `register_for_events` with a fresh operation id. -/
  | register (op : Nat)
  /-- The entry is taken off the reactor. -/
  | unregister
  | arrive (bytes : List UInt8)
  /-- `epoll_wait` reports the descriptor. -/
  | wait
  /-- `make_callback` runs; `connected` tells whether `async_op` can be sent. -/
  | handle (tick : Nat) (connected : Bool)

namespace EventStream

/-- The size of the buffer in `event_handler`. -/
def bufferSize : Nat := 1024

/-- The reading part of `event_handler`: the message, and the bytes left. A
blocking descriptor without bytes does not return. -/
def eventHandler (nonblocking : Bool) (strerror : Errno → String) (queue : List UInt8) (op : Nat)
    (tick : Nat) : Option (AsyncOp × List UInt8) :=
  if queue.isEmpty then
    if nonblocking then
      some ({ id := AsyncOp.idField op
              error := some ⟨EAGAIN, strerror EAGAIN⟩
              tickCount := tick }, [])
    else none
  else
    some ({ id := AsyncOp.idField op, data := some (queue.take bufferSize), tickCount := tick },
      queue.drop bufferSize)

/-- One step. `add_fd` watches the descriptor anew, so waiting bytes raise an
edge; a callback that cannot send answers `false` and is dropped. -/
def step (nonblocking : Bool) (strerror : Errno → String) (s : EventStream) :
    StreamAction → Option EventStream
  | .register op =>
    some { s with
      edge := s.edge || !s.queue.isEmpty
      registered := some op
      arrived := s.queue
      sent := [] }
  | .unregister => some { s with edge := false, registered := none }
  | .arrive bytes =>
    some { s with
      queue := s.queue ++ bytes
      edge := s.edge || (s.registered.isSome && !bytes.isEmpty)
      arrived := s.arrived ++ bytes }
  | .wait =>
    if s.edge = true ∧ s.woken = false then some { s with edge := false, woken := true } else none
  | .handle tick connected =>
    if s.woken = true then
      match s.registered with
      | none => some { s with woken := false }
      | some op =>
        (eventHandler nonblocking strerror s.queue op tick).map fun (m, rest) =>
          if connected then { s with queue := rest, woken := false, sent := s.sent ++ [m] }
          else { s with queue := rest, edge := false, woken := false, registered := none }
    else none

end EventStream

/-- A descriptor that nothing has arrived at and nobody has registered. -/
def eventStream (nonblocking : Bool) (strerror : Errno → String) :
    Machine EventStream StreamAction where
  init := {}
  step := EventStream.step nonblocking strerror

namespace EventStream

/-- While the descriptor is registered, the data sent is a prefix of what
arrived, and all of it when the reactor has nothing left to do. -/
def Complete (s : EventStream) : Prop :=
  s.registered.isSome = true →
    AsyncOp.allBytes s.sent <+: s.arrived ∧
      (s.edge = false → s.woken = false → AsyncOp.allBytes s.sent = s.arrived)

/-- A `read` gets everything that is waiting, or another edge is pending. -/
def Drains (s : EventStream) : StreamAction → Prop
  | .handle _ true => s.registered.isSome = true → s.queue.length ≤ bufferSize ∨ s.edge = true
  | _ => True

structure Balanced (s : EventStream) : Prop where
  /-- What arrived has been sent or is still waiting. -/
  balance : s.registered.isSome = true → s.arrived = AsyncOp.allBytes s.sent ++ s.queue
  /-- With nothing left to do, nothing is waiting. -/
  idle : s.registered.isSome = true → s.edge = false → s.woken = false → s.queue = []

theorem balanced_of_unregistered {s : EventStream} (hnone : s.registered = none) : s.Balanced := by
  have hnever : ¬ s.registered.isSome = true := by simp [hnone]
  exact ⟨fun hregistered => absurd hregistered hnever, fun hregistered => absurd hregistered hnever⟩

theorem Balanced.complete {s : EventStream} (hs : s.Balanced) : s.Complete := by
  intro hregistered
  have hbalance := hs.balance hregistered
  refine ⟨⟨s.queue, hbalance.symm⟩, fun hedge hwoken => ?_⟩
  rw [hbalance, hs.idle hregistered hedge hwoken, List.append_nil]

/-- **One `read`.** The message carries the bytes taken off the queue. -/
theorem eventHandler_bytes {nonblocking : Bool} {strerror : Errno → String} {queue rest : List UInt8}
    {op tick : Nat} {m : AsyncOp}
    (hread : eventHandler nonblocking strerror queue op tick = some (m, rest)) :
    m.bytes ++ rest = queue ∧ rest = queue.drop bufferSize := by
  unfold eventHandler at hread
  split at hread
  · next hempty =>
      have hnil : queue = [] := List.isEmpty_iff.mp hempty
      subst hnil
      split at hread
      · cases hread
        exact ⟨rfl, rfl⟩
      · cases hread
  · cases hread
    exact ⟨List.take_append_drop bufferSize queue, rfl⟩

variable {nonblocking : Bool} {strerror : Errno → String} {s s' : EventStream} {a : StreamAction}

/-- **The handler, step by step.** What is read is sent; what is left is left. -/
theorem step_handle {tick : Nat} {connected : Bool}
    (hstep : s.step nonblocking strerror (.handle tick connected) = some s') :
    (s.registered = none ∧ s' = { s with woken := false }) ∨
      (connected = false ∧ s'.registered = none) ∨
      ∃ m, m.bytes ++ s.queue.drop bufferSize = s.queue ∧ connected = true ∧
        s' = { s with queue := s.queue.drop bufferSize, woken := false, sent := s.sent ++ [m] } := by
  rw [step, Option.ite_none_right_eq_some] at hstep
  cases hregistered : s.registered with
  | none =>
      rw [hregistered] at hstep
      exact .inl ⟨rfl, (Option.some.inj hstep.2).symm⟩
  | some op =>
      right
      rw [hregistered] at hstep
      obtain ⟨⟨m, rest⟩, hread, rfl⟩ := Option.map_eq_some_iff.mp hstep.2
      obtain ⟨hbytes, rfl⟩ := eventHandler_bytes hread
      cases connected with
      | false => exact .inl ⟨rfl, rfl⟩
      | true => exact .inr ⟨m, hbytes, rfl, by rw [← hregistered]; rfl⟩

theorem balanced_step (hs : s.Balanced) (hdrains : s.Drains a)
    (hstep : s.step nonblocking strerror a = some s') : s'.Balanced := by
  cases a with
  | register op =>
      cases hstep
      refine ⟨fun _ => rfl, fun _ hedge _ => ?_⟩
      have hempty : s.queue.isEmpty = true := by simpa using (Bool.or_eq_false_iff.mp hedge).2
      exact List.isEmpty_iff.mp hempty
  | unregister =>
      cases hstep
      exact balanced_of_unregistered rfl
  | arrive bytes =>
      cases hstep
      refine ⟨fun hregistered => ?_, fun hregistered hedge hwoken => ?_⟩
      · show s.arrived ++ bytes = _ ++ (s.queue ++ bytes)
        rw [hs.balance hregistered, List.append_assoc]
      · obtain ⟨hbefore, hnew⟩ := Bool.or_eq_false_iff.mp hedge
        have hregistered' : s.registered.isSome = true := hregistered
        rw [hregistered', Bool.true_and] at hnew
        have hempty : bytes.isEmpty = true := by simpa using hnew
        show s.queue ++ bytes = []
        rw [hs.idle hregistered hbefore hwoken, List.isEmpty_iff.mp hempty, List.append_nil]
  | wait =>
      obtain ⟨-, rfl⟩ := Machine.of_enabled hstep
      exact ⟨hs.balance, fun _ _ hwoken => (nomatch hwoken)⟩
  | handle tick connected =>
      rcases step_handle hstep with ⟨hnone, rfl⟩ | ⟨-, hnone⟩ | ⟨m, hbytes, rfl, rfl⟩
      · exact balanced_of_unregistered hnone
      · exact balanced_of_unregistered hnone
      · refine ⟨fun hregistered => ?_, fun hregistered hedge _ => ?_⟩
        · show s.arrived = AsyncOp.allBytes (s.sent ++ [m]) ++ s.queue.drop bufferSize
          rw [AsyncOp.allBytes_append, AsyncOp.allBytes_singleton, List.append_assoc, hbytes]
          exact hs.balance hregistered
        · rcases hdrains hregistered with hshort | hpending
          · exact List.drop_eq_nil_of_le hshort
          · exact absurd (hpending.symm.trans hedge) (by decide)

/-- A `read` that leaves bytes behind without another edge breaks completeness. -/
theorem drains_of_complete (hs : s.Balanced) (hstep : s.step nonblocking strerror a = some s')
    (hcomplete : s'.Complete) : s.Drains a := by
  cases a with
  | handle tick connected =>
      cases connected with
      | false => trivial
      | true =>
          intro hregistered
          by_contra hleft
          rw [not_or, Nat.not_le, Bool.not_eq_true] at hleft
          obtain ⟨hlong, hedge⟩ := hleft
          rcases step_handle hstep with ⟨hnone, -⟩ | ⟨hfalse, -⟩ | ⟨m, hbytes, -, rfl⟩
          · rw [hnone] at hregistered
            cases hregistered
          · cases hfalse
          · have hall := (hcomplete hregistered).2 hedge rfl
            rw [AsyncOp.allBytes_append, AsyncOp.allBytes_singleton] at hall
            have hbalance : s.arrived = AsyncOp.allBytes s.sent ++ s.queue := hs.balance hregistered
            rw [hbalance, List.append_cancel_left_eq] at hall
            have hnil : s.queue.drop bufferSize = [] :=
              List.append_right_eq_self.mp (hbytes.trans hall.symm)
            exact absurd (List.drop_eq_nil_iff.mp hnil) (Nat.not_le.mpr hlong)
  | register | unregister | arrive | wait => trivial

end EventStream

/-- **Completeness of the stream, exactly.** In a run every state reports all
that arrived by the time the reactor is idle, if and only if no `read` finds more
bytes than its buffer holds while no further edge is pending. -/
theorem complete_iff_drains (nonblocking : Bool) (strerror : Errno → String)
    (as : List StreamAction) :
    (eventStream nonblocking strerror).Along EventStream.Complete as ↔
      (eventStream nonblocking strerror).Meets EventStream.Drains as :=
  Machine.along_iff_meets (EventStream.balanced_of_unregistered rfl)
    (fun _ _ _ hs hdrains hstep => EventStream.balanced_step hs hdrains hstep)
    (fun _ hs => hs.complete)
    (fun _ _ _ hs hstep hcomplete => EventStream.drains_of_complete hs hstep hcomplete) as

/-- A burst of 1025 bytes leaves one byte unreported, here on a nonblocking
descriptor. -/
theorem incomplete_after_burst :
    ¬ (eventStream true fun _ => "Resource temporarily unavailable").Along EventStream.Complete
      [.register 101, .arrive (List.replicate 1025 0), .wait, .handle 7 true] := by
  refine Machine.not_along_of_run rfl fun hcomplete => ?_
  have hall : (List.replicate 1025 0).take 1024 = List.replicate 1025 (0 : UInt8) :=
    (List.append_nil _).symm.trans ((hcomplete rfl).2 rfl rfl)
  have hlength := congrArg List.length hall
  rw [List.length_take, List.length_replicate] at hlength
  omega

end FerroRemote.Agent

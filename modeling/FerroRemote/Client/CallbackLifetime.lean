/-
# How long a client's callbacks live

File and gpio objects of the client library bind their callbacks to themselves,
by raw pointer, and put them into the table of `client_core`. Neither their
`unregister` nor their destructors take an entry out again: both only talk to the
agent. What the table says and which registrations are meant to be live therefore
part ways with the first object that is unregistered or destroyed while an entry
is bound to it, and stay together until then.
-/

import FerroRemote.Math.Machine
import FerroRemote.Client.AsyncOps

namespace FerroRemote.Client

/-- The two classes of objects that register callbacks. -/
inductive Kind
  | file
  | gpio
  deriving DecidableEq, Repr

/-- A call of a registered callback: the object it is bound to, and what
`async_op` passes. -/
structure Invocation where
  object : Nat
  code : Nat
  data : List UInt8
  tickCount : Nat
  /-- The registration was live when the callback was called. -/
  live : Bool
  deriving DecidableEq, Repr

/-- The client library. Objects are told apart by an identity that is never used
again. -/
structure LifetimeState where
  asyncOps : AsyncOps Nat := {}
  /-- The interface objects that exist. -/
  objects : Table Kind := ∅
  /-- The registrations that have been made and neither unregistered nor lost
  their object since: object and operation id. -/
  live : List (Nat × Nat) := []
  invocations : List Invocation := []
  born : Nat := 0

/-- What users of the library and the agent do. -/
inductive LifetimeAction
  | create (kind : Kind)
  /-- A registration; the agent answers with an id, or the call throws. -/
  | register (object : Nat) (answer : Option Nat)
  /-- `unregister`, which returns or throws. -/
  | unregister (object : Nat) (returns : Bool)
  | destroy (object : Nat)
  /-- An `async_op` message arrives. -/
  | asyncOp (m : AsyncOp)

namespace LifetimeState

/-- `register_for_events` and `register_for_change`, once the agent has
answered. -/
def register (s : LifetimeState) (object id : Nat) : LifetimeState :=
  { s with
    asyncOps := s.asyncOps.registerAsyncOp id object
    live := (object, id) :: s.live }

/-- The registrations of an object are no longer meant to be live. -/
def retire (s : LifetimeState) (object : Nat) : LifetimeState :=
  { s with live := s.live.filter fun r => r.1 ≠ object }

/-- `unregister_impl` asks the agent to unregister, and that is all. -/
def unregister (s : LifetimeState) (object : Nat) : LifetimeState := s.retire object

/-- The destructors ask the agent to close the handle, and that is all. -/
def destroy (s : LifetimeState) (object : Nat) : LifetimeState :=
  { s.retire object with objects := s.objects.erase object }

/-- `proto_event_impl::async_op`. -/
def deliver (s : LifetimeState) (m : AsyncOp) : LifetimeState :=
  match s.asyncOps.asyncOp m with
  | none => s
  | some object =>
    { s with invocations := s.invocations ++
        [⟨object, m.errorCode, m.bytes, m.tickCount, (object, m.id) ∈ s.live⟩] }

def step (s : LifetimeState) : LifetimeAction → Option LifetimeState
  | .create kind => some { s with objects := s.objects.insert s.born kind, born := s.born + 1 }
  | .register object answer =>
    if object ∈ s.objects then
      some (match answer with
        | none => s
        | some id => s.register object id)
    else none
  | .unregister object returns =>
    if object ∈ s.objects then some (if returns then s.unregister object else s) else none
  | .destroy object => if object ∈ s.objects then some (s.destroy object) else none
  | .asyncOp m => some (s.deliver m)

end LifetimeState

def callbackLifetime : Machine LifetimeState LifetimeAction where
  init := {}
  step := LifetimeState.step

namespace LifetimeState

/-- Callbacks live exactly as long as their registrations. -/
structure Lifetimes (s : LifetimeState) : Prop where
  /-- Only callbacks of live registrations have been called. -/
  noneStale : ∀ i ∈ s.invocations, i.live = true
  /-- Every entry is bound to an object that is registered under its id. -/
  bound : ∀ {id object : Nat}, s.asyncOps.acb[id]? = some object → (object, id) ∈ s.live
  /-- An id has an entry if and only if a registration under it is live. -/
  entry_iff : ∀ id : Nat, id ∈ s.asyncOps.acb ↔ ∃ object, (object, id) ∈ s.live

/-- An object is only unregistered or destroyed when no entry of the table is
bound to it. -/
def Unbound (s : LifetimeState) : LifetimeAction → Prop
  | .unregister object true | .destroy object =>
    ∀ id : Nat, s.asyncOps.acb[id]? ≠ some object
  | _ => True

theorem lifetimes_init : Lifetimes {} where
  noneStale := by simp
  bound := by simp
  entry_iff := by simp

variable {s s' : LifetimeState} {a : LifetimeAction}

theorem Lifetimes.register (hs : s.Lifetimes) (object id : Nat) :
    (s.register object id).Lifetimes where
  noneStale := hs.noneStale
  bound {id' object'} hentry := by
    simp only [LifetimeState.register, AsyncOps.acb_registerAsyncOp] at hentry ⊢
    split at hentry
    · next heq =>
        cases hentry
        rw [heq]
        exact List.mem_cons_self
    · exact List.mem_cons_of_mem _ (hs.bound hentry)
  entry_iff id' := by
    rw [Table.mem_iff_exists]
    simp only [LifetimeState.register, AsyncOps.acb_registerAsyncOp]
    by_cases heq : id = id'
    · subst heq
      exact ⟨fun _ => ⟨object, List.mem_cons_self⟩, fun _ => ⟨object, by rw [if_pos rfl]⟩⟩
    · rw [if_neg heq, ← Table.mem_iff_exists, hs.entry_iff]
      have hother : ∀ o : Nat, (o, id') ≠ (object, id) := fun o h => heq (by cases h; rfl)
      simp only [List.mem_cons, hother, false_or]

theorem Lifetimes.retire (hs : s.Lifetimes) {object : Nat}
    (hunbound : ∀ id : Nat, s.asyncOps.acb[id]? ≠ some object) : (s.retire object).Lifetimes := by
  have hbound : ∀ {id object' : Nat}, s.asyncOps.acb[id]? = some object' →
      (object', id) ∈ (s.retire object).live := by
    intro id object' hentry
    refine List.mem_filter.mpr ⟨hs.bound hentry, decide_eq_true ?_⟩
    rintro rfl
    exact hunbound id hentry
  refine ⟨hs.noneStale, hbound, fun id => ⟨fun hmem => ?_, fun hlive => ?_⟩⟩
  · obtain ⟨object', hentry⟩ := (Table.mem_iff_exists _ _).mp hmem
    exact ⟨object', hbound hentry⟩
  · obtain ⟨object', hlive⟩ := hlive
    exact (hs.entry_iff id).mpr ⟨object', (List.mem_filter.mp hlive).1⟩

theorem Lifetimes.deliver (hs : s.Lifetimes) (m : AsyncOp) : (s.deliver m).Lifetimes := by
  unfold LifetimeState.deliver
  split
  · exact hs
  · next object hentry =>
      refine ⟨fun i hi => ?_, hs.bound, hs.entry_iff⟩
      rcases List.mem_append.mp hi with hi | hi
      · exact hs.noneStale i hi
      · rw [List.mem_singleton] at hi
        subst hi
        exact decide_eq_true (hs.bound hentry)

theorem lifetimes_step (hs : s.Lifetimes) (hunbound : s.Unbound a) (hstep : s.step a = some s') :
    s'.Lifetimes := by
  cases a with
  | create kind =>
      cases hstep
      exact ⟨hs.noneStale, hs.bound, hs.entry_iff⟩
  | register object answer =>
      obtain ⟨-, rfl⟩ := Machine.of_enabled hstep
      cases answer with
      | none => exact hs
      | some id => exact hs.register object id
  | unregister object returns =>
      obtain ⟨-, rfl⟩ := Machine.of_enabled hstep
      cases returns with
      | true => exact hs.retire hunbound
      | false => exact hs
  | destroy object =>
      obtain ⟨-, rfl⟩ := Machine.of_enabled hstep
      have hretired := hs.retire hunbound
      exact ⟨hretired.noneStale, hretired.bound, hretired.entry_iff⟩
  | asyncOp m =>
      cases hstep
      exact hs.deliver m

theorem Lifetimes.unbound_of_retired (hs : s'.Lifetimes) {object : Nat}
    (hops : s'.asyncOps = s.asyncOps) (hlive : s'.live = (s.retire object).live) (id : Nat) :
    s.asyncOps.acb[id]? ≠ some object := by
  intro hentry
  rw [← hops] at hentry
  have hin := hs.bound hentry
  rw [hlive] at hin
  exact absurd rfl (of_decide_eq_true (List.mem_filter.mp hin).2)

theorem unbound_of_lifetimes (hstep : s.step a = some s') (hs : s'.Lifetimes) : s.Unbound a := by
  cases a with
  | unregister object returns =>
      obtain ⟨-, rfl⟩ := Machine.of_enabled hstep
      cases returns with
      | false => trivial
      | true => exact hs.unbound_of_retired rfl rfl
  | destroy object =>
      obtain ⟨-, rfl⟩ := Machine.of_enabled hstep
      exact hs.unbound_of_retired rfl rfl
  | create | register | asyncOp => trivial

end LifetimeState

/-- **Callback lifetime, exactly.** In every state of a run callbacks and live
registrations agree, if and only if no object is unregistered or destroyed while
an entry of the table is bound to it. -/
theorem lifetimes_iff_unbound (as : List LifetimeAction) :
    callbackLifetime.Along LifetimeState.Lifetimes as ↔
      callbackLifetime.Meets LifetimeState.Unbound as :=
  Machine.along_iff_meets LifetimeState.lifetimes_init
    (fun _ _ _ hs hunbound hstep => LifetimeState.lifetimes_step hs hunbound hstep)
    (fun _ hs => hs)
    (fun _ _ _ _ hstep hs => LifetimeState.unbound_of_lifetimes hstep hs) as

/-- A file is registered and destroyed; an event that was in flight still calls
its callback. -/
theorem callback_outlives_object :
    ¬ callbackLifetime.Along LifetimeState.Lifetimes
      [.create .file, .register 0 (some 101), .destroy 0,
        .asyncOp { id := 101, data := some [1], tickCount := 5 }] := by
  refine Machine.not_along_of_run rfl fun hs => ?_
  have hlive := hs.noneStale ⟨0, 0, [1], 5, false⟩ (by decide)
  cases hlive

end FerroRemote.Client

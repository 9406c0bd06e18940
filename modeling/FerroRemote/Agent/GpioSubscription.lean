/-
# Subscriptions of one gpio helper

One helper among other users of the reactor. Its four entry points interleave
with each other and with everybody else: `add_reactor_action`,
`del_reactor_action`, an event on a descriptor, and a posted `send_to_all`. The
other users open, close and register descriptors of their own.

Two things in the code are deliberate: a registration whose last subscriber has
left during a fan-out stays until the next event finds the map empty, and a
subscriber leaves by its own answer only. `SubscriptionLaw` states what that
design amounts to, for runs in which the first subscriber's registration succeeds
and a value can be read when the reactor wakes the helper up.
-/

import FerroRemote.Math.Machine
import FerroRemote.Agent.GpioHelper

namespace FerroRemote.Agent

/-- The reactor, the helper and the strand's queue, with the history of posted
tasks and of calls made to subscribers. -/
structure SubscriptionState where
  react : PollReactor := {}
  helper : GpioHelper := { pin := 0 }
  queue : List Task := []
  /-- Every task ever posted, oldest first. -/
  posted : List Task := []
  /-- Every call of a subscriber, oldest first. -/
  calls : List Notification := []

inductive SubscriptionAction
  | add (id : Nat) (cb : Connection) (res : Except Errno Fd) (fault : Option Errno)
  | del (id : Nat) (res : Except Errno Fd)
  /-- Some other member function asks for the value descriptor. -/
  | valueFd (res : Except Errno Fd)
  /-- The reactor's thread runs `make_callback`; `answer` is what the callback
  of another user returns. -/
  | event (fd : Fd) (read : Option (List UInt8)) (tick : Nat) (answer : Bool)
  | task (answers : Nat → Bool)
  /-- Another user opens a descriptor. -/
  | othersOpen (owner : Owner) (fd : Fd)
  /-- Another user closes a descriptor. -/
  | othersClose (closer : Closer) (fd : Fd)
  /-- Another user calls `add_fd`. -/
  | othersAdd (fd : Fd) (events : Nat) (cb : Reaction) (fault : Option Errno)
  /-- Another user calls `del_fd`. -/
  | othersDel (fd : Fd)

namespace SubscriptionState

variable (me : Nat)

/-- The descriptor belongs to the helper. -/
def Owns (s : SubscriptionState) (fd : Fd) : Prop := s.react.kernel.fds[fd]? = some (.helper me)

instance (s : SubscriptionState) (fd : Fd) : Decidable (s.Owns me fd) :=
  inferInstanceAs (Decidable (_ = _))

/-- `impl::add_reactor_action`. -/
def add (s : SubscriptionState) (id : Nat) (cb : Connection) (res : Except Errno Fd)
    (fault : Option Errno) : Except Error Nat × SubscriptionState :=
  let (res, react, helper) := s.helper.addReactorAction me s.react id cb res fault
  (res, { s with react := react, helper := helper })

/-- `impl::del_reactor_action`. -/
def del (s : SubscriptionState) (id : Nat) (res : Except Errno Fd) :
    Except Error Unit × SubscriptionState :=
  let (res, react, helper) := s.helper.delReactorAction me s.react id res
  (res, { s with react := react, helper := helper })

def valueFd (s : SubscriptionState) (res : Except Errno Fd) :
    Except Error Fd × SubscriptionState :=
  let (res, react, helper) := s.helper.openValueFd me s.react res
  (res, { s with react := react, helper := helper })

/-- `make_callback`: the helper's own callback or somebody else's. -/
def event (s : SubscriptionState) (fd : Fd) (read : Option (List UInt8)) (tick : Nat)
    (answer : Bool) : SubscriptionState :=
  match s.react.react[fd]? with
  | none => { s with react := s.react.staleEvent fd }
  | some cb =>
    if cb = .pinEvent me then
      let (res, tasks) := s.helper.reactorHandler me s.react read tick
      { s with
        react := s.react.afterCallback fd res
        queue := s.queue ++ tasks
        posted := s.posted ++ tasks }
    else { s with react := s.react.afterCallback fd answer }

/-- The strand runs the oldest `send_to_all`. -/
def task (s : SubscriptionState) (answers : Nat → Bool) : Option SubscriptionState :=
  match s.queue with
  | [] => none
  | t :: rest =>
    let (calls, helper) := s.helper.sendToAll t answers
    some { s with queue := rest, helper := helper, calls := s.calls ++ calls }

/-- One step. Other users act on descriptors that do not belong to the helper,
and register callbacks of their own. -/
def step (s : SubscriptionState) : SubscriptionAction → Option SubscriptionState
  | .add id cb res fault => if s.react.kernel.Unused res then some (s.add me id cb res fault).2 else none
  | .del id res => if s.react.kernel.Unused res then some (s.del me id res).2 else none
  | .valueFd res => if s.react.kernel.Unused res then some (s.valueFd me res).2 else none
  | .event fd read tick answer => some (s.event me fd read tick answer)
  | .task answers => s.task answers
  | .othersOpen owner fd =>
    if fd ∉ s.react.kernel.fds ∧ owner ≠ .helper me then
      some { s with react := { s.react with kernel := s.react.kernel.openFd owner fd } }
    else none
  | .othersClose closer fd =>
    if ¬ s.Owns me fd then
      some { s with react := { s.react with kernel := s.react.kernel.close closer fd } }
    else none
  | .othersAdd fd events cb fault =>
    if ¬ s.Owns me fd ∧ cb ≠ .pinEvent me then
      some { s with react := (s.react.addFd fd events cb fault).2 }
    else none
  | .othersDel fd =>
    if ¬ s.Owns me fd then some { s with react := s.react.delFd fd } else none

end SubscriptionState

/-- A helper and its surroundings, with no subscriber and nothing open. -/
def subscription (me : Nat) : Machine SubscriptionState SubscriptionAction where
  init := {}
  step := SubscriptionState.step me

namespace SubscriptionState

variable (me : Nat)

/-- The first subscriber's registration succeeds, on a value descriptor that
still belongs to the helper; a woken helper with subscribers can read its
value. -/
def Proceeds (s : SubscriptionState) : SubscriptionAction → Prop
  | .add id cb res fault =>
    s.helper.connections.isEmpty = true →
      (∃ fd, s.helper.valueFd = some fd ∧ s.Owns me fd ∨
        s.helper.valueFd = none ∧ res = .ok fd) ∧
      (s.add me id cb res fault).1 = .ok id
  | .event fd read _ _ =>
    s.react.react[fd]? = some (.pinEvent me) → s.helper.connections.isEmpty = false →
      read.isSome = true
  | _ => True

/-- The reactor holds this helper's handler for `fd`, and watches `fd`. -/
def RegisteredAt (s : SubscriptionState) (fd : Fd) : Prop :=
  s.helper.valueFd = some fd ∧ s.Owns me fd ∧ s.react.react[fd]? = some (.pinEvent me) ∧
    s.react.kernel.poll[fd]? = some GpioHelper.reactorEvents

/-- The handler is registered for the helper's open value descriptor. -/
def Registered (s : SubscriptionState) : Prop := ∃ fd, s.RegisteredAt me fd

def Agreement (s : SubscriptionState) : Prop :=
  s.helper.connections.isEmpty = false ↔ s.Registered me

/-- What subscriber `id` has been told, oldest first. -/
def heard (s : SubscriptionState) (id : Nat) : List (Nat × Nat) :=
  (s.calls.filter fun call => call.id = id).map fun call => (call.value, call.tick)

def saying (tasks : List Task) : List (Nat × Nat) := tasks.map fun t => (t.value, t.tick)

/-- A subscriber is registered, and the handler is registered only for the open
value descriptor. -/
structure Tied (s : SubscriptionState) : Prop where
  registered : s.helper.connections.isEmpty = false → s.Registered me
  ownEntry : ∀ fd : Fd, s.react.react[fd]? = some (.pinEvent me) → s.RegisteredAt me fd

theorem tied_init : Tied me {} where
  registered := by simp
  ownEntry := by simp

variable {me} {s s' : SubscriptionState}

theorem Tied.entry_unique (hs : s.Tied me) {fd fd' : Fd} (hfd : s.helper.valueFd = some fd)
    (hentry : s.react.react[fd']? = some (.pinEvent me)) : fd' = fd := by
  have hvalue := (hs.ownEntry fd' hentry).1
  rw [hfd] at hvalue
  exact (Option.some.inj hvalue).symm

theorem Tied.no_entry (hs : s.Tied me) (hfd : s.helper.valueFd = none) (fd : Fd) :
    s.react.react[fd]? ≠ some (.pinEvent me) := by
  intro hentry
  have hvalue := (hs.ownEntry fd hentry).1
  rw [hfd] at hvalue
  cases hvalue

/-- What the reactor knows about the helper's registration is unchanged, and no
entry of the helper's is new. -/
def LeavesAlone (me : Nat) (s : SubscriptionState) (react : PollReactor) : Prop :=
  (∀ fd, s.RegisteredAt me fd → react.react[fd]? = s.react.react[fd]? ∧
    react.kernel.fds[fd]? = s.react.kernel.fds[fd]? ∧
    react.kernel.poll[fd]? = s.react.kernel.poll[fd]?) ∧
  ∀ fd : Fd, react.react[fd]? = some (.pinEvent me) →
    s.react.react[fd]? = some (.pinEvent me)

theorem RegisteredAt.leavesAlone {fd : Fd} {react : PollReactor} (h : s.RegisteredAt me fd)
    (halone : LeavesAlone me s react) :
    RegisteredAt me { s with react := react } fd := by
  obtain ⟨hreact, hfds, hsame⟩ := halone.1 fd h
  obtain ⟨hvalue, howns, hentry, hpoll⟩ := h
  exact ⟨hvalue, hfds.trans howns, hreact.trans hentry, hsame.trans hpoll⟩

theorem Tied.leavesAlone (hs : s.Tied me) {react : PollReactor}
    (halone : LeavesAlone me s react) : Tied me { s with react := react } where
  registered hconnected := by
    obtain ⟨fd, hfd⟩ := hs.registered hconnected
    exact ⟨fd, hfd.leavesAlone halone⟩
  ownEntry fd hentry := (hs.ownEntry fd (halone.2 fd hentry)).leavesAlone halone

/-- The invariant reads the reactor and the helper only. -/
theorem Tied.congr (hs : s.Tied me) (hreact : s'.react = s.react)
    (hhelper : s'.helper = s.helper) : s'.Tied me := by
  have hat : ∀ fd, s.RegisteredAt me fd → s'.RegisteredAt me fd := by
    intro fd hfd
    rwa [RegisteredAt, Owns, hreact, hhelper]
  refine ⟨?_, ?_⟩
  · intro hconnected
    rw [hhelper] at hconnected
    obtain ⟨fd, hfd⟩ := hs.registered hconnected
    exact ⟨fd, hat fd hfd⟩
  · intro fd hentry
    rw [hreact] at hentry
    exact hat fd (hs.ownEntry fd hentry)

theorem leavesAlone_delFd {fd : Fd} (hforeign : ¬ s.RegisteredAt me fd) :
    LeavesAlone me s (s.react.delFd fd) := by
  refine ⟨?_, ?_⟩
  · intro fd' hfd'
    have hne : fd ≠ fd' := by
      rintro rfl
      exact hforeign hfd'
    exact PollReactor.delFd_other hne
  · intro fd' hentry
    rw [PollReactor.delFd_react, Table.getElem?_erase_eq_some_iff] at hentry
    exact hentry.2

theorem leavesAlone_staleEvent {fd : Fd} (hnone : s.react.react[fd]? = none) :
    LeavesAlone me s (s.react.staleEvent fd) := by
  refine ⟨?_, fun _ hentry => hentry⟩
  intro fd' hfd'
  have hne : fd ≠ fd' := by
    rintro rfl
    rw [hfd'.2.2.1] at hnone
    cases hnone
  refine ⟨rfl, rfl, ?_⟩
  simp [PollReactor.staleEvent, Kernel.delFdFromEpoll, Table.getElem?_erase_eq, hne]

theorem leavesAlone_openFd {fd : Fd} (owner : Owner) (hunused : fd ∉ s.react.kernel.fds) :
    LeavesAlone me s { s.react with kernel := s.react.kernel.openFd owner fd } := by
  refine ⟨?_, fun _ hentry => hentry⟩
  intro fd' hfd'
  have hne : fd ≠ fd' := by
    rintro rfl
    have hnone := (Table.not_mem_iff _ _).mp hunused
    rw [hfd'.2.1] at hnone
    cases hnone
  refine ⟨rfl, ?_, rfl⟩
  simp [Table.getElem?_insert_eq, hne]

theorem leavesAlone_close {fd : Fd} (closer : Closer) (hforeign : ¬ s.Owns me fd) :
    LeavesAlone me s { s.react with kernel := s.react.kernel.close closer fd } := by
  refine ⟨?_, fun _ hentry => hentry⟩
  intro fd' hfd'
  have hne : fd ≠ fd' := by
    rintro rfl
    exact hforeign hfd'.2.1
  refine ⟨rfl, ?_, ?_⟩ <;> simp [Kernel.close, Table.getElem?_erase_eq, hne]

theorem leavesAlone_addFd {fd : Fd} (events : Nat) {cb : Reaction} (fault : Option Errno)
    (hforeign : ¬ s.Owns me fd) (hcb : cb ≠ .pinEvent me) :
    LeavesAlone me s (s.react.addFd fd events cb fault).2 := by
  have hne : ∀ {fd' : Fd}, s.RegisteredAt me fd' → fd ≠ fd' := by
    rintro fd' hfd' rfl
    exact hforeign hfd'.2.1
  have hentries : ∀ fd' : Fd, (s.react.react.insert fd cb)[fd']? = some (.pinEvent me) →
      s.react.react[fd']? = some (.pinEvent me) := by
    intro fd' hentry
    rw [Table.getElem?_insert_eq] at hentry
    split at hentry
    · exact absurd (Option.some.inj hentry) hcb
    · exact hentry
  rcases s.react.addFd_cases fd events cb fault with ⟨h, -, -⟩ | ⟨code, -, -, h⟩ | ⟨code, -, h⟩
  · rw [h]
    refine ⟨fun fd' hfd' => ?_, hentries⟩
    simp [Table.getElem?_insert_eq, hne hfd']
  · rw [h]
    exact leavesAlone_close .reactor hforeign
  · rw [h]
    refine ⟨fun fd' hfd' => ?_, hentries⟩
    simp [Table.getElem?_insert_eq, hne hfd']

theorem add_further {id : Nat} {cb : Connection} {res : Except Errno Fd} {fault : Option Errno}
    (hconnected : s.helper.connections.isEmpty = false) :
    (s.add me id cb res fault).2 = { s with helper := s.helper.addConnection id cb } := by
  simp [add, GpioHelper.addReactorAction, hconnected]

theorem add_first {id : Nat} {cb : Connection} {res : Except Errno Fd} {fault : Option Errno}
    (hempty : s.helper.connections.isEmpty = true) (hproceeds : s.Proceeds me (.add id cb res fault)) :
    ∃ fd kernel, (s.add me id cb res fault).2 = { s with
        react := { kernel := kernel, react := s.react.react.insert fd (.pinEvent me) }
        helper := { s.helper.addConnection id cb with valueFd := some fd } } ∧
      kernel.fds[fd]? = some (.helper me) ∧
      kernel.poll[fd]? = some GpioHelper.reactorEvents ∧
      (s.helper.valueFd = some fd ∨ s.helper.valueFd = none) := by
  obtain ⟨⟨fd, hown⟩, hok⟩ := hproceeds hempty
  -- the reactor and the helper once the value descriptor is known to be open
  obtain ⟨react, hopened, hreact, howns⟩ : ∃ react,
      (s.helper.addConnection id cb).openValueFd me s.react res =
        (.ok fd, react, { s.helper.addConnection id cb with valueFd := some fd }) ∧
      react.react = s.react.react ∧ react.kernel.fds[fd]? = some (.helper me) := by
    rcases hown with ⟨hfd, howns⟩ | ⟨hnone, rfl⟩
    · have hsame : { s.helper.addConnection id cb with valueFd := some fd } =
          s.helper.addConnection id cb := by rw [← hfd]; rfl
      have hfd' : (s.helper.addConnection id cb).valueFd = some fd := hfd
      rw [hsame]
      exact ⟨s.react, GpioHelper.openValueFd_of_some hfd' res, rfl, howns⟩
    · have hnone' : (s.helper.addConnection id cb).valueFd = none := hnone
      refine ⟨{ s.react with kernel := s.react.kernel.openFd (.helper me) fd }, ?_, rfl, ?_⟩
      · simp only [GpioHelper.openValueFd, hnone']
      · simp
  rcases react.addFd_cases fd GpioHelper.reactorEvents (.pinEvent me) fault with
    ⟨hadd, -, -⟩ | ⟨code, -, -, hadd⟩ | ⟨code, -, hadd⟩
  · refine ⟨fd, { react.kernel with
      poll := react.kernel.poll.insert fd GpioHelper.reactorEvents }, ?_, howns, ?_, ?_⟩
    · simp [add, GpioHelper.addReactorAction, hempty, hopened, hadd, hreact]
    · simp
    · exact hown.imp (fun h => h.1) (fun h => h.1)
  · simp [add, GpioHelper.addReactorAction, hempty, hopened, hadd] at hok
  · simp [add, GpioHelper.addReactorAction, hempty, hopened, hadd] at hok

theorem Tied.add (hs : s.Tied me) {id : Nat} {cb : Connection} {res : Except Errno Fd}
    {fault : Option Errno} (hproceeds : s.Proceeds me (.add id cb res fault)) :
    (s.add me id cb res fault).2.Tied me ∧
      (s.add me id cb res fault).2.helper.connections.isEmpty = false := by
  cases hempty : s.helper.connections.isEmpty with
  | false =>
      rw [add_further hempty]
      have hregistered := hs.registered hempty
      refine ⟨⟨fun _ => hregistered, hs.ownEntry⟩, ?_⟩
      simp [GpioHelper.addConnection]
  | true =>
      obtain ⟨fd, kernel, hstate, howns, hpoll, hvalue⟩ := add_first hempty hproceeds
      rw [hstate]
      have hat : RegisteredAt me { s with
          react := { kernel := kernel, react := s.react.react.insert fd (.pinEvent me) }
          helper := { s.helper.addConnection id cb with valueFd := some fd } } fd := by
        refine ⟨rfl, howns, ?_, hpoll⟩
        simp
      refine ⟨⟨fun _ => ⟨fd, hat⟩, ?_⟩, by simp [GpioHelper.addConnection]⟩
      intro fd' hentry
      have hsame : fd' = fd := by
        rw [Table.getElem?_insert_eq] at hentry
        split at hentry
        · next heq => exact heq.symm
        · rcases hvalue with hfd | hnone
          · exact hs.entry_unique hfd hentry
          · exact absurd hentry (hs.no_entry hnone fd')
      rw [hsame]
      exact hat

/-- Deleting a subscriber that is not the last one. -/
theorem del_further {id : Nat} {res : Except Errno Fd}
    (hleft : (s.helper.connections.erase id).isEmpty = false) :
    (s.del me id res).2 = { s with helper := s.helper.delConnection id } := by
  simp only [del, GpioHelper.delReactorAction, GpioHelper.delConnection, hleft, Bool.false_eq_true,
    if_false]

/-- Deleting the last subscriber, with a descriptor to take off the reactor. -/
theorem del_of_opened {id : Nat} {res : Except Errno Fd} {fd : Fd} {react : PollReactor}
    {helper : GpioHelper} (hlast : (s.helper.connections.erase id).isEmpty = true)
    (hopen : GpioHelper.openValueFd me s.react (s.helper.delConnection id) res =
      (.ok fd, react, helper)) :
    (s.del me id res).2 = { s with react := react.delFd fd, helper := helper } := by
  simp only [del, GpioHelper.delReactorAction, hopen]
  simp only [GpioHelper.delConnection, hlast, if_true]

/-- Deleting when nobody is left takes the registration away. -/
theorem Tied.del_last (hs : s.Tied me) {id : Nat} (res : Except Errno Fd)
    (hlast : (s.helper.connections.erase id).isEmpty = true) :
    (s.del me id res).2.helper.connections = s.helper.connections.erase id ∧
      ∀ fd : Fd, (s.del me id res).2.react.react[fd]? ≠ some (.pinEvent me) := by
  have hcases := GpioHelper.openValueFd_cases me s.react (s.helper.delConnection id) res
  rcases hcases with ⟨fd, hfd, hopen⟩ | ⟨hnone, code, -, hopen⟩ | ⟨hnone, fd, -, hopen⟩
  · rw [del_of_opened hlast hopen]
    refine ⟨rfl, fun fd' hentry => ?_⟩
    rw [PollReactor.delFd_react, Table.getElem?_erase_eq_some_iff] at hentry
    exact hentry.1 (hs.entry_unique hfd hentry.2).symm
  · have hstate : (s.del me id res).2 = { s with helper := s.helper.delConnection id } := by
      simp only [del, GpioHelper.delReactorAction, hopen]
      simp only [GpioHelper.delConnection, hlast, if_true]
    rw [hstate]
    exact ⟨rfl, hs.no_entry hnone⟩
  · rw [del_of_opened hlast hopen]
    refine ⟨rfl, fun fd' hentry => ?_⟩
    rw [PollReactor.delFd_react, Table.getElem?_erase_eq_some_iff] at hentry
    exact hs.no_entry hnone fd' hentry.2

theorem Tied.del (hs : s.Tied me) (id : Nat) (res : Except Errno Fd) :
    (s.del me id res).2.Tied me ∧ (s.del me id res).2.Agreement me := by
  cases hleft : (s.helper.connections.erase id).isEmpty with
  | false =>
      rw [del_further hleft]
      have hconnected : s.helper.connections.isEmpty = false := by
        rw [Table.isEmpty_eq_false_iff_exists] at hleft ⊢
        obtain ⟨k, v, hk⟩ := hleft
        rw [Table.getElem?_erase_eq_some_iff] at hk
        exact ⟨k, v, hk.2⟩
      have hregistered := hs.registered hconnected
      exact ⟨⟨fun _ => hregistered, hs.ownEntry⟩, fun _ => hregistered, fun _ => hleft⟩
  | true =>
      obtain ⟨hgone, hnone⟩ := hs.del_last res hleft
      have hempty : (s.del me id res).2.helper.connections.isEmpty = true := by rw [hgone, hleft]
      refine ⟨⟨fun hconnected => ?_, fun fd hentry => absurd hentry (hnone fd)⟩,
        fun hconnected => ?_, fun hregistered => ?_⟩
      · rw [hempty] at hconnected
        cases hconnected
      · rw [hempty] at hconnected
        cases hconnected
      · obtain ⟨fd, hfd⟩ := hregistered
        exact absurd hfd.2.2.1 (hnone fd)

theorem Tied.valueFd (hs : s.Tied me) {res : Except Errno Fd} (hunused : s.react.kernel.Unused res) :
    (s.valueFd me res).2.Tied me ∧
      (s.valueFd me res).2.helper.connections = s.helper.connections ∧
      (s.valueFd me res).2.react.react = s.react.react := by
  rcases GpioHelper.openValueFd_cases me s.react s.helper res with
    ⟨fd, -, hopen⟩ | ⟨-, code, -, hopen⟩ | ⟨hnone, fd, rfl, hopen⟩
  · rw [SubscriptionState.valueFd, hopen]
    exact ⟨hs, rfl, rfl⟩
  · rw [SubscriptionState.valueFd, hopen]
    exact ⟨hs, rfl, rfl⟩
  · rw [SubscriptionState.valueFd, hopen]
    refine ⟨⟨fun hconnected => ?_, fun fd' hentry => ?_⟩, rfl, rfl⟩
    · obtain ⟨fd', hfd'⟩ := hs.registered hconnected
      exact absurd hfd'.2.2.1 (hs.no_entry hnone fd')
    · exact absurd hentry (hs.no_entry hnone fd')

theorem event_connected {fd : Fd} (hat : s.RegisteredAt me fd)
    (hconnected : s.helper.connections.isEmpty = false) (buf : List UInt8) (tick : Nat)
    (answer : Bool) :
    s.event me fd (some buf) tick answer =
      { s with
        queue := s.queue ++ [⟨me, if buf.head? = some 49 then 1 else 0, tick⟩]
        posted := s.posted ++ [⟨me, if buf.head? = some 49 then 1 else 0, tick⟩] } := by
  obtain ⟨hvalue, howns, hentry, -⟩ := hat
  have hopen : fd ∈ s.react.kernel.fds := (Table.mem_iff_exists _ _).mpr ⟨_, howns⟩
  simp only [event, hentry, if_true, GpioHelper.reactorHandler_of_readable hconnected hvalue hopen,
    PollReactor.afterCallback]

theorem event_empty {fd : Fd} (hentry : s.react.react[fd]? = some (.pinEvent me))
    (hempty : s.helper.connections.isEmpty = true) (read : Option (List UInt8)) (tick : Nat)
    (answer : Bool) :
    s.event me fd read tick answer = { s with react := s.react.delFd fd } := by
  simp [event, hentry, GpioHelper.reactorHandler, hempty, PollReactor.afterCallback]

theorem Tied.event (hs : s.Tied me) {fd : Fd} {read : Option (List UInt8)} {tick : Nat}
    {answer : Bool} (hproceeds : s.Proceeds me (.event fd read tick answer)) :
    (s.event me fd read tick answer).Tied me ∧
      (s.event me fd read tick answer).helper = s.helper ∧
      ∀ fd' : Fd, (s.event me fd read tick answer).react.react[fd']? = some (.pinEvent me) →
        s.react.react[fd']? = some (.pinEvent me) := by
  cases hcb : s.react.react[fd]? with
  | none =>
      have halone : LeavesAlone me s (s.react.staleEvent fd) := leavesAlone_staleEvent hcb
      have hstate : s.event me fd read tick answer = { s with react := s.react.staleEvent fd } := by
        simp only [SubscriptionState.event, hcb]
      rw [hstate]
      exact ⟨hs.leavesAlone halone, rfl, halone.2⟩
  | some cb =>
      by_cases hown : cb = .pinEvent me
      · subst hown
        cases hconnected : s.helper.connections.isEmpty with
        | false =>
            obtain ⟨buf, rfl⟩ := Option.isSome_iff_exists.mp (hproceeds hcb hconnected)
            rw [event_connected (hs.ownEntry fd hcb) hconnected]
            exact ⟨hs.congr rfl rfl, rfl, fun _ hentry => hentry⟩
        | true =>
            have hgone : ∀ fd' : Fd, (s.react.delFd fd).react[fd']? ≠ some (.pinEvent me) := by
              intro fd' hentry
              rw [PollReactor.delFd_react, Table.getElem?_erase_eq_some_iff] at hentry
              exact hentry.1 (hs.entry_unique (hs.ownEntry fd hcb).1 hentry.2).symm
            rw [event_empty hcb hconnected]
            refine ⟨⟨fun hleft => ?_, fun fd' hentry => absurd hentry (hgone fd')⟩, rfl,
              fun fd' hentry => absurd hentry (hgone fd')⟩
            rw [hconnected] at hleft
            cases hleft
      · have hforeign : ¬ s.RegisteredAt me fd := by
          intro hat
          have hentry := hat.2.2.1
          rw [hcb] at hentry
          exact hown (Option.some.inj hentry)
        have hstate : s.event me fd read tick answer =
            { s with react := s.react.afterCallback fd answer } := by
          simp only [SubscriptionState.event, hcb, if_neg hown]
        rw [hstate]
        cases answer with
        | true => exact ⟨hs, rfl, fun _ hentry => hentry⟩
        | false =>
            have halone := leavesAlone_delFd hforeign
            exact ⟨hs.leavesAlone halone, rfl, halone.2⟩

/-- A task runs: the queue loses it, and every subscriber is called. -/
theorem task_eq {answers : Nat → Bool} (htask : s.task answers = some s') :
    ∃ t, s.queue = t :: s'.queue ∧ s'.react = s.react ∧ s'.posted = s.posted ∧
      s'.helper = (s.helper.sendToAll t answers).2 ∧
      s'.calls = s.calls ++ (s.helper.sendToAll t answers).1 := by
  unfold task at htask
  split at htask
  · cases htask
  · next t rest hqueue =>
      cases htask
      exact ⟨t, hqueue, rfl, rfl, rfl, rfl⟩

theorem Tied.task (hs : s.Tied me) {answers : Nat → Bool} (htask : s.task answers = some s') :
    s'.Tied me := by
  obtain ⟨t, -, hreact, -, hhelper, -⟩ := task_eq htask
  have hat : ∀ fd, s.RegisteredAt me fd → s'.RegisteredAt me fd := by
    intro fd hfd
    rwa [RegisteredAt, Owns, hreact, hhelper]
  refine ⟨fun hconnected => ?_, fun fd hentry => ?_⟩
  · have hbefore : s.helper.connections.isEmpty = false := by
      rw [Table.isEmpty_eq_false_iff_exists] at hconnected ⊢
      obtain ⟨k, v, hk⟩ := hconnected
      rw [hhelper, GpioHelper.sendToAll_connections] at hk
      exact ⟨k, v, (Option.filter_eq_some_iff.mp hk).1⟩
    obtain ⟨fd, hfd⟩ := hs.registered hbefore
    exact ⟨fd, hat fd hfd⟩
  · rw [hreact] at hentry
    exact hat fd (hs.ownEntry fd hentry)

/-- **One step.** Besides the invariant, every step but a fan-out keeps the
agreement of subscribers and registration. -/
theorem tied_step {a : SubscriptionAction} (hs : s.Tied me) (hproceeds : s.Proceeds me a)
    (hstep : s.step me a = some s') :
    s'.Tied me ∧
      ((∀ answers, a ≠ .task answers) → s.Agreement me → s'.Agreement me) := by
  -- entries that are there already, and the same subscribers
  have hsame : s'.Tied me → s'.helper.connections = s.helper.connections →
      (∀ fd : Fd, s'.react.react[fd]? = some (.pinEvent me) →
        s.react.react[fd]? = some (.pinEvent me)) → s.Agreement me → s'.Agreement me := by
    intro htied hconnections hentries hagrees
    refine ⟨htied.registered, fun hregistered => ?_⟩
    obtain ⟨fd, hfd⟩ := hregistered
    rw [hconnections]
    exact hagrees.mpr ⟨fd, hs.ownEntry fd (hentries fd hfd.2.2.1)⟩
  cases a with
  | add id cb res fault =>
      obtain ⟨-, rfl⟩ := Machine.of_enabled hstep
      obtain ⟨htied, hconnected⟩ := hs.add hproceeds
      exact ⟨htied, fun _ _ => ⟨htied.registered, fun _ => hconnected⟩⟩
  | del id res =>
      obtain ⟨-, rfl⟩ := Machine.of_enabled hstep
      obtain ⟨htied, hagrees⟩ := hs.del id res
      exact ⟨htied, fun _ _ => hagrees⟩
  | valueFd res =>
      obtain ⟨hunused, rfl⟩ := Machine.of_enabled hstep
      obtain ⟨htied, hconnections, hreact⟩ := hs.valueFd hunused
      refine ⟨htied, fun _ => hsame htied hconnections fun fd hentry => ?_⟩
      rwa [hreact] at hentry
  | event fd read tick answer =>
      cases hstep
      obtain ⟨htied, hhelper, hentries⟩ := hs.event hproceeds
      exact ⟨htied, fun _ => hsame htied (by rw [hhelper]) hentries⟩
  | task answers => exact ⟨hs.task hstep, fun hother => absurd rfl (hother answers)⟩
  | othersOpen owner fd =>
      obtain ⟨⟨hunused, -⟩, rfl⟩ := Machine.of_enabled hstep
      have htied := hs.leavesAlone (leavesAlone_openFd owner hunused)
      exact ⟨htied, fun _ => hsame htied rfl fun _ hentry => hentry⟩
  | othersClose closer fd =>
      obtain ⟨hforeign, rfl⟩ := Machine.of_enabled hstep
      have htied := hs.leavesAlone (leavesAlone_close closer hforeign)
      exact ⟨htied, fun _ => hsame htied rfl fun _ hentry => hentry⟩
  | othersAdd fd events cb fault =>
      obtain ⟨⟨hforeign, hcb⟩, rfl⟩ := Machine.of_enabled hstep
      have halone := leavesAlone_addFd events fault hforeign hcb
      exact ⟨hs.leavesAlone halone, fun _ => hsame (hs.leavesAlone halone) rfl halone.2⟩
  | othersDel fd =>
      obtain ⟨hforeign, rfl⟩ := Machine.of_enabled hstep
      have halone : LeavesAlone me s (s.react.delFd fd) :=
        leavesAlone_delFd fun hat => hforeign hat.2.1
      exact ⟨hs.leavesAlone halone, fun _ => hsame (hs.leavesAlone halone) rfl halone.2⟩

/-! ## What subscribers hear -/

/-- The steps that leave queue, histories and remaining subscribers alone. -/
theorem step_cases {a : SubscriptionAction} (hstep : s.step me a = some s') :
    (∃ fd read tick answer, a = .event fd read tick answer ∧
        s' = s.event me fd read tick answer) ∨
      (∃ answers, a = .task answers ∧ s.task answers = some s') ∨
      (s'.queue = s.queue ∧ s'.posted = s.posted ∧ s'.calls = s.calls ∧
        ∀ id ∈ s.helper.connections, id ∈ s'.helper.connections ∨ ∃ res, a = .del id res) := by
  cases a with
  | event fd read tick answer =>
      cases hstep
      exact .inl ⟨fd, read, tick, answer, rfl, rfl⟩
  | task answers => exact .inr (.inl ⟨answers, rfl, hstep⟩)
  | add id cb res fault =>
      obtain ⟨-, rfl⟩ := Machine.of_enabled hstep
      refine .inr (.inr ⟨rfl, rfl, rfl, fun id' hid => .inl ?_⟩)
      show id' ∈ (s.helper.addReactorAction me s.react id cb res fault).2.2.connections
      rw [GpioHelper.addReactorAction_connections, Std.ExtTreeMap.mem_insert]
      exact .inr hid
  | del id res =>
      obtain ⟨-, rfl⟩ := Machine.of_enabled hstep
      refine .inr (.inr ⟨rfl, rfl, rfl, fun id' hid => ?_⟩)
      show id' ∈ (s.helper.delReactorAction me s.react id res).2.2.connections ∨ _
      rw [GpioHelper.delReactorAction_connections, Std.ExtTreeMap.mem_erase]
      by_cases heq : id = id'
      · subst heq
        exact .inr ⟨res, rfl⟩
      · exact .inl ⟨by simpa using heq, hid⟩
  | valueFd res =>
      obtain ⟨-, rfl⟩ := Machine.of_enabled hstep
      refine .inr (.inr ⟨rfl, rfl, rfl, fun id' hid => .inl ?_⟩)
      show id' ∈ (s.helper.openValueFd me s.react res).2.2.connections
      rw [GpioHelper.openValueFd_connections]
      exact hid
  | othersOpen owner fd | othersClose closer fd | othersAdd fd events cb fault | othersDel fd =>
      obtain ⟨-, rfl⟩ := Machine.of_enabled hstep
      exact .inr (.inr ⟨rfl, rfl, rfl, fun id' hid => .inl hid⟩)

theorem event_posts (me : Nat) (s : SubscriptionState) (fd : Fd) (read : Option (List UInt8)) (tick : Nat)
    (answer : Bool) : ∃ new,
    (s.event me fd read tick answer).queue = s.queue ++ new ∧
      (s.event me fd read tick answer).posted = s.posted ++ new ∧
      (s.event me fd read tick answer).calls = s.calls ∧
      (s.event me fd read tick answer).helper = s.helper := by
  unfold event
  split
  · exact ⟨[], by simp⟩
  · split
    · exact ⟨_, rfl, rfl, rfl, rfl⟩
    · exact ⟨[], by simp⟩

/-- **Why a subscriber leaves.** It was deleted, or its own callback answered
`false`. -/
theorem left_only_by {a : SubscriptionAction} (hstep : s.step me a = some s') {id : Nat}
    (hid : id ∈ s.helper.connections) (hleft : id ∉ s'.helper.connections) :
    (∃ res, a = .del id res) ∨ ∃ answers, a = .task answers ∧ answers id = false := by
  rcases step_cases hstep with
    ⟨fd, read, tick, answer, -, rfl⟩ | ⟨answers, rfl, htask⟩ | ⟨-, -, -, hkept⟩
  · have hhelper : (s.event me fd read tick answer).helper = s.helper := by
      obtain ⟨new, -, -, -, hsame⟩ := event_posts me s fd read tick answer
      exact hsame
    rw [hhelper] at hleft
    exact absurd hid hleft
  · right
    refine ⟨answers, rfl, ?_⟩
    obtain ⟨t, -, -, -, hhelper, -⟩ := task_eq htask
    obtain ⟨target, htarget⟩ := (Table.mem_iff_exists _ _).mp hid
    rw [hhelper, Table.not_mem_iff, GpioHelper.sendToAll_connections, htarget] at hleft
    simpa using hleft
  · left
    exact (hkept id hid).resolve_left hleft

theorem heard_step {a : SubscriptionAction} (hstep : s.step me a = some s') {id : Nat}
    (hid : id ∈ s.helper.connections) :
    ∃ new, s'.posted = s.posted ++ new ∧
      s'.heard id ++ saying s'.queue = s.heard id ++ saying s.queue ++ saying new := by
  rcases step_cases hstep with
    ⟨fd, read, tick, answer, -, rfl⟩ | ⟨answers, -, htask⟩ | ⟨hqueue, hposted, hcalls, -⟩
  · obtain ⟨new, hqueue, hposted, hcalls, -⟩ := event_posts me s fd read tick answer
    refine ⟨new, hposted, ?_⟩
    simp only [heard, saying, hqueue, hcalls, List.map_append, List.append_assoc]
  · obtain ⟨t, hqueue, -, hposted, -, hcalls⟩ := task_eq htask
    obtain ⟨target, htarget⟩ := (Table.mem_iff_exists _ _).mp hid
    refine ⟨[], by simp [hposted], ?_⟩
    simp only [heard, saying, hqueue, hcalls, List.filter_append,
      GpioHelper.sendToAll_calls htarget, List.map_append, List.map_cons, List.map_nil,
      List.append_assoc, List.cons_append, List.nil_append, List.append_nil]
  · refine ⟨[], by simp [hposted], ?_⟩
    simp only [heard, saying, hqueue, hcalls, List.map_nil, List.append_nil]

/-- **What a subscriber hears over a run.** While it stays, every task posted is
either still queued or has reached it, once and in order. -/
theorem heard_run {id : Nat} {as : List SubscriptionAction}
    (hrun : (subscription me).runFrom s as = some s')
    (hstays : (subscription me).AlongFrom (fun s => id ∈ s.helper.connections) s as) :
    ∃ new, s'.posted = s.posted ++ new ∧
      s'.heard id ++ saying s'.queue = s.heard id ++ saying s.queue ++ saying new := by
  induction as generalizing s with
  | nil =>
      cases hrun
      exact ⟨[], by simp [saying]⟩
  | cons a as ih =>
      rw [Machine.runFrom_cons, Option.bind_eq_some_iff] at hrun
      obtain ⟨middle, hstep, hrest⟩ := hrun
      obtain ⟨new, hposted, hheard⟩ := heard_step hstep hstays.head
      obtain ⟨later, hposted', hheard'⟩ := ih hrest (hstays.2 middle hstep)
      refine ⟨new ++ later, by rw [hposted', hposted, List.append_assoc], ?_⟩
      rw [hheard', hheard]
      simp only [saying, List.map_append, List.append_assoc]

/-- How subscribers, registration and notifications hang together in a state. -/
structure SubscriptionLaw (me : Nat) (s : SubscriptionState) : Prop where
  /-- Whoever subscribes is registered for events of the open value descriptor. -/
  registered : s.helper.connections.isEmpty = false → s.Registered me
  /-- The handler is registered nowhere else. -/
  ownEntry : ∀ fd : Fd, s.react.react[fd]? = some (.pinEvent me) → s.RegisteredAt me fd
  /-- Only a fan-out can end the agreement of the two. -/
  agreement : ∀ a s', s.Proceeds me a → s.step me a = some s' →
    (∀ answers, a ≠ .task answers) → s.Agreement me → s'.Agreement me
  /-- A registration that a fan-out left behind ends with the next event, which
  posts nothing. -/
  removed : ∀ fd, s.RegisteredAt me fd → s.helper.connections.isEmpty = true →
    ∀ read tick answer s', s.step me (.event fd read tick answer) = some s' →
      s'.Agreement me ∧ ¬ s'.Registered me ∧ s'.queue = s.queue
  /-- Adding and deleting make the two agree, also where a fan-out has left a registration
  behind. -/
  settles : (∀ id cb res fault s', s.Proceeds me (.add id cb res fault) →
      s.step me (.add id cb res fault) = some s' → s'.Agreement me) ∧
    ∀ id res s', s.step me (.del id res) = some s' → s'.Agreement me
  /-- With a subscriber, an event posts the value that was read, and the
  registration stays. -/
  posts : ∀ fd, s.RegisteredAt me fd → s.helper.connections.isEmpty = false →
    ∀ buf tick answer s', s.step me (.event fd (some buf) tick answer) = some s' →
      s'.posted = s.posted ++ [⟨me, if buf.head? = some 49 then 1 else 0, tick⟩] ∧
        s'.Registered me
  /-- A subscriber leaves by being deleted or by its own answer. -/
  leaves : ∀ a s' id, s.step me a = some s' → id ∈ s.helper.connections →
    id ∉ s'.helper.connections →
    (∃ res, a = .del id res) ∨ ∃ answers, a = .task answers ∧ answers id = false
  /-- While it stays, it hears everything that is posted, once and in order. -/
  hears : ∀ id as s', (subscription me).runFrom s as = some s' →
    (subscription me).AlongFrom (fun s => id ∈ s.helper.connections) s as →
    ∃ new, s'.posted = s.posted ++ new ∧
      s'.heard id ++ saying s'.queue = s.heard id ++ saying s.queue ++ saying new

theorem Tied.law (hs : s.Tied me) : SubscriptionLaw me s where
  registered := hs.registered
  ownEntry := hs.ownEntry
  agreement a s' hproceeds hstep hother := (tied_step hs hproceeds hstep).2 hother
  removed fd hat hempty read tick answer s' hstep := by
    cases hstep
    have hentry := hat.2.2.1
    rw [event_empty hentry hempty]
    have hgone : ¬ Registered me { s with react := s.react.delFd fd } := by
      intro hregistered
      obtain ⟨fd', hvalue, -, hentry', -⟩ := hregistered
      rw [PollReactor.delFd_react, Table.getElem?_erase_eq_some_iff] at hentry'
      exact hentry'.1 (hs.entry_unique hat.1 hentry'.2).symm
    refine ⟨⟨fun hconnected => ?_, fun hregistered => absurd hregistered hgone⟩, hgone, rfl⟩
    rw [hempty] at hconnected
    cases hconnected
  settles := by
    constructor
    · intro id cb res fault s' hproceeds hstep
      rcases Machine.of_enabled hstep with ⟨-, rfl⟩
      rcases hs.add hproceeds with ⟨htied, hconnected⟩
      exact ⟨htied.registered, fun _ => hconnected⟩
    · intro id res s' hstep
      rcases Machine.of_enabled hstep with ⟨-, rfl⟩
      exact (hs.del id res).2
  posts fd hat hconnected buf tick answer s' hstep := by
    cases hstep
    rw [event_connected hat hconnected]
    exact ⟨rfl, fd, hat⟩
  leaves _ _ _ hstep hid hleft := left_only_by hstep hid hleft
  hears _ _ _ hrun hstays := heard_run hrun hstays

end SubscriptionState

/-- **Subscriptions of a helper.** The law holds in every state of every run in
which first registrations succeed and values can be read. -/
theorem subscription_law (me : Nat) {s : SubscriptionState}
    (hreach : (subscription me).ReachableUnder (SubscriptionState.Proceeds me) s) :
    SubscriptionState.SubscriptionLaw me s :=
  (hreach.invariant (SubscriptionState.tied_init me)
    fun _ _ _ hs hproceeds hstep => (SubscriptionState.tied_step hs hproceeds hstep).1).law

/-- The law of a helper with its first subscriber. -/
theorem subscription_law_first_subscriber :
    SubscriptionState.SubscriptionLaw 0
      (SubscriptionState.add 0 {} 101 ⟨0, 101⟩ (.ok 5) none).2 :=
  subscription_law 0 (.step .init (a := .add 101 ⟨0, 101⟩ (.ok 5) none)
    (fun _ => ⟨⟨5, .inr ⟨rfl, rfl⟩⟩, rfl⟩) rfl)

/-- After a fan-out whose only subscriber answers `false`, nothing is queued and
nobody subscribes, but the registration is still there; and a registration that
fails leaves its subscriber in the map. -/
theorem registration_outlives_subscribers :
    (∃ s, (subscription 0).run [.add 101 ⟨0, 101⟩ (.ok 5) none, .event 5 (some [49]) 0 true,
        .task fun _ => false] = some s ∧ s.queue = [] ∧ ¬ s.Agreement 0) ∧
      (∃ s, (subscription 0).run [.add 101 ⟨0, 101⟩ (.error 13) none] = some s ∧
        101 ∈ s.helper.connections ∧ ¬ s.Registered 0) := by
  refine ⟨⟨_, rfl, rfl, fun hagrees => ?_⟩, ⟨_, rfl, by decide, fun hregistered => ?_⟩⟩
  · have hconnected := hagrees.mpr ⟨5, rfl, by decide, by decide, by decide⟩
    exact absurd hconnected (by decide +kernel)
  · obtain ⟨fd, hvalue, -⟩ := hregistered
    cases hvalue

end FerroRemote.Agent

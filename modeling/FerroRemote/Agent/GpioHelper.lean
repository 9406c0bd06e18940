/-
# A gpio helper and its subscriptions

`gpio_helper::impl` shares one value descriptor among all handles of a pin. The
descriptor is opened on first use and its number is never forgotten afterwards.
The connection map says who wants to hear of changes; the reactor's table holds
at most one callback for the descriptor, `reactor_handler` bound to the raw
pointer of the helper, which reads the value and posts `send_to_all`.

The functions take the reactor and the helper and return both, because an
exception does not undo what was done before it.
-/

import FerroRemote.Agent.PollReactor

namespace FerroRemote.Agent

/-- A stored `gpio_reaction`: `value_changed` bound to its service instance and
to the handle whose events it reports. -/
structure Connection where
  inst : Nat
  hdl : Nat
  deriving DecidableEq, Repr

/-- The closure `reactor_handler` posts; `helper` is a raw pointer. -/
structure Task where
  helper : Nat
  value : Nat
  tick : Nat
  deriving DecidableEq, Repr

/-- One call of a stored reaction by `send_to_all`. -/
structure Notification where
  id : Nat
  target : Connection
  value : Nat
  tick : Nat
  deriving DecidableEq, Repr

/-- `gpio_helper::impl`; `valueFd` is `none` for `-1`. -/
structure GpioHelper where
  pin : Nat
  valueFd : Option Fd := none
  connections : Table Connection := ∅

namespace GpioHelper

def reactorEvents : Nat := EPOLLET ||| EPOLLPRI

/-- `gpio_helper::value_fd`: `res` is what `open` returns if it is called. -/
def openValueFd (self : Nat) (r : PollReactor) (h : GpioHelper) (res : Except Errno Fd) :
    Except Error Fd × PollReactor × GpioHelper :=
  match h.valueFd with
  | some fd => (.ok fd, r, h)
  | none =>
    match res with
    | .error code => (.error (.system code "open"), r, h)
    | .ok fd =>
      (.ok fd, { r with kernel := r.kernel.openFd (.helper self) fd }, { h with valueFd := some fd })

def addConnection (h : GpioHelper) (id : Nat) (connection : Connection) : GpioHelper :=
  { h with connections := h.connections.insert id connection }

def delConnection (h : GpioHelper) (id : Nat) : GpioHelper :=
  { h with connections := h.connections.erase id }

/-- `impl::add_reactor_action`: only the first connection registers the value
descriptor, and it is in the map before anything that can fail. -/
def addReactorAction (self : Nat) (r : PollReactor) (h : GpioHelper) (id : Nat)
    (cb : Connection) (res : Except Errno Fd) (fault : Option Errno) :
    Except Error Nat × PollReactor × GpioHelper :=
  if h.connections.isEmpty then
    match openValueFd self r (h.addConnection id cb) res with
    | (.error err, r, h) => (.error err, r, h)
    | (.ok fd, r, h) =>
      match r.addFd fd reactorEvents (.pinEvent self) fault with
      | (.error err, r) => (.error err, r, h)
      | (.ok (), r) => (.ok id, r, h)
  else (.ok id, r, h.addConnection id cb)

/-- `impl::del_reactor_action`: deleting when nothing is left takes the value
descriptor off the reactor, whether or not `id` was connected. -/
def delReactorAction (self : Nat) (r : PollReactor) (h : GpioHelper) (id : Nat)
    (res : Except Errno Fd) : Except Error Unit × PollReactor × GpioHelper :=
  let h := h.delConnection id
  if h.connections.isEmpty then
    match openValueFd self r h res with
    | (.error err, r, h) => (.error err, r, h)
    | (.ok fd, r, h) => (.ok (), r.delFd fd, h)
  else (.ok (), r, h)

/-- `impl::reactor_handler`: the answer given to the reactor, and the task it
posts. `read` is the outcome of `::read` on the value descriptor, which cannot
succeed on a number that is not open. -/
def reactorHandler (self : Nat) (r : PollReactor) (h : GpioHelper)
    (read : Option (List UInt8)) (tick : Nat) : Bool × List Task :=
  if h.connections.isEmpty then (false, [])
  else
    match h.valueFd with
    | none => (false, [])
    | some fd =>
      match (if fd ∈ r.kernel.fds then read else none) with
      | none => (false, [])
      | some buf =>
        -- buf[0] == '1'; the value file of a pin never reads as empty
        (true, [⟨self, if buf.head? = some 49 then 1 else 0, tick⟩])

/-- `impl::send_to_all`: every connection is called, in key order, and stays
exactly when it answers `true`. -/
def sendToAll (h : GpioHelper) (t : Task) (answers : Nat → Bool) :
    List Notification × GpioHelper :=
  (h.connections.toList.map fun entry => ⟨entry.1, entry.2, t.value, t.tick⟩,
    { h with connections := h.connections.filter fun id _ => answers id })

/-- `impl::~impl`. -/
def destroy (self : Nat) (r : PollReactor) (h : GpioHelper) : PollReactor :=
  match h.valueFd with
  | none => r
  | some fd => { r with kernel := r.kernel.close (.object (.helper self)) fd }

theorem openValueFd_of_some {self : Nat} {r : PollReactor} {h : GpioHelper} {fd : Fd}
    (hfd : h.valueFd = some fd) (res : Except Errno Fd) :
    openValueFd self r h res = (.ok fd, r, h) := by
  simp [openValueFd, hfd]

theorem openValueFd_cases (self : Nat) (r : PollReactor) (h : GpioHelper) (res : Except Errno Fd) :
    (∃ fd, h.valueFd = some fd ∧ openValueFd self r h res = (.ok fd, r, h)) ∨
    (h.valueFd = none ∧ ∃ code, res = .error code ∧
      openValueFd self r h res = (.error (.system code "open"), r, h)) ∨
    (h.valueFd = none ∧ ∃ fd, res = .ok fd ∧
      openValueFd self r h res = (.ok fd,
        { r with kernel := r.kernel.openFd (.helper self) fd }, { h with valueFd := some fd })) := by
  cases hfd : h.valueFd with
  | some fd => exact .inl ⟨fd, rfl, openValueFd_of_some hfd res⟩
  | none =>
      right
      cases res with
      | error code => exact .inl ⟨rfl, code, rfl, by simp [openValueFd, hfd]⟩
      | ok fd => exact .inr ⟨rfl, fd, rfl, by simp [openValueFd, hfd]⟩

/-- Adding a connection to a helper whose value descriptor is open: the reactor
is involved for the first connection only. -/
theorem addReactorAction_of_opened {h : GpioHelper} {fd : Fd} (hfd : h.valueFd = some fd)
    (self : Nat) (r : PollReactor) (id : Nat) (cb : Connection) (res : Except Errno Fd)
    (fault : Option Errno) :
    (addReactorAction self r h id cb res fault).2 =
      (if h.connections.isEmpty then (r.addFd fd reactorEvents (.pinEvent self) fault).2 else r,
        h.addConnection id cb) := by
  have hopened : (h.addConnection id cb).valueFd = some fd := hfd
  unfold addReactorAction
  split
  · rw [openValueFd_of_some hopened]
    simp only
    split <;> next h => rw [h]
  · rfl

/-- Deleting a connection of such a helper never fails. -/
theorem delReactorAction_of_opened {h : GpioHelper} {fd : Fd} (hfd : h.valueFd = some fd)
    (self : Nat) (r : PollReactor) (id : Nat) (res : Except Errno Fd) :
    delReactorAction self r h id res =
      (.ok (), if (h.connections.erase id).isEmpty then r.delFd fd else r,
        h.delConnection id) := by
  have hopened : (h.delConnection id).valueFd = some fd := hfd
  simp only [delReactorAction, openValueFd_of_some hopened]
  by_cases hempty : (h.connections.erase id).isEmpty
  · simp [delConnection, hempty]
  · simp [delConnection, hempty]

@[simp]
theorem openValueFd_connections (self : Nat) (r : PollReactor) (h : GpioHelper)
    (res : Except Errno Fd) : (openValueFd self r h res).2.2.connections = h.connections := by
  rcases openValueFd_cases self r h res with ⟨fd, -, heq⟩ | ⟨-, code, -, heq⟩ | ⟨-, fd, -, heq⟩ <;>
    rw [heq]

theorem addReactorAction_connections (self : Nat) (r : PollReactor) (h : GpioHelper) (id : Nat)
    (cb : Connection) (res : Except Errno Fd) (fault : Option Errno) :
    (addReactorAction self r h id cb res fault).2.2.connections = h.connections.insert id cb := by
  have hopen := openValueFd_connections self r (h.addConnection id cb) res
  unfold addReactorAction
  split
  · split
    · next heq =>
        rw [heq] at hopen
        exact hopen
    · next heq =>
        rw [heq] at hopen
        split <;> exact hopen
  · rfl

/-- Whether or not the descriptor can be opened, the connection is gone. -/
theorem delReactorAction_connections (self : Nat) (r : PollReactor) (h : GpioHelper) (id : Nat)
    (res : Except Errno Fd) :
    (delReactorAction self r h id res).2.2.connections = h.connections.erase id := by
  have hopen := openValueFd_connections self r (h.delConnection id) res
  simp only [delReactorAction]
  split
  · split
    · next heq =>
        rw [heq] at hopen
        exact hopen
    · next heq =>
        rw [heq] at hopen
        exact hopen
  · rfl

theorem reactorHandler_true {self : Nat} {r : PollReactor} {h : GpioHelper}
    {read : Option (List UInt8)} {tick : Nat} {tasks : List Task}
    (hres : reactorHandler self r h read tick = (true, tasks)) :
    h.connections.isEmpty = false ∧
      (∃ fd, h.valueFd = some fd ∧ fd ∈ r.kernel.fds) ∧
      ∃ value, tasks = [⟨self, value, tick⟩] := by
  unfold reactorHandler at hres
  split at hres
  · cases hres
  · next hnonempty =>
      cases hfd : h.valueFd with
      | none => simp [hfd] at hres
      | some fd =>
          by_cases hopen : fd ∈ r.kernel.fds
          · cases read with
            | none => simp [hfd, hopen] at hres
            | some buf =>
                simp only [hfd, hopen, if_true, Prod.mk.injEq, true_and] at hres
                exact ⟨by simpa using hnonempty, ⟨fd, rfl, hopen⟩, _, hres.symm⟩
          · simp [hfd, hopen] at hres

theorem reactorHandler_false_tasks {self : Nat} {r : PollReactor} {h : GpioHelper}
    {read : Option (List UInt8)} {tick : Nat} {tasks : List Task}
    (hres : reactorHandler self r h read tick = (false, tasks)) : tasks = [] := by
  unfold reactorHandler at hres
  split at hres
  · cases hres
    rfl
  · split at hres
    · cases hres
      rfl
    · split at hres
      · cases hres
        rfl
      · cases hres

/-- With a connection, an open descriptor and a readable value, the handler
posts one task and stays registered. -/
theorem reactorHandler_of_readable {self : Nat} {r : PollReactor} {h : GpioHelper} {fd : Fd}
    (hconnected : h.connections.isEmpty = false) (hfd : h.valueFd = some fd)
    (hopen : fd ∈ r.kernel.fds) (buf : List UInt8) (tick : Nat) :
    reactorHandler self r h (some buf) tick =
      (true, [⟨self, if buf.head? = some 49 then 1 else 0, tick⟩]) := by
  simp [reactorHandler, hconnected, hfd, hopen]

theorem sendToAll_calls {h : GpioHelper} {id : Nat} {target : Connection}
    (hid : h.connections[id]? = some target) (t : Task) (answers : Nat → Bool) :
    ((h.sendToAll t answers).1.filter fun call => call.id = id) =
      [⟨id, target, t.value, t.tick⟩] := by
  have hentry := Table.filter_toList hid
  simp only [sendToAll, List.filter_map, Function.comp_def, hentry, List.map_cons, List.map_nil]

theorem sendToAll_connections (h : GpioHelper) (t : Task) (answers : Nat → Bool) (id : Nat) :
    (h.sendToAll t answers).2.connections[id]? =
      h.connections[id]?.filter fun _ => answers id := by
  simp only [sendToAll, Table.getElem?_filter_eq]

end GpioHelper

end FerroRemote.Agent

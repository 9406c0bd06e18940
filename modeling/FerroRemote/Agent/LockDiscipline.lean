/-
# Which locks the agent takes, and in which order

The handlers of `Services` again, now as programs that show every mutex they
take. The reactor's thread runs `make_callback` for one event after another,
with `react_lock_` held while the callback runs. All other threads run RPCs,
constructors and destructors of service instances, and the tasks of the strand.
A client may disconnect at any moment.

What lies between two operations on mutexes is one local action on the shared
state. RPCs keep the objects they work on alive, so the shared state also counts
the `file_sptr` and `gpio_sptr` copies of RPCs in progress.
-/

import FerroRemote.Math.LockOrder
import FerroRemote.Agent.System

namespace FerroRemote.Agent

/-- The mutexes: `react_lock_`, `files_lock_` and `gpio_lock_` of an instance,
`connections_lock_` of a helper, and `devices_lock_`. -/
inductive Mutex
  | react
  | files (inst : Nat)
  | gpio (inst : Nat)
  | connections (helper : Nat)
  | devices
  deriving DecidableEq, Repr

/-- Outer mutexes rank below inner ones. -/
def Mutex.rank : Mutex → Nat
  | .files _ | .gpio _ => 0
  | .connections _ => 1
  | .devices => 2
  | .react => 3

/-- The reactor's own thread, and all the others. -/
inductive Thread
  | reactor
  | worker (n : Nat)
  deriving DecidableEq, Repr

/-- Local actions; `event_handler` looking for its client is told apart. -/
inductive Local
  | quiet
  | clientCheck (inst : Nat)
  deriving DecidableEq, Repr

structure Shared where
  agent : AgentState := {}
  /-- Service instances whose client connection is gone. -/
  expired : List Nat := []
  /-- The `file_sptr` copies of RPCs in progress. -/
  fileRefs : List FileObject := []
  /-- The `gpio_sptr` copies of RPCs in progress. -/
  pinRefs : List Nat := []

/-- What a thread can be asked to run. -/
inductive Request
  | handle (action : Action)
  /-- The client of an instance disconnects. -/
  | expire (inst : Nat)

abbrev Handler := Program Mutex Local Shared

namespace Shared

/-- The number an `open` gets: the suggested one, or another that is not open. -/
def pick {ε : Type} (s : Shared) : Except ε Fd → Except ε Fd
  | .error err => .error err
  | .ok fd =>
    if fd ∈ s.agent.fds then
      .ok (s.agent.fds.toList.foldl (fun bound entry => max bound (entry.1 + 1)) 0)
    else .ok fd

/-- A `file_sptr` has been dropped: the last one destroys the file. -/
def dropFile (s : Shared) (f : FileObject) : Shared :=
  if f ∈ s.fileRefs ∨ s.agent.files.toList.any (fun svc => svc.2.toList.any fun e => e.2 = f) then s
  else { s with agent := s.agent.destroyFile f }

/-- A `gpio_sptr` has been dropped: the last one destroys the helper. -/
def dropPin (s : Shared) (h : Nat) : Shared :=
  if h ∈ s.pinRefs then s else { s with agent := s.agent.release h }

/-- The copy of an RPC goes out of scope. -/
def unrefFile (s : Shared) (f : FileObject) : Shared :=
  { s with fileRefs := s.fileRefs.erase f }.dropFile f

def unrefPin (s : Shared) (h : Nat) : Shared :=
  { s with pinRefs := s.pinRefs.erase h }.dropPin h

/-- `files_[id] = f`. -/
def storeFile (s : Shared) (inst id : Nat) (f : FileObject) : Shared :=
  let t := s.agent.filesOf inst
  let s := { s with agent := s.agent.setFiles inst (t.insert id f) }
  match t[id]? with
  | none => s
  | some old => s.dropFile old

/-- `files_.erase( f )`. -/
def eraseFile (s : Shared) (inst hdl : Nat) : Shared :=
  let t := s.agent.filesOf inst
  match t[hdl]? with
  | none => s
  | some f => { s with agent := s.agent.setFiles inst (t.erase hdl) }.dropFile f

end Shared

namespace Handler

open Shared

/-- A local action on the agent's state. -/
def onAgent {β : Type} (f : AgentState → β × AgentState) (next : β → Handler) : Handler :=
  .compute .quiet (fun s => ((f s.agent).1, { s with agent := (f s.agent).2 })) next

/-- A local action without a result. -/
def perform (f : Shared → Shared) (next : Handler) : Handler := .act .quiet f fun _ => next

/-- A local action on the reactor and one helper. -/
def onHelper {α : Type} (h : Nat)
    (f : PollReactor → GpioHelper → Except Error α × PollReactor × GpioHelper)
    (next : Except Error α → Handler) : Handler :=
  onAgent (fun a => a.onHelper h f) next

def addFd (fd : Fd) (events : Nat) (cb : Reaction) (fault : Option Errno)
    (next : Except Error Unit → Handler) : Handler :=
  .acquire .react <| onAgent (fun a =>
    ((a.react.addFd fd events cb fault).1, { a with react := (a.react.addFd fd events cb fault).2 }))
    fun res => .release .react (next res)

/-- `del_fd_from_epoll`. -/
def leaveEpoll (fd : Fd) (s : Shared) : Shared :=
  { s with agent := { s.agent with react := s.agent.react.staleEvent fd } }

/-- `react_.erase( fd )`. -/
def eraseReaction (fd : Fd) (s : Shared) : Shared :=
  { s with agent := { s.agent with react := s.agent.react.eraseReaction fd } }

/-- `poll_reactor::impl::del_fd`: the poll set first, the table under the lock. -/
def delFd (fd : Fd) (next : Handler) : Handler :=
  perform (leaveEpoll fd) <|
  .acquire .react <|
  perform (eraseReaction fd) <|
  .release .react next

/-- The end of `make_callback`. -/
def afterCallback (fd : Fd) (res : Bool) : Handler :=
  perform (fun s => { s with
    agent := { s.agent with react := s.agent.react.afterCallback fd res } }) <|
  .release .react .done

/-- `proto_file_impl::event_handler` under `make_callback`. Without a client it
calls `del_fd` of the reactor that is running it. -/
def eventHandler (fd : Fd) (inst : Nat) (cb : Reaction) (handle : Fd) (ev : AgentState.Event) :
    Handler :=
  .act (.clientCheck inst)
    (fun s => if inst ∈ s.expired then leaveEpoll handle s else s)
    fun s =>
      if inst ∈ s.expired then
        .acquire .react <|
        perform (eraseReaction handle) <|
        .release .react <| afterCallback fd false
      else onAgent (fun a => a.runReaction cb ev) fun res => afterCallback fd res

def makeCallback (fd : Fd) (ev : AgentState.Event) : Handler :=
  .acquire .react <|
  .compute .quiet (fun s => (s.agent.react.react[fd]?, s)) fun entry =>
    match entry with
    | none => perform (leaveEpoll fd) <| .release .react .done
    | some (.fileEvent inst file handle op) =>
      eventHandler fd inst (.fileEvent inst file handle op) handle ev
    | some (.pinEvent h) => onAgent (fun a => a.runReaction (.pinEvent h) ev) fun res =>
      afterCallback fd res

/-- `proto_file_impl::get_file`, keeping a reference to the file. -/
def getFile (inst hdl : Nat) (next : FileObject → Handler) : Handler :=
  .acquire (.files inst) <|
  .compute .quiet (fun s =>
    match (s.agent.filesOf inst)[hdl]? with
    | none => (none, s)
    | some f => (some f, { s with fileRefs := f :: s.fileRefs })) fun found =>
  .release (.files inst) <|
  match found with
  | none => .done
  | some f => next f

/-- `proto_file_impl::open`. -/
def fileOpen (inst : Nat) (res : Except Error Fd) : Handler :=
  .compute .quiet (fun s =>
    match s.pick res with
    | .error _ => (none, s)
    | .ok fd => (some (⟨s.agent.born, fd⟩ : FileObject), { s with agent := { s.agent with
        born := s.agent.born + 1
        react := { s.agent.react with
          kernel := s.agent.react.kernel.openFd (.file s.agent.born) fd } } })) fun opened =>
  match opened with
  | none => .done
  | some f =>
    onAgent AgentState.nextIndex fun id =>
    .acquire (.files inst) <|
    perform (fun s => s.storeFile inst id f) <|
    .release (.files inst) .done

/-- `proto_file_impl::register_for_events`. -/
def fileRegister (inst hdl : Nat) (fault : Option Errno) : Handler :=
  getFile inst hdl fun f =>
  onAgent AgentState.nextOpId fun op =>
  addFd f.fd fileEvents (.fileEvent inst f.id f.fd op) fault fun _ =>
  perform (fun s => s.unrefFile f) .done

/-- `proto_file_impl::unregister`. -/
def fileUnregister (inst hdl : Nat) : Handler :=
  getFile inst hdl fun f =>
  delFd f.fd <|
  perform (fun s => s.unrefFile f) .done

/-- `proto_file_impl::close`. -/
def fileClose (inst hdl : Nat) : Handler :=
  .acquire (.files inst) <|
  .compute .quiet (fun s => ((s.agent.filesOf inst)[hdl]?, s)) fun found =>
  match found with
  | none => .release (.files inst) .done
  | some f =>
    delFd f.fd <|
    perform (fun s => s.eraseFile inst hdl) <|
    .release (.files inst) .done

/-- The loop of `destroy_all`. -/
def delFds (fs : List FileObject) (next : Handler) : Handler :=
  fs.foldr (fun f next => delFd f.fd next) next

/-- `~proto_file_impl`. -/
def fileDisconnect (inst : Nat) : Handler :=
  .acquire (.files inst) <|
  .compute .quiet (fun s => ((s.agent.filesOf inst).toList.map (·.2), s)) fun fs =>
  delFds fs <|
  .release (.files inst) <|
  perform (fun s =>
    fs.foldl (fun s f => s.dropFile f)
      { s with agent := { s.agent with files := s.agent.files.erase inst } }) .done

/-- `gpio_impl::gpio_by_index`, keeping a reference to the helper. -/
def gpioByIndex (inst hdl : Nat) (next : Nat → Handler) : Handler :=
  .acquire (.gpio inst) <|
  .compute .quiet (fun s =>
    match (s.agent.pinsOf inst)[hdl]? with
    | none => (none, s)
    | some g => (some g, { s with pinRefs := g :: s.pinRefs })) fun found =>
  .release (.gpio inst) <|
  match found with
  | none => .done
  | some g => next g

/-- The end of a handler that holds a reference to `g`. -/
def leave (g : Nat) : Handler := perform (fun s => s.unrefPin g) .done

def valueFd (g : Nat) (res : Except Errno Fd) (next : Except Error Fd → Handler) : Handler :=
  .compute .quiet (fun s =>
    let out := s.agent.onHelper g fun r impl => impl.openValueFd g r (s.pick res)
    (out.1, { s with agent := out.2 })) next

/-- Is anybody connected to the helper? -/
def noConnections (a : AgentState) (g : Nat) : Bool :=
  match a.helpers[g]? with
  | none => true
  | some impl => impl.connections.isEmpty

/-- The connection map of a helper is changed. -/
def updateConnections (a : AgentState) (g : Nat) (f : GpioHelper → GpioHelper) : AgentState :=
  match a.helpers[g]? with
  | none => a
  | some impl => { a with helpers := a.helpers.insert g (f impl) }

def addReactorAction (g id : Nat) (cb : Connection) (res : Except Errno Fd) (fault : Option Errno)
    (next : Handler) : Handler :=
  .acquire (.connections g) <|
  onAgent (fun a => (noConnections a g, updateConnections a g fun h => h.addConnection id cb))
    fun first =>
  if first then
    valueFd g res fun opened =>
    match opened with
    | .error _ => .release (.connections g) next
    | .ok fd =>
      addFd fd GpioHelper.reactorEvents (.pinEvent g) fault fun _ =>
      .release (.connections g) next
  else .release (.connections g) next

def delReactorAction (g id : Nat) (res : Except Errno Fd) (next : Handler) : Handler :=
  .acquire (.connections g) <|
  onAgent (fun a =>
    let a := updateConnections a g fun h => h.delConnection id
    (noConnections a g, a)) fun last =>
  if last then
    valueFd g res fun opened =>
    match opened with
    | .error _ => .release (.connections g) next
    | .ok fd => delFd fd <| .release (.connections g) next
  else .release (.connections g) next

/-- `gpio_impl::open`. -/
def gpioOpen (inst pin : Nat) (setup : Option Error) (res : Except Errno Fd) : Handler :=
  onAgent AgentState.nextIndex fun newid =>
  .acquire .devices <|
  .compute .quiet (fun s =>
    let out := s.agent.openPin pin
    (out.1, { s with agent := out.2, pinRefs := out.1 :: s.pinRefs })) fun ng =>
  .release .devices <|
  match setup with
  | some _ => leave ng
  | none =>
    valueFd ng res fun opened =>
    match opened with
    | .error _ => leave ng
    | .ok _ =>
      .acquire (.gpio inst) <|
      perform (fun s => { s with
        agent := s.agent.setPins inst ((s.agent.pinsOf inst).insertIfNew newid ng) }) <|
      .release (.gpio inst) <| leave ng

/-- `gpio_impl::register_for_change`. -/
def gpioRegister (inst hdl : Nat) (res : Except Errno Fd) (fault : Option Errno) : Handler :=
  gpioByIndex inst hdl fun g =>
  valueFd g res fun opened =>
  match opened with
  | .error _ => leave g
  | .ok _ => addReactorAction g hdl ⟨inst, hdl⟩ res fault <| leave g

/-- `gpio_impl::unregister`. -/
def gpioUnregister (inst hdl : Nat) (res : Except Errno Fd) : Handler :=
  gpioByIndex inst hdl fun g =>
  delReactorAction g hdl res <|
  valueFd g res fun _ => leave g

/-- `del_reactor_action` for a helper whose value descriptor was opened. -/
def delActionIfOpened (g hdl : Nat) (next : Handler) : Handler :=
  .compute .quiet (fun s => (s.agent.valueOpened g, s)) fun opened =>
  if opened then delReactorAction g hdl (.error 0) next else next

/-- `gpio_impl::close`. -/
def gpioClose (inst hdl : Nat) : Handler :=
  .acquire (.gpio inst) <|
  .compute .quiet (fun s =>
    match (s.agent.pinsOf inst)[hdl]? with
    | none => (none, s)
    | some g => (some g, { s with pinRefs := g :: s.pinRefs })) fun found =>
  match found with
  | none => .release (.gpio inst) .done
  | some g =>
    delActionIfOpened g hdl <|
    perform (fun s => { s with agent := s.agent.eraseGpio inst hdl }) <|
    .acquire .devices <|
    perform (fun s => { s with agent := s.agent.closePin hdl }) <|
    .release .devices <|
    perform (fun s => s.unrefPin g) <|
    .release (.gpio inst) .done

/-- The loop of `~gpio_impl`. -/
def delActions (entries : List (Nat × Nat)) (next : Handler) : Handler :=
  entries.foldr (fun entry next => delActionIfOpened entry.2 entry.1 next) next

/-- `~gpio_impl`, which does not take `gpio_lock_`. -/
def gpioDisconnect (inst : Nat) : Handler :=
  .compute .quiet (fun s => ((s.agent.pinsOf inst).toList, s)) fun entries =>
  delActions entries <|
  perform (fun s =>
    entries.foldl (fun s entry => s.dropPin entry.2)
      { s with agent := { s.agent with pins := s.agent.pins.erase inst } }) .done

/-- A posted `send_to_all`. -/
def runTask (answers : Nat → Bool) : Handler :=
  .compute .quiet (fun s =>
    match s.agent.queue with
    | [] => (none, s)
    | t :: rest => (some t, { s with agent := { s.agent with queue := rest } })) fun popped =>
  match popped with
  | none => .done
  | some t =>
    .acquire (.connections t.helper) <|
    perform (fun s => { s with
      agent := updateConnections s.agent t.helper fun h => (h.sendToAll t answers).2 }) <|
    .release (.connections t.helper) .done

end Handler

open Handler in
/-- What a thread may be started with. RPCs need their instance. -/
def handlers (s : Shared) : Thread → Request → Option Handler
  | .reactor, .handle (.event fd ev) => some (makeCallback fd ev)
  | .reactor, _ => none
  | .worker _, .handle (.event ..) => none
  | .worker _, .expire inst =>
    some (perform (fun s => { s with expired := inst :: s.expired }) .done)
  | .worker _, .handle .connectFiles =>
    some (perform (fun s => { s with agent := s.agent.connectFiles }) .done)
  | .worker _, .handle .connectPins =>
    some (perform (fun s => { s with agent := s.agent.connectPins }) .done)
  | .worker _, .handle (.fileOpen inst res) =>
    if inst ∈ s.agent.files then some (fileOpen inst res) else none
  | .worker _, .handle (.fileRegister inst hdl fault) =>
    if inst ∈ s.agent.files then some (fileRegister inst hdl fault) else none
  | .worker _, .handle (.fileUnregister inst hdl) =>
    if inst ∈ s.agent.files then some (fileUnregister inst hdl) else none
  | .worker _, .handle (.fileClose inst hdl) =>
    if inst ∈ s.agent.files then some (fileClose inst hdl) else none
  | .worker _, .handle (.fileDisconnect inst) =>
    if inst ∈ s.agent.files then some (fileDisconnect inst) else none
  | .worker _, .handle (.gpioOpen inst pin setup res) =>
    if inst ∈ s.agent.pins then some (gpioOpen inst pin setup res) else none
  | .worker _, .handle (.gpioRegister inst hdl res fault) =>
    if inst ∈ s.agent.pins then some (gpioRegister inst hdl res fault) else none
  | .worker _, .handle (.gpioUnregister inst hdl res) =>
    if inst ∈ s.agent.pins then some (gpioUnregister inst hdl res) else none
  | .worker _, .handle (.gpioClose inst hdl) =>
    if inst ∈ s.agent.pins then some (gpioClose inst hdl) else none
  | .worker _, .handle (.gpioDisconnect inst) =>
    if inst ∈ s.agent.pins then some (gpioDisconnect inst) else none
  | .worker _, .handle (.runTask answers) => some (runTask answers)

def threads : Machine (LockState Thread Mutex Local Shared) (LockAction Thread Request) :=
  lockMachine {} handlers

namespace Handler

theorem alone_onAgent {β : Type} (f : AgentState → β × AgentState) (next : β → Handler) (s : Shared) :
    (onAgent f next).alone s =
      (next (f s.agent).1).alone { s with agent := (f s.agent).2 } := rfl

theorem alone_perform (f : Shared → Shared) (next : Handler) (s : Shared) :
    (perform f next).alone s = next.alone (f s) := rfl

theorem alone_addFd (fd : Fd) (events : Nat) (cb : Reaction) (fault : Option Errno)
    (next : Except Error Unit → Handler) (s : Shared) :
    (addFd fd events cb fault next).alone s =
      (next (s.agent.react.addFd fd events cb fault).1).alone { s with agent := { s.agent with
        react := (s.agent.react.addFd fd events cb fault).2 } } := rfl

theorem alone_delFd (fd : Fd) (next : Handler) (s : Shared) :
    (delFd fd next).alone s =
      next.alone { s with agent := { s.agent with react := s.agent.react.delFd fd } } := rfl

/-- A reference that goes out of scope while the file is still in a table. -/
theorem unrefFile_of_stored {s : Shared} {inst hdl : Nat} {f : FileObject}
    (hf : (s.agent.filesOf inst)[hdl]? = some f) :
    Shared.unrefFile { s with fileRefs := f :: s.fileRefs } f = s := by
  have hstored : s.agent.files.toList.any (fun svc => svc.2.toList.any fun e => e.2 = f) = true := by
    cases hinst : s.agent.files[inst]? with
    | none => simp [AgentState.filesOf, hinst] at hf
    | some t =>
        have hin : t[hdl]? = some f := by simpa [AgentState.filesOf, hinst] using hf
        rw [Table.any_toList_iff s.agent.files fun _ t => t.toList.any fun e => decide (e.2 = f)]
        refine ⟨inst, t, hinst, ?_⟩
        rw [Table.any_toList_iff t fun _ g => decide (g = f)]
        exact ⟨hdl, f, hin, by simp⟩
  simp [Shared.unrefFile, Shared.dropFile, hstored]

theorem alone_fileRegister (s : Shared) (inst hdl : Nat) (fault : Option Errno) :
    (fileRegister inst hdl fault).alone s =
      { s with agent := (s.agent.fileRegister inst hdl fault).2 } := by
  cases hf : (s.agent.filesOf inst)[hdl]? with
  | none => simp [fileRegister, getFile, AgentState.fileRegister, AgentState.getFile, hf]
  | some f =>
      simp only [fileRegister, getFile, Program.alone_acquire, Program.alone_compute, hf,
        Program.alone_release, alone_onAgent, alone_addFd, alone_perform, Program.alone_done]
      rw [AgentState.fileRegister_of_some hf]
      exact unrefFile_of_stored (s := { s with agent := { s.agent.nextOpId.2 with
        react := (s.agent.react.addFd f.fd fileEvents
          (.fileEvent inst f.id f.fd s.agent.nextOpId.1) fault).2 } }) hf

theorem alone_fileUnregister (s : Shared) (inst hdl : Nat) :
    (fileUnregister inst hdl).alone s =
      { s with agent := (s.agent.fileUnregister inst hdl).2 } := by
  cases hf : (s.agent.filesOf inst)[hdl]? with
  | none => simp [fileUnregister, getFile, AgentState.fileUnregister, AgentState.getFile, hf]
  | some f =>
      simp only [fileUnregister, getFile, Program.alone_acquire, Program.alone_compute, hf,
        Program.alone_release, alone_delFd, alone_perform, Program.alone_done]
      rw [AgentState.fileUnregister, AgentState.getFile_of_some hf]
      exact unrefFile_of_stored (s := { s with agent := { s.agent with
        react := s.agent.react.delFd f.fd } }) hf

theorem alone_makeCallback {s : Shared} (hconnected : ∀ inst, inst ∉ s.expired) (fd : Fd)
    (ev : AgentState.Event) :
    (makeCallback fd ev).alone s = { s with agent := s.agent.makeCallback fd ev } := by
  simp only [makeCallback, Program.alone_acquire, Program.alone_compute]
  cases hcb : s.agent.react.react[fd]? with
  | none =>
      simp only [AgentState.makeCallback, hcb]
      rfl
  | some cb =>
      cases cb with
      | fileEvent inst file handle op =>
          simp only [AgentState.makeCallback, hcb, eventHandler, Program.alone_act,
            if_neg (hconnected inst)]
          rfl
      | pinEvent h =>
          simp only [AgentState.makeCallback, hcb]
          rfl

/-- A reference that goes out of scope while a handle still refers to the
helper. -/
theorem unrefPin_of_stored {s : Shared} {inst hdl g : Nat}
    (hg : (s.agent.pinsOf inst)[hdl]? = some g) :
    Shared.unrefPin { s with pinRefs := g :: s.pinRefs } g = s := by
  have hkept : s.agent.release g = s.agent := by
    have hreferenced : s.agent.referenced g = true := by
      by_contra hfree
      exact AgentState.not_handle_of_not_referenced hfree inst hdl hg
    rw [AgentState.release, if_pos hreferenced]
  simp [Shared.unrefPin, Shared.dropPin, hkept]

theorem alone_valueFd {s : Shared} {g : Nat} {impl : GpioHelper} {fd : Fd}
    (himpl : s.agent.helpers[g]? = some impl) (hfd : impl.valueFd = some fd)
    (res : Except Errno Fd) (next : Except Error Fd → Handler) :
    (valueFd g res next).alone s = (next (.ok fd)).alone s := by
  simp only [valueFd, Program.alone_compute, AgentState.onHelper_openValueFd himpl hfd]

/-- Every handle's helper has opened its descriptor, as `open` leaves it. -/
def Opened (a : AgentState) : Prop :=
  ∀ {inst hdl g : Nat}, (a.pinsOf inst)[hdl]? = some g →
    ∃ impl fd, a.helpers[g]? = some impl ∧ impl.valueFd = some fd

theorem alone_delReactorAction {s : Shared} {g : Nat} {impl : GpioHelper} {fd : Fd}
    (himpl : s.agent.helpers[g]? = some impl) (hfd : impl.valueFd = some fd) (id : Nat)
    (res : Except Errno Fd) (next : Handler) :
    (delReactorAction g id res next).alone s =
      next.alone { s with agent := s.agent.withoutAction g id impl fd } := by
  have hupdated : updateConnections s.agent g (fun h => h.delConnection id) =
      { s.agent with helpers := s.agent.helpers.insert g (impl.delConnection id) } := by
    simp only [updateConnections, himpl]
  have hlookup : (s.agent.helpers.insert g (impl.delConnection id))[g]? =
      some (impl.delConnection id) := by simp
  have hopened : (impl.delConnection id).valueFd = some fd := hfd
  simp only [delReactorAction, Program.alone_acquire, alone_onAgent, hupdated, noConnections,
    hlookup]
  by_cases hlast : (impl.connections.erase id).isEmpty = true
  · have hempty : (impl.delConnection id).connections.isEmpty = true := hlast
    rw [if_pos hempty, alone_valueFd hlookup hopened]
    simp only [alone_delFd, Program.alone_release, AgentState.withoutAction, if_pos hlast]
  · have hleft : ¬ (impl.delConnection id).connections.isEmpty = true := hlast
    rw [if_neg hleft]
    simp only [Program.alone_release, AgentState.withoutAction, if_neg hlast]

theorem alone_gpioUnregister {s : Shared} (hopened : Opened s.agent) (inst hdl : Nat)
    (res : Except Errno Fd) :
    (gpioUnregister inst hdl res).alone s =
      { s with agent := (s.agent.gpioUnregister inst hdl res).2 } := by
  cases hg : (s.agent.pinsOf inst)[hdl]? with
  | none => simp [gpioUnregister, gpioByIndex, AgentState.gpioUnregister, AgentState.gpioByIndex, hg]
  | some g =>
      obtain ⟨impl, fd, himpl, hfd⟩ := hopened hg
      have himpl' : (s.agent.withoutAction g hdl impl fd).helpers[g]? =
          some (impl.delConnection hdl) := by simp [AgentState.withoutAction]
      have hfd' : (impl.delConnection hdl).valueFd = some fd := hfd
      simp only [gpioUnregister, gpioByIndex, Program.alone_acquire, Program.alone_compute, hg,
        Program.alone_release]
      rw [alone_delReactorAction (s := { s with pinRefs := g :: s.pinRefs }) himpl hfd,
        alone_valueFd (s := { s with
          agent := s.agent.withoutAction g hdl impl fd, pinRefs := g :: s.pinRefs }) himpl' hfd']
      simp only [leave, alone_perform, Program.alone_done, AgentState.gpioUnregister,
        AgentState.gpioByIndex, hg, AgentState.unregisterChange_of_opened himpl hfd]
      exact unrefPin_of_stored (s := { s with agent := s.agent.withoutAction g hdl impl fd }) hg

theorem alone_gpioRegister {s : Shared} (hopened : Opened s.agent) (inst hdl : Nat)
    (res : Except Errno Fd) (fault : Option Errno) :
    (gpioRegister inst hdl res fault).alone s =
      { s with agent := (s.agent.gpioRegister inst hdl res fault).2 } := by
  cases hg : (s.agent.pinsOf inst)[hdl]? with
  | none => simp [gpioRegister, gpioByIndex, AgentState.gpioRegister, AgentState.gpioByIndex, hg]
  | some g =>
      obtain ⟨impl, fd, himpl, hfd⟩ := hopened hg
      have hlookup : (s.agent.helpers.insert g (impl.addConnection hdl ⟨inst, hdl⟩))[g]? =
          some (impl.addConnection hdl ⟨inst, hdl⟩) := by simp
      have hfd' : (impl.addConnection hdl ⟨inst, hdl⟩).valueFd = some fd := hfd
      simp only [gpioRegister, gpioByIndex, Program.alone_acquire, Program.alone_compute, hg,
        Program.alone_release, AgentState.gpioRegister, AgentState.gpioByIndex,
        AgentState.registerForChange_of_opened himpl hfd, AgentState.onHelper_of_some himpl,
        GpioHelper.addReactorAction_of_opened hfd]
      rw [alone_valueFd (s := { s with pinRefs := g :: s.pinRefs }) himpl hfd]
      simp only [addReactorAction, Program.alone_acquire, alone_onAgent, noConnections, himpl,
        updateConnections]
      by_cases hfirst : impl.connections.isEmpty = true
      · rw [if_pos hfirst, alone_valueFd (s := { s with
          agent := { s.agent with
            helpers := s.agent.helpers.insert g (impl.addConnection hdl ⟨inst, hdl⟩) }
          pinRefs := g :: s.pinRefs }) hlookup hfd']
        simp only [alone_addFd, Program.alone_release, leave, alone_perform, Program.alone_done,
          if_pos hfirst]
        exact unrefPin_of_stored (s := { s with agent := { s.agent with
          react := (s.agent.react.addFd fd GpioHelper.reactorEvents (.pinEvent g) fault).2
          helpers := s.agent.helpers.insert g (impl.addConnection hdl ⟨inst, hdl⟩) } }) hg
      · rw [if_neg hfirst]
        simp only [Program.alone_release, leave, alone_perform, Program.alone_done, if_neg hfirst]
        exact unrefPin_of_stored (s := { s with agent := { s.agent with
          helpers := s.agent.helpers.insert g (impl.addConnection hdl ⟨inst, hdl⟩) } }) hg

end Handler

/-! ## Every handler keeps the order -/

/-- The client of an instance is there when `event_handler` looks for it. -/
def ClientAlive (s : Shared) : Local → Prop
  | .quiet => True
  | .clientCheck inst => inst ∉ s.expired

/-- The handler takes its mutexes in order while its clients are alive. -/
abbrev InOrder (held : List Mutex) (p : Handler) : Prop :=
  p.Disciplined Mutex.rank ClientAlive held

namespace Handler

variable {held : List Mutex}

end Handler

end FerroRemote.Agent

/-
# The file and gpio services of the agent

Every client that uses a service gets its own instance: `proto_file_impl` with
its table of open files, `gpio_impl` with its table of gpio handles. Handles of
the same pin share one helper through the pin registry, which only remembers it
weakly. All instances share the reactor and the counter of `next_op_id`, whose
values are cut to 32 bits when they are used as handles.

The RPC handlers are written as the source has them, statement by statement;
where an exception leaves a handler, the state is the one the statements before
it produced. Objects are named by an identity that is never used again, so that
a stale pointer can be told from a new object.
-/

import FerroRemote.Agent.GpioHelper

namespace FerroRemote.Agent

/-- A `file_impl` object: its identity and the descriptor it opened. -/
structure FileObject where
  id : Nat
  fd : Fd
  deriving DecidableEq, Repr

/-- What a gpio RPC is going to do with the helper it has obtained. -/
inductive CallKind
  | opening
  | register
  | unregister
  deriving DecidableEq, Repr

/-- A gpio RPC in progress; until it ends it holds the `gpio_sptr` it copied. -/
structure Call where
  inst : Nat
  hdl : Nat
  helper : Nat
  kind : CallKind
  deriving DecidableEq, Repr

/-- The agent, as far as descriptors, subscriptions and handles go. -/
structure AgentState where
  /-- The poll reactor with the descriptor table behind it. -/
  react : PollReactor := {}
  /-- The counter of `reactor::next_op_id`. -/
  opId : Nat := 100
  /-- The file service instances with their `files_`. -/
  files : Table (Table FileObject) := ∅
  /-- The gpio service instances with their `gpio_`. -/
  pins : Table (Table Nat) := ∅
  /-- The gpio helpers that exist, by identity. -/
  helpers : Table GpioHelper := ∅
  /-- `devices_`: the helper last made for a pin, by weak pointer. -/
  devices : Table Nat := ∅
  /-- The gpio RPCs in progress. -/
  calls : List Call := []
  /-- The tasks posted to the strand, oldest first. -/
  queue : List Task := []
  /-- The next unused identity of a service instance, file or helper. -/
  born : Nat := 0

def fileEvents : Nat := EPOLLIN ||| EPOLLET ||| EPOLLPRI

namespace AgentState

/-- The history of the descriptor table. -/
abbrev log (s : AgentState) : List FdEvent := s.react.kernel.log

/-- The open descriptors with the objects that opened them. -/
abbrev fds (s : AgentState) : Table Owner := s.react.kernel.fds

/-- The table of an instance; an instance that does not exist has no files. -/
def filesOf (s : AgentState) (inst : Nat) : Table FileObject := s.files[inst]?.getD ∅

def pinsOf (s : AgentState) (inst : Nat) : Table Nat := s.pins[inst]?.getD ∅

def setFiles (s : AgentState) (inst : Nat) (t : Table FileObject) : AgentState :=
  { s with files := s.files.insert inst t }

def setPins (s : AgentState) (inst : Nat) (t : Table Nat) : AgentState :=
  { s with pins := s.pins.insert inst t }

/-- `reactor::next_op_id`: a 64-bit counter, incremented before it is read. -/
def nextOpId (s : AgentState) : Nat × AgentState :=
  let id := (s.opId + 1) % UInt64.size
  (id, { s with opId := id })

/-- `next_index` and `next_id` of the services: the same number, cut to the 32
bits of a handle. -/
def nextIndex (s : AgentState) : Nat × AgentState :=
  (s.nextOpId.1 % UInt32.size, s.nextOpId.2)

/-- `~file_impl`. -/
def destroyFile (s : AgentState) (f : FileObject) : AgentState :=
  { s with react :=
      { s.react with kernel := s.react.kernel.close (.object (.file f.id)) f.fd } }

def getFile (s : AgentState) (inst id : Nat) : Except Error FileObject :=
  match (s.filesOf inst)[id]? with
  | none => .error (.system EBADF "Bad file number.")
  | some f => .ok f

/-- `proto_file_impl::add_file`: `files_[id] = f`, which destroys the file the
number referred to before, if there is one. -/
def addFile (s : AgentState) (inst : Nat) (f : FileObject) : Nat × AgentState :=
  let (id, s) := s.nextIndex
  let t := s.filesOf inst
  let s := s.setFiles inst (t.insert id f)
  match t[id]? with
  | none => (id, s)
  | some old => (id, s.destroyFile old)

/-- `proto_file_impl::open`; `res` is what opening the path returns. -/
def fileOpen (s : AgentState) (inst : Nat) (res : Except Error Fd) : Except Error Nat × AgentState :=
  match res with
  | .error err => (.error err, s)
  | .ok fd =>
    let f : FileObject := ⟨s.born, fd⟩
    let s := { s with
      born := s.born + 1
      react := { s.react with kernel := s.react.kernel.openFd (.file s.born) fd } }
    let (id, s) := s.addFile inst f
    (.ok id, s)

/-- `proto_file_impl::register_for_events`, answering the operation id. -/
def fileRegister (s : AgentState) (inst hdl : Nat) (fault : Option Errno) :
    Except Error Nat × AgentState :=
  match s.getFile inst hdl with
  | .error err => (.error err, s)
  | .ok f =>
    let (op, s) := s.nextOpId
    match s.react.addFd f.fd fileEvents (.fileEvent inst f.id f.fd op) fault with
    | (.error err, react) => (.error err, { s with react := react })
    | (.ok (), react) => (.ok (op % UInt32.size), { s with react := react })

/-- `proto_file_impl::unregister`. -/
def fileUnregister (s : AgentState) (inst hdl : Nat) : Except Error Unit × AgentState :=
  match s.getFile inst hdl with
  | .error err => (.error err, s)
  | .ok f => (.ok (), { s with react := s.react.delFd f.fd })

/-- `files_.erase( f )`: the file goes with its last reference. -/
def eraseFile (s : AgentState) (inst hdl : Nat) : AgentState :=
  match (s.filesOf inst)[hdl]? with
  | none => s
  | some f => (s.setFiles inst ((s.filesOf inst).erase hdl)).destroyFile f

/-- `proto_file_impl::close`; an unknown handle is ignored. -/
def fileClose (s : AgentState) (inst hdl : Nat) : AgentState :=
  match (s.filesOf inst)[hdl]? with
  | none => s
  | some f => { s with react := s.react.delFd f.fd }.eraseFile inst hdl

def destroyAll (s : AgentState) (inst : Nat) : AgentState :=
  ((s.filesOf inst).toList.map (·.2)).foldl (fun s f => { s with react := s.react.delFd f.fd }) s

/-- `~proto_file_impl`: `destroy_all`, then `files_` goes with the instance, and
every file with it. -/
def fileDisconnect (s : AgentState) (inst : Nat) : AgentState :=
  let fs := (s.filesOf inst).toList.map (·.2)
  let s := s.destroyAll inst
  fs.foldl (fun s f => s.destroyFile f) { s with files := s.files.erase inst }

/-- Some `gpio_sptr` to the helper exists, in a handle table or in a running
RPC. -/
def referenced (s : AgentState) (h : Nat) : Bool :=
  s.pins.toList.any (fun svc => svc.2.toList.any fun entry => entry.2 == h) ||
    s.calls.any fun call => call.helper == h

/-- A `gpio_sptr` has been dropped: the last one destroys the helper. -/
def release (s : AgentState) (h : Nat) : AgentState :=
  if s.referenced h then s
  else
    match s.helpers[h]? with
    | none => s
    | some impl =>
      { s with react := impl.destroy h s.react, helpers := s.helpers.erase h }

/-- `gpio::impl::open_pin`: the helper the registry remembers for the pin, if it
still exists, else a new one. -/
def openPin (s : AgentState) (pin : Nat) : Nat × AgentState :=
  match s.devices[pin]? with
  | some h =>
    if h ∈ s.helpers then (h, s)
    else (s.born, { s with
      helpers := s.helpers.insert s.born { pin := pin }
      devices := s.devices.insert pin s.born
      born := s.born + 1 })
  | none =>
    (s.born, { s with
      helpers := s.helpers.insert s.born { pin := pin }
      devices := s.devices.insert pin s.born
      born := s.born + 1 })

/-- `gpio::impl::close_pin`: only an expired entry is removed. -/
def closePin (s : AgentState) (pin : Nat) : AgentState :=
  match s.devices[pin]? with
  | none => s
  | some h => if h ∈ s.helpers then s else { s with devices := s.devices.erase pin }

/-- Run a member function of the helper `h`. Callers hold a `gpio_sptr`, so the
helper exists. -/
def onHelper {α : Type} (s : AgentState) (h : Nat)
    (f : PollReactor → GpioHelper → Except Error α × PollReactor × GpioHelper) :
    Except Error α × AgentState :=
  match s.helpers[h]? with
  | none => (.error (.system EINVAL "Bad GPIO handle."), s)
  | some impl =>
    let (res, react, impl) := f s.react impl
    (res, { s with react := react, helpers := s.helpers.insert h impl })

def valueOpened (s : AgentState) (h : Nat) : Bool :=
  match s.helpers[h]? with
  | none => false
  | some impl => impl.valueFd.isSome

def gpioByIndex (s : AgentState) (inst id : Nat) : Except Error Nat :=
  match (s.pinsOf inst)[id]? with
  | none => .error (.system EINVAL "Bad GPIO handle.")
  | some h => .ok h

/-- The part of `gpio_impl::open` after `open_pin`. `setup` is the exception of
`exp` or `gpio_setup`, if the request asks for them and one throws; the log line
at the end opens the value descriptor. -/
def finishOpen (s : AgentState) (ng inst newid : Nat) (setup : Option Error)
    (res : Except Errno Fd) : Except Error Nat × AgentState :=
  match setup with
  | some err => (.error err, s)
  | none =>
    match s.onHelper ng fun r h => h.openValueFd ng r res with
    | (.error err, s) => (.error err, s)
    | (.ok _, s) => (.ok newid, s.setPins inst ((s.pinsOf inst).insertIfNew newid ng))

/-- `gpio_impl::open`. -/
def gpioOpen (s : AgentState) (inst pin : Nat) (setup : Option Error) (res : Except Errno Fd) :
    Except Error Nat × AgentState :=
  let (newid, s) := s.nextIndex
  let (ng, s) := s.openPin pin
  let (res, s) := s.finishOpen ng inst newid setup res
  (res, s.release ng)

/-- The part of `gpio_impl::register_for_change` after `gpio_by_index`. -/
def registerForChange (s : AgentState) (g inst hdl : Nat) (res : Except Errno Fd)
    (fault : Option Errno) : Except Error Nat × AgentState :=
  match s.onHelper g fun r h => h.openValueFd g r res with
  | (.error err, s) => (.error err, s)
  | (.ok _, s) => s.onHelper g fun r h => h.addReactorAction g r hdl ⟨inst, hdl⟩ res fault

/-- `gpio_impl::register_for_change`, answering the operation id. -/
def gpioRegister (s : AgentState) (inst hdl : Nat) (res : Except Errno Fd) (fault : Option Errno) :
    Except Error Nat × AgentState :=
  match s.gpioByIndex inst hdl with
  | .error err => (.error err, s)
  | .ok g => s.registerForChange g inst hdl res fault

/-- The part of `gpio_impl::unregister` after `gpio_by_index`; its log line
asks for the value descriptor once more. -/
def unregisterChange (s : AgentState) (g hdl : Nat) (res : Except Errno Fd) :
    Except Error Unit × AgentState :=
  match s.onHelper g fun r h => h.delReactorAction g r hdl res with
  | (.error err, s) => (.error err, s)
  | (.ok (), s) =>
    match s.onHelper g fun r h => h.openValueFd g r res with
    | (.error err, s) => (.error err, s)
    | (.ok _, s) => (.ok (), s)

/-- `gpio_impl::unregister`. -/
def gpioUnregister (s : AgentState) (inst hdl : Nat) (res : Except Errno Fd) :
    Except Error Unit × AgentState :=
  match s.gpioByIndex inst hdl with
  | .error err => (.error err, s)
  | .ok g => s.unregisterChange g hdl res

/-- Deleting the action of a handle that is going away: only when the value
descriptor was opened, so `value_fd` returns it and nothing is thrown. -/
def delActionIfOpened (s : AgentState) (g hdl : Nat) : AgentState :=
  if s.valueOpened g then
    (s.onHelper g fun r h => h.delReactorAction g r hdl (.error 0)).2
  else s

/-- `gpio_.erase( f )`: drops one `gpio_sptr`. -/
def eraseGpio (s : AgentState) (inst hdl : Nat) : AgentState :=
  s.setPins inst ((s.pinsOf inst).erase hdl)

/-- `gpio_impl::close`; an unknown handle is ignored. The argument of
`close_pin` is read through the erased iterator and was the handle. -/
def gpioClose (s : AgentState) (inst hdl : Nat) : AgentState :=
  match (s.pinsOf inst)[hdl]? with
  | none => s
  | some g => (((s.delActionIfOpened g hdl).eraseGpio inst hdl).closePin hdl).release g

/-- `~gpio_impl`: every handle's action is deleted, then `gpio_` goes with the
instance, and the handles' references with it. -/
def gpioDisconnect (s : AgentState) (inst : Nat) : AgentState :=
  let entries := (s.pinsOf inst).toList
  let s := entries.foldl (fun s entry => s.delActionIfOpened entry.2 entry.1) s
  entries.foldl (fun s entry => s.release entry.2) { s with pins := s.pins.erase inst }

/-! ## Events -/

/-- The outcomes the reactor's callbacks depend on: whether `async_op` of a
file event was sent without an exception, what reading the value descriptor of
a pin gave, and the time. -/
structure Event where
  sent : Bool
  read : Option (List UInt8)
  tick : Nat

/-- The callback behind an entry. A file's `event_handler`, with its client
connected, answers `false` exactly when sending threw. Calling into a helper
that no longer exists is undefined; any answer may come back. -/
def runReaction (s : AgentState) (cb : Reaction) (ev : Event) : Bool × AgentState :=
  match cb with
  | .fileEvent .. => (ev.sent, s)
  | .pinEvent h =>
    match s.helpers[h]? with
    | none => (ev.sent, s)
    | some impl =>
      let (res, tasks) := impl.reactorHandler h s.react ev.read ev.tick
      (res, { s with queue := s.queue ++ tasks })

def makeCallback (s : AgentState) (fd : Fd) (ev : Event) : AgentState :=
  match s.react.react[fd]? with
  | none => { s with react := s.react.staleEvent fd }
  | some cb =>
    let (res, s) := s.runReaction cb ev
    { s with react := s.react.afterCallback fd res }

/-- The strand runs the oldest task. `send_to_all` of a helper that no longer
exists is undefined; here nothing is called. -/
def runTask (s : AgentState) (answers : Nat → Bool) : Option AgentState :=
  match s.queue with
  | [] => none
  | t :: rest =>
    match s.helpers[t.helper]? with
    | none => some { s with queue := rest }
    | some impl =>
      some { s with
        queue := rest
        helpers := s.helpers.insert t.helper (impl.sendToAll t answers).2 }

/-! ## Handle tables -/

theorem filesOf_setFiles (s : AgentState) (inst inst' : Nat) (t : Table FileObject) :
    (s.setFiles inst t).filesOf inst' = if inst = inst' then t else s.filesOf inst' := by
  simp only [setFiles, filesOf, Table.getElem?_insert_eq]
  split <;> rfl

theorem filesOf_insertFile (s : AgentState) (inst hdl : Nat) (f : FileObject) (inst' hdl' : Nat) :
    ((s.setFiles inst ((s.filesOf inst).insert hdl f)).filesOf inst')[hdl']? =
      if inst = inst' ∧ hdl = hdl' then some f else (s.filesOf inst')[hdl']? := by
  rw [filesOf_setFiles]
  by_cases hinst : inst = inst'
  · subst hinst
    simp only [if_true, Table.getElem?_insert_eq, true_and]
  · simp only [hinst, if_false, false_and]

theorem filesOf_eraseFile (s : AgentState) (inst hdl inst' hdl' : Nat) :
    ((s.setFiles inst ((s.filesOf inst).erase hdl)).filesOf inst')[hdl']? =
      if inst = inst' ∧ hdl = hdl' then none else (s.filesOf inst')[hdl']? := by
  rw [filesOf_setFiles]
  by_cases hinst : inst = inst'
  · subst hinst
    simp only [if_true, Table.getElem?_erase_eq, true_and]
  · simp only [hinst, if_false, false_and]

theorem pinsOf_setPins (s : AgentState) (inst inst' : Nat) (t : Table Nat) :
    (s.setPins inst t).pinsOf inst' = if inst = inst' then t else s.pinsOf inst' := by
  simp only [setPins, pinsOf, Table.getElem?_insert_eq]
  split <;> rfl

theorem pinsOf_eraseGpio (s : AgentState) (inst hdl inst' hdl' : Nat) :
    ((s.eraseGpio inst hdl).pinsOf inst')[hdl']? =
      if inst = inst' ∧ hdl = hdl' then none else (s.pinsOf inst')[hdl']? := by
  rw [eraseGpio, pinsOf_setPins]
  by_cases heq : inst = inst'
  · subst heq
    simp [Table.getElem?_erase_eq]
  · simp [heq]

/-- The handle tables of all instances are the same. -/
structure SameTables (s s' : AgentState) : Prop where
  files : s'.files = s.files
  pins : s'.pins = s.pins

theorem SameTables.trans {s s' s'' : AgentState} (hfirst : SameTables s s')
    (hsecond : SameTables s' s'') : SameTables s s'' :=
  ⟨hsecond.files.trans hfirst.files, hsecond.pins.trans hfirst.pins⟩

theorem SameTables.filesOf {s s' : AgentState} (hsame : SameTables s s') (inst : Nat) :
    s'.filesOf inst = s.filesOf inst := by
  rw [AgentState.filesOf, hsame.files]
  rfl

theorem SameTables.pinsOf {s s' : AgentState} (hsame : SameTables s s') (inst : Nat) :
    s'.pinsOf inst = s.pinsOf inst := by
  rw [AgentState.pinsOf, hsame.pins]
  rfl

theorem nextIndex_tables (s : AgentState) : SameTables s s.nextIndex.2 := ⟨rfl, rfl⟩

theorem destroyFile_tables (s : AgentState) (f : FileObject) : SameTables s (s.destroyFile f) :=
  ⟨rfl, rfl⟩

theorem onHelper_tables {α : Type} (s : AgentState) (g : Nat)
    (f : PollReactor → GpioHelper → Except Error α × PollReactor × GpioHelper) :
    SameTables s (s.onHelper g f).2 := by
  unfold onHelper
  split <;> exact ⟨rfl, rfl⟩

/-- The pin of an open request has a helper, an old one or a new one. -/
theorem openPin_cases (s : AgentState) (pin : Nat) :
    (∃ h ∈ s.helpers, s.openPin pin = (h, s)) ∨
      s.openPin pin = (s.born, { s with
        helpers := s.helpers.insert s.born { pin := pin }
        devices := s.devices.insert pin s.born
        born := s.born + 1 }) := by
  unfold openPin
  split
  · next h _ =>
      by_cases hmem : h ∈ s.helpers
      · exact .inl ⟨h, hmem, by rw [if_pos hmem]⟩
      · exact .inr (by rw [if_neg hmem])
  · exact .inr rfl

theorem openPin_mem (s : AgentState) (pin : Nat) :
    (s.openPin pin).1 ∈ (s.openPin pin).2.helpers := by
  rcases s.openPin_cases pin with ⟨h, hmem, heq⟩ | heq
  · rw [heq]
    exact hmem
  · rw [heq]
    simp

theorem openPin_tables (s : AgentState) (pin : Nat) : SameTables s (s.openPin pin).2 := by
  rcases s.openPin_cases pin with ⟨h, -, heq⟩ | heq <;> rw [heq] <;> exact ⟨rfl, rfl⟩

theorem closePin_tables (s : AgentState) (pin : Nat) : SameTables s (s.closePin pin) := by
  unfold closePin
  split
  · exact ⟨rfl, rfl⟩
  · split <;> exact ⟨rfl, rfl⟩

theorem release_tables (s : AgentState) (h : Nat) : SameTables s (s.release h) := by
  unfold release
  split
  · exact ⟨rfl, rfl⟩
  · split <;> exact ⟨rfl, rfl⟩

theorem delActionIfOpened_tables (s : AgentState) (g hdl : Nat) :
    SameTables s (s.delActionIfOpened g hdl) := by
  unfold delActionIfOpened
  split
  · exact onHelper_tables ..
  · exact ⟨rfl, rfl⟩

theorem getFile_of_some {s : AgentState} {inst hdl : Nat} {f : FileObject}
    (hf : (s.filesOf inst)[hdl]? = some f) : s.getFile inst hdl = .ok f := by
  simp [getFile, hf]

/-- Whether or not the reactor accepts the descriptor, an id has been drawn. -/
theorem fileRegister_of_some {s : AgentState} {inst hdl : Nat} {f : FileObject}
    (hf : (s.filesOf inst)[hdl]? = some f) (fault : Option Errno) :
    (s.fileRegister inst hdl fault).2 = { s.nextOpId.2 with
      react := (s.react.addFd f.fd fileEvents
        (.fileEvent inst f.id f.fd s.nextOpId.1) fault).2 } := by
  simp only [fileRegister, getFile_of_some hf]
  split <;> next h => exact congrArg (fun r => { s.nextOpId.2 with react := r }) (congrArg Prod.snd h).symm

theorem onHelper_of_some {α : Type} {s : AgentState} {h : Nat} {impl : GpioHelper}
    (himpl : s.helpers[h]? = some impl)
    (f : PollReactor → GpioHelper → Except Error α × PollReactor × GpioHelper) :
    s.onHelper h f = ((f s.react impl).1,
      { s with react := (f s.react impl).2.1, helpers := s.helpers.insert h (f s.react impl).2.2 }) := by
  simp [onHelper, himpl]

theorem onHelper_openValueFd {s : AgentState} {h : Nat} {impl : GpioHelper} {fd : Fd}
    (himpl : s.helpers[h]? = some impl) (hfd : impl.valueFd = some fd) (res : Except Errno Fd) :
    (s.onHelper h fun r impl => impl.openValueFd h r res) = (.ok fd, s) := by
  simp [onHelper, himpl, GpioHelper.openValueFd_of_some hfd, Table.insert_of_getElem? himpl]

theorem registerForChange_of_opened {s : AgentState} {g : Nat} {impl : GpioHelper} {fd : Fd}
    (himpl : s.helpers[g]? = some impl) (hfd : impl.valueFd = some fd) (inst hdl : Nat)
    (res : Except Errno Fd) (fault : Option Errno) :
    s.registerForChange g inst hdl res fault =
      s.onHelper g fun r impl => impl.addReactorAction g r hdl ⟨inst, hdl⟩ res fault := by
  simp only [registerForChange, onHelper_openValueFd himpl hfd]

/-- The state after a connection `hdl` of the opened helper `g` is deleted. -/
def withoutAction (s : AgentState) (g hdl : Nat) (impl : GpioHelper) (fd : Fd) : AgentState :=
  { s with
    react := if (impl.connections.erase hdl).isEmpty then s.react.delFd fd else s.react
    helpers := s.helpers.insert g (impl.delConnection hdl) }

theorem withoutAction_helpers (s : AgentState) (g hdl : Nat) (impl : GpioHelper) (fd : Fd) (h : Nat) :
    (s.withoutAction g hdl impl fd).helpers[h]? =
      if g = h then some (impl.delConnection hdl) else s.helpers[h]? :=
  Table.getElem?_insert_eq _ _ _ _

theorem withoutAction_react {s : AgentState} {g hdl : Nat} {impl : GpioHelper} {fd : Fd}
    (hleft : ¬ (impl.connections.erase hdl).isEmpty = true) :
    (s.withoutAction g hdl impl fd).react = s.react := by
  rw [withoutAction, if_neg hleft]

theorem withoutAction_react_last {s : AgentState} {g hdl : Nat} {impl : GpioHelper} {fd : Fd}
    (hlast : (impl.connections.erase hdl).isEmpty = true) :
    (s.withoutAction g hdl impl fd).react = s.react.delFd fd := by
  rw [withoutAction, if_pos hlast]

theorem delActionIfOpened_of_opened {s : AgentState} {g : Nat} {impl : GpioHelper} {fd : Fd}
    (himpl : s.helpers[g]? = some impl) (hfd : impl.valueFd = some fd) (hdl : Nat) :
    s.delActionIfOpened g hdl = s.withoutAction g hdl impl fd := by
  have hopened : s.valueOpened g = true := by simp [valueOpened, himpl, hfd]
  rw [delActionIfOpened, if_pos hopened, onHelper_of_some himpl,
    GpioHelper.delReactorAction_of_opened hfd]
  rfl

theorem unregisterChange_of_opened {s : AgentState} {g : Nat} {impl : GpioHelper} {fd : Fd}
    (himpl : s.helpers[g]? = some impl) (hfd : impl.valueFd = some fd) (hdl : Nat)
    (res : Except Errno Fd) :
    s.unregisterChange g hdl res = (.ok (), s.withoutAction g hdl impl fd) := by
  have hafter : (s.withoutAction g hdl impl fd).helpers[g]? = some (impl.delConnection hdl) := by
    rw [withoutAction_helpers, if_pos rfl]
  have hopened : (impl.delConnection hdl).valueFd = some fd := hfd
  have hdeleted : (s.onHelper g fun r impl => impl.delReactorAction g r hdl res) =
      (.ok (), s.withoutAction g hdl impl fd) := by
    rw [onHelper_of_some himpl, GpioHelper.delReactorAction_of_opened hfd]
    rfl
  simp only [unregisterChange, hdeleted, onHelper_openValueFd hafter hopened]

/-- A callback changes nothing in the agent except that it may post tasks. -/
theorem runReaction_state (s : AgentState) (cb : Reaction) (ev : Event) :
    ∃ tasks, (s.runReaction cb ev).2 = { s with queue := s.queue ++ tasks } := by
  unfold runReaction
  split
  · exact ⟨[], by simp⟩
  · split
    · exact ⟨[], by simp⟩
    · exact ⟨_, rfl⟩

theorem fileOpen_ok (s : AgentState) (inst : Nat) (fd : Fd) :
    (s.fileOpen inst (.ok fd)).1 = .ok s.nextIndex.1 ∧
      (s.fileOpen inst (.ok fd)).2.pins = s.pins ∧
      ∀ inst', (s.fileOpen inst (.ok fd)).2.filesOf inst' =
        if inst = inst' then (s.filesOf inst).insert s.nextIndex.1 ⟨s.born, fd⟩
        else s.filesOf inst' := by
  have hstored : ∀ t : AgentState, SameTables
      (s.setFiles inst ((s.filesOf inst).insert s.nextIndex.1 ⟨s.born, fd⟩)) t →
      ∀ inst', t.filesOf inst' =
        if inst = inst' then (s.filesOf inst).insert s.nextIndex.1 ⟨s.born, fd⟩
        else s.filesOf inst' := by
    intro t htables inst'
    rw [htables.filesOf, filesOf_setFiles]
  simp only [fileOpen, addFile]
  split
  · exact ⟨rfl, rfl, hstored _ ⟨rfl, rfl⟩⟩
  · exact ⟨rfl, rfl, hstored _ ⟨rfl, rfl⟩⟩

theorem fileClose_of_some {s : AgentState} {inst hdl : Nat} {f : FileObject}
    (hf : (s.filesOf inst)[hdl]? = some f) :
    s.fileClose inst hdl = ({ s with react := s.react.delFd f.fd }.setFiles inst
      ((s.filesOf inst).erase hdl)).destroyFile f := by
  have hf' : (filesOf { s with react := s.react.delFd f.fd } inst)[hdl]? = some f := hf
  simp only [fileClose, hf, eraseFile, hf']
  rfl

/-- A handle that is not known is as good as erased. -/
theorem getElem?_of_unknown {V : Type} {tables : Nat → Table V} {inst hdl : Nat}
    (hunknown : (tables inst)[hdl]? = none) (inst' hdl' : Nat) :
    (tables inst')[hdl']? =
      if inst = inst' ∧ hdl = hdl' then none else (tables inst')[hdl']? := by
  split
  · next heq => rw [← heq.1, ← heq.2, hunknown]
  · rfl

theorem fileClose_tables (s : AgentState) (inst hdl : Nat) :
    (s.fileClose inst hdl).pins = s.pins ∧
      ∀ inst' hdl' : Nat, ((s.fileClose inst hdl).filesOf inst')[hdl']? =
        if inst = inst' ∧ hdl = hdl' then none else (s.filesOf inst')[hdl']? := by
  cases hf : (s.filesOf inst)[hdl]? with
  | none =>
      have hclose : s.fileClose inst hdl = s := by simp only [fileClose, hf]
      rw [hclose]
      exact ⟨rfl, getElem?_of_unknown hf⟩
  | some f =>
      rw [fileClose_of_some hf]
      refine ⟨rfl, fun inst' hdl' => ?_⟩
      rw [(destroyFile_tables _ f).filesOf]
      exact filesOf_eraseFile { s with react := s.react.delFd f.fd } inst hdl inst' hdl'

/-- What comes of storing a pin's handle, once the pin has a helper. -/
theorem finishOpen_cases {s : AgentState} {ng : Nat} (hng : ng ∈ s.helpers) (inst newid : Nat)
    (setup : Option Error) (res : Except Errno Fd) :
    ((setup = none ∧ (s.valueOpened ng = true ∨ ∃ fd, res = .ok fd)) ∧
      ∃ t, SameTables s t ∧ s.finishOpen ng inst newid setup res =
        (.ok newid, t.setPins inst ((t.pinsOf inst).insertIfNew newid ng))) ∨
    (¬ (setup = none ∧ (s.valueOpened ng = true ∨ ∃ fd, res = .ok fd)) ∧
      ∃ err t, SameTables s t ∧ s.finishOpen ng inst newid setup res = (.error err, t)) := by
  cases setup with
  | some err =>
      right
      refine ⟨?_, err, s, ⟨rfl, rfl⟩, rfl⟩
      intro hopens
      cases hopens.1
  | none =>
      obtain ⟨impl, himpl⟩ := (Table.mem_iff_exists _ _).mp hng
      have htables := s.onHelper_tables ng fun r impl => impl.openValueFd ng r res
      have hopened : s.valueOpened ng = impl.valueFd.isSome := by rw [valueOpened, himpl]
      have hopen := onHelper_of_some himpl fun r impl => impl.openValueFd ng r res
      rcases GpioHelper.openValueFd_cases ng s.react impl res with
        ⟨fd, hfd, heq⟩ | ⟨hnone, code, hres, heq⟩ | ⟨hnone, fd, hres, heq⟩
      · left
        refine ⟨⟨rfl, .inl (by rw [hopened, hfd]; rfl)⟩, _, htables, ?_⟩
        simp only [finishOpen, hopen, heq]
      · right
        refine ⟨?_, .system code "open", _, htables, ?_⟩
        · intro hopens
          rcases hopens.2 with hvalue | ⟨fd, hok⟩
          · rw [hopened, hnone] at hvalue
            cases hvalue
          · rw [hres] at hok
            cases hok
        · simp only [finishOpen, hopen, heq]
      · left
        refine ⟨⟨rfl, .inr ⟨fd, hres⟩⟩, _, htables, ?_⟩
        simp only [finishOpen, hopen, heq]

theorem gpioClose_tables (s : AgentState) (inst hdl : Nat) :
    (s.gpioClose inst hdl).files = s.files ∧
      ∀ inst' hdl' : Nat, ((s.gpioClose inst hdl).pinsOf inst')[hdl']? =
        if inst = inst' ∧ hdl = hdl' then none else (s.pinsOf inst')[hdl']? := by
  cases hg : (s.pinsOf inst)[hdl]? with
  | none =>
      have hclose : s.gpioClose inst hdl = s := by simp only [gpioClose, hg]
      rw [hclose]
      exact ⟨rfl, getElem?_of_unknown hg⟩
  | some g =>
      have hclose : s.gpioClose inst hdl =
          (((s.delActionIfOpened g hdl).eraseGpio inst hdl).closePin hdl).release g := by
        simp only [gpioClose, hg]
      have hdeleted := s.delActionIfOpened_tables g hdl
      have hafter := (closePin_tables ((s.delActionIfOpened g hdl).eraseGpio inst hdl) hdl).trans
        (release_tables _ g)
      rw [hclose]
      refine ⟨hafter.files.trans hdeleted.files, fun inst' hdl' => ?_⟩
      rw [hafter.pinsOf, pinsOf_eraseGpio, hdeleted.pinsOf]

theorem mem_pins_of_getElem? {s : AgentState} {inst hdl g : Nat}
    (hg : (s.pinsOf inst)[hdl]? = some g) : inst ∈ s.pins := by
  rw [Table.mem_iff_exists]
  cases hinst : s.pins[inst]? with
  | none => simp [pinsOf, hinst] at hg
  | some t => exact ⟨t, rfl⟩

theorem referenced_iff (s : AgentState) (g : Nat) :
    s.referenced g = true ↔
      (∃ inst hdl : Nat, (s.pinsOf inst)[hdl]? = some g) ∨ ∃ call ∈ s.calls, call.helper = g := by
  simp only [referenced, Bool.or_eq_true, List.any_eq_true (l := s.calls), beq_iff_eq]
  refine or_congr_left ?_
  rw [Table.any_toList_iff s.pins fun _ t => t.toList.any fun entry => entry.2 == g]
  constructor
  · intro hany
    obtain ⟨inst, t, hinst, hin⟩ := hany
    obtain ⟨hdl, g', hg', heq⟩ := (Table.any_toList_iff t fun _ h => h == g).mp hin
    refine ⟨inst, hdl, ?_⟩
    rw [← beq_iff_eq.mp heq, ← hg', pinsOf, hinst]
    rfl
  · intro hhandle
    obtain ⟨inst, hdl, hg⟩ := hhandle
    obtain ⟨t, hinst⟩ := (Table.mem_iff_exists _ _).mp (mem_pins_of_getElem? hg)
    refine ⟨inst, t, hinst, (Table.any_toList_iff t fun _ h => h == g).mpr ⟨hdl, g, ?_, by simp⟩⟩
    rw [pinsOf, hinst] at hg
    exact hg

theorem not_handle_of_not_referenced {s : AgentState} {h : Nat} (hfree : ¬ s.referenced h = true)
    (inst hdl : Nat) : (s.pinsOf inst)[hdl]? ≠ some h :=
  fun hhandle => hfree ((s.referenced_iff h).mpr (.inl ⟨inst, hdl, hhandle⟩))

end AgentState

end FerroRemote.Agent

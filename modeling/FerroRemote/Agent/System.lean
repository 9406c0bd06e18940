/-
# The agent as a machine

Clients come and go, call RPCs of their file and gpio service instances, the
reactor delivers events and the strand runs posted tasks. An action carries
what the outside world decides: the numbers and errors system calls return and
the answers of connection callbacks. An `open` may return any number that is not
open. A call on an instance that does not exist is not enabled.
-/

import FerroRemote.Math.Machine
import FerroRemote.Agent.Services

namespace FerroRemote.Agent

/-- One step of the agent, with the outcomes of the calls it makes. -/
inductive Action
  /-- A client obtains its `proto_file_impl`. -/
  | connectFiles
  /-- A client obtains its `gpio_impl`. -/
  | connectPins
  | fileOpen (inst : Nat) (res : Except Error Fd)
  | fileRegister (inst hdl : Nat) (fault : Option Errno)
  | fileUnregister (inst hdl : Nat)
  | fileClose (inst hdl : Nat)
  | fileDisconnect (inst : Nat)
  | gpioOpen (inst pin : Nat) (setup : Option Error) (res : Except Errno Fd)
  | gpioRegister (inst hdl : Nat) (res : Except Errno Fd) (fault : Option Errno)
  | gpioUnregister (inst hdl : Nat) (res : Except Errno Fd)
  | gpioClose (inst hdl : Nat)
  | gpioDisconnect (inst : Nat)
  /-- The reactor's thread runs `make_callback`. -/
  | event (fd : Fd) (ev : AgentState.Event)
  /-- The strand runs the oldest task. -/
  | runTask (answers : Nat → Bool)

namespace AgentState

/-- A new instance of the file service. -/
def connectFiles (s : AgentState) : AgentState :=
  { s with files := s.files.insert s.born ∅, born := s.born + 1 }

/-- A new instance of the gpio service. -/
def connectPins (s : AgentState) : AgentState :=
  { s with pins := s.pins.insert s.born ∅, born := s.born + 1 }

/-- One step; RPCs run to their end without another step in between. -/
def step (s : AgentState) : Action → Option AgentState
  | .connectFiles => some s.connectFiles
  | .connectPins => some s.connectPins
  | .fileOpen inst res =>
    if inst ∈ s.files ∧ s.react.kernel.Unused res then some (s.fileOpen inst res).2 else none
  | .fileRegister inst hdl fault =>
    if inst ∈ s.files then some (s.fileRegister inst hdl fault).2 else none
  | .fileUnregister inst hdl =>
    if inst ∈ s.files then some (s.fileUnregister inst hdl).2 else none
  | .fileClose inst hdl => if inst ∈ s.files then some (s.fileClose inst hdl) else none
  | .fileDisconnect inst => if inst ∈ s.files then some (s.fileDisconnect inst) else none
  | .gpioOpen inst pin setup res =>
    if inst ∈ s.pins ∧ s.react.kernel.Unused res then some (s.gpioOpen inst pin setup res).2 else none
  | .gpioRegister inst hdl res fault =>
    if inst ∈ s.pins ∧ s.react.kernel.Unused res then some (s.gpioRegister inst hdl res fault).2 else none
  | .gpioUnregister inst hdl res =>
    if inst ∈ s.pins ∧ s.react.kernel.Unused res then some (s.gpioUnregister inst hdl res).2 else none
  | .gpioClose inst hdl => if inst ∈ s.pins then some (s.gpioClose inst hdl) else none
  | .gpioDisconnect inst => if inst ∈ s.pins then some (s.gpioDisconnect inst) else none
  | .event fd ev => some (s.makeCallback fd ev)
  | .runTask answers => s.runTask answers

end AgentState

/-- The agent, started with nothing open. -/
def machine : Machine AgentState Action where
  init := {}
  step := AgentState.step

end FerroRemote.Agent

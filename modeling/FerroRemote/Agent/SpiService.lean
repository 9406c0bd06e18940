/-
# SPI configuration on the agent

A `setup` of an SPI helper is six ioctls, of which two put values into the device.
The configuration belongs to the device, not to the descriptor: everyone who opens
it finds the values written last. Any of the ioctls may fail, and what was written
before it stays.
-/

import Mathlib.Logic.Function.Basic
import FerroRemote.Agent.BusServices

namespace FerroRemote.Agent

/-- `/dev/spidev<bus>.<channel>`. -/
structure SpiDevice where
  bus : Nat
  channel : Nat
  deriving DecidableEq, Repr

structure SpiConfig where
  mode : UInt32
  speed : UInt32
  deriving DecidableEq, Repr

/-- The configurations of all devices. -/
abbrev SpiBus := SpiDevice → SpiConfig

/-- The ioctls of `setup`, in their order. -/
inductive SetupIoctl
  | wrMode
  | rdMode
  | wrBpw
  | rdBpw
  | wrSpeed
  | rdSpeed
  deriving DecidableEq, Repr

namespace SetupIoctl

def func : SetupIoctl → String
  | wrMode => "spi_setup_mode_wr"
  | rdMode => "spi_setup_mode_rd"
  | wrBpw => "spi_setup_bpw_wr"
  | rdBpw => "spi_setup_bpw_rd"
  | wrSpeed => "spi_setup_speed_wr"
  | rdSpeed => "spi_setup_speed_rd"

def place : SetupIoctl → Nat
  | wrMode => 0
  | rdMode => 1
  | wrBpw => 2
  | rdBpw => 3
  | wrSpeed => 4
  | rdSpeed => 5

end SetupIoctl

/-- Which of the ioctls fails, if one does. -/
abbrev SetupFault := Option (SetupIoctl × Errno)

namespace SpiBus

/-- One of the ioctls, with what it changes. -/
def ioctl (dev : SpiDevice) (fault : SetupFault) (call : SetupIoctl) (change : SpiConfig → SpiConfig)
    (config : SpiBus) : Outcome SpiBus Unit :=
  match fault with
  | none => (.ok (), Function.update config dev (change (config dev)))
  | some (failing, code) =>
    if failing = call then (.error (.errno call.func code), config)
    else (.ok (), Function.update config dev (change (config dev)))

def setup (config : SpiBus) (dev : SpiDevice) (mode speed : UInt32) (fault : SetupFault) :
    Outcome SpiBus Unit :=
  let mode := mode &&& 3
  (ioctl dev fault .wrMode (fun old => { old with mode := mode }) config).andThen fun _ config =>
  (ioctl dev fault .rdMode id config).andThen fun _ config =>
  (ioctl dev fault .wrBpw id config).andThen fun _ config =>
  (ioctl dev fault .rdBpw id config).andThen fun _ config =>
  (ioctl dev fault .wrSpeed (fun old => { old with speed := speed }) config).andThen fun _ config =>
  ioctl dev fault .rdSpeed id config

end SpiBus

/-- A `setup_info`. -/
structure SetupInfo where
  speed : UInt32
  mode : UInt32
  deriving DecidableEq, Repr

/-- The device of a `spi_info`. -/
def SpiInfo.device (f : SpiInfo) : SpiDevice := ⟨f.bus, f.channel⟩

/-- `proto_impl::open`, which passes speed and mode on in the order of the message;
`made` is the exception of the helper's constructor. -/
def spiOpenSetup (files : IndexMap SpiInfo) (s : AgentState) (config : SpiBus) (dev : SpiDevice)
    (setup : Option SetupInfo) (made : Option Error) (fault : SetupFault) :
    Except Error Nat × AgentState × IndexMap SpiInfo × SpiBus :=
  let (made, config) : Option Error × SpiBus :=
    match made, setup with
    | some err, _ => (some err, config)
    | none, none => (none, config)
    | none, some info =>
      match config.setup dev info.speed info.mode fault with
      | (.error err, config) => (some err, config)
      | (.ok (), config) => (none, config)
  let (res, s, files) := spiOpen files s dev.bus dev.channel made
  (res, s, files, config)

/-- `proto_impl::setup`, with the same order. -/
def spiSetup (files : IndexMap SpiInfo) (config : SpiBus) (hdl : Nat) (info : SetupInfo)
    (fault : SetupFault) : Except Error Unit × IndexMap SpiInfo × SpiBus :=
  match files.map[hdl]? with
  | none => (.error (.system EBADF "Bad SPI file number."), files, config)
  | some f =>
    match config.setup f.device info.speed info.mode fault with
    | (.error err, config) => (.error err, files, config)
    | (.ok (), config) =>
      (.ok (), { files with map := files.map.insert hdl { f with speed := info.mode.toNat } }, config)

namespace SetupFault

/-- An ioctl is executed, and does not fail. -/
def passes (fault : SetupFault) (call : SetupIoctl) : Bool :=
  fault.all fun failing => call.place < failing.1.place

end SetupFault

namespace SpiConfig

/-- The configuration after a `setup`, whether it fails or not. -/
def after (old : SpiConfig) (mode speed : UInt32) (fault : SetupFault) : SpiConfig where
  mode := if fault.passes .wrMode then mode &&& 3 else old.mode
  speed := if fault.passes .wrSpeed then speed else old.speed

theorem after_none (old : SpiConfig) (mode speed : UInt32) :
    old.after mode speed none = ⟨mode &&& 3, speed⟩ := rfl

end SpiConfig

namespace SpiBus

variable (config : SpiBus) (dev : SpiDevice) (mode speed : UInt32)

/-- `setup` changes its device only, as far as it gets. The cases are the ioctls. -/
theorem setup_eq (fault : SetupFault) :
    config.setup dev mode speed fault =
      ((match fault with
        | none => .ok ()
        | some (call, code) => .error (.errno call.func code)),
        Function.update config dev ((config dev).after mode speed fault)) := by
  rcases fault with _ | ⟨call, code⟩
  · simp [setup, ioctl, Outcome.andThen, SpiConfig.after_none]
  · cases call <;>
      simp [setup, ioctl, Outcome.andThen, SpiConfig.after, SetupFault.passes, SetupIoctl.place]

end SpiBus

end FerroRemote.Agent

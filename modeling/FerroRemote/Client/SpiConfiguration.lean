/-
# SPI configuration, from the client to the devices

Speed and mode travel in one order through the client and the messages, and in the
other into the helper. The model runs a client's requests on any number of devices
and keeps, for every device, what the client has asked for last. A request that
fails promises nothing for its own device.
-/

import FerroRemote.Agent.SpiService
import FerroRemote.Math.Machine

namespace FerroRemote.Client

open FerroRemote.Agent

/-- A `spi_impl`, with the device it was opened for. -/
structure SpiObject where
  dev : SpiDevice
  /-- `hdl_`. -/
  hdl : Nat
  deriving DecidableEq, Repr

/-- The client's objects, its instance of the service, the devices, and what they
should be set to. -/
structure SpiState where
  agent : AgentState := {}
  files : IndexMap SpiInfo := spiFiles
  config : SpiBus
  wanted : SpiBus
  objects : List SpiObject := []

/-- What a client does with the interface. `made` and `fault` are what goes wrong on
the agent: opening the device, and an ioctl. -/
inductive SpiAction
  | spiOpen (dev : SpiDevice) (speed mode : UInt32) (made : Option Error) (fault : SetupFault)
  | setup (n : Nat) (speed mode : UInt32) (fault : SetupFault)
  | close (n : Nat)
  /-- `~spi_impl`. -/
  | destroy (n : Nat)

/-- What `open_instance` sends as `setup`. -/
def openInstanceSetup (speed mode : UInt32) : Option SetupInfo :=
  if speed ≠ 0 then some { speed := speed, mode := mode } else none

/-- What a request for `speed` and `mode` should leave. -/
def asked (speed mode : UInt32) : SpiConfig := ⟨mode &&& 3, speed⟩

namespace SpiState

/-- `spi_impl::spi_impl`. -/
def spiOpen (s : SpiState) (dev : SpiDevice) (speed mode : UInt32) (made : Option Error)
    (fault : SetupFault) : SpiState :=
  match spiOpenSetup s.files s.agent s.config dev (openInstanceSetup speed mode) made fault with
  | (.error _, agent, files, config) =>
    { s with
      agent := agent
      files := files
      config := config
      wanted := Function.update s.wanted dev (config dev) }
  | (.ok hdl, agent, files, config) =>
    { agent := agent
      files := files
      config := config
      wanted := if speed ≠ 0 then Function.update s.wanted dev (asked speed mode) else s.wanted
      objects := s.objects ++ [⟨dev, hdl⟩] }

def setup (s : SpiState) (o : SpiObject) (speed mode : UInt32) (fault : SetupFault) : SpiState :=
  match spiSetup s.files s.config o.hdl { speed := speed, mode := mode } fault with
  | (.error _, files, config) =>
    { s with
      files := files
      config := config
      wanted := Function.update s.wanted o.dev (config o.dev) }
  | (.ok (), files, config) =>
    { s with
      files := files
      config := config
      wanted := Function.update s.wanted o.dev (asked speed mode) }

def closeImpl (s : SpiState) (o : SpiObject) : SpiState := { s with files := s.files.del o.hdl }

/-- `~spi_impl`. -/
def destroy (s : SpiState) (n : Nat) (o : SpiObject) : SpiState :=
  { if o.hdl ≠ 0 then s.closeImpl o else s with objects := s.objects.eraseIdx n }

def step (s : SpiState) : SpiAction → Option SpiState
  | .spiOpen dev speed mode made fault => some (s.spiOpen dev speed mode made fault)
  | .setup n speed mode fault => s.objects[n]?.map fun o => s.setup o speed mode fault
  | .close n => s.objects[n]?.map s.closeImpl
  | .destroy n => s.objects[n]?.map (s.destroy n)

end SpiState

/-- A client with a new instance; the devices are set to anything. -/
def spiClient (config : SpiBus) : Machine SpiState SpiAction where
  init := { config := config, wanted := config }
  step := SpiState.step

namespace SpiState

/-- Every device has the values asked for last, and a device that was not asked
about the ones it had. -/
def Configured (s : SpiState) : Prop := s.config = s.wanted

/-- A setup of `dev` through a handle of `f`, as far as it gets: mode and speed are
the same number and the handle stands for the device, or nothing changes and
nothing should. -/
def InOrder (s : SpiState) (dev : SpiDevice) (f : SpiInfo) (speed mode : UInt32)
    (fault : SetupFault) : Prop :=
  if f.device = dev then fault = none → mode = speed
  else (s.config f.device).after speed mode fault = s.config f.device ∧
    (fault = none → s.config dev = asked speed mode)

/-- The setups of a step are in order. -/
def SetsInOrder (s : SpiState) : SpiAction → Prop
  | .spiOpen _ speed mode made fault => speed ≠ 0 → made = none → fault = none → mode = speed
  | .setup n speed mode fault => ∀ (o : SpiObject) (f : SpiInfo), s.objects[n]? = some o →
      s.files.map[o.hdl]? = some f → s.InOrder o.dev f speed mode fault
  | .close _ | .destroy _ => True

/-- Two devices set, compared with where both were set to the same. -/
theorem update_eq_update_iff {config : SpiBus} {d dev : SpiDevice} {new want : SpiConfig} :
    Function.update config d new = Function.update config dev want ↔
      if d = dev then new = want else new = config d ∧ config dev = want := by
  split
  · next heq =>
    subst heq
    exact (Function.update_injective config d).eq_iff
  · next hne =>
    constructor
    · intro hupdate
      have hd := congrFun hupdate d
      have hdev := congrFun hupdate dev
      rw [Function.update_self, Function.update_of_ne hne] at hd
      rw [Function.update_self, Function.update_of_ne (Ne.symm hne)] at hdev
      exact ⟨hd, hdev⟩
    · intro heqs
      rw [heqs.1, ← heqs.2, Function.update_eq_self, Function.update_eq_self]

/-- What the exchange leaves is what was asked for when both are the same number. -/
theorem after_none_eq_asked_iff (old : SpiConfig) (speed mode : UInt32) :
    old.after speed mode none = asked speed mode ↔ mode = speed := by
  rw [SpiConfig.after_none, asked, SpiConfig.mk.injEq]
  constructor
  · exact fun heq => heq.2
  · intro heq
    exact ⟨by rw [heq], heq⟩

/-- The configurations after a setup that gets as far as its fault, against what is
wanted then. -/
theorem inOrder_iff {s : SpiState} (dev : SpiDevice) (f : SpiInfo) (speed mode : UInt32)
    (fault : SetupFault) :
    s.InOrder dev f speed mode fault ↔
      Function.update s.config f.device ((s.config f.device).after speed mode fault) =
        Function.update s.config dev (if fault = none then asked speed mode
          else Function.update s.config f.device ((s.config f.device).after speed mode fault) dev) := by
  rw [InOrder, update_eq_update_iff]
  by_cases hfault : fault = none
  · subst hfault
    simp only [if_true, true_imp_iff, after_none_eq_asked_iff]
  · simp only [hfault, if_false, false_imp_iff, and_true]
    by_cases heq : f.device = dev
    · subst heq
      simp only [if_true, Function.update_self]
    · simp only [heq, if_false, Function.update_of_ne (Ne.symm heq), and_true]

variable {s s' : SpiState}

theorem configured_setup_iff (hs : s.Configured) (o : SpiObject) (speed mode : UInt32)
    (fault : SetupFault) :
    (s.setup o speed mode fault).Configured ↔
      ∀ f, s.files.map[o.hdl]? = some f → s.InOrder o.dev f speed mode fault := by
  cases hf : s.files.map[o.hdl]? with
  | none =>
      simp only [setup, spiSetup, hf, Configured, reduceCtorEq, false_imp_iff, implies_true, iff_true]
      rw [← hs, Function.update_eq_self]
  | some f =>
      have hinOrder := inOrder_iff (s := s) o.dev f speed mode fault
      simp only [Option.some.injEq, forall_eq', hinOrder]
      cases fault with
      | none =>
          simp only [setup, spiSetup, hf, SpiBus.setup_eq, Configured, if_true]
          rw [← hs]
      | some failing =>
          simp only [setup, spiSetup, hf, SpiBus.setup_eq, Configured, reduceCtorEq, if_false]
          rw [← hs]

theorem configured_spiOpen_iff (hs : s.Configured) (dev : SpiDevice) (speed mode : UInt32)
    (made : Option Error) (fault : SetupFault) :
    (s.spiOpen dev speed mode made fault).Configured ↔
      (speed ≠ 0 → made = none → fault = none → mode = speed) := by
  cases made with
  | some err =>
      simp only [spiOpen, spiOpenSetup, Agent.spiOpen, Configured, reduceCtorEq, false_imp_iff,
        implies_true, iff_true]
      rw [← hs, Function.update_eq_self]
  | none =>
      by_cases hspeed : speed = 0
      · subst hspeed
        simp only [spiOpen, spiOpenSetup, openInstanceSetup, Agent.spiOpen, Configured, ne_eq,
          not_true_eq_false, if_false, false_imp_iff, iff_true]
        exact hs
      · cases fault with
        | none =>
            simp only [spiOpen, spiOpenSetup, openInstanceSetup, Agent.spiOpen, Configured, ne_eq,
              hspeed, not_false_eq_true, if_true, true_imp_iff, SpiBus.setup_eq]
            rw [← hs, (Function.update_injective s.config dev).eq_iff, after_none_eq_asked_iff]
        | some failing =>
            simp only [spiOpen, spiOpenSetup, openInstanceSetup, Agent.spiOpen, Configured, ne_eq,
              hspeed, not_false_eq_true, if_true, SpiBus.setup_eq, reduceCtorEq, false_imp_iff,
              implies_true, iff_true]
            rw [← hs, Function.update_self]

/-- One step keeps the devices as wanted exactly when its setups are in order. -/
theorem configured_step_iff (hs : s.Configured) {a : SpiAction} (hstep : s.step a = some s') :
    s'.Configured ↔ s.SetsInOrder a := by
  cases a with
  | spiOpen dev speed mode made fault =>
      cases hstep
      exact configured_spiOpen_iff hs dev speed mode made fault
  | setup n speed mode fault =>
      obtain ⟨o, ho, heq⟩ := Option.map_eq_some_iff.mp hstep
      subst heq
      rw [configured_setup_iff hs, SetsInOrder]
      constructor
      · intro hinOrder o' f ho'
        rw [ho, Option.some_inj] at ho'
        subst ho'
        exact hinOrder f
      · intro hinOrder f
        exact hinOrder o f ho
  | close n =>
      obtain ⟨o, -, heq⟩ := Option.map_eq_some_iff.mp hstep
      subst heq
      exact iff_of_true hs trivial
  | destroy n =>
      obtain ⟨o, -, heq⟩ := Option.map_eq_some_iff.mp hstep
      subst heq
      refine iff_of_true ?_ trivial
      unfold destroy
      split <;> exact hs

end SpiState

/-- **SPI configuration, exactly.** Along a run every device has the mode and the
speed asked for last if and only if both are the same number in every setup that
takes effect, and no handle stands for another object's device by then. -/
theorem configured_iff_setsInOrder (config : SpiBus) (as : List SpiAction) :
    (spiClient config).Along SpiState.Configured as ↔
      (spiClient config).Meets SpiState.SetsInOrder as := by
  have hinit : SpiState.Configured (spiClient config).init := rfl
  apply Machine.along_iff_meets hinit
  · intro s a s' hs hinOrder hstep
    exact (SpiState.configured_step_iff hs hstep).mpr hinOrder
  · intro s hs
    exact hs
  · intro s a s' hs hstep hs'
    exact (SpiState.configured_step_iff hs hstep).mp hs'

/-- A client sets up a device for mode 0 and 1 MHz; the device gets a speed of 0. -/
theorem speed_exchanged_with_mode :
    ¬ (spiClient fun _ => ⟨0, 0⟩).Along SpiState.Configured
      [.spiOpen ⟨0, 1⟩ 0 0 none none, .setup 0 1000000 0 none] := by
  apply Machine.not_along_of_run rfl
  intro hconfigured
  have hdevice := congrArg SpiConfig.speed (congrFun hconfigured ⟨0, 1⟩)
  revert hdevice
  decide +kernel

end FerroRemote.Client

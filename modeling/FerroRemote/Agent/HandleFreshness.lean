/-
# Handles and the objects behind them

Five kinds of instances hand out 32-bit handles. The file system, file and gpio
services cut them from the counter of the reactor, which all their instances
share; an i2c or spi instance counts for itself. When a number comes up again
while it is in use, some of the tables keep what they have and some replace it.

A registry records which handle each response gave for each new object. Handles
are good when looking one up finds just the object it was given for. They stay
good exactly as long as no number comes up while it is in use and no iterator is
cloned: the response of a clone has the handle of the original.
-/

import FerroRemote.Math.Machine
import FerroRemote.Math.Registry
import FerroRemote.Agent.FsService
import FerroRemote.Agent.BusServices

namespace FerroRemote.Agent

/-- The services whose instances hand out handles. -/
inductive Service
  | fs
  | file
  | gpio
  | i2c
  | spi
  deriving DecidableEq, Repr

/-- A handle, and the instance it belongs to. -/
structure HandleName where
  service : Service
  inst : Nat
  hdl : Nat
  deriving DecidableEq, Repr

/-- The agent with the instances of all five services. -/
structure HandleState (P : Type) where
  /-- The reactor, its counter, and the file and gpio services. -/
  agent : AgentState := {}
  fs : Table (FsInstance P) := ∅
  i2c : Table I2cInstance := ∅
  spi : Table (IndexMap SpiInfo) := ∅
  /-- The handles that responses gave for new objects and that have not been
  closed, with the identities of the objects. -/
  granted : Registry HandleName Nat := {}

/-- The requests that create and close objects, and `draw`: anything else that
takes a number from the counter of the reactor. -/
inductive HandleAction (P : Type)
  | draw
  | fsOpen (inst : Nat) (path : P) (hdl : Option Nat)
  | iterBegin (inst : Nat) (path : P) (hdl : Option Nat) (made info : Option Error)
  | iterClone (inst hdl : Nat) (info : Option Error)
  | fsClose (inst hdl : Nat)
  | fileOpen (inst : Nat) (res : Except Error Fd)
  | fileClose (inst hdl : Nat)
  | gpioOpen (inst pin : Nat) (setup : Option Error) (res : Except Errno Fd)
  | gpioClose (inst hdl : Nat)
  | i2cOpen (inst bus : Nat) (made : Option Error)
  | i2cClose (inst hdl : Nat)
  | spiOpen (inst bus channel : Nat) (made : Option Error)
  | spiClose (inst hdl : Nat)

namespace HandleState

variable {P : Type}

/-- An instance that has not been used yet is as new. -/
def fsOf (s : HandleState P) (inst : Nat) : FsInstance P := s.fs[inst]?.getD {}

def i2cOf (s : HandleState P) (inst : Nat) : I2cInstance := s.i2c[inst]?.getD {}

def spiOf (s : HandleState P) (inst : Nat) : IndexMap SpiInfo := s.spi[inst]?.getD spiFiles

/-- The objects found under a handle. -/
def resolve (s : HandleState P) (name : HandleName) : List Nat :=
  match name.service with
  | .fs => (s.fsOf name.inst).lookup name.hdl
  | .file => ((s.agent.filesOf name.inst)[name.hdl]?.map (·.id)).toList
  | .gpio => (s.agent.pinsOf name.inst)[name.hdl]?.toList
  | .i2c => ((s.i2cOf name.inst).devices[name.hdl]?.map (·.id)).toList
  | .spi => ((s.spiOf name.inst).map[name.hdl]?.map (·.id)).toList

/-- A response gave `hdl` for the object `id`. -/
def grant (s : HandleState P) (service : Service) (inst hdl id : Nat) : HandleState P :=
  { s with granted := s.granted.grant ⟨service, inst, hdl⟩ id }

/-- `hdl` has been closed. -/
def revoke (s : HandleState P) (service : Service) (inst hdl : Nat) : HandleState P :=
  { s with granted := s.granted.revoke ⟨service, inst, hdl⟩ }

variable (ops : PathOps P)

def fsOpen (s : HandleState P) (inst : Nat) (path : P) (hdl : Option Nat) : HandleState P :=
  match (s.fsOf inst).fsOpen ops s.agent path hdl with
  | (.error _, agent, fs) => { s with agent := agent, fs := s.fs.insert inst fs }
  | (.ok (newHdl, _), agent, fs) =>
    let s' := { s with agent := agent, fs := s.fs.insert inst fs }
    -- a relative path is answered with the handle of the request
    if FsInstance.newInstance ops path hdl then s'.grant .fs inst newHdl s.agent.born else s'

def iterBegin (s : HandleState P) (inst : Nat) (path : P) (hdl : Option Nat)
    (made info : Option Error) : HandleState P :=
  match (s.fsOf inst).iterBegin ops s.agent path hdl made info with
  | (none, _, agent, fs) => { s with agent := agent, fs := s.fs.insert inst fs }
  | (some newHdl, _, agent, fs) =>
    { s with agent := agent, fs := s.fs.insert inst fs }.grant .fs inst newHdl s.agent.born

def iterClone (s : HandleState P) (inst hdl : Nat) (info : Option Error) : HandleState P :=
  match (s.fsOf inst).iterClone s.agent hdl info with
  | (some newHdl, none, agent, fs) =>
    { s with agent := agent, fs := s.fs.insert inst fs }.grant .fs inst newHdl s.agent.born
  -- with an exception nothing has been stored
  | (_, _, agent, fs) => { s with agent := agent, fs := s.fs.insert inst fs }

def fsClose (s : HandleState P) (inst hdl : Nat) : HandleState P :=
  { s with fs := s.fs.insert inst ((s.fsOf inst).fsClose hdl) }.revoke .fs inst hdl

def fileOpen (s : HandleState P) (inst : Nat) (res : Except Error Fd) : HandleState P :=
  match s.agent.fileOpen inst res with
  | (.error _, agent) => { s with agent := agent }
  | (.ok newHdl, agent) => { s with agent := agent }.grant .file inst newHdl s.agent.born

def fileClose (s : HandleState P) (inst hdl : Nat) : HandleState P :=
  { s with agent := s.agent.fileClose inst hdl }.revoke .file inst hdl

/-- The object of a gpio handle is the helper of its pin. -/
def gpioOpen (s : HandleState P) (inst pin : Nat) (setup : Option Error) (res : Except Errno Fd) :
    HandleState P :=
  match s.agent.gpioOpen inst pin setup res with
  | (.error _, agent) => { s with agent := agent }
  | (.ok newHdl, agent) =>
    { s with agent := agent }.grant .gpio inst newHdl (s.agent.nextIndex.2.openPin pin).1

def gpioClose (s : HandleState P) (inst hdl : Nat) : HandleState P :=
  { s with agent := s.agent.gpioClose inst hdl }.revoke .gpio inst hdl

def i2cOpen (s : HandleState P) (inst bus : Nat) (made : Option Error) : HandleState P :=
  match (s.i2cOf inst).i2cOpen s.agent bus made with
  | (.error _, agent, i2c) => { s with agent := agent, i2c := s.i2c.insert inst i2c }
  | (.ok newHdl, agent, i2c) =>
    { s with agent := agent, i2c := s.i2c.insert inst i2c }.grant .i2c inst newHdl s.agent.born

def i2cClose (s : HandleState P) (inst hdl : Nat) : HandleState P :=
  { s with i2c := s.i2c.insert inst ((s.i2cOf inst).i2cClose hdl) }.revoke .i2c inst hdl

def spiOpen (s : HandleState P) (inst bus channel : Nat) (made : Option Error) : HandleState P :=
  match Agent.spiOpen (s.spiOf inst) s.agent bus channel made with
  | (.error _, agent, spi) => { s with agent := agent, spi := s.spi.insert inst spi }
  | (.ok newHdl, agent, spi) =>
    { s with agent := agent, spi := s.spi.insert inst spi }.grant .spi inst newHdl s.agent.born

/-- `proto_impl::close` of the spi service. -/
def spiClose (s : HandleState P) (inst hdl : Nat) : HandleState P :=
  { s with spi := s.spi.insert inst ((s.spiOf inst).del hdl) }.revoke .spi inst hdl

def perform (s : HandleState P) : HandleAction P → HandleState P
  | .draw => { s with agent := s.agent.nextOpId.2 }
  | .fsOpen inst path hdl => s.fsOpen ops inst path hdl
  | .iterBegin inst path hdl made info => s.iterBegin ops inst path hdl made info
  | .iterClone inst hdl info => s.iterClone inst hdl info
  | .fsClose inst hdl => s.fsClose inst hdl
  | .fileOpen inst res => s.fileOpen inst res
  | .fileClose inst hdl => s.fileClose inst hdl
  | .gpioOpen inst pin setup res => s.gpioOpen inst pin setup res
  | .gpioClose inst hdl => s.gpioClose inst hdl
  | .i2cOpen inst bus made => s.i2cOpen inst bus made
  | .i2cClose inst hdl => s.i2cClose inst hdl
  | .spiOpen inst bus channel made => s.spiOpen inst bus channel made
  | .spiClose inst hdl => s.spiClose inst hdl

end HandleState

/-- An agent that has just started. -/
def handles {P : Type} (ops : PathOps P) : Machine (HandleState P) (HandleAction P) where
  init := {}
  step s a := some (s.perform ops a)

namespace HandleState

variable {P : Type} (ops : PathOps P)

/-- Every handle in use was given for one object, and finds it; no other handle
finds anything. -/
def Fresh (s : HandleState P) : Prop := s.granted.Agrees s.resolve

/-- No object is found under the handle. -/
def Free (s : HandleState P) (service : Service) (inst hdl : Nat) : Prop :=
  s.resolve ⟨service, inst, hdl⟩ = []

/-- Nothing throws before `iter_begin` stores the iterator. -/
def BeginsIter (s : HandleState P) (inst : Nat) (path : P) (hdl : Option Nat)
    (made : Option Error) : Prop :=
  made = none ∧ ∃ p, ((s.fsOf inst).pathFromRequest ops s.agent path hdl).1 = .ok p

/-- Nothing throws before `gpio_impl::open` stores the handle. -/
def OpensPin (s : HandleState P) (pin : Nat) (setup : Option Error) (res : Except Errno Fd) : Prop :=
  setup = none ∧
    ((s.agent.nextIndex.2.openPin pin).2.valueOpened (s.agent.nextIndex.2.openPin pin).1 = true ∨
      ∃ fd, res = .ok fd)

/-- The number a creating request draws is not in use in the instance, and no
iterator is cloned. -/
def Unclashed (s : HandleState P) : HandleAction P → Prop
  | .fsOpen inst path hdl =>
      FsInstance.newInstance ops path hdl = true → s.Free .fs inst s.agent.nextIndex.1
  | .iterBegin inst path hdl made _ =>
      s.BeginsIter ops inst path hdl made →
        s.Free .fs inst ((s.fsOf inst).pathFromRequest ops s.agent path hdl).2.nextIndex.1
  | .iterClone inst hdl info => info = none → (s.fsOf inst).iters[hdl]? = none
  | .fileOpen inst res => (∃ fd, res = .ok fd) → s.Free .file inst s.agent.nextIndex.1
  | .gpioOpen inst pin setup res =>
      s.OpensPin pin setup res → s.Free .gpio inst s.agent.nextIndex.1
  | .i2cOpen inst _ made => made = none → s.Free .i2c inst (s.i2cOf inst).nextIndex
  | .spiOpen inst _ _ made => made = none → s.Free .spi inst (s.spiOf inst).nextId
  | _ => True

end HandleState

namespace HandleState

variable {P : Type}

structure Quiet (s s' : HandleState P) : Prop where
  granted : s'.granted = s.granted
  resolve : ∀ name, s'.resolve name = s.resolve name

/-- Nothing but the table of one instance may have changed. -/
structure Touches (s s' : HandleState P) (service : Service) (inst : Nat) : Prop where
  granted : s'.granted = s.granted
  others : ∀ name : HandleName, ¬ (name.service = service ∧ name.inst = inst) →
    s'.resolve name = s.resolve name

/-- The handle was given for a new object, which is found if the handle was free. -/
def Created (s s' : HandleState P) (service : Service) (inst hdl : Nat) : Prop :=
  ∃ (t : HandleState P) (id : Nat), s' = t.grant service inst hdl id ∧ t.granted = s.granted ∧
    (s.Free service inst hdl → ∀ name,
      t.resolve name = if ⟨service, inst, hdl⟩ = name then [id] else s.resolve name)

theorem Touches.quiet {s s' : HandleState P} {service : Service} {inst : Nat}
    (htouches : Touches s s' service inst)
    (hsame : ∀ hdl, s'.resolve ⟨service, inst, hdl⟩ = s.resolve ⟨service, inst, hdl⟩) :
    Quiet s s' where
  granted := htouches.granted
  resolve name := by
    by_cases hthere : name.service = service ∧ name.inst = inst
    · obtain ⟨rfl, rfl⟩ := hthere
      exact hsame name.hdl
    · exact htouches.others name hthere

/-- Only what is found under one handle has changed. -/
theorem Touches.finds {s s' : HandleState P} {service : Service} {inst hdl : Nat}
    (htouches : Touches s s' service inst) {found : List Nat}
    (hfound : ∀ hdl', s'.resolve ⟨service, inst, hdl'⟩ =
      if hdl = hdl' then found else s.resolve ⟨service, inst, hdl'⟩) (name : HandleName) :
    s'.resolve name = if ⟨service, inst, hdl⟩ = name then found else s.resolve name := by
  by_cases hthere : name.service = service ∧ name.inst = inst
  · obtain ⟨rfl, rfl⟩ := hthere
    rw [hfound name.hdl]
    by_cases heq : hdl = name.hdl
    · rw [if_pos heq, if_pos (by rw [heq])]
    · rw [if_neg heq, if_neg fun hname => heq (congrArg HandleName.hdl hname)]
  · rw [htouches.others name hthere, if_neg]
    intro hname
    rw [← hname] at hthere
    exact hthere ⟨rfl, rfl⟩

theorem Fresh.quiet {s s' : HandleState P} (hs : s.Fresh) (hquiet : Quiet s s') : s'.Fresh := by
  have hresolve : s'.resolve = s.resolve := funext hquiet.resolve
  rw [Fresh, hquiet.granted, hresolve]
  exact hs

theorem Fresh.created_iff {s s' : HandleState P} (hs : s.Fresh) {service : Service} {inst hdl : Nat}
    (hcreated : Created s s' service inst hdl) : s'.Fresh ↔ s.Free service inst hdl := by
  obtain ⟨t, id, rfl, hgranted, hfound⟩ := hcreated
  have hafter : (t.grant service inst hdl id).granted = s.granted.grant ⟨service, inst, hdl⟩ id :=
    congrArg (fun r => r.grant ⟨service, inst, hdl⟩ id) hgranted
  rw [Fresh, hafter]
  constructor
  · intro hagrees
    exact Registry.Agrees.free_of_grant hs hagrees
  · intro hfree
    exact Registry.Agrees.grant hs hfree (hfound hfree)

/-- A request that creates an object under the condition `c`, and else does
nothing to handles. -/
theorem Fresh.iff_of_cases {s s' : HandleState P} (hs : s.Fresh) {c : Prop} {service : Service}
    {inst hdl : Nat} (hcases : c ∧ Created s s' service inst hdl ∨ ¬ c ∧ Quiet s s') :
    s'.Fresh ↔ (c → s.Free service inst hdl) := by
  rcases hcases with ⟨hc, hcreated⟩ | ⟨hc, hquiet⟩
  · rw [hs.created_iff hcreated]
    exact ⟨fun hfree _ => hfree, fun hfree => hfree hc⟩
  · exact ⟨fun _ hc' => absurd hc' hc, fun _ => hs.quiet hquiet⟩

/-- Nothing is found under a handle any more after it has been closed. -/
theorem Fresh.closed {s t : HandleState P} (hs : s.Fresh) {service : Service} {inst hdl : Nat}
    (htouches : Touches s t service inst)
    (hgone : ∀ hdl', t.resolve ⟨service, inst, hdl'⟩ =
      if hdl = hdl' then [] else s.resolve ⟨service, inst, hdl'⟩) :
    (t.revoke service inst hdl).Fresh := by
  have hafter : (t.revoke service inst hdl).granted = s.granted.revoke ⟨service, inst, hdl⟩ :=
    congrArg (fun r => r.revoke ⟨service, inst, hdl⟩) htouches.granted
  rw [Fresh, hafter]
  exact Registry.Agrees.revoke hs (htouches.finds hgone)

theorem Quiet.setAgent {s : HandleState P} {agent : AgentState}
    (htables : s.agent.SameTables agent) : Quiet s { s with agent := agent } where
  granted := rfl
  resolve name := by
    obtain ⟨service, inst, hdl⟩ := name
    cases service with
    | file => simp only [HandleState.resolve, htables.filesOf]
    | gpio => simp only [HandleState.resolve, htables.pinsOf]
    | fs | i2c | spi => rfl

theorem touches_setFs {s : HandleState P} {agent : AgentState}
    (htables : s.agent.SameTables agent) (inst : Nat) (fs : FsInstance P) :
    Touches s { s with agent := agent, fs := s.fs.insert inst fs } .fs inst where
  granted := rfl
  others name hother := by
    rw [← (Quiet.setAgent htables).resolve name]
    obtain ⟨service, inst', hdl⟩ := name
    cases service with
    | fs =>
        have hinst : ¬ inst = inst' := fun heq => hother ⟨rfl, heq.symm⟩
        simp [resolve, fsOf, Table.getElem?_insert_eq, hinst]
    | file | gpio | i2c | spi => rfl

theorem resolve_setFs (s : HandleState P) (agent : AgentState) (inst : Nat) (fs : FsInstance P)
    (hdl : Nat) :
    resolve { s with agent := agent, fs := s.fs.insert inst fs } ⟨.fs, inst, hdl⟩ =
      fs.lookup hdl := by
  simp [resolve, fsOf]

theorem touches_setFiles {s : HandleState P} {agent : AgentState} {inst : Nat}
    (hpins : agent.pins = s.agent.pins)
    (hfiles : ∀ inst' : Nat, inst ≠ inst' → agent.filesOf inst' = s.agent.filesOf inst') :
    Touches s { s with agent := agent } .file inst where
  granted := rfl
  others name hother := by
    obtain ⟨service, inst', hdl⟩ := name
    cases service with
    | file =>
        have hinst : inst ≠ inst' := fun heq => hother ⟨rfl, heq.symm⟩
        simp only [resolve, hfiles inst' hinst]
    | gpio => simp only [resolve, AgentState.pinsOf, hpins]
    | fs | i2c | spi => rfl

theorem touches_setPins {s : HandleState P} {agent : AgentState} {inst : Nat}
    (hfiles : agent.files = s.agent.files)
    (hpins : ∀ inst' : Nat, inst ≠ inst' → agent.pinsOf inst' = s.agent.pinsOf inst') :
    Touches s { s with agent := agent } .gpio inst where
  granted := rfl
  others name hother := by
    obtain ⟨service, inst', hdl⟩ := name
    cases service with
    | file => simp only [resolve, AgentState.filesOf, hfiles]
    | gpio =>
        have hinst : inst ≠ inst' := fun heq => hother ⟨rfl, heq.symm⟩
        simp only [resolve, hpins inst' hinst]
    | fs | i2c | spi => rfl

theorem touches_setI2c {s : HandleState P} {agent : AgentState}
    (htables : s.agent.SameTables agent) (inst : Nat) (i2c : I2cInstance) :
    Touches s { s with agent := agent, i2c := s.i2c.insert inst i2c } .i2c inst where
  granted := rfl
  others name hother := by
    rw [← (Quiet.setAgent htables).resolve name]
    obtain ⟨service, inst', hdl⟩ := name
    cases service with
    | i2c =>
        have hinst : ¬ inst = inst' := fun heq => hother ⟨rfl, heq.symm⟩
        simp [resolve, i2cOf, Table.getElem?_insert_eq, hinst]
    | fs | file | gpio | spi => rfl

theorem resolve_setI2c (s : HandleState P) (agent : AgentState) (inst : Nat) (i2c : I2cInstance)
    (hdl : Nat) :
    resolve { s with agent := agent, i2c := s.i2c.insert inst i2c } ⟨.i2c, inst, hdl⟩ =
      (i2c.devices[hdl]?.map (·.id)).toList := by
  simp [resolve, i2cOf]

theorem touches_setSpi {s : HandleState P} {agent : AgentState}
    (htables : s.agent.SameTables agent) (inst : Nat) (spi : IndexMap SpiInfo) :
    Touches s { s with agent := agent, spi := s.spi.insert inst spi } .spi inst where
  granted := rfl
  others name hother := by
    rw [← (Quiet.setAgent htables).resolve name]
    obtain ⟨service, inst', hdl⟩ := name
    cases service with
    | spi =>
        have hinst : ¬ inst = inst' := fun heq => hother ⟨rfl, heq.symm⟩
        simp [resolve, spiOf, Table.getElem?_insert_eq, hinst]
    | fs | file | gpio | i2c => rfl

theorem resolve_setSpi (s : HandleState P) (agent : AgentState) (inst : Nat)
    (spi : IndexMap SpiInfo) (hdl : Nat) :
    resolve { s with agent := agent, spi := s.spi.insert inst spi } ⟨.spi, inst, hdl⟩ =
      (spi.map[hdl]?.map (·.id)).toList := by
  simp [resolve, spiOf]

variable (ops : PathOps P)

/-- Storing a file system instance that finds what the old one found. -/
theorem Quiet.setFs (s : HandleState P) (agent : AgentState) (inst : Nat)
    (htables : s.agent.SameTables agent) :
    Quiet s { s with agent := agent, fs := s.fs.insert inst (s.fsOf inst) } := by
  apply (touches_setFs htables inst (s.fsOf inst)).quiet
  intro hdl
  exact resolve_setFs s agent inst (s.fsOf inst) hdl

/-- Storing a file system instance that has a new object. -/
theorem created_setFs (s : HandleState P) (agent : AgentState) {inst hdl id : Nat}
    {fs : FsInstance P} (htables : s.agent.SameTables agent)
    (hlookup : (s.fsOf inst).lookup hdl = [] → ∀ hdl', fs.lookup hdl' =
      if hdl = hdl' then [id] else (s.fsOf inst).lookup hdl') :
    Created s ({ s with agent := agent, fs := s.fs.insert inst fs }.grant .fs inst hdl id)
      .fs inst hdl := by
  refine ⟨_, id, rfl, rfl, fun hfree => ?_⟩
  apply (touches_setFs htables inst fs).finds
  intro hdl'
  rw [resolve_setFs]
  exact hlookup hfree hdl'

theorem fsOpen_cases (s : HandleState P) (inst : Nat) (path : P) (hdl : Option Nat) :
    FsInstance.newInstance ops path hdl = true ∧
        Created s (s.fsOpen ops inst path hdl) .fs inst s.agent.nextIndex.1 ∨
      ¬ FsInstance.newInstance ops path hdl = true ∧ Quiet s (s.fsOpen ops inst path hdl) := by
  by_cases hnew : FsInstance.newInstance ops path hdl = true
  · left
    refine ⟨hnew, ?_⟩
    simp only [fsOpen, FsInstance.fsOpen, FsInstance.pathFromRequest_new ops hnew, hnew, if_true]
    refine created_setFs s _ ⟨?_, ?_⟩ fun hfree => ?_
    · rfl
    · rfl
    · exact FsInstance.lookup_insertPath hfree ⟨s.agent.born, ops.normalize path⟩
  · right
    refine ⟨hnew, ?_⟩
    rcases FsInstance.pathFromRequest_old ops hnew (s.fsOf inst) s.agent with
      ⟨err, heq⟩ | ⟨f, p, hf, heq⟩
    · simp only [fsOpen, FsInstance.fsOpen, heq]
      exact Quiet.setFs s _ inst ⟨rfl, rfl⟩
    · simp only [fsOpen, FsInstance.fsOpen, heq, hnew]
      -- the handle of the request has a path already
      rw [Table.insertIfNew_of_getElem? hf]
      exact Quiet.setFs s _ inst ⟨rfl, rfl⟩

theorem iterBegin_cases (s : HandleState P) (inst : Nat) (path : P) (hdl : Option Nat)
    (made info : Option Error) :
    s.BeginsIter ops inst path hdl made ∧
        Created s (s.iterBegin ops inst path hdl made info) .fs inst
          ((s.fsOf inst).pathFromRequest ops s.agent path hdl).2.nextIndex.1 ∨
      ¬ s.BeginsIter ops inst path hdl made ∧
        Quiet s (s.iterBegin ops inst path hdl made info) := by
  have htables := FsInstance.pathFromRequest_tables ops path hdl (s.fsOf inst) s.agent
  have hborn := FsInstance.pathFromRequest_born ops path hdl (s.fsOf inst) s.agent
  simp only [BeginsIter, iterBegin, FsInstance.iterBegin]
  generalize (s.fsOf inst).pathFromRequest ops s.agent path hdl = request at htables hborn
  obtain ⟨res, agent⟩ := request
  cases res with
  | error err =>
      right
      refine ⟨?_, Quiet.setFs s agent inst htables⟩
      intro hbegins
      obtain ⟨-, p, hp⟩ := hbegins
      cases hp
  | ok p =>
      cases made with
      | some err =>
          right
          refine ⟨?_, Quiet.setFs s agent inst htables⟩
          intro hbegins
          cases hbegins.1
      | none =>
          left
          refine ⟨⟨rfl, p, rfl⟩, created_setFs s _ ⟨htables.files, htables.pins⟩ ?_⟩
          intro hfree
          rw [← hborn]
          exact FsInstance.lookup_insertIter hfree ⟨agent.born, p.1⟩

theorem iterClone_cases (s : HandleState P) (inst hdl : Nat) (info : Option Error) :
    (info = none ∧ (s.fsOf inst).iters[hdl]? ≠ none) ∧
        Created s (s.iterClone inst hdl info) .fs inst hdl ∨
      ¬ (info = none ∧ (s.fsOf inst).iters[hdl]? ≠ none) ∧
        Quiet s (s.iterClone inst hdl info) := by
  cases hiter : (s.fsOf inst).iters[hdl]? with
  | none =>
      right
      refine ⟨fun hclones => hclones.2 rfl, ?_⟩
      simp only [iterClone, FsInstance.iterClone, hiter]
      exact Quiet.setFs s _ inst ⟨rfl, rfl⟩
  | some iter =>
      cases info with
      | some err =>
          right
          refine ⟨?_, ?_⟩
          · intro hclones
            cases hclones.1
          · simp only [iterClone, FsInstance.iterClone, hiter]
            exact Quiet.setFs s _ inst ⟨rfl, rfl⟩
      | none =>
          left
          refine ⟨⟨rfl, Option.some_ne_none iter⟩, ?_⟩
          simp only [iterClone, FsInstance.iterClone, hiter]
          refine created_setFs s _ ⟨?_, ?_⟩ fun hfree => ?_
          · rfl
          · rfl
          · -- but the handle of the original is not free
            have hnone := (FsInstance.lookup_eq_nil.mp hfree).2
            rw [hiter] at hnone
            cases hnone

theorem fileOpen_cases (s : HandleState P) (inst : Nat) (res : Except Error Fd) :
    (∃ fd, res = .ok fd) ∧ Created s (s.fileOpen inst res) .file inst s.agent.nextIndex.1 ∨
      ¬ (∃ fd, res = .ok fd) ∧ Quiet s (s.fileOpen inst res) := by
  cases res with
  | error err =>
      right
      refine ⟨?_, rfl, fun _ => rfl⟩
      intro hopens
      obtain ⟨fd, hok⟩ := hopens
      cases hok
  | ok fd =>
      left
      obtain ⟨hanswer, hpins, hfiles⟩ := s.agent.fileOpen_ok inst fd
      have hopen : s.fileOpen inst (.ok fd) =
          { s with agent := (s.agent.fileOpen inst (.ok fd)).2 }.grant .file inst
            s.agent.nextIndex.1 s.agent.born := by
        rw [fileOpen]
        split <;> next heq => rw [heq] at hanswer ⊢; cases hanswer; try rfl
      refine ⟨⟨fd, rfl⟩, _, _, hopen, rfl, fun _ => ?_⟩
      apply Touches.finds (touches_setFiles hpins _)
      · intro hdl'
        simp only [resolve, hfiles, if_true, Table.getElem?_insert_eq]
        split <;> rfl
      · intro inst' hinst
        rw [hfiles, if_neg hinst]

theorem gpioOpen_cases (s : HandleState P) (inst pin : Nat) (setup : Option Error)
    (res : Except Errno Fd) :
    s.OpensPin pin setup res ∧
        Created s (s.gpioOpen inst pin setup res) .gpio inst s.agent.nextIndex.1 ∨
      ¬ s.OpensPin pin setup res ∧ Quiet s (s.gpioOpen inst pin setup res) := by
  have hopened := s.agent.nextIndex_tables.trans (s.agent.nextIndex.2.openPin_tables pin)
  have hng := s.agent.nextIndex.2.openPin_mem pin
  simp only [gpioOpen, AgentState.gpioOpen]
  rcases AgentState.finishOpen_cases hng inst s.agent.nextIndex.1 setup res with
    ⟨hopens, t, htables, heq⟩ | ⟨hfails, err, t, htables, heq⟩
  · left
    refine ⟨hopens, ?_⟩
    rw [heq]
    have hpins : ∀ inst', t.pinsOf inst' = s.agent.pinsOf inst' := (hopened.trans htables).pinsOf
    have hreleased := AgentState.release_tables
      (t.setPins inst ((t.pinsOf inst).insertIfNew s.agent.nextIndex.1
        (s.agent.nextIndex.2.openPin pin).1)) (s.agent.nextIndex.2.openPin pin).1
    refine ⟨_, _, rfl, rfl, fun hfree => ?_⟩
    have hunused : (s.agent.pinsOf inst)[s.agent.nextIndex.1]? = none :=
      Option.toList_eq_nil_iff.mp hfree
    apply Touches.finds (touches_setPins _ _)
    · intro hdl'
      show (AgentState.pinsOf _ inst)[hdl']?.toList = _
      rw [hreleased.pinsOf, AgentState.pinsOf_setPins, if_pos rfl, hpins,
        Table.getElem?_insertIfNew_eq]
      simp only [hunused, and_true]
      split <;> rfl
    · exact hreleased.files.trans (hopened.trans htables).files
    · intro inst' hinst
      rw [hreleased.pinsOf, AgentState.pinsOf_setPins, if_neg hinst, hpins]
  · right
    refine ⟨hfails, ?_⟩
    rw [heq]
    exact Quiet.setAgent ((hopened.trans htables).trans (AgentState.release_tables ..))

theorem i2cOpen_cases (s : HandleState P) (inst bus : Nat) (made : Option Error) :
    made = none ∧ Created s (s.i2cOpen inst bus made) .i2c inst (s.i2cOf inst).nextIndex ∨
      ¬ made = none ∧ Quiet s (s.i2cOpen inst bus made) := by
  cases made with
  | some err =>
      right
      refine ⟨Option.some_ne_none err, ?_⟩
      apply (touches_setI2c ⟨rfl, rfl⟩ inst _).quiet
      intro hdl
      exact resolve_setI2c s s.agent inst _ hdl
  | none =>
      left
      refine ⟨rfl, _, _, rfl, rfl, fun hfree => ?_⟩
      have hunused : (s.i2cOf inst).devices[(s.i2cOf inst).nextIndex]? = none :=
        Option.map_eq_none_iff.mp (Option.toList_eq_nil_iff.mp hfree)
      apply (touches_setI2c _ inst _).finds
      · intro hdl'
        rw [resolve_setI2c]
        simp only [Table.getElem?_insertIfNew_eq, hunused, and_true]
        split <;> rfl
      · exact ⟨rfl, rfl⟩

theorem spiOpen_cases (s : HandleState P) (inst bus channel : Nat) (made : Option Error) :
    made = none ∧ Created s (s.spiOpen inst bus channel made) .spi inst (s.spiOf inst).nextId ∨
      ¬ made = none ∧ Quiet s (s.spiOpen inst bus channel made) := by
  cases made with
  | some err =>
      right
      refine ⟨Option.some_ne_none err, ?_⟩
      apply (touches_setSpi ⟨rfl, rfl⟩ inst _).quiet
      intro hdl
      exact resolve_setSpi s s.agent inst _ hdl
  | none =>
      left
      refine ⟨rfl, _, _, rfl, rfl, fun _ => ?_⟩
      apply (touches_setSpi _ inst _).finds
      · intro hdl'
        rw [resolve_setSpi]
        simp only [Table.getElem?_insert_eq]
        split <;> rfl
      · exact ⟨rfl, rfl⟩

/-- Closing a handle that stands for one object leaves nothing under it. -/
theorem Fresh.fsClose {s : HandleState P} (hs : s.Fresh) (inst hdl : Nat) :
    (s.fsClose inst hdl).Fresh := by
  have hone : ((s.fsOf inst).lookup hdl).length ≤ 1 := by
    have hresolve : (s.fsOf inst).lookup hdl = s.granted.known ⟨.fs, inst, hdl⟩ :=
      hs.resolves ⟨.fs, inst, hdl⟩
    rw [hresolve]
    exact hs.distinct _
  refine hs.closed (touches_setFs ⟨rfl, rfl⟩ inst _) fun hdl' => ?_
  rw [resolve_setFs]
  exact FsInstance.lookup_fsClose hone hdl'

theorem Fresh.fileClose {s : HandleState P} (hs : s.Fresh) (inst hdl : Nat) :
    (s.fileClose inst hdl).Fresh := by
  obtain ⟨hpins, hfiles⟩ := s.agent.fileClose_tables inst hdl
  refine hs.closed (touches_setFiles hpins ?_) fun hdl' => ?_
  · intro inst' hinst
    apply Std.ExtTreeMap.ext_getElem?
    intro hdl'
    rw [hfiles, if_neg fun heq => hinst heq.1]
  · simp only [HandleState.resolve, hfiles, true_and]
    split <;> rfl

theorem Fresh.gpioClose {s : HandleState P} (hs : s.Fresh) (inst hdl : Nat) :
    (s.gpioClose inst hdl).Fresh := by
  obtain ⟨hfiles, hpins⟩ := s.agent.gpioClose_tables inst hdl
  refine hs.closed (touches_setPins hfiles ?_) fun hdl' => ?_
  · intro inst' hinst
    apply Std.ExtTreeMap.ext_getElem?
    intro hdl'
    rw [hpins, if_neg fun heq => hinst heq.1]
  · simp only [HandleState.resolve, hpins, true_and]
    split <;> rfl

theorem Fresh.i2cClose {s : HandleState P} (hs : s.Fresh) (inst hdl : Nat) :
    (s.i2cClose inst hdl).Fresh := by
  refine hs.closed (touches_setI2c ⟨rfl, rfl⟩ inst _) fun hdl' => ?_
  rw [resolve_setI2c]
  simp only [I2cInstance.i2cClose, Table.getElem?_erase_eq]
  split <;> rfl

theorem Fresh.spiClose {s : HandleState P} (hs : s.Fresh) (inst hdl : Nat) :
    (s.spiClose inst hdl).Fresh := by
  refine hs.closed (touches_setSpi ⟨rfl, rfl⟩ inst _) fun hdl' => ?_
  rw [resolve_setSpi]
  simp only [IndexMap.del, Table.getElem?_erase_eq]
  split <;> rfl

/-- **One request.** Handles stay good exactly when the number drawn is free. -/
theorem fresh_perform_iff {s : HandleState P} (hs : s.Fresh) (a : HandleAction P) :
    (s.perform ops a).Fresh ↔ s.Unclashed ops a := by
  cases a with
  | draw => exact iff_of_true (hs.quiet (Quiet.setAgent ⟨rfl, rfl⟩)) trivial
  | fsOpen inst path hdl => exact hs.iff_of_cases (s.fsOpen_cases ops inst path hdl)
  | iterBegin inst path hdl made info =>
      exact hs.iff_of_cases (s.iterBegin_cases ops inst path hdl made info)
  | iterClone inst hdl info =>
      have hcases := hs.iff_of_cases (s.iterClone_cases inst hdl info)
      refine hcases.trans ⟨?_, ?_⟩
      · intro hfree hinfo
        by_contra hiter
        exact hiter (FsInstance.lookup_eq_nil.mp (hfree ⟨hinfo, hiter⟩)).2
      · intro hfails hclones
        exact absurd (hfails hclones.1) hclones.2
  | fsClose inst hdl => exact iff_of_true (hs.fsClose inst hdl) trivial
  | fileOpen inst res => exact hs.iff_of_cases (s.fileOpen_cases inst res)
  | fileClose inst hdl => exact iff_of_true (hs.fileClose inst hdl) trivial
  | gpioOpen inst pin setup res => exact hs.iff_of_cases (s.gpioOpen_cases inst pin setup res)
  | gpioClose inst hdl => exact iff_of_true (hs.gpioClose inst hdl) trivial
  | i2cOpen inst bus made => exact hs.iff_of_cases (s.i2cOpen_cases inst bus made)
  | i2cClose inst hdl => exact iff_of_true (hs.i2cClose inst hdl) trivial
  | spiOpen inst bus channel made =>
      exact hs.iff_of_cases (s.spiOpen_cases inst bus channel made)
  | spiClose inst hdl => exact iff_of_true (hs.spiClose inst hdl) trivial

theorem fresh_init : Fresh ({} : HandleState P) := by
  apply Registry.agrees_empty
  intro name
  obtain ⟨service, inst, hdl⟩ := name
  cases service <;>
    simp [resolve, fsOf, i2cOf, spiOf, AgentState.filesOf, AgentState.pinsOf, spiFiles,
      FsInstance.lookup]

end HandleState

/-- **Handle freshness.** In every state of a run each handle in use finds just
the object it was given for, exactly when in every step of the run the number
drawn is not in use and no iterator is cloned. -/
theorem fresh_iff_unclashed {P : Type} (ops : PathOps P) (as : List (HandleAction P)) :
    (handles ops).Along HandleState.Fresh as ↔ (handles ops).Meets (HandleState.Unclashed ops) as := by
  apply Machine.along_iff_meets HandleState.fresh_init
  · intro s a s' hs hguard hstep
    cases hstep
    exact (HandleState.fresh_perform_iff ops hs a).mpr hguard
  · intro s hs
    exact hs
  · intro s a s' hs hstep hafter
    cases hstep
    exact (HandleState.fresh_perform_iff ops hs a).mp hafter

/-- A clone of the iterator 102 is answered with 102, which is in use. -/
theorem clone_answered_with_original :
    ¬ (handles namePaths).Along HandleState.Fresh
      [.iterBegin 0 ["/"] none none none, .iterClone 0 102 none] := by
  apply Machine.not_along_of_run rfl
  intro hfresh
  have hdistinct := hfresh.distinct ⟨.fs, 0, 102⟩
  revert hdistinct
  decide +kernel

end FerroRemote.Agent

/-
# How long a helper lives

`reactor_handler` and the task it posts carry the raw pointer of their helper,
and every stored reaction carries the raw pointer of its service instance. The
helper itself lives as long as somebody holds a `gpio_sptr` to it: a handle, or
an RPC in progress, which copied one when it started. This module interleaves
RPCs that overlap, events, queued tasks and disconnects, and settles which runs
never leave a pointer behind.

An RPC begins when it has its helper and finishes with everything else it does;
`close` and the destructor run in one step. The destructor waits for the
instance's RPCs, since a running handler keeps its service alive.
-/

import FerroRemote.Agent.OwnershipRuns

namespace FerroRemote.Agent

/-- What happens to gpio instances, the pins behind them, and the reactor. -/
inductive PinAction
  | connectPins
  /-- `open` obtains the helper of a pin. -/
  | beginOpen (inst pin : Nat)
  /-- `register_for_change` finds the helper of its handle. -/
  | beginRegister (inst hdl : Nat)
  /-- `unregister` finds the helper of its handle. -/
  | beginUnregister (inst hdl : Nat)
  /-- The RPC at place `n` does the rest of its work and drops its `gpio_sptr`. -/
  | finish (n : Nat) (setup : Option Error) (res : Except Errno Fd) (fault : Option Errno)
  | gpioClose (inst hdl : Nat)
  | gpioDisconnect (inst : Nat)
  | event (fd : Fd) (ev : AgentState.Event)
  | runTask (answers : Nat → Bool)

namespace AgentState

/-- An RPC has obtained the helper it is about. -/
def beginCall (s : AgentState) (call : Call) : AgentState := { s with calls := s.calls ++ [call] }

/-- `gpio_impl::open` up to `open_pin`. -/
def beginOpen (s : AgentState) (inst pin : Nat) : AgentState :=
  let (newid, s) := s.nextIndex
  let (ng, s) := s.openPin pin
  s.beginCall ⟨inst, newid, ng, .opening⟩

/-- `gpio_by_index` at the start of a handler; it throws for an unknown handle. -/
def beginChange (s : AgentState) (inst hdl : Nat) (kind : CallKind) : AgentState :=
  match s.gpioByIndex inst hdl with
  | .error _ => s
  | .ok g => s.beginCall ⟨inst, hdl, g, kind⟩

/-- The handler of a call, after its helper has been found. -/
def serve (s : AgentState) (call : Call) (setup : Option Error) (res : Except Errno Fd)
    (fault : Option Errno) : AgentState :=
  match call.kind with
  | .opening => (s.finishOpen call.helper call.inst call.hdl setup res).2
  | .register => (s.registerForChange call.helper call.inst call.hdl res fault).2
  | .unregister => (s.unregisterChange call.helper call.hdl res).2

/-- The call is over once its reference is not counted any more. -/
def withoutCall (s : AgentState) (n : Nat) : AgentState := { s with calls := s.calls.eraseIdx n }

/-- One step, with RPCs in two parts. -/
def pinStep (s : AgentState) : PinAction → Option AgentState
  | .connectPins => some s.connectPins
  | .beginOpen inst pin => if inst ∈ s.pins then some (s.beginOpen inst pin) else none
  | .beginRegister inst hdl => if inst ∈ s.pins then some (s.beginChange inst hdl .register) else none
  | .beginUnregister inst hdl =>
    if inst ∈ s.pins then some (s.beginChange inst hdl .unregister) else none
  | .finish n setup res fault =>
    match s.calls[n]? with
    | none => none
    | some call =>
      if s.react.kernel.Unused res then
        some (((s.serve call setup res fault).withoutCall n).release call.helper)
      else none
  | .gpioClose inst hdl => if inst ∈ s.pins then some (s.gpioClose inst hdl) else none
  | .gpioDisconnect inst =>
    if inst ∈ s.pins ∧ ∀ call ∈ s.calls, call.inst ≠ inst then some (s.gpioDisconnect inst) else none
  | .event fd ev => some (s.makeCallback fd ev)
  | .runTask answers => s.runTask answers

end AgentState

/-- The gpio side of the agent, started with no client. -/
def pinMachine : Machine AgentState PinAction where
  init := {}
  step := AgentState.pinStep

namespace AgentState

/-- A queued task will call the helper. -/
def Queued (s : AgentState) (g : Nat) : Prop := ∃ t ∈ s.queue, t.helper = g

/-- The reactor will call the helper at the next event. -/
def Registered (s : AgentState) (g : Nat) : Prop :=
  ∃ fd : Fd, s.react.react[fd]? = some (.pinEvent g)

/-- Whatever runs next, a task, a registered callback or a connection, runs on
an object that exists. -/
structure FanOutSafe (s : AgentState) : Prop where
  queued : ∀ g, s.Queued g → g ∈ s.helpers
  registered : ∀ g, s.Registered g → g ∈ s.helpers
  connected : ∀ {g id : Nat} {impl : GpioHelper} {c : Connection}, s.helpers[g]? = some impl →
    impl.connections[id]? = some c → c.inst ∈ s.pins

/-- The helper is queued, or registered with a connection other than `hdl`. -/
def PointedWithout (s : AgentState) (g hdl : Nat) : Prop :=
  s.Queued g ∨ s.Registered g ∧
    ∃ impl, s.helpers[g]? = some impl ∧ (impl.connections.erase hdl).isEmpty = false

/-- A `register_for_change` in progress is about to register the helper. -/
def Registers (s : AgentState) (g : Nat) (fault : Option Errno) : Prop :=
  ∃ impl fd, s.helpers[g]? = some impl ∧ impl.valueFd = some fd ∧
    impl.connections.isEmpty = true ∧ s.react.AcceptsFd fd GpioHelper.reactorEvents fault

/-- Deleting the actions of all `entries`, handles with their helpers, leaves the
reactor's entry for `fd` alone: each of the helpers that has this descriptor also
has a connection that is not among them. -/
def KeepsEntry (s : AgentState) (entries : List (Nat × Nat)) (fd : Fd) : Prop :=
  ∀ (hdl g : Nat) (impl : GpioHelper), (hdl, g) ∈ entries →
    s.helpers[g]? = some impl → impl.valueFd = some fd →
      ∃ id ∈ impl.connections, (id, g) ∉ entries

/-- What is left when the instance is gone. -/
def withoutInstance (s : AgentState) (inst : Nat) : AgentState := { s with pins := s.pins.erase inst }

/-- The RPC `call` at place `n` may drop its reference: its helper, if anything
points to it when the RPC has done its work, is referenced elsewhere, or by the
handle the RPC itself makes. -/
def SparesHelper (s : AgentState) (n : Nat) (call : Call) (setup : Option Error)
    (fault : Option Errno) : Prop :=
  match call.kind with
  | .opening => s.Queued call.helper ∨ s.Registered call.helper →
      (s.withoutCall n).referenced call.helper = true ∨
        setup = none ∧ (s.pinsOf call.inst)[call.hdl]? = none
  | .register =>
      s.Queued call.helper ∨ s.Registered call.helper ∨ s.Registers call.helper fault →
        (s.withoutCall n).referenced call.helper = true
  | .unregister => s.PointedWithout call.helper call.hdl →
      (s.withoutCall n).referenced call.helper = true

/-- The step takes no helper away that a queued task or the reactor still points
to, and no instance that a surviving connection points to. -/
def SparesPointers (s : AgentState) : PinAction → Prop
  | .finish n setup _ fault =>
    ∀ call : Call, s.calls[n]? = some call → s.SparesHelper n call setup fault
  | .gpioClose inst hdl =>
    ∀ g : Nat, (s.pinsOf inst)[hdl]? = some g → s.PointedWithout g hdl →
      (s.eraseGpio inst hdl).referenced g = true
  | .gpioDisconnect inst =>
    (∀ g : Nat, s.Queued g → (s.withoutInstance inst).referenced g = true) ∧
    (∀ (g : Nat) (fd : Fd), s.react.react[fd]? = some (.pinEvent g) →
      s.KeepsEntry (s.pinsOf inst).toList fd → (s.withoutInstance inst).referenced g = true) ∧
    ∀ (g id : Nat) (impl : GpioHelper) (c : Connection), s.helpers[g]? = some impl →
      impl.connections[id]? = some c → c.inst = inst →
        (s.withoutInstance inst).referenced g = true → (s.pinsOf inst)[id]? = some g
  | _ => True

theorem referenced_congr {s s' : AgentState} (hpins : s'.pins = s.pins) (hcalls : s'.calls = s.calls)
    (g : Nat) : s'.referenced g = s.referenced g := by
  rw [referenced, referenced, hpins, hcalls]

/-- The two states differ in descriptors and helpers only. -/
structure SameHolders (s s' : AgentState) : Prop where
  react : s'.react.react = s.react.react
  pins : s'.pins = s.pins
  calls : s'.calls = s.calls
  queue : s'.queue = s.queue
  born : s'.born = s.born

/-- Dropping a reference destroys the helper exactly when it was the last. -/
theorem release_effect (s : AgentState) (g : Nat) :
    SameHolders s (s.release g) ∧
      (s.release g).helpers = if s.referenced g then s.helpers else s.helpers.erase g := by
  unfold release
  by_cases href : s.referenced g = true
  · rw [if_pos href, if_pos href]
    exact ⟨⟨rfl, rfl, rfl, rfl, rfl⟩, rfl⟩
  · rw [if_neg href, if_neg href]
    cases himpl : s.helpers[g]? with
    | none => exact ⟨⟨rfl, rfl, rfl, rfl, rfl⟩, (Table.erase_of_getElem? himpl).symm⟩
    | some impl =>
        have hreact : (impl.destroy g s.react).react = s.react.react := by
          unfold GpioHelper.destroy
          split <;> rfl
        exact ⟨⟨hreact, rfl, rfl, rfl, rfl⟩, rfl⟩

/-- Dropping one reference after the other. -/
def releaseAll (s : AgentState) (gs : List Nat) : AgentState := gs.foldl (fun s g => s.release g) s

theorem releaseAll_effect (gs : List Nat) (s : AgentState) :
    SameHolders s (s.releaseAll gs) ∧
      ∀ g : Nat, (s.releaseAll gs).helpers[g]? =
        if g ∈ gs ∧ ¬ s.referenced g = true then none else s.helpers[g]? := by
  induction gs generalizing s with
  | nil =>
      refine ⟨⟨rfl, rfl, rfl, rfl, rfl⟩, fun g => ?_⟩
      rw [if_neg fun h => nomatch h.1]
      rfl
  | cons g' gs ih =>
      obtain ⟨hsame, hhelpers⟩ := s.release_effect g'
      obtain ⟨hrest, hlookup⟩ := ih (s.release g')
      refine ⟨⟨hrest.react.trans hsame.react, hrest.pins.trans hsame.pins,
        hrest.calls.trans hsame.calls, hrest.queue.trans hsame.queue,
        hrest.born.trans hsame.born⟩, fun g => ?_⟩
      have hfirst : (s.release g').helpers[g]? =
          if g' = g ∧ ¬ s.referenced g = true then none else s.helpers[g]? := by
        rw [hhelpers]
        by_cases heq : g' = g
        · subst heq
          by_cases href : s.referenced g' = true
          · simp [href]
          · simp [href]
        · rw [if_neg (not_and_of_not_left _ heq)]
          split
          · rfl
          · rw [Table.getElem?_erase_of_ne heq]
      show ((s.release g').releaseAll gs).helpers[g]? = _
      rw [hlookup g, hfirst, referenced_congr hsame.pins hsame.calls]
      by_cases href : s.referenced g = true
      · simp [href]
      · by_cases heq : g' = g
        · simp [heq, href]
        · simp [heq, Ne.symm heq, href]

/-! ## The invariant -/

/-- Every pointer has its helper, except that the helpers in `loose` may have
lost their last reference and not been destroyed yet. -/
structure Tethered (loose : List Nat) (s : AgentState) : Prop where
  queuedOpened : ∀ {g : Nat}, s.Queued g → ∃ fd, s.valueFdOf g = some (some fd)
  /-- A helper is registered for its own value descriptor. -/
  entryOpened : ∀ {fd : Fd} {g : Nat}, s.react.react[fd]? = some (.pinEvent g) →
    s.valueFdOf g = some (some fd)
  connected : ∀ {g id : Nat} {impl : GpioHelper} {c : Connection}, s.referenced g = true →
    s.helpers[g]? = some impl → impl.connections[id]? = some c → c.inst ∈ s.pins
  handleOpened : ∀ {inst hdl g : Nat}, (s.pinsOf inst)[hdl]? = some g →
    ∃ fd, s.valueFdOf g = some (some fd)
  callAlive : ∀ call ∈ s.calls, call.inst ∈ s.pins ∧ call.helper ∈ s.helpers
  callOpened : ∀ call ∈ s.calls, call.kind ≠ .opening →
    ∃ fd, s.valueFdOf call.helper = some (some fd)
  held : ∀ g ∈ s.helpers, s.referenced g = true ∨ g ∈ loose
  bornPins : ∀ inst ∈ s.pins, inst < s.born
  bornHelpers : ∀ g ∈ s.helpers, g < s.born

theorem tethered_init : Tethered [] {} where
  queuedOpened := by simp [Queued]
  entryOpened := by simp
  connected := by simp
  handleOpened := by simp [pinsOf]
  callAlive := by simp
  callOpened := by simp
  held := by simp
  bornPins := by simp
  bornHelpers := by simp

theorem mem_helpers_of_opened {s : AgentState} {g : Nat} {value : Option Fd}
    (hvalue : s.valueFdOf g = some value) : g ∈ s.helpers :=
  (s.mem_helpers_iff g).mpr ⟨value, hvalue⟩

theorem Tethered.safe {s : AgentState} (hs : Tethered [] s) : s.FanOutSafe where
  queued g hqueued := by
    obtain ⟨fd, hfd⟩ := hs.queuedOpened hqueued
    exact mem_helpers_of_opened hfd
  registered g hregistered := by
    obtain ⟨fd, hentry⟩ := hregistered
    exact mem_helpers_of_opened (hs.entryOpened hentry)
  connected {g id impl c} himpl hc := by
    rcases hs.held g ((Table.mem_iff_exists _ _).mpr ⟨impl, himpl⟩) with href | hloose
    · exact hs.connected href himpl hc
    · cases hloose

/-- Nothing that matters is dropped: descriptors stay known, connections are
old ones or belong to instances that exist, and so do new pointers. -/
theorem Tethered.transfer {loose : List Nat} {s s' : AgentState} (hs : Tethered loose s)
    (hpins : s'.pins = s.pins) (hcalls : s'.calls = s.calls) (hborn : s'.born = s.born)
    (hhelpers : ∀ g : Nat, g ∈ s'.helpers ↔ g ∈ s.helpers)
    (hvalue : ∀ (g : Nat) (fd : Fd), s.valueFdOf g = some (some fd) → s'.valueFdOf g = some (some fd))
    (hconn : ∀ (g id : Nat) (impl' : GpioHelper) (c : Connection), s'.helpers[g]? = some impl' →
      impl'.connections[id]? = some c →
        c.inst ∈ s.pins ∨ ∃ impl, s.helpers[g]? = some impl ∧ impl.connections[id]? = some c)
    (hqueue : ∀ g : Nat, s'.Queued g → s.Queued g ∨ ∃ fd, s'.valueFdOf g = some (some fd))
    (hentry : ∀ (fd : Fd) (g : Nat), s'.react.react[fd]? = some (.pinEvent g) →
      s.react.react[fd]? = some (.pinEvent g) ∨ s'.valueFdOf g = some (some fd)) :
    Tethered loose s' := by
  have hpinsOf : ∀ inst : Nat, s'.pinsOf inst = s.pinsOf inst := fun inst => by
    rw [pinsOf, pinsOf, hpins]
  have hreferenced := referenced_congr hpins hcalls
  refine ⟨?_, ?_, ?_, ?_, ?_, ?_, ?_, ?_, ?_⟩
  · intro g hqueued
    rcases hqueue g hqueued with hold | hopened
    · obtain ⟨fd, hfd⟩ := hs.queuedOpened hold
      exact ⟨fd, hvalue g fd hfd⟩
    · exact hopened
  · intro fd g hin
    rcases hentry fd g hin with hold | hopened
    · exact hvalue g fd (hs.entryOpened hold)
    · exact hopened
  · intro g id impl' c href himpl hc
    rw [hpins]
    rw [hreferenced] at href
    rcases hconn g id impl' c himpl hc with hinst | ⟨impl, hold, hc⟩
    · exact hinst
    · exact hs.connected href hold hc
  · intro inst hdl g hg
    rw [hpinsOf] at hg
    obtain ⟨fd, hfd⟩ := hs.handleOpened hg
    exact ⟨fd, hvalue g fd hfd⟩
  · intro call hcall
    rw [hcalls] at hcall
    obtain ⟨hinst, hhelper⟩ := hs.callAlive call hcall
    exact ⟨hpins ▸ hinst, (hhelpers _).mpr hhelper⟩
  · intro call hcall hkind
    rw [hcalls] at hcall
    obtain ⟨fd, hfd⟩ := hs.callOpened call hcall hkind
    exact ⟨fd, hvalue _ fd hfd⟩
  · intro g hg
    rw [hreferenced]
    exact hs.held g ((hhelpers g).mp hg)
  · intro inst hinst
    rw [hborn]
    exact hs.bornPins inst (hpins ▸ hinst)
  · intro g hg
    rw [hborn]
    exact hs.bornHelpers g ((hhelpers g).mp hg)

theorem Tethered.sameHolders {loose : List Nat} {s s' : AgentState} (hs : Tethered loose s)
    (hsame : SameHolders s s') (hhelpers : s'.helpers = s.helpers) : Tethered loose s' := by
  refine hs.transfer hsame.pins hsame.calls hsame.born ?_ ?_ ?_ ?_ ?_
  · intro g
    rw [hhelpers]
  · intro g fd hvalue
    rw [valueFdOf, hhelpers]
    exact hvalue
  · intro g id impl c himpl hc
    rw [hhelpers] at himpl
    exact .inr ⟨impl, himpl, hc⟩
  · intro g hqueued
    rw [Queued, hsame.queue] at hqueued
    exact .inl hqueued
  · intro fd g hentry
    rw [hsame.react] at hentry
    exact .inl hentry

/-- One helper is replaced by what it has become. -/
theorem Tethered.update {loose : List Nat} {s s' : AgentState} (hs : Tethered loose s) {g : Nat}
    {impl impl' : GpioHelper} (himpl : s.helpers[g]? = some impl)
    (hhelpers : s'.helpers = s.helpers.insert g impl') (hpins : s'.pins = s.pins)
    (hcalls : s'.calls = s.calls) (hborn : s'.born = s.born) (hqueue : s'.queue ⊆ s.queue)
    (hfd : ∀ fd : Fd, impl.valueFd = some fd → impl'.valueFd = some fd)
    (hconn : ∀ (id : Nat) (c : Connection), impl'.connections[id]? = some c →
      impl.connections[id]? = some c ∨ c.inst ∈ s.pins)
    (hentry : ∀ (fd : Fd) (h : Nat), s'.react.react[fd]? = some (.pinEvent h) →
      s.react.react[fd]? = some (.pinEvent h) ∨ g = h ∧ impl'.valueFd = some fd) :
    Tethered loose s' := by
  have hlookup : ∀ h : Nat, s'.helpers[h]? = if g = h then some impl' else s.helpers[h]? :=
    fun h => by rw [hhelpers, Table.getElem?_insert_eq]
  refine hs.transfer hpins hcalls hborn ?_ ?_ ?_ ?_ ?_
  · intro h
    rw [hhelpers]
    exact Table.mem_insert_of_mem ((Table.mem_iff_exists _ _).mpr ⟨impl, himpl⟩) impl' h
  · intro h fd hold
    rw [valueFdOf, hlookup]
    split
    · next heq =>
        subst heq
        rw [valueFdOf, himpl, Option.map_some, Option.some_inj] at hold
        rw [Option.map_some, hfd fd hold]
    · exact hold
  · intro h id impl'' c hin hc
    rw [hlookup] at hin
    split at hin
    · next heq =>
        subst heq
        cases hin
        rcases hconn id c hc with hold | hinst
        · exact .inr ⟨impl, himpl, hold⟩
        · exact .inl hinst
    · exact .inr ⟨impl'', hin, hc⟩
  · intro h hqueued
    obtain ⟨t, ht, htask⟩ := hqueued
    exact .inl ⟨t, hqueue ht, htask⟩
  · intro fd h hin
    refine (hentry fd h hin).imp_right fun hself => ?_
    obtain ⟨heq, hvalue⟩ := hself
    rw [valueFdOf, hlookup, if_pos heq, Option.map_some, hvalue]

/-- References are dropped, and helpers that thereby lose their last one are
loose. -/
theorem Tethered.shed {loose : List Nat} {s s' : AgentState} (hs : Tethered [] s)
    (hreact : s'.react = s.react) (hhelpers : s'.helpers = s.helpers) (hqueue : s'.queue = s.queue)
    (hborn : s'.born = s.born) (hpins : ∀ inst ∈ s'.pins, inst ∈ s.pins)
    (hhandles : ∀ {inst hdl g : Nat}, (s'.pinsOf inst)[hdl]? = some g →
      (s.pinsOf inst)[hdl]? = some g)
    (hcalls : s'.calls ⊆ s.calls) (hinst : ∀ call ∈ s'.calls, call.inst ∈ s'.pins)
    (hconn : ∀ {g id : Nat} {impl : GpioHelper} {c : Connection}, s'.referenced g = true →
      s.helpers[g]? = some impl → impl.connections[id]? = some c → c.inst ∈ s'.pins)
    (hheld : ∀ g : Nat, s.referenced g = true → s'.referenced g = true ∨ g ∈ loose) :
    Tethered loose s' := by
  have hvalue : ∀ g : Nat, s'.valueFdOf g = s.valueFdOf g := fun g => by
    rw [valueFdOf, valueFdOf, hhelpers]
  refine ⟨?_, ?_, ?_, ?_, ?_, ?_, ?_, ?_, ?_⟩
  · intro g hqueued
    rw [Queued, hqueue] at hqueued
    rw [hvalue]
    exact hs.queuedOpened hqueued
  · intro fd g hentry
    rw [hreact] at hentry
    rw [hvalue]
    exact hs.entryOpened hentry
  · intro g id impl c href himpl hc
    rw [hhelpers] at himpl
    exact hconn href himpl hc
  · intro inst hdl g hg
    rw [hvalue]
    exact hs.handleOpened (hhandles hg)
  · intro call hcall
    rw [hhelpers]
    exact ⟨hinst call hcall, (hs.callAlive call (hcalls hcall)).2⟩
  · intro call hcall hkind
    rw [hvalue]
    exact hs.callOpened call (hcalls hcall) hkind
  · intro g hg
    rw [hhelpers] at hg
    rcases hs.held g hg with href | hnone
    · exact hheld g href
    · cases hnone
  · intro inst hmem
    rw [hborn]
    exact hs.bornPins inst (hpins inst hmem)
  · intro g hg
    rw [hhelpers] at hg
    rw [hborn]
    exact hs.bornHelpers g hg

/-- Loose helpers without references are destroyed; nothing may point to one of
them. -/
theorem Tethered.settle {loose : List Nat} {s : AgentState} (hs : Tethered loose s)
    (hfree : ∀ g ∈ loose, s.Queued g ∨ s.Registered g → s.referenced g = true) :
    Tethered [] (s.releaseAll loose) := by
  obtain ⟨hsame, hlookup⟩ := releaseAll_effect loose s
  have hreferenced := referenced_congr hsame.pins hsame.calls
  have hpinsOf : ∀ inst : Nat, (s.releaseAll loose).pinsOf inst = s.pinsOf inst := fun inst => by
    rw [pinsOf, pinsOf, hsame.pins]
  -- a helper with a reference is still there
  have hkept : ∀ g : Nat, s.referenced g = true →
      (s.releaseAll loose).helpers[g]? = s.helpers[g]? := fun g href => by
    rw [hlookup, if_neg fun h => h.2 href]
  have hvalue : ∀ g : Nat, s.referenced g = true →
      (s.releaseAll loose).valueFdOf g = s.valueFdOf g := fun g href => by
    rw [valueFdOf, valueFdOf, hkept g href]
  have hstays : ∀ g : Nat, g ∈ (s.releaseAll loose).helpers → g ∈ s.helpers ∧ s.referenced g = true := by
    intro g hg
    obtain ⟨impl, himpl⟩ := (Table.mem_iff_exists _ _).mp hg
    rw [hlookup] at himpl
    split at himpl
    · cases himpl
    · next hnot =>
        have hmem := (Table.mem_iff_exists _ _).mpr ⟨impl, himpl⟩
        refine ⟨hmem, ?_⟩
        rcases hs.held g hmem with href | hin
        · exact href
        · by_contra hunref
          exact hnot ⟨hin, hunref⟩
  -- and so is one that is pointed to
  have hpointed : ∀ g : Nat, g ∈ s.helpers → s.Queued g ∨ s.Registered g → s.referenced g = true := by
    intro g hmem hpointed
    rcases hs.held g hmem with href | hin
    · exact href
    · exact hfree g hin hpointed
  refine ⟨?_, ?_, ?_, ?_, ?_, ?_, ?_, ?_, ?_⟩
  · intro g hqueued
    rw [Queued, hsame.queue] at hqueued
    obtain ⟨fd, hfd⟩ := hs.queuedOpened hqueued
    rw [hvalue g (hpointed g (mem_helpers_of_opened hfd) (.inl hqueued))]
    exact ⟨fd, hfd⟩
  · intro fd g hentry
    rw [hsame.react] at hentry
    have hfd := hs.entryOpened hentry
    rw [hvalue g (hpointed g (mem_helpers_of_opened hfd) (.inr ⟨fd, hentry⟩))]
    exact hfd
  · intro g id impl c href himpl hc
    rw [hreferenced] at href
    rw [hkept g href] at himpl
    rw [hsame.pins]
    exact hs.connected href himpl hc
  · intro inst hdl g hg
    rw [hpinsOf] at hg
    rw [hvalue g ((s.referenced_iff g).mpr (.inl ⟨inst, hdl, hg⟩))]
    exact hs.handleOpened hg
  · intro call hcall
    rw [hsame.calls] at hcall
    obtain ⟨hinst, hhelper⟩ := hs.callAlive call hcall
    rw [hsame.pins]
    refine ⟨hinst, (Table.mem_congr ?_).mp hhelper⟩
    exact (hkept _ ((s.referenced_iff _).mpr (.inr ⟨call, hcall, rfl⟩))).symm
  · intro call hcall hkind
    rw [hsame.calls] at hcall
    rw [hvalue _ ((s.referenced_iff _).mpr (.inr ⟨call, hcall, rfl⟩))]
    exact hs.callOpened call hcall hkind
  · intro g hg
    rw [hreferenced]
    exact .inl (hstays g hg).2
  · intro inst hinst
    rw [hsame.pins] at hinst
    rw [hsame.born]
    exact hs.bornPins inst hinst
  · intro g hg
    rw [hsame.born]
    exact hs.bornHelpers g (hstays g hg).1

/-- A helper that is destroyed while something points to it shows. -/
theorem referenced_of_safe {loose : List Nat} {s : AgentState} (hsafe : (s.releaseAll loose).FanOutSafe)
    (g : Nat) (hin : g ∈ loose) (hpointed : s.Queued g ∨ s.Registered g) : s.referenced g = true := by
  obtain ⟨hsame, hlookup⟩ := releaseAll_effect loose s
  have hmem : g ∈ (s.releaseAll loose).helpers := by
    rcases hpointed with hqueued | hregistered
    · refine hsafe.queued g ?_
      rw [Queued, hsame.queue]
      exact hqueued
    · refine hsafe.registered g ?_
      rw [Registered, hsame.react]
      exact hregistered
  by_contra hunref
  obtain ⟨impl, himpl⟩ := (Table.mem_iff_exists _ _).mp hmem
  rw [hlookup, if_pos ⟨hin, hunref⟩] at himpl
  cases himpl

/-! ## RPCs begin -/

theorem Tethered.loosen {s : AgentState} (hs : Tethered [] s) (loose : List Nat) :
    Tethered loose s where
  queuedOpened := hs.queuedOpened
  entryOpened := hs.entryOpened
  connected := hs.connected
  handleOpened := hs.handleOpened
  callAlive := hs.callAlive
  callOpened := hs.callOpened
  held g hg := by
    rcases hs.held g hg with href | hnone
    · exact .inl href
    · cases hnone
  bornPins := hs.bornPins
  bornHelpers := hs.bornHelpers

theorem Tethered.connectPins {s : AgentState} (hs : Tethered [] s) : Tethered [] s.connectPins := by
  have hpinsOf : ∀ inst : Nat, s.connectPins.pinsOf inst = s.pinsOf inst := by
    intro inst
    simp only [pinsOf, AgentState.connectPins, Table.getElem?_insert_eq]
    split
    · next heq =>
        have hnew : s.born ∉ s.pins := fun hmem => Nat.lt_irrefl _ (hs.bornPins _ hmem)
        rw [← heq, (Table.not_mem_iff _ _).mp hnew]
        rfl
    · rfl
  have hreferenced : ∀ g : Nat, s.connectPins.referenced g = true ↔ s.referenced g = true := by
    intro g
    rw [referenced_iff, referenced_iff]
    simp only [hpinsOf]
    rfl
  have hgrow : ∀ inst ∈ s.pins, inst ∈ s.connectPins.pins := fun inst hinst =>
    (Table.mem_insert_iff _ _ _ _).mpr (.inr hinst)
  refine ⟨hs.queuedOpened, hs.entryOpened, ?_, ?_, ?_, hs.callOpened, ?_, ?_, ?_⟩
  · intro g id impl c href himpl hc
    exact hgrow _ (hs.connected ((hreferenced g).mp href) himpl hc)
  · intro inst hdl g hg
    rw [hpinsOf] at hg
    exact hs.handleOpened hg
  · intro call hcall
    obtain ⟨hinst, hhelper⟩ := hs.callAlive call hcall
    exact ⟨hgrow _ hinst, hhelper⟩
  · intro g hg
    rw [hreferenced]
    exact hs.held g hg
  · exact Table.forall_lt_insert ∅ hs.bornPins
  · intro g hg
    exact Nat.lt_succ_of_lt (hs.bornHelpers g hg)

theorem Tethered.newPin {s : AgentState} (hs : Tethered [] s) (pin : Nat) (devices : Table Nat) :
    Tethered [s.born] { s with
      helpers := s.helpers.insert s.born { pin := pin }
      devices := devices
      born := s.born + 1 } := by
  have hfresh : ∀ g ∈ s.helpers, s.born ≠ g := fun g hg heq =>
    Nat.lt_irrefl _ (heq ▸ hs.bornHelpers g hg)
  have hvalue : ∀ (g : Nat) (fd : Fd), s.valueFdOf g = some (some fd) →
      (s.helpers.insert s.born { pin := pin })[g]?.map (·.valueFd) = some (some fd) := by
    intro g fd hfd
    rw [Table.getElem?_insert_of_ne (hfresh g (mem_helpers_of_opened hfd))]
    exact hfd
  have hgrow : ∀ g ∈ s.helpers, g ∈ s.helpers.insert s.born { pin := pin } := fun g hg =>
    (Table.mem_insert_iff _ _ _ _).mpr (.inr hg)
  have hmem : ∀ g ∈ s.helpers.insert s.born { pin := pin }, s.born = g ∨ g ∈ s.helpers :=
    fun g hg => (Table.mem_insert_iff _ _ _ _).mp hg
  refine ⟨?_, ?_, ?_, ?_, ?_, ?_, ?_, ?_, ?_⟩
  · intro g hqueued
    obtain ⟨fd, hfd⟩ := hs.queuedOpened hqueued
    exact ⟨fd, hvalue g fd hfd⟩
  · intro fd g hentry
    exact hvalue g fd (hs.entryOpened hentry)
  · intro g id impl c href himpl hc
    rw [Table.getElem?_insert_eq] at himpl
    split at himpl
    · cases himpl
      simp at hc
    · exact hs.connected href himpl hc
  · intro inst hdl g hg
    obtain ⟨fd, hfd⟩ := hs.handleOpened hg
    exact ⟨fd, hvalue g fd hfd⟩
  · intro call hcall
    obtain ⟨hinst, hhelper⟩ := hs.callAlive call hcall
    exact ⟨hinst, hgrow _ hhelper⟩
  · intro call hcall hkind
    obtain ⟨fd, hfd⟩ := hs.callOpened call hcall hkind
    exact ⟨fd, hvalue _ fd hfd⟩
  · intro g hg
    rcases hmem g hg with heq | hold
    · exact .inr (List.mem_singleton.mpr heq.symm)
    · rcases hs.held g hold with href | hnone
      · exact .inl href
      · cases hnone
  · intro inst hinst
    exact Nat.lt_succ_of_lt (hs.bornPins inst hinst)
  · intro g hg
    rcases hmem g hg with heq | hold
    · exact heq ▸ Nat.lt_succ_self _
    · exact Nat.lt_succ_of_lt (hs.bornHelpers g hold)

theorem Tethered.beginCall {s : AgentState} {call : Call} (hs : Tethered [call.helper] s)
    (hinst : call.inst ∈ s.pins) (hhelper : call.helper ∈ s.helpers)
    (hopened : call.kind ≠ .opening → ∃ fd, s.valueFdOf call.helper = some (some fd))
    (hconn : ∀ (id : Nat) (impl : GpioHelper) (c : Connection),
      s.helpers[call.helper]? = some impl → impl.connections[id]? = some c → c.inst ∈ s.pins) :
    Tethered [] (s.beginCall call) := by
  have hreferenced : ∀ g : Nat, (s.beginCall call).referenced g = true ↔
      s.referenced g = true ∨ call.helper = g := by
    intro g
    simp [AgentState.beginCall, referenced, or_assoc]
  have hcalls : ∀ call' ∈ (s.beginCall call).calls, call' ∈ s.calls ∨ call' = call := by
    intro call' hmem
    exact (List.mem_append.mp hmem).imp_right List.mem_singleton.mp
  refine ⟨hs.queuedOpened, hs.entryOpened, ?_, hs.handleOpened, ?_, ?_, ?_, hs.bornPins,
    hs.bornHelpers⟩
  · intro g id impl c href himpl hc
    rcases (hreferenced g).mp href with href | heq
    · exact hs.connected href himpl hc
    · subst heq
      exact hconn id impl c himpl hc
  · intro call' hmem
    rcases hcalls call' hmem with hold | rfl
    · exact hs.callAlive call' hold
    · exact ⟨hinst, hhelper⟩
  · intro call' hmem hkind
    rcases hcalls call' hmem with hold | rfl
    · exact hs.callOpened call' hold hkind
    · exact hopened hkind
  · intro g hg
    rw [hreferenced]
    rcases hs.held g hg with href | hin
    · exact .inl (.inl href)
    · exact .inl (.inr (List.mem_singleton.mp hin).symm)

theorem Tethered.beginOpen {s : AgentState} (hs : Tethered [] s) {inst : Nat} (hinst : inst ∈ s.pins)
    (pin : Nat) : Tethered [] (s.beginOpen inst pin) := by
  have hcount : Tethered [] s.nextIndex.2 :=
    hs.sameHolders ⟨rfl, rfl, rfl, rfl, rfl⟩ rfl
  have hinst' : inst ∈ s.nextIndex.2.pins := hinst
  rw [AgentState.beginOpen]
  rcases s.nextIndex.2.openPin_cases pin with ⟨g, hg, heq⟩ | heq
  · simp only [heq]
    refine (hcount.loosen _).beginCall hinst' hg (fun h => absurd rfl h) fun id impl c himpl hc => ?_
    exact hcount.safe.connected himpl hc
  · simp only [heq]
    refine (hcount.newPin pin _).beginCall hinst' ?_ (fun h => absurd rfl h) fun id impl c himpl hc => ?_
    · exact Std.ExtTreeMap.mem_insert_self
    · rw [Table.getElem?_insert_self] at himpl
      cases himpl
      simp at hc

theorem Tethered.beginChange {s : AgentState} (hs : Tethered [] s) {inst : Nat} (hinst : inst ∈ s.pins)
    (hdl : Nat) (kind : CallKind) : Tethered [] (s.beginChange inst hdl kind) := by
  cases hg : (s.pinsOf inst)[hdl]? with
  | none => simpa [AgentState.beginChange, gpioByIndex, hg] using hs
  | some g =>
      obtain ⟨fd, hfd⟩ := hs.handleOpened hg
      simp only [AgentState.beginChange, gpioByIndex, hg]
      exact (hs.loosen _).beginCall hinst (mem_helpers_of_opened hfd) (fun _ => ⟨fd, hfd⟩)
        fun id impl c himpl hc => hs.safe.connected himpl hc

theorem onHelper_others {α : Type} (s : AgentState) (g : Nat)
    (f : PollReactor → GpioHelper → Except Error α × PollReactor × GpioHelper) :
    (s.onHelper g f).2.calls = s.calls ∧ (s.onHelper g f).2.queue = s.queue := by
  unfold onHelper
  split <;> exact ⟨rfl, rfl⟩

theorem Tethered.openValueFd {loose : List Nat} {s : AgentState} (hs : Tethered loose s) {g : Nat}
    (hg : g ∈ s.helpers) (res : Except Errno Fd) :
    Tethered loose (s.onHelper g fun r impl => impl.openValueFd g r res).2 ∧
      (s.onHelper g fun r impl => impl.openValueFd g r res).2.react.react = s.react.react ∧
      ∀ fd, (s.onHelper g fun r impl => impl.openValueFd g r res).1 = .ok fd →
        (s.onHelper g fun r impl => impl.openValueFd g r res).2.valueFdOf g = some (some fd) := by
  obtain ⟨impl, himpl⟩ := (Table.mem_iff_exists _ _).mp hg
  rw [onHelper_of_some himpl]
  rcases GpioHelper.openValueFd_cases g s.react impl res with
    ⟨fd, hfd, heq⟩ | ⟨-, code, -, heq⟩ | ⟨hnone, fd, -, heq⟩
  · rw [heq, Table.insert_of_getElem? himpl]
    refine ⟨hs, rfl, fun fd' hok => ?_⟩
    cases hok
    rw [valueFdOf, himpl, Option.map_some, hfd]
  · rw [heq, Table.insert_of_getElem? himpl]
    exact ⟨hs, rfl, fun fd' hok => by cases hok⟩
  · rw [heq]
    refine ⟨?_, rfl, fun fd' hok => ?_⟩
    · refine hs.update himpl rfl rfl rfl rfl (List.Subset.refl _) ?_ (fun _ _ hc => .inl hc)
        (fun _ _ h => .inl h)
      intro fd' hfd'
      rw [hnone] at hfd'
      cases hfd'
    · cases hok
      simp [valueFdOf]

theorem mem_setPins_iff {s : AgentState} {inst : Nat} (hinst : inst ∈ s.pins) (t : Table Nat)
    (inst' : Nat) : inst' ∈ (s.setPins inst t).pins ↔ inst' ∈ s.pins :=
  Table.mem_insert_of_mem hinst t inst'

/-- An open that succeeds adds a handle, unless the number is taken. -/
theorem pinsOf_addHandle (s : AgentState) (inst hdl g inst' hdl' : Nat) :
    ((s.setPins inst ((s.pinsOf inst).insertIfNew hdl g)).pinsOf inst')[hdl']? =
      if inst = inst' ∧ hdl = hdl' ∧ (s.pinsOf inst)[hdl]? = none then some g
      else (s.pinsOf inst')[hdl']? := by
  rw [pinsOf_setPins]
  by_cases heq : inst = inst'
  · subst heq
    simp [Table.getElem?_insertIfNew_eq]
  · simp [heq]

theorem referenced_addHandle (s : AgentState) (inst hdl g h : Nat) :
    (s.setPins inst ((s.pinsOf inst).insertIfNew hdl g)).referenced h = true ↔
      s.referenced h = true ∨ g = h ∧ (s.pinsOf inst)[hdl]? = none := by
  rw [referenced_iff, referenced_iff]
  simp only [pinsOf_addHandle]
  constructor
  · intro href
    rcases href with ⟨inst', hdl', hin⟩ | hcall
    · split at hin
      · next hnew => exact .inr ⟨Option.some.inj hin, hnew.2.2⟩
      · exact .inl (.inl ⟨inst', hdl', hin⟩)
    · exact .inl (.inr hcall)
  · intro href
    rcases href with (⟨inst', hdl', hin⟩ | hcall) | ⟨rfl, hnone⟩
    · refine .inl ⟨inst', hdl', ?_⟩
      split
      · next hnew =>
          obtain ⟨rfl, rfl, hnone⟩ := hnew
          rw [hin] at hnone
          cases hnone
      · exact hin
    · exact .inr hcall
    · exact .inl ⟨inst, hdl, by rw [if_pos ⟨rfl, rfl, hnone⟩]⟩

theorem Tethered.addHandle {s : AgentState} (hs : Tethered [] s) {inst g : Nat} (hdl : Nat)
    {fd : Fd} (hinst : inst ∈ s.pins) (href : s.referenced g = true)
    (hopened : s.valueFdOf g = some (some fd)) :
    Tethered [] (s.setPins inst ((s.pinsOf inst).insertIfNew hdl g)) := by
  have hreferenced := s.referenced_addHandle inst hdl g
  refine ⟨hs.queuedOpened, hs.entryOpened, ?_, ?_, ?_, hs.callOpened, ?_, ?_, hs.bornHelpers⟩
  · intro h id impl c hnew himpl hc
    have hold : s.referenced h = true := by
      rcases (hreferenced h).mp hnew with hold | ⟨rfl, -⟩
      · exact hold
      · exact href
    exact (mem_setPins_iff hinst _ _).mpr (hs.connected hold himpl hc)
  · intro inst' hdl' h hin
    rw [pinsOf_addHandle] at hin
    split at hin
    · cases hin
      exact ⟨fd, hopened⟩
    · exact hs.handleOpened hin
  · intro call hcall
    obtain ⟨hmem, hhelper⟩ := hs.callAlive call hcall
    exact ⟨(mem_setPins_iff hinst _ _).mpr hmem, hhelper⟩
  · intro h hh
    exact (hs.held h hh).imp_left fun hold => (hreferenced h).mpr (.inl hold)
  · intro inst' hmem
    exact hs.bornPins inst' ((mem_setPins_iff hinst _ _).mp hmem)

theorem Tethered.finishOpen {s : AgentState} (hs : Tethered [] s) {inst g : Nat} (hdl : Nat)
    (hinst : inst ∈ s.pins) (hg : g ∈ s.helpers) (href : s.referenced g = true)
    (setup : Option Error) (res : Except Errno Fd) :
    Tethered [] (s.finishOpen g inst hdl setup res).2 := by
  cases setup with
  | some err => exact hs
  | none =>
      obtain ⟨hkept, -, hvalue⟩ := hs.openValueFd hg res
      have hothers := s.onHelper_others g fun r impl => impl.openValueFd g r res
      have hpins := (s.onHelper_tables g fun r impl => impl.openValueFd g r res).pins
      simp only [AgentState.finishOpen]
      split
      · next s' heq =>
          have hstate : _ = s' := congrArg Prod.snd heq
          exact hstate ▸ hkept
      · next fd s' heq =>
          have hstate : _ = s' := congrArg Prod.snd heq
          have hopened := hvalue fd (congrArg Prod.fst heq)
          rw [hstate] at hkept hopened hothers hpins
          refine hkept.addHandle hdl (hpins ▸ hinst) ?_ hopened
          rw [referenced_congr hpins hothers.1]
          exact href

theorem Tethered.registerForChange {s : AgentState} (hs : Tethered [] s) {inst g : Nat} (hdl : Nat)
    {impl : GpioHelper} {fd : Fd} (hinst : inst ∈ s.pins) (himpl : s.helpers[g]? = some impl)
    (hfd : impl.valueFd = some fd) (res : Except Errno Fd) (fault : Option Errno) :
    Tethered [] (s.registerForChange g inst hdl res fault).2 := by
  rw [registerForChange_of_opened himpl hfd, onHelper_of_some himpl,
    GpioHelper.addReactorAction_of_opened hfd]
  refine hs.update himpl rfl rfl rfl rfl (List.Subset.refl _) (fun _ h => h) ?_ ?_
  · intro id c hc
    rw [GpioHelper.addConnection, Table.getElem?_insert_eq] at hc
    split at hc
    · cases hc
      exact .inr hinst
    · exact .inl hc
  · intro fd' h hentry
    simp only at hentry
    split at hentry
    · by_cases haccepted : s.react.AcceptsFd fd GpioHelper.reactorEvents fault
      · rw [PollReactor.addFd_react_of_accepted haccepted, Table.getElem?_insert_eq] at hentry
        split at hentry
        · next heq =>
            cases hentry
            exact .inr ⟨rfl, heq ▸ hfd⟩
        · exact .inl hentry
      · rw [PollReactor.addFd_of_refused haccepted] at hentry
        exact .inl hentry
    · exact .inl hentry

theorem Tethered.withoutAction {loose : List Nat} {s : AgentState} (hs : Tethered loose s) {g : Nat}
    (hdl : Nat) {impl : GpioHelper} {fd : Fd} (himpl : s.helpers[g]? = some impl) :
    Tethered loose (s.withoutAction g hdl impl fd) := by
  refine hs.update himpl rfl rfl rfl rfl (List.Subset.refl _) (fun _ h => h) ?_ ?_
  · intro id c hc
    rw [GpioHelper.delConnection, Table.getElem?_erase_eq_some_iff] at hc
    exact .inl hc.2
  · intro fd' h hentry
    simp only [AgentState.withoutAction] at hentry
    split at hentry
    · rw [PollReactor.delFd_react, Table.getElem?_erase_eq_some_iff] at hentry
      exact .inl hentry.2
    · exact .inl hentry

theorem Tethered.serve {s : AgentState} (hs : Tethered [] s) {call : Call} (hcall : call ∈ s.calls)
    (setup : Option Error) (res : Except Errno Fd) (fault : Option Errno) :
    Tethered [] (s.serve call setup res fault) := by
  obtain ⟨hinst, hhelper⟩ := hs.callAlive call hcall
  have href : s.referenced call.helper = true :=
    (s.referenced_iff _).mpr (.inr ⟨call, hcall, rfl⟩)
  have hopened : call.kind ≠ .opening → ∃ impl fd, s.helpers[call.helper]? = some impl ∧
      impl.valueFd = some fd := by
    intro hkind
    obtain ⟨fd, hfd⟩ := hs.callOpened call hcall hkind
    obtain ⟨impl, himpl, hvalue⟩ := Option.map_eq_some_iff.mp hfd
    exact ⟨impl, fd, himpl, hvalue⟩
  unfold AgentState.serve
  cases hkind : call.kind with
  | opening => exact hs.finishOpen call.hdl hinst hhelper href setup res
  | register =>
      obtain ⟨impl, fd, himpl, hfd⟩ := hopened (by rw [hkind]; decide)
      exact hs.registerForChange call.hdl hinst himpl hfd res fault
  | unregister =>
      obtain ⟨impl, fd, himpl, hfd⟩ := hopened (by rw [hkind]; decide)
      simp only [unregisterChange_of_opened himpl hfd]
      exact hs.withoutAction call.hdl himpl

theorem serve_calls (s : AgentState) (call : Call) (setup : Option Error) (res : Except Errno Fd)
    (fault : Option Errno) : (s.serve call setup res fault).calls = s.calls := by
  have hothers : ∀ {α : Type} {s' : AgentState} {r : Except Error α}
      {f : PollReactor → GpioHelper → Except Error α × PollReactor × GpioHelper},
      s.onHelper call.helper f = (r, s') → s'.calls = s.calls := by
    intro α s' r f heq
    have hcalls := (s.onHelper_others call.helper f).1
    rwa [heq] at hcalls
  unfold serve
  split
  · unfold AgentState.finishOpen
    split
    · rfl
    · split <;> next heq =>
        have hcalls := hothers heq
        exact hcalls
  · unfold AgentState.registerForChange
    split
    · next heq => exact hothers heq
    · next heq => exact (onHelper_others _ _ _).1.trans (hothers heq)
  · unfold unregisterChange
    split
    · next heq => exact hothers heq
    · next heq =>
        split <;> next heq' =>
          exact (congrArg (fun p => p.2.calls) heq').symm.trans
            ((onHelper_others _ _ _).1.trans (hothers heq))

theorem Tethered.dropCall {s : AgentState} (hs : Tethered [] s) {n : Nat} {call : Call}
    (hcall : s.calls[n]? = some call) : Tethered [call.helper] (s.withoutCall n) := by
  have hcalls : (s.withoutCall n).calls ⊆ s.calls := fun _ hmem => List.mem_of_mem_eraseIdx hmem
  refine hs.shed rfl rfl rfl rfl (fun _ h => h) (fun h => h) hcalls
    (fun call' hmem => (hs.callAlive call' (hcalls hmem)).1) ?_ ?_
  · intro g id impl c _ himpl hc
    exact hs.safe.connected himpl hc
  · intro g href
    rcases (s.referenced_iff g).mp href with hhandle | ⟨call', hmem, heq⟩
    · exact .inl ((referenced_iff _ g).mpr (.inl hhandle))
    · obtain ⟨i, hi⟩ := List.mem_iff_getElem?.mp hmem
      by_cases hself : i = n
      · rw [hself, hcall] at hi
        cases hi
        exact .inr (List.mem_singleton.mpr heq.symm)
      · refine .inl ((referenced_iff _ g).mpr (.inr ⟨call', ?_, heq⟩))
        exact List.mem_eraseIdx_iff_getElem?.mpr ⟨i, hself, hi⟩

end AgentState

end FerroRemote.Agent

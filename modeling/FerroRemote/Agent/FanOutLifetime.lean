/-
# Fan-out and the end of its helper

Every step that drops references is compared with its state before: whether it
destroys a helper that a queued task or the reactor still points to, or an
instance that a surviving connection points to. A run keeps all pointers valid
if and only if no step of it does.
-/

import FerroRemote.Agent.HelperLifetime

namespace FerroRemote.Agent

namespace AgentState

theorem finishOpen_of_opened {s : AgentState} {g : Nat} {fd : Fd}
    (hopened : s.valueFdOf g = some (some fd)) (inst hdl : Nat) (setup : Option Error)
    (res : Except Errno Fd) :
    (s.finishOpen g inst hdl setup res).2 =
      if setup = none then s.setPins inst ((s.pinsOf inst).insertIfNew hdl g) else s := by
  cases setup with
  | some err => rfl
  | none =>
      obtain ⟨impl, himpl, hfd⟩ := Option.map_eq_some_iff.mp hopened
      simp only [finishOpen, onHelper_openValueFd himpl hfd, if_true]

theorem finishOpen_others {s : AgentState} (hs : Tethered [] s) {g : Nat} (hg : g ∈ s.helpers)
    (inst hdl : Nat) (setup : Option Error) (res : Except Errno Fd) :
    (s.finishOpen g inst hdl setup res).2.queue = s.queue ∧
      (s.finishOpen g inst hdl setup res).2.react.react = s.react.react := by
  cases setup with
  | some err => exact ⟨rfl, rfl⟩
  | none =>
      have hqueue := (s.onHelper_others g fun r impl => impl.openValueFd g r res).2
      have hreact := (hs.openValueFd hg res).2.1
      simp only [finishOpen]
      split <;> next heq => rw [heq] at hqueue hreact; exact ⟨hqueue, hreact⟩

theorem registered_registerForChange {s : AgentState} {g : Nat} {impl : GpioHelper} {fd : Fd}
    (himpl : s.helpers[g]? = some impl) (hfd : impl.valueFd = some fd) (inst hdl : Nat)
    (res : Except Errno Fd) (fault : Option Errno) :
    (s.registerForChange g inst hdl res fault).2.Registered g ↔
      s.Registered g ∨ s.Registers g fault := by
  have hregisters : s.Registers g fault ↔
      impl.connections.isEmpty = true ∧ s.react.AcceptsFd fd GpioHelper.reactorEvents fault := by
    constructor
    · intro h
      obtain ⟨impl', fd', himpl', hfd', hrest⟩ := h
      cases himpl.symm.trans himpl'
      cases hfd.symm.trans hfd'
      exact hrest
    · intro h
      exact ⟨impl, fd, himpl, hfd, h⟩
  rw [registerForChange_of_opened himpl hfd, onHelper_of_some himpl,
    GpioHelper.addReactorAction_of_opened hfd, hregisters]
  by_cases hempty : impl.connections.isEmpty = true
  · simp only [hempty, if_true, true_and]
    by_cases haccepted : s.react.AcceptsFd fd GpioHelper.reactorEvents fault
    · refine ⟨fun _ => .inr haccepted, fun _ => ⟨fd, ?_⟩⟩
      rw [PollReactor.addFd_react_of_accepted haccepted]
      simp
    · rw [or_iff_left haccepted, Registered, PollReactor.addFd_of_refused haccepted]
      rfl
  · simp only [hempty, Bool.false_eq_true, if_false, false_and, or_false]
    rfl

/-- Deleting the last connection takes the helper off the reactor. -/
theorem registered_withoutAction {s : AgentState} (hs : Tethered [] s) {g : Nat} {impl : GpioHelper}
    {fd : Fd} (himpl : s.helpers[g]? = some impl) (hfd : impl.valueFd = some fd) (hdl : Nat) :
    (s.withoutAction g hdl impl fd).Registered g ↔
      s.Registered g ∧ (impl.connections.erase hdl).isEmpty = false := by
  by_cases hlast : (impl.connections.erase hdl).isEmpty = true
  · have hgone : ¬ (s.withoutAction g hdl impl fd).Registered g := by
      intro hregistered
      obtain ⟨fd', hentry⟩ := hregistered
      rw [withoutAction_react_last hlast, PollReactor.delFd_react,
        Table.getElem?_erase_eq_some_iff] at hentry
      have hvalue := hs.entryOpened hentry.2
      rw [valueFdOf, himpl, Option.map_some, hfd] at hvalue
      exact hentry.1 (Option.some.inj (Option.some.inj hvalue))
    simp only [hgone, hlast, Bool.true_eq_false, and_false]
  · rw [Registered, withoutAction_react hlast, and_iff_left (Bool.eq_false_iff.mpr hlast)]
    rfl

/-- The condition on a deletion, for the helper at hand. -/
theorem pointedWithout_iff {s : AgentState} {g : Nat} {impl : GpioHelper}
    (himpl : s.helpers[g]? = some impl) (hdl : Nat) :
    s.PointedWithout g hdl ↔
      s.Queued g ∨ s.Registered g ∧ (impl.connections.erase hdl).isEmpty = false := by
  refine or_congr_right (and_congr_right fun _ => ⟨fun h => ?_, fun h => ⟨impl, himpl, h⟩⟩)
  obtain ⟨impl', himpl', hleft⟩ := h
  cases himpl.symm.trans himpl'
  exact hleft

/-- An RPC spares pointers exactly when its helper, if anything points to it
after the RPC's work, is referenced without the RPC. -/
theorem sparesPointers_finish {s : AgentState} (hs : Tethered [] s) {n : Nat} {call : Call}
    (hcall : s.calls[n]? = some call) (setup : Option Error) (res : Except Errno Fd)
    (fault : Option Errno) :
    s.SparesPointers (.finish n setup res fault) ↔
      ((s.serve call setup res fault).Queued call.helper ∨
          (s.serve call setup res fault).Registered call.helper →
        ((s.serve call setup res fault).withoutCall n).referenced call.helper = true) := by
  have hmem : call ∈ s.calls := List.mem_of_getElem? hcall
  obtain ⟨hinst, hhelper⟩ := hs.callAlive call hmem
  have hunfold : s.SparesPointers (.finish n setup res fault) ↔
      s.SparesHelper n call setup fault := by
    constructor
    · intro h
      exact h call hcall
    · intro h call' hcall'
      cases hcall.symm.trans hcall'
      exact h
  rw [hunfold, SparesHelper, AgentState.serve]
  have hopened : call.kind ≠ .opening → ∃ impl fd, s.helpers[call.helper]? = some impl ∧
      impl.valueFd = some fd := by
    intro hkind
    obtain ⟨fd, hfd⟩ := hs.callOpened call hmem hkind
    obtain ⟨impl, himpl, hvalue⟩ := Option.map_eq_some_iff.mp hfd
    exact ⟨impl, fd, himpl, hvalue⟩
  cases hkind : call.kind with
  | opening =>
      obtain ⟨hqueue, hreact⟩ := finishOpen_others hs hhelper call.inst call.hdl setup res
      simp only [Queued, Registered, hqueue, hreact]
      refine imp_congr_right fun hpointed => ?_
      have hfd : ∃ fd, s.valueFdOf call.helper = some (some fd) := by
        rcases hpointed with hqueued | ⟨fd, hentry⟩
        · exact hs.queuedOpened hqueued
        · exact ⟨fd, hs.entryOpened hentry⟩
      obtain ⟨fd, hfd⟩ := hfd
      rw [finishOpen_of_opened hfd]
      by_cases hsetup : setup = none
      · rw [if_pos hsetup, and_iff_right hsetup]
        have hadded := (s.withoutCall n).referenced_addHandle call.inst call.hdl call.helper call.helper
        rw [and_iff_right rfl] at hadded
        exact hadded.symm
      · rw [if_neg hsetup, or_iff_left fun h => hsetup h.1]
  | register =>
      obtain ⟨impl, fd, himpl, hfd⟩ := hopened (by rw [hkind]; decide)
      have hregistered := registered_registerForChange himpl hfd call.inst call.hdl res fault
      simp only
      rw [hregistered, registerForChange_of_opened himpl hfd, onHelper_of_some himpl]
      exact Iff.rfl
  | unregister =>
      obtain ⟨impl, fd, himpl, hfd⟩ := hopened (by rw [hkind]; decide)
      have hregistered := registered_withoutAction hs himpl hfd call.hdl
      simp only [unregisterChange_of_opened himpl hfd, hregistered, pointedWithout_iff himpl]
      exact Iff.rfl

theorem Tethered.finish {s : AgentState} (hs : Tethered [] s) {n : Nat} {call : Call}
    (hcall : s.calls[n]? = some call) {setup : Option Error} {res : Except Errno Fd}
    {fault : Option Errno} (hspares : s.SparesPointers (.finish n setup res fault)) :
    Tethered [] (((s.serve call setup res fault).withoutCall n).release call.helper) := by
  have hserved := hs.serve (List.mem_of_getElem? hcall) setup res fault
  have hcall' : (s.serve call setup res fault).calls[n]? = some call := by
    rw [serve_calls, hcall]
  refine (hserved.dropCall hcall').settle fun g hg hpointed => ?_
  rw [List.mem_singleton.mp hg] at hpointed ⊢
  exact (sparesPointers_finish hs hcall setup res fault).mp hspares hpointed

/-- `close` before it drops its reference. -/
def unlink (s : AgentState) (g inst hdl : Nat) : AgentState :=
  ((s.delActionIfOpened g hdl).eraseGpio inst hdl).closePin hdl

theorem closePin_same (s : AgentState) (pin : Nat) :
    SameHolders s (s.closePin pin) ∧ (s.closePin pin).helpers = s.helpers := by
  unfold closePin
  split
  · exact ⟨⟨rfl, rfl, rfl, rfl, rfl⟩, rfl⟩
  · split <;> exact ⟨⟨rfl, rfl, rfl, rfl, rfl⟩, rfl⟩

theorem Tethered.eraseGpio {s : AgentState} (hs : Tethered [] s) {inst hdl g : Nat}
    (hg : (s.pinsOf inst)[hdl]? = some g) : Tethered [g] (s.eraseGpio inst hdl) := by
  have hinst : inst ∈ s.pins := mem_pins_of_getElem? hg
  have hpins := mem_setPins_iff hinst ((s.pinsOf inst).erase hdl)
  refine hs.shed rfl rfl rfl rfl (fun inst' h => (hpins inst').mp h) ?_ (List.Subset.refl _) ?_ ?_ ?_
  · intro inst' hdl' h hin
    rw [pinsOf_eraseGpio] at hin
    split at hin
    · cases hin
    · exact hin
  · intro call hcall
    exact (hpins _).mpr (hs.callAlive call hcall).1
  · intro h id impl c _ himpl hc
    exact (hpins _).mpr (hs.safe.connected himpl hc)
  · intro h href
    rcases (s.referenced_iff h).mp href with ⟨inst', hdl', hin⟩ | hcall
    · by_cases hself : inst = inst' ∧ hdl = hdl'
      · obtain ⟨rfl, rfl⟩ := hself
        cases hg.symm.trans hin
        exact .inr (List.mem_singleton.mpr rfl)
      · refine .inl ((referenced_iff _ h).mpr (.inl ⟨inst', hdl', ?_⟩))
        rw [pinsOf_eraseGpio, if_neg hself]
        exact hin
    · exact .inl ((referenced_iff _ h).mpr (.inr hcall))

/-- `close` spares pointers exactly when its helper, if anything still points to
it once the handle is gone, is referenced without the handle. -/
theorem sparesPointers_close {s : AgentState} (hs : Tethered [] s) {inst hdl g : Nat}
    (hg : (s.pinsOf inst)[hdl]? = some g) :
    s.SparesPointers (.gpioClose inst hdl) ↔
      ((s.unlink g inst hdl).Queued g ∨ (s.unlink g inst hdl).Registered g →
        (s.unlink g inst hdl).referenced g = true) := by
  obtain ⟨fd, hopened⟩ := hs.handleOpened hg
  obtain ⟨impl, himpl, hfd⟩ := Option.map_eq_some_iff.mp hopened
  obtain ⟨hsame, -⟩ := ((s.delActionIfOpened g hdl).eraseGpio inst hdl).closePin_same hdl
  have hunlink : s.unlink g inst hdl =
      ((s.withoutAction g hdl impl fd).eraseGpio inst hdl).closePin hdl := by
    rw [unlink, delActionIfOpened_of_opened himpl hfd]
  rw [delActionIfOpened_of_opened himpl hfd] at hsame
  have hqueued : (s.unlink g inst hdl).Queued g ↔ s.Queued g := by
    rw [hunlink, Queued, hsame.queue]
    exact Iff.rfl
  have hregistered : (s.unlink g inst hdl).Registered g ↔
      s.Registered g ∧ (impl.connections.erase hdl).isEmpty = false := by
    rw [← registered_withoutAction hs himpl hfd hdl, hunlink, Registered, hsame.react]
    exact Iff.rfl
  have hreferenced : (s.unlink g inst hdl).referenced g = (s.eraseGpio inst hdl).referenced g := by
    rw [hunlink]
    exact referenced_congr hsame.pins hsame.calls g
  rw [hqueued, hregistered, hreferenced, ← pointedWithout_iff himpl]
  constructor
  · intro h
    exact h g hg
  · intro h g' hg'
    cases hg.symm.trans hg'
    exact h

theorem Tethered.gpioClose {s : AgentState} (hs : Tethered [] s) {inst hdl : Nat}
    (hspares : s.SparesPointers (.gpioClose inst hdl)) : Tethered [] (s.gpioClose inst hdl) := by
  cases hg : (s.pinsOf inst)[hdl]? with
  | none => simpa [AgentState.gpioClose, hg] using hs
  | some g =>
      have hfree := (sparesPointers_close hs hg).mp hspares
      obtain ⟨fd, hopened⟩ := hs.handleOpened hg
      obtain ⟨impl, himpl, hfd⟩ := Option.map_eq_some_iff.mp hopened
      have hdeleted : Tethered [] (s.delActionIfOpened g hdl) := by
        rw [delActionIfOpened_of_opened himpl hfd]
        exact hs.withoutAction hdl himpl
      have hpins : (s.delActionIfOpened g hdl).pinsOf inst = s.pinsOf inst := by
        rw [delActionIfOpened_of_opened himpl hfd]
        rfl
      have hg' : ((s.delActionIfOpened g hdl).pinsOf inst)[hdl]? = some g := hpins ▸ hg
      have herased := hdeleted.eraseGpio hg'
      obtain ⟨hsame, hhelpers⟩ := ((s.delActionIfOpened g hdl).eraseGpio inst hdl).closePin_same hdl
      have hunlinked : Tethered [g] (s.unlink g inst hdl) := herased.sameHolders hsame hhelpers
      simp only [AgentState.gpioClose, hg]
      refine hunlinked.settle fun h hh => ?_
      rw [List.mem_singleton.mp hh]
      exact hfree

/-- The loop of `~gpio_impl`. -/
def delActions (s : AgentState) (entries : List (Nat × Nat)) : AgentState :=
  entries.foldl (fun s entry => s.delActionIfOpened entry.2 entry.1) s

/-- The instance is gone, and the references of its handles are still to be
dropped. -/
def unlinkAll (s : AgentState) (inst : Nat) : AgentState :=
  (s.delActions (s.pinsOf inst).toList).withoutInstance inst

theorem gpioDisconnect_eq (s : AgentState) (inst : Nat) :
    s.gpioDisconnect inst = (s.unlinkAll inst).releaseAll ((s.pinsOf inst).toList.map (·.2)) := by
  rw [releaseAll, List.foldl_map]
  rfl

theorem delActionIfOpened_eq {s : AgentState} {g : Nat} (hdl : Nat)
    (hopened : ∃ fd, s.valueFdOf g = some (some fd)) :
    ∃ impl fd, s.helpers[g]? = some impl ∧ impl.valueFd = some fd ∧
      s.delActionIfOpened g hdl = s.withoutAction g hdl impl fd := by
  obtain ⟨fd, hvalue⟩ := hopened
  obtain ⟨impl, himpl, hfd⟩ := Option.map_eq_some_iff.mp hvalue
  exact ⟨impl, fd, himpl, hfd, delActionIfOpened_of_opened himpl hfd hdl⟩

theorem delActions_others (entries : List (Nat × Nat)) (s : AgentState) :
    (s.delActions entries).pins = s.pins ∧ (s.delActions entries).calls = s.calls ∧
      (s.delActions entries).queue = s.queue := by
  induction entries generalizing s with
  | nil => exact ⟨rfl, rfl, rfl⟩
  | cons entry entries ih =>
      have hfirst : (s.delActionIfOpened entry.2 entry.1).pins = s.pins ∧
          (s.delActionIfOpened entry.2 entry.1).calls = s.calls ∧
          (s.delActionIfOpened entry.2 entry.1).queue = s.queue := by
        rcases s.delActionIfOpened_cases entry.2 entry.1 with heq | ⟨impl, fd, -, -, heq⟩ <;>
          rw [heq] <;> exact ⟨rfl, rfl, rfl⟩
      obtain ⟨hpins, hcalls, hqueue⟩ := ih (s.delActionIfOpened entry.2 entry.1)
      exact ⟨hpins.trans hfirst.1, hcalls.trans hfirst.2.1, hqueue.trans hfirst.2.2⟩

theorem Tethered.delActions {s : AgentState} (hs : Tethered [] s) (entries : List (Nat × Nat)) :
    Tethered [] (s.delActions entries) := by
  induction entries generalizing s with
  | nil => exact hs
  | cons entry entries ih =>
      have hfirst : Tethered [] (s.delActionIfOpened entry.2 entry.1) := by
        rcases s.delActionIfOpened_cases entry.2 entry.1 with heq | ⟨impl, fd, himpl, -, heq⟩
        · rw [heq]
          exact hs
        · rw [heq]
          exact hs.withoutAction entry.1 himpl
      exact ih hfirst

theorem valueFdOf_withoutAction {s : AgentState} {g : Nat} {impl : GpioHelper}
    (himpl : s.helpers[g]? = some impl) (hdl : Nat) (fd : Fd) (h : Nat) :
    (s.withoutAction g hdl impl fd).valueFdOf h = s.valueFdOf h := by
  have hsame : (impl.delConnection hdl).valueFd = impl.valueFd := rfl
  exact valueFdOf_update himpl hsame h

/-- The first turn of the loop, when all value descriptors are open. -/
theorem delActions_cons {s : AgentState} {hdl g : Nat} {entries : List (Nat × Nat)}
    (hopened : ∀ entry ∈ (hdl, g) :: entries, ∃ fd, s.valueFdOf entry.2 = some (some fd)) :
    ∃ impl fd, s.helpers[g]? = some impl ∧ impl.valueFd = some fd ∧
      s.delActions ((hdl, g) :: entries) = (s.withoutAction g hdl impl fd).delActions entries ∧
      ∀ entry ∈ entries,
        ∃ fd', (s.withoutAction g hdl impl fd).valueFdOf entry.2 = some (some fd') := by
  obtain ⟨impl, fd, himpl, hfd, heq⟩ := delActionIfOpened_eq hdl (hopened _ List.mem_cons_self)
  refine ⟨impl, fd, himpl, hfd, congrArg (fun t => t.delActions entries) heq, ?_⟩
  intro entry hmem
  rw [valueFdOf_withoutAction himpl]
  exact hopened entry (List.mem_cons_of_mem _ hmem)

theorem delActions_connections {entries : List (Nat × Nat)} {s : AgentState}
    (hopened : ∀ entry ∈ entries, ∃ fd, s.valueFdOf entry.2 = some (some fd)) (g : Nat) :
    (∀ {impl : GpioHelper}, s.helpers[g]? = some impl →
      ∃ impl', (s.delActions entries).helpers[g]? = some impl' ∧
        ∀ id : Nat, impl'.connections[id]? =
          if (id, g) ∈ entries then none else impl.connections[id]?) ∧
      (s.helpers[g]? = none → (s.delActions entries).helpers[g]? = none) := by
  induction entries generalizing s with
  | nil => exact ⟨fun himpl => ⟨_, himpl, fun id => rfl⟩, fun hnone => hnone⟩
  | cons entry entries ih =>
      obtain ⟨hdl, g'⟩ := entry
      obtain ⟨impl₀, fd, himpl₀, -, hstep, hrest⟩ := delActions_cons hopened
      obtain ⟨hsome, hnone⟩ := ih hrest
      have hlookup := s.withoutAction_helpers g' hdl impl₀ fd g
      rw [hstep]
      by_cases hself : g' = g
      · subst hself
        rw [if_pos rfl] at hlookup
        constructor
        · intro impl himpl
          cases himpl₀.symm.trans himpl
          obtain ⟨impl', himpl', hconn⟩ := hsome hlookup
          refine ⟨impl', himpl', fun id => ?_⟩
          rw [hconn id, GpioHelper.delConnection, Table.getElem?_erase_eq]
          by_cases hid : hdl = id
          · simp [hid]
          · simp [hid, Ne.symm hid]
        · intro hgone
          rw [himpl₀] at hgone
          cases hgone
      · rw [if_neg hself] at hlookup
        constructor
        · intro impl himpl
          obtain ⟨impl', himpl', hconn⟩ := hsome (hlookup.trans himpl)
          refine ⟨impl', himpl', fun id => ?_⟩
          rw [hconn id]
          simp [Ne.symm hself]
        · intro hgone
          exact hnone (hlookup.trans hgone)

/-- Whether an entry is left alone, split into the first turn and the rest. -/
theorem keepsEntry_cons {s : AgentState} {g hdl : Nat} {impl : GpioHelper} {fd₀ : Fd}
    (himpl : s.helpers[g]? = some impl) (hfd₀ : impl.valueFd = some fd₀)
    (entries : List (Nat × Nat)) (fd : Fd) :
    s.KeepsEntry ((hdl, g) :: entries) fd ↔
      (s.withoutAction g hdl impl fd₀).KeepsEntry entries fd ∧
        ¬ (fd₀ = fd ∧ (impl.connections.erase hdl).isEmpty = true) := by
  have hlookup := s.withoutAction_helpers g hdl impl fd₀
  have herase := impl.connections.mem_erase_iff hdl
  have hlisted : ∀ id h : Nat, (id, h) ∈ (hdl, g) :: entries ↔
      (hdl = id ∧ g = h) ∨ (id, h) ∈ entries := by
    intro id h
    rw [List.mem_cons, Prod.mk.injEq, eq_comm, eq_comm (a := h)]
  constructor
  · intro hkeep
    constructor
    · intro hdl' h impl' hmem himpl' hfd'
      rw [hlookup] at himpl'
      split at himpl'
      · next hself =>
          subst hself
          cases himpl'
          obtain ⟨id, hid, hout⟩ := hkeep hdl' g impl (List.mem_cons_of_mem _ hmem) himpl hfd'
          rw [hlisted, not_or] at hout
          exact ⟨id, (herase id).mpr ⟨fun heq => hout.1 ⟨heq, rfl⟩, hid⟩, hout.2⟩
      · obtain ⟨id, hid, hout⟩ := hkeep hdl' h impl' (List.mem_cons_of_mem _ hmem) himpl' hfd'
        exact ⟨id, hid, fun hin => hout (List.mem_cons_of_mem _ hin)⟩
    · intro hlast
      obtain ⟨rfl, hempty⟩ := hlast
      obtain ⟨id, hid, hout⟩ := hkeep hdl g impl List.mem_cons_self himpl hfd₀
      rw [hlisted, not_or] at hout
      have hgone := (Table.not_mem_iff _ _).mpr ((Table.isEmpty_iff_forall _).mp hempty id)
      exact hgone ((herase id).mpr ⟨fun heq => hout.1 ⟨heq, rfl⟩, hid⟩)
  · intro hsplit hdl' h impl' hmem himpl' hfd'
    obtain ⟨hkeep, hlast⟩ := hsplit
    by_cases hself : g = h
    · subst hself
      cases himpl.symm.trans himpl'
      cases hfd₀.symm.trans hfd'
      obtain ⟨id, v, hid⟩ := (Table.isEmpty_eq_false_iff_exists _).mp
        (Bool.eq_false_iff.mpr fun hempty => hlast ⟨rfl, hempty⟩)
      have hid := (herase id).mp ((Table.mem_iff_exists _ _).mpr ⟨v, hid⟩)
      -- either this connection is not listed, or its own turn leaves one that is not
      by_cases hin : (id, g) ∈ entries
      · obtain ⟨id', hid', hout⟩ :=
          hkeep id g (impl.delConnection hdl) hin (by rw [hlookup, if_pos rfl]) hfd₀
        obtain ⟨hne, hconn⟩ := (herase id').mp hid'
        refine ⟨id', hconn, ?_⟩
        rw [hlisted, not_or]
        exact ⟨fun heq => hne heq.1, hout⟩
      · refine ⟨id, hid.2, ?_⟩
        rw [hlisted, not_or]
        exact ⟨fun heq => hid.1 heq.1, hin⟩
    · have hmem : (hdl', h) ∈ entries := by
        rw [hlisted] at hmem
        exact hmem.resolve_left fun heq => hself heq.2
      obtain ⟨id, hid, hout⟩ :=
        hkeep hdl' h impl' hmem (by rw [hlookup, if_neg hself]; exact himpl') hfd'
      refine ⟨id, hid, ?_⟩
      rw [hlisted, not_or]
      exact ⟨fun heq => hself heq.2, hout⟩

/-- What is left of an entry of the reactor when the loop is done. -/
theorem delActions_entry {entries : List (Nat × Nat)} {s : AgentState}
    (hopened : ∀ entry ∈ entries, ∃ fd, s.valueFdOf entry.2 = some (some fd)) (fd : Fd) :
    (s.KeepsEntry entries fd → (s.delActions entries).react.react[fd]? = s.react.react[fd]?) ∧
      (¬ s.KeepsEntry entries fd → (s.delActions entries).react.react[fd]? = none) := by
  induction entries generalizing s with
  | nil =>
      refine ⟨fun _ => rfl, fun hnot => absurd ?_ hnot⟩
      intro hdl g impl hmem
      cases hmem
  | cons entry entries ih =>
      obtain ⟨hdl, g⟩ := entry
      obtain ⟨impl, fd₀, himpl, hfd₀, hstep, hrest⟩ := delActions_cons hopened
      obtain ⟨hkeeps, hdrops⟩ := ih hrest
      have hfirst : (s.withoutAction g hdl impl fd₀).react.react[fd]? =
          if fd₀ = fd ∧ (impl.connections.erase hdl).isEmpty = true then none
          else s.react.react[fd]? := by
        by_cases hlast : (impl.connections.erase hdl).isEmpty = true
        · rw [withoutAction_react_last hlast, PollReactor.delFd_react, Table.getElem?_erase_eq]
          simp [hlast]
        · rw [withoutAction_react hlast, if_neg fun hgone => hlast hgone.2]
      rw [hstep, keepsEntry_cons himpl hfd₀]
      constructor
      · intro hkeep
        rw [hkeeps hkeep.1, hfirst, if_neg hkeep.2]
      · intro hnot
        by_cases hleft : (s.withoutAction g hdl impl fd₀).KeepsEntry entries fd
        · rw [hkeeps hleft, hfirst, if_pos (not_not.mp fun hlast => hnot ⟨hleft, hlast⟩)]
        · exact hdrops hleft

theorem pinsOf_withoutInstance (s : AgentState) (inst inst' : Nat) :
    (s.withoutInstance inst).pinsOf inst' = if inst = inst' then ∅ else s.pinsOf inst' := by
  simp only [withoutInstance, pinsOf, Table.getElem?_erase_eq]
  split <;> rfl

/-- Who is not referenced any more when an instance goes, was one of its own. -/
theorem referenced_withoutInstance {s : AgentState} {g : Nat} (href : s.referenced g = true)
    (inst : Nat) : (s.withoutInstance inst).referenced g = true ∨
      g ∈ (s.pinsOf inst).toList.map (·.2) := by
  rcases (s.referenced_iff g).mp href with ⟨inst', hdl, hg⟩ | hcall
  · by_cases heq : inst = inst'
    · subst heq
      exact .inr (List.mem_map.mpr
        ⟨(hdl, g), Std.ExtTreeMap.mem_toList_iff_getElem?_eq_some.mpr hg, rfl⟩)
    · refine .inl ((referenced_iff _ g).mpr (.inl ⟨inst', hdl, ?_⟩))
      rw [pinsOf_withoutInstance, if_neg heq]
      exact hg
  · exact .inl ((referenced_iff _ g).mpr (.inr hcall))

theorem Tethered.handlesOpened {loose : List Nat} {s : AgentState} (hs : Tethered loose s)
    (inst : Nat) : ∀ entry ∈ (s.pinsOf inst).toList, ∃ fd, s.valueFdOf entry.2 = some (some fd) :=
  fun _ hentry => hs.handleOpened (Std.ExtTreeMap.mem_toList_iff_getElem?_eq_some.mp hentry)

theorem unlinkAll_referenced (s : AgentState) (inst g : Nat) :
    (s.unlinkAll inst).referenced g = (s.withoutInstance inst).referenced g := by
  obtain ⟨hpins, hcalls, -⟩ := delActions_others (s.pinsOf inst).toList s
  have hpins' : (s.unlinkAll inst).pins = (s.withoutInstance inst).pins :=
    congrArg (fun pins => pins.erase inst) hpins
  have hcalls' : (s.unlinkAll inst).calls = (s.withoutInstance inst).calls := hcalls
  exact referenced_congr hpins' hcalls' g

/-- The part of the condition on a disconnect that is about helpers. -/
theorem sparesPointers_disconnect {s : AgentState} (hs : Tethered [] s) (inst : Nat) :
    ((∀ g : Nat, s.Queued g → (s.withoutInstance inst).referenced g = true) ∧
      ∀ (g : Nat) (fd : Fd), s.react.react[fd]? = some (.pinEvent g) →
        s.KeepsEntry (s.pinsOf inst).toList fd → (s.withoutInstance inst).referenced g = true) ↔
    ∀ g ∈ (s.pinsOf inst).toList.map (·.2),
      (s.unlinkAll inst).Queued g ∨ (s.unlinkAll inst).Registered g →
        (s.unlinkAll inst).referenced g = true := by
  have hqueued : ∀ g : Nat, (s.unlinkAll inst).Queued g ↔ s.Queued g := by
    intro g
    rw [Queued, unlinkAll, withoutInstance, (delActions_others _ s).2.2]
    exact Iff.rfl
  have hregistered : ∀ g : Nat, (s.unlinkAll inst).Registered g ↔
      ∃ fd : Fd, s.react.react[fd]? = some (.pinEvent g) ∧
        s.KeepsEntry (s.pinsOf inst).toList fd := by
    intro g
    refine exists_congr fun fd => ?_
    obtain ⟨hkeeps, hdrops⟩ := delActions_entry (hs.handlesOpened inst) fd
    show (s.delActions (s.pinsOf inst).toList).react.react[fd]? = some (.pinEvent g) ↔ _
    by_cases hkeep : s.KeepsEntry (s.pinsOf inst).toList fd
    · rw [hkeeps hkeep, and_iff_left hkeep]
    · rw [hdrops hkeep]
      simp [hkeep]
  simp only [hqueued, hregistered, unlinkAll_referenced]
  constructor
  · intro hspares g _ hpointed
    rcases hpointed with hqueued | ⟨fd, hentry, hkeep⟩
    · exact hspares.1 g hqueued
    · exact hspares.2 g fd hentry hkeep
  · intro hfree
    -- a helper behind no handle of the instance keeps its reference anyway
    have hall : ∀ g : Nat, g ∈ s.helpers →
        (s.Queued g ∨ ∃ fd : Fd, s.react.react[fd]? = some (.pinEvent g) ∧
          s.KeepsEntry (s.pinsOf inst).toList fd) → (s.withoutInstance inst).referenced g = true := by
      intro g hmem hpointed
      rcases hs.held g hmem with href | hnone
      · rcases referenced_withoutInstance href inst with hkept | hin
        · exact hkept
        · exact hfree g hin hpointed
      · cases hnone
    exact ⟨fun g hqueued => hall g (hs.safe.queued g hqueued) (.inl hqueued),
      fun g fd hentry hkeep =>
        hall g (hs.safe.registered g ⟨fd, hentry⟩) (.inr ⟨fd, hentry, hkeep⟩)⟩

/-- A connection outlasts the loop exactly when no handle of the instance is
behind it. -/
theorem unlinkAll_connections {s : AgentState} (hs : Tethered [] s) (inst : Nat) {g id : Nat}
    {c : Connection} :
    (∃ impl, (s.unlinkAll inst).helpers[g]? = some impl ∧ impl.connections[id]? = some c) ↔
      ∃ impl, s.helpers[g]? = some impl ∧ impl.connections[id]? = some c ∧
        (s.pinsOf inst)[id]? ≠ some g := by
  obtain ⟨hsome, hnone⟩ := delActions_connections (hs.handlesOpened inst) g
  have hlisted : (id, g) ∈ (s.pinsOf inst).toList ↔ (s.pinsOf inst)[id]? = some g :=
    Std.ExtTreeMap.mem_toList_iff_getElem?_eq_some
  constructor
  · intro hleft
    obtain ⟨impl', himpl', hc⟩ := hleft
    cases himpl : s.helpers[g]? with
    | none =>
        have hgone := (hnone himpl).symm.trans himpl'
        cases hgone
    | some impl =>
        obtain ⟨impl'', himpl'', hconn⟩ := hsome himpl
        cases himpl''.symm.trans himpl'
        rw [hconn] at hc
        split at hc
        · cases hc
        · next hout => exact ⟨impl, rfl, hc, fun hin => hout (hlisted.mpr hin)⟩
  · intro hbefore
    obtain ⟨impl, himpl, hc, hout⟩ := hbefore
    obtain ⟨impl', himpl', hconn⟩ := hsome himpl
    refine ⟨impl', himpl', ?_⟩
    rw [hconn, if_neg fun hin => hout (hlisted.mp hin)]
    exact hc

theorem Tethered.gpioDisconnect {s : AgentState} (hs : Tethered [] s) {inst : Nat}
    (hidle : ∀ call ∈ s.calls, call.inst ≠ inst)
    (hspares : s.SparesPointers (.gpioDisconnect inst)) : Tethered [] (s.gpioDisconnect inst) := by
  obtain ⟨hqueued, hentries, hconnected⟩ := hspares
  have hdeleted := hs.delActions (s.pinsOf inst).toList
  obtain ⟨hpins, hcalls, -⟩ := delActions_others (s.pinsOf inst).toList s
  have hpinsOf : (s.delActions (s.pinsOf inst).toList).pinsOf inst = s.pinsOf inst :=
    congrArg (fun pins => pins[inst]?.getD ∅) hpins
  have hunlinked : Tethered ((s.pinsOf inst).toList.map (·.2)) (s.unlinkAll inst) := by
    refine hdeleted.shed rfl rfl rfl rfl ?_ ?_ (List.Subset.refl _) ?_ ?_ ?_
    · intro inst' hmem
      exact (Std.ExtTreeMap.mem_erase.mp hmem).2
    · intro inst' hdl g hg
      rw [unlinkAll, pinsOf_withoutInstance] at hg
      split at hg
      · simp at hg
      · exact hg
    · intro call hcall
      have hne := hidle call (hcalls ▸ hcall)
      exact (Table.mem_erase_iff _ _ _).mpr ⟨Ne.symm hne, (hdeleted.callAlive call hcall).1⟩
    · intro g id impl c href himpl hc
      obtain ⟨impl₀, himpl₀, hc₀, hout⟩ := (unlinkAll_connections hs inst).mp ⟨impl, himpl, hc⟩
      rw [unlinkAll_referenced] at href
      have hne : c.inst ≠ inst := fun heq => hout (hconnected g id impl₀ c himpl₀ hc₀ heq href)
      refine (Table.mem_erase_iff _ _ _).mpr ⟨Ne.symm hne, ?_⟩
      rw [hpins]
      exact hs.safe.connected himpl₀ hc₀
    · intro g href
      have hsplit := referenced_withoutInstance href inst
      rw [hpinsOf] at hsplit
      exact hsplit
  rw [gpioDisconnect_eq]
  exact hunlinked.settle ((sparesPointers_disconnect hs inst).mp ⟨hqueued, hentries⟩)

theorem sparesPointers_of_safe_disconnect {s : AgentState} (hs : Tethered [] s) {inst : Nat}
    (hsafe : (s.gpioDisconnect inst).FanOutSafe) : s.SparesPointers (.gpioDisconnect inst) := by
  rw [gpioDisconnect_eq] at hsafe
  obtain ⟨hqueued, hentries⟩ :=
    (sparesPointers_disconnect hs inst).mpr fun g hin => referenced_of_safe hsafe g hin
  refine ⟨hqueued, hentries, fun g id impl c himpl hc hinst href => ?_⟩
  by_contra hout
  obtain ⟨impl', himpl', hc'⟩ := (unlinkAll_connections hs inst).mpr ⟨impl, himpl, hc, hout⟩
  obtain ⟨hsame, hlookup⟩ := releaseAll_effect ((s.pinsOf inst).toList.map (·.2)) (s.unlinkAll inst)
  have hkept : ((s.unlinkAll inst).releaseAll ((s.pinsOf inst).toList.map (·.2))).helpers[g]? =
      some impl' := by
    rw [hlookup, unlinkAll_referenced, if_neg fun h => h.2 href]
    exact himpl'
  have hmem := hsafe.connected hkept hc'
  rw [hsame.pins, hinst] at hmem
  exact absurd rfl ((Table.mem_erase_iff _ _ _).mp hmem).1

theorem runReaction_posts (s : AgentState) (cb : Reaction) (ev : Event) :
    ∃ tasks, (s.runReaction cb ev).2 = { s with queue := s.queue ++ tasks } ∧
      ∀ t ∈ tasks, ∃ fd, s.valueFdOf t.helper = some (some fd) := by
  cases cb with
  | fileEvent inst file fd op => exact ⟨[], by simp [runReaction], by simp⟩
  | pinEvent h =>
      cases himpl : s.helpers[h]? with
      | none => exact ⟨[], by simp [runReaction, himpl], by simp⟩
      | some impl =>
          cases hres : impl.reactorHandler h s.react ev.read ev.tick with
          | mk res tasks =>
              refine ⟨tasks, by simp [runReaction, himpl, hres], fun t ht => ?_⟩
              cases res with
              | false =>
                  rw [GpioHelper.reactorHandler_false_tasks hres] at ht
                  cases ht
              | true =>
                  obtain ⟨-, ⟨fd, hfd, -⟩, value, htasks⟩ := GpioHelper.reactorHandler_true hres
                  rw [htasks, List.mem_singleton] at ht
                  refine ⟨fd, ?_⟩
                  rw [ht, valueFdOf, himpl, Option.map_some, hfd]

theorem Tethered.makeCallback {s : AgentState} (hs : Tethered [] s) (fd : Fd) (ev : Event) :
    Tethered [] (s.makeCallback fd ev) := by
  cases hcb : s.react.react[fd]? with
  | none =>
      simp only [AgentState.makeCallback, hcb]
      exact hs.sameHolders ⟨rfl, rfl, rfl, rfl, rfl⟩ rfl
  | some cb =>
      obtain ⟨tasks, hstate, hposted⟩ := s.runReaction_posts cb ev
      simp only [AgentState.makeCallback, hcb, hstate]
      refine hs.transfer rfl rfl rfl (fun _ => Iff.rfl) (fun _ _ h => h)
        (fun _ _ impl _ himpl hc => .inr ⟨impl, himpl, hc⟩) ?_ ?_
      · intro g hqueued
        obtain ⟨t, ht, rfl⟩ := hqueued
        rcases List.mem_append.mp ht with hold | hnew
        · exact .inl ⟨t, hold, rfl⟩
        · exact .inr (hposted t hnew)
      · intro fd' g hentry
        simp only [PollReactor.afterCallback] at hentry
        split at hentry
        · exact .inl hentry
        · rw [PollReactor.delFd_react, Table.getElem?_erase_eq_some_iff] at hentry
          exact .inl hentry.2

theorem Tethered.runTask {s s' : AgentState} (hs : Tethered [] s) {answers : Nat → Bool}
    (hrun : s.runTask answers = some s') : Tethered [] s' := by
  unfold AgentState.runTask at hrun
  split at hrun
  · cases hrun
  · next t rest hqueue =>
      have hrest : rest ⊆ s.queue := by
        rw [hqueue]
        exact List.subset_cons_self _ _
      split at hrun
      · cases hrun
        refine hs.transfer rfl rfl rfl (fun _ => Iff.rfl) (fun _ _ h => h)
          (fun _ _ impl _ himpl hc => .inr ⟨impl, himpl, hc⟩) ?_ (fun _ _ h => .inl h)
        intro g hqueued
        obtain ⟨t', ht', heq⟩ := hqueued
        exact .inl ⟨t', hrest ht', heq⟩
      · next impl himpl =>
          cases hrun
          refine hs.update himpl rfl rfl rfl rfl hrest (fun _ h => h) ?_ (fun _ _ h => .inl h)
          intro id c hc
          rw [GpioHelper.sendToAll_connections, Option.filter_eq_some_iff] at hc
          exact .inl hc.1

/-! ## Whole runs -/

theorem tethered_step {s s' : AgentState} {a : PinAction} (hs : Tethered [] s)
    (hspares : s.SparesPointers a) (hstep : s.pinStep a = some s') : Tethered [] s' := by
  cases a with
  | connectPins =>
      cases hstep
      exact hs.connectPins
  | beginOpen inst pin =>
      obtain ⟨hinst, rfl⟩ := Machine.of_enabled hstep
      exact hs.beginOpen hinst pin
  | beginRegister inst hdl =>
      obtain ⟨hinst, rfl⟩ := Machine.of_enabled hstep
      exact hs.beginChange hinst hdl .register
  | beginUnregister inst hdl =>
      obtain ⟨hinst, rfl⟩ := Machine.of_enabled hstep
      exact hs.beginChange hinst hdl .unregister
  | finish n setup res fault =>
      cases hcall : s.calls[n]? with
      | none => simp [pinStep, hcall] at hstep
      | some call =>
          simp only [pinStep, hcall] at hstep
          obtain ⟨-, rfl⟩ := Machine.of_enabled hstep
          exact hs.finish hcall hspares
  | gpioClose inst hdl =>
      obtain ⟨-, rfl⟩ := Machine.of_enabled hstep
      exact hs.gpioClose hspares
  | gpioDisconnect inst =>
      obtain ⟨⟨-, hidle⟩, rfl⟩ := Machine.of_enabled hstep
      exact hs.gpioDisconnect hidle hspares
  | event fd ev =>
      cases hstep
      exact hs.makeCallback fd ev
  | runTask answers => exact hs.runTask hstep

theorem sparesPointers_of_safe {s s' : AgentState} {a : PinAction} (hs : Tethered [] s)
    (hstep : s.pinStep a = some s') (hsafe : s'.FanOutSafe) : s.SparesPointers a := by
  cases a with
  | connectPins | beginOpen | beginRegister | beginUnregister | event | runTask => trivial
  | finish n setup res fault =>
      cases hcall : s.calls[n]? with
      | none => simp [pinStep, hcall] at hstep
      | some call =>
          simp only [pinStep, hcall] at hstep
          obtain ⟨-, rfl⟩ := Machine.of_enabled hstep
          refine (sparesPointers_finish hs hcall setup res fault).mpr ?_
          have hsafe' : (((s.serve call setup res fault).withoutCall n).releaseAll
              [call.helper]).FanOutSafe := hsafe
          exact referenced_of_safe hsafe' call.helper (List.mem_singleton.mpr rfl)
  | gpioClose inst hdl =>
      obtain ⟨-, rfl⟩ := Machine.of_enabled hstep
      intro g hg
      refine (sparesPointers_close hs hg).mpr ?_ g hg
      simp only [AgentState.gpioClose, hg] at hsafe
      have hsafe' : ((s.unlink g inst hdl).releaseAll [g]).FanOutSafe := hsafe
      exact referenced_of_safe hsafe' g (List.mem_singleton.mpr rfl)
  | gpioDisconnect inst =>
      obtain ⟨-, rfl⟩ := Machine.of_enabled hstep
      exact sparesPointers_of_safe_disconnect hs hsafe

end AgentState

/-- **Fan-out, exactly.** In every state of a run all queued tasks, registered
callbacks and connections belong to objects that exist, if and only if no step
of the run takes such an object away. -/
theorem fanOutSafe_iff_sparesPointers (as : List PinAction) :
    pinMachine.Along AgentState.FanOutSafe as ↔ pinMachine.Meets AgentState.SparesPointers as :=
  Machine.along_iff_meets AgentState.tethered_init
    (fun _ _ _ hs hspares hstep => AgentState.tethered_step hs hspares hstep)
    (fun _ hs => hs.safe)
    (fun _ _ _ hs hstep hsafe => AgentState.sparesPointers_of_safe hs hstep hsafe) as

/-- One client opens a pin and registers it; the pin changes, and before the
strand gets to the task the client closes its handle. -/
theorem task_outlives_helper :
    ¬ pinMachine.Along AgentState.FanOutSafe
      [.connectPins, .beginOpen 0 17, .finish 0 none (.ok 3) none, .beginRegister 0 101,
        .finish 0 none (.error 0) none, .event 3 ⟨true, some [49, 10], 7⟩, .gpioClose 0 101] := by
  refine Machine.not_along_of_run rfl fun hsafe => ?_
  have hmem := hsafe.queued 1 ⟨⟨1, 1, 7⟩, by decide +kernel, rfl⟩
  revert hmem
  decide +kernel

end FerroRemote.Agent

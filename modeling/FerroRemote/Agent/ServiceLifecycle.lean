/-
# Services from start to stop

The subsystems of the agent register their services one after the other, and the listeners come
last. From the first of them that is open on, clients may connect and ask for services, and any
of them may ask the agent to quit, while the other listeners are still being opened and as often
as they like. Each quit runs in a thread of its own through the subsystems in reverse, takes away
what they have registered and in the end all that is left. A listener that has been stopped
delivers no connection any more.

Whatever the order of these steps, no client ever finds a service missing that no quit has come
to yet, and none finds one that a quit has come to.
-/

import FerroRemote.Math.Histories
import Mathlib.Data.List.Nodup
import Std.Data.ExtTreeMap.Lemmas

namespace FerroRemote.Agent

/-- The subsystems that `init_subsystems` adds -/
inductive Subsystem
  | config
  | logging
  | lua
  | os
  | fs
  | i2c
  | spi
  | gpio
  | reactor
  | netifaces
  | multicast
  | listeners
  deriving DecidableEq, Repr

/-- A service by the function that creates its instances -/
inductive ServiceFactory
  | internalCalls
  | logger
  | os
  | fs
  | file
  | i2c
  | spi
  | gpio
  deriving DecidableEq, Repr

/-- The full name of its descriptor -/
def ServiceFactory.name : ServiceFactory → String
  | .internalCalls => "fr.proto.internal"
  | .logger => "fr.proto.logger.instance"
  | .os => "fr.proto.os.instance"
  | .fs => "fr.proto.fs.instance"
  | .file => "fr.proto.fs.file"
  | .i2c => "fr.proto.i2c.instance"
  | .spi => "fr.proto.spi.instance"
  | .gpio => "fr.proto.gpio.instance"

theorem ServiceFactory.name_injective (f g : ServiceFactory) : f.name = g.name ↔ f = g := by
  cases f <;> cases g <;> decide

/-- An endpoint of the configuration: the exception of `listener_from_string`, if there is one,
and whether its listener can be started -/
structure Endpoint where
  bad : Option String
  opens : Bool
  deriving DecidableEq, Repr

structure Setup where
  withLua : Bool
  gpioAvailable : Bool
  endpoints : List Endpoint

/-- The calls of subsystems that others can see -/
inductive Command
  | registerFactory (factory : ServiceFactory)
  | unregisterFactory (factory : ServiceFactory)
  | addListener (endpoint : Nat) (bad : Option String)
  | startListener (endpoint : Nat) (opens : Bool)
  | stopListener (endpoint : Nat)
  | clearServices
  | stopClients
  deriving DecidableEq, Repr

namespace Setup

variable (setup : Setup)

/-- `init_subsystems` -/
def subsystems : List Subsystem :=
  [.config, .logging] ++ (if setup.withLua then [.lua] else []) ++
    [.os, .fs, .i2c, .spi, .gpio, .reactor, .netifaces, .multicast, .listeners]

def start : Subsystem → List Command
  | .config | .lua | .reactor | .netifaces | .multicast => []
  | .logging => [.registerFactory .logger]
  | .os => [.registerFactory .os]
  | .fs => [.registerFactory .fs, .registerFactory .file]
  | .i2c => [.registerFactory .i2c]
  | .spi => [.registerFactory .spi]
  | .gpio => if setup.gpioAvailable then [.registerFactory .gpio] else []
  | .listeners =>
      setup.endpoints.mapIdx (fun i endpoint => .addListener i endpoint.bad) ++
        setup.endpoints.mapIdx fun i endpoint => .startListener i endpoint.opens

def stop : Subsystem → List Command
  | .config | .lua | .reactor | .netifaces | .multicast => []
  | .logging => [.unregisterFactory .logger]
  | .os => [.unregisterFactory .os]
  | .fs => [.unregisterFactory .fs, .unregisterFactory .file]
  | .i2c => [.unregisterFactory .i2c]
  | .spi => [.unregisterFactory .spi]
  -- whether it was available or not
  | .gpio => [.unregisterFactory .gpio]
  | .listeners => (List.range setup.endpoints.length).map .stopListener

/-- The constructor of `application`, and `start_all` -/
def startAll : List Command :=
  .registerFactory .internalCalls :: setup.subsystems.flatMap setup.start

def stopAll : List Command :=
  setup.subsystems.reverse.flatMap setup.stop ++ [.clearServices, .stopClients]

end Setup

/-! ## The application -/

abbrev ServiceMap : Type := Std.ExtTreeMap String ServiceFactory compare

def registerServiceFactory (services : ServiceMap) (name : String) (func : ServiceFactory) :
    Except String ServiceMap :=
  match services[name]? with
  | some _ => .error ("Service '" ++ name ++ "'' already exists.")
  | none => .ok (services.insert name func)

def unregisterServiceFactory (services : ServiceMap) (name : String) : ServiceMap :=
  match services[name]? with
  | some _ => services.erase name
  | none => services

/-- The services, the listeners that are open and the clients that are connected, with what the
main thread and the threads in `quit` have still to do. -/
structure Application where
  services : ServiceMap
  accepting : List Nat
  clients : List Nat
  main : List Command
  /-- The text of the exception that has ended the main thread -/
  failed : Option String
  quits : List (List Command)

namespace Application

def getService (app : Application) (name : String) : Option ServiceFactory := app.services[name]?

def perform (app : Application) : Command → Except String Application
  | .registerFactory factory =>
      (registerServiceFactory app.services factory.name factory).map fun services =>
        { app with services := services }
  | .unregisterFactory factory =>
      .ok { app with services := unregisterServiceFactory app.services factory.name }
  | .addListener _ bad =>
      match bad with
      | some text => .error text
      | none => .ok app
  | .startListener endpoint opens =>
      -- an exception is only logged
      if opens then .ok { app with accepting := endpoint :: app.accepting } else .ok app
  | .stopListener endpoint => .ok { app with accepting := app.accepting.filter (· ≠ endpoint) }
  | .clearServices => .ok { app with services := ∅ }
  | .stopClients => .ok { app with clients := [] }

inductive Event
  | start
  | quit (thread : Nat)
  | connect (client endpoint : Nat)
  | disconnect (client : Nat)
  | exitProcess (client : Nat)

def step (setup : Setup) (app : Application) : Event → Option Application
  | .start =>
      match app.failed, app.main with
      | none, command :: rest =>
          match app.perform command with
          | .error text => some { app with failed := some text }
          | .ok app => some { app with main := rest }
      | _, _ => none
  | .quit thread =>
      match app.quits[thread]? with
      | some (command :: rest) =>
          match app.perform command with
          | .error _ => none
          | .ok app => some { app with quits := app.quits.set thread rest }
      | _ => none
  | .connect client endpoint =>
      if endpoint ∈ app.accepting then some { app with clients := client :: app.clients } else none
  | .disconnect client => some { app with clients := app.clients.filter (· ≠ client) }
  | .exitProcess client =>
      if client ∈ app.clients then some { app with quits := app.quits ++ [setup.stopAll] } else none

/-- The agent from its constructor on -/
def machine (setup : Setup) : Machine Application Event where
  init :=
    { services := ∅
      accepting := []
      clients := []
      main := setup.startAll
      failed := none
      quits := [] }
  step := step setup

end Application

namespace Setup

variable {setup : Setup}

variable (setup) in
/-- The services in the order they are registered in -/
def provided : List ServiceFactory :=
  [.internalCalls, .logger, .os, .fs, .file, .i2c, .spi] ++
    if setup.gpioAvailable then [.gpio] else []

theorem nodup_provided : setup.provided.Nodup := by
  rw [provided]
  cases setup.gpioAvailable <;> decide

/-- Everything is registered before the first listener is added. -/
theorem startAll_eq :
    setup.startAll = setup.provided.map .registerFactory ++ setup.start .listeners := by
  cases hlua : setup.withLua <;> cases hgpio : setup.gpioAvailable <;>
    simp [startAll, subsystems, provided, start, hlua, hgpio]

/-- What is stopped after the listeners -/
def removals : List Command :=
  [.unregisterFactory .gpio, .unregisterFactory .spi, .unregisterFactory .i2c,
    .unregisterFactory .fs, .unregisterFactory .file, .unregisterFactory .os,
    .unregisterFactory .logger, .clearServices, .stopClients]

theorem stopAll_eq : setup.stopAll = setup.stop .listeners ++ removals := by
  cases hlua : setup.withLua <;> simp [stopAll, subsystems, removals, stop, hlua]

/-- Adding and starting listeners registers nothing, and fails where an endpoint is bad. -/
theorem mem_start_listeners {command : Command} (hmem : command ∈ setup.start .listeners) :
    (∃ i endpoint, endpoint ∈ setup.endpoints ∧ command = .addListener i endpoint.bad) ∨
      ∃ i opens, i < setup.endpoints.length ∧ command = .startListener i opens := by
  rw [start, List.mem_append, List.mem_mapIdx, List.mem_mapIdx] at hmem
  rcases hmem with ⟨i, hi, rfl⟩ | ⟨i, hi, rfl⟩
  · exact .inl ⟨i, _, List.getElem_mem hi, rfl⟩
  · exact .inr ⟨i, _, hi, rfl⟩

theorem mem_stop_listeners {command : Command} :
    command ∈ setup.stop .listeners ↔
      ∃ endpoint < setup.endpoints.length, .stopListener endpoint = command := by
  rw [stop, List.mem_map]
  simp only [List.mem_range]

theorem nodup_stopAll : setup.stopAll.Nodup := by
  have hlisteners : (setup.stop .listeners).Nodup := by
    apply List.Nodup.map _ List.nodup_range
    intro i j heq
    cases heq
    rfl
  rw [stopAll_eq]
  apply hlisteners.append (by decide)
  intro command hstop hremoval
  rcases mem_stop_listeners.mp hstop with ⟨endpoint, -, rfl⟩
  simp [removals] at hremoval

/-- A quit takes away everything but the internal service by its name. -/
theorem unregisterFactory_mem_stopAll {factory : ServiceFactory} :
    .unregisterFactory factory ∈ setup.stopAll ↔ factory ≠ .internalCalls := by
  have hstop : .unregisterFactory factory ∉ setup.stop .listeners := by
    rw [mem_stop_listeners]
    rintro ⟨endpoint, -, heq⟩
    cases heq
  rw [stopAll_eq, List.mem_append, or_iff_right hstop]
  cases factory <;> decide

theorem clearServices_mem_stopAll : .clearServices ∈ setup.stopAll := by
  rw [stopAll_eq]
  exact List.mem_append_right _ (by decide)

theorem mem_stopAll {command : Command} (hmem : command ∈ setup.stopAll) :
    (∃ factory, command = .unregisterFactory factory) ∨
    (∃ endpoint, command = .stopListener endpoint) ∨
      command = .clearServices ∨ command = .stopClients := by
  rw [stopAll_eq, List.mem_append, mem_stop_listeners] at hmem
  rcases hmem with ⟨endpoint, -, rfl⟩ | hremoval
  · exact .inr (.inl ⟨endpoint, rfl⟩)
  · simp only [removals, List.mem_cons, List.not_mem_nil, or_false] at hremoval
    rcases hremoval with rfl | rfl | rfl | rfl | rfl | rfl | rfl | rfl | rfl <;> simp

theorem eq_nil_of_stopClients {rest : List Command}
    (hsuffix : .stopClients :: rest <:+ setup.stopAll) : rest = [] := by
  have hnodup := List.nodup_cons.mp (hsuffix.sublist.nodup nodup_stopAll)
  rcases List.eq_nil_or_concat rest with hnil | ⟨front, command, rfl⟩
  · exact hnil
  · rcases hsuffix with ⟨before, hall⟩
    have hlast := congrArg List.getLast? hall
    have heq : command = .stopClients := by
      rw [List.concat_eq_append, List.append_cons, ← List.append_assoc, List.getLast?_concat,
        stopAll, List.getLast?_append] at hlast
      exact Option.some_inj.mp hlast
    rw [List.concat_eq_append, heq] at hnodup
    exact absurd (List.mem_append_right _ (List.mem_singleton_self _)) hnodup.1

end Setup

/-- A quit that has this still to do has not come to the service. -/
def Spares (rest : List Command) (factory : ServiceFactory) : Prop :=
  .clearServices ∈ rest ∧ (factory = .internalCalls ∨ .unregisterFactory factory ∈ rest)

instance (rest : List Command) (factory : ServiceFactory) : Decidable (Spares rest factory) :=
  inferInstanceAs (Decidable (_ ∧ _))

/-- The commands that take a service away -/
def Removes (command : Command) (factory : ServiceFactory) : Prop :=
  command = .clearServices ∨ command = .unregisterFactory factory

theorem spares_stopAll (setup : Setup) (factory : ServiceFactory) :
    Spares setup.stopAll factory := by
  refine ⟨Setup.clearServices_mem_stopAll, ?_⟩
  rw [Setup.unregisterFactory_mem_stopAll]
  exact em _

theorem spares_tail_iff {setup : Setup} {command : Command} {rest : List Command}
    (hsuffix : command :: rest <:+ setup.stopAll) (factory : ServiceFactory) :
    Spares rest factory ↔ Spares (command :: rest) factory ∧ ¬ Removes command factory := by
  have hnodup : command ∉ rest :=
    (List.nodup_cons.mp (hsuffix.sublist.nodup Setup.nodup_stopAll)).1
  have hmem : command ∈ setup.stopAll := hsuffix.subset List.mem_cons_self
  constructor
  · rintro ⟨hclear, hremoved⟩
    refine ⟨⟨List.mem_cons_of_mem _ hclear, hremoved.imp_right (List.mem_cons_of_mem _)⟩, ?_⟩
    rintro (rfl | rfl)
    · exact hnodup hclear
    · exact hremoved.elim (Setup.unregisterFactory_mem_stopAll.mp hmem) hnodup
  · rintro ⟨⟨hclear, hremoved⟩, hkeeps⟩
    constructor
    · exact (List.mem_cons.mp hclear).resolve_left fun heq => hkeeps (.inl heq.symm)
    · apply hremoved.imp_right
      intro hlater
      exact (List.mem_cons.mp hlater).resolve_left fun heq => hkeeps (.inr heq.symm)

namespace Application

variable {setup : Setup} {app app' : Application}

/-- Every service stands under the name of its own. -/
def Named (services : ServiceMap) : Prop :=
  ∀ (name : String) (factory : ServiceFactory), services[name]? = some factory → factory.name = name

theorem unregisterServiceFactory_getElem? (services : ServiceMap) (removed name : String) :
    (unregisterServiceFactory services removed)[name]? =
      if removed = name then none else services[name]? := by
  rw [unregisterServiceFactory]
  split
  · rw [Std.ExtTreeMap.getElem?_erase]
    simp only [Std.compare_eq_iff_eq]
  · next hnone =>
      split
      · next heq => rw [← heq, hnone]
      · rfl

theorem perform_of_quit (hnamed : Named app.services) {command : Command}
    (hquit : command ∈ setup.stopAll) :
    ∃ app', app.perform command = .ok app' ∧ Named app'.services ∧ app'.main = app.main ∧
      app'.failed = app.failed ∧ app'.quits = app.quits ∧
      ∀ factory : ServiceFactory, app'.services[factory.name]? = some factory ↔
        app.services[factory.name]? = some factory ∧ ¬ Removes command factory := by
  rcases Setup.mem_stopAll hquit with ⟨removed, rfl⟩ | ⟨endpoint, rfl⟩ | rfl | rfl
  · refine ⟨_, rfl, ?_, rfl, rfl, rfl, ?_⟩
    · intro name factory hfound
      dsimp only at hfound
      rw [unregisterServiceFactory_getElem?] at hfound
      split at hfound
      · cases hfound
      · exact hnamed name factory hfound
    · intro factory
      dsimp only
      rw [unregisterServiceFactory_getElem?]
      simp only [ServiceFactory.name_injective, Removes, reduceCtorEq, false_or,
        Command.unregisterFactory.injEq]
      by_cases heq : removed = factory <;> simp [heq]
  · exact ⟨_, rfl, hnamed, rfl, rfl, rfl, fun factory => by simp [Removes]⟩
  · refine ⟨_, rfl, ?_, rfl, rfl, rfl, ?_⟩
    · intro name factory hfound
      simp at hfound
    · intro factory
      simp [Removes]
  · exact ⟨_, rfl, hnamed, rfl, rfl, rfl, fun factory => by simp [Removes]⟩

/-- What a quit thread has still to do is an end of `stop_all`. Before anything is registered for
good, there is no listener, no client and no quit. -/
structure Consistent (setup : Setup) (app : Application) : Prop where
  named : Named app.services
  main : ∃ pending opening, app.main = pending.map .registerFactory ++ opening ∧
    pending <:+ setup.provided ∧ (∀ command ∈ opening, command ∈ setup.start .listeners) ∧
    (pending ≠ [] → app.accepting = [] ∧ app.clients = [] ∧ app.quits = [])
  quits : ∀ rest ∈ app.quits, rest <:+ setup.stopAll
  serves : ∀ factory : ServiceFactory, app.services[factory.name]? = some factory ↔
    factory ∈ setup.provided ∧ .registerFactory factory ∉ app.main ∧
      ∀ rest ∈ app.quits, Spares rest factory
  failed : ∀ text, app.failed = some text → ∃ endpoint ∈ setup.endpoints, endpoint.bad = some text

theorem registerFactory_notMem_opening {opening : List Command}
    (hopening : ∀ command ∈ opening, command ∈ setup.start .listeners) (factory : ServiceFactory) :
    .registerFactory factory ∉ opening := by
  intro hmem
  rcases Setup.mem_start_listeners (hopening _ hmem) with ⟨i, endpoint, -, heq⟩ | ⟨i, opens, -, heq⟩
  · cases heq
  · cases heq

theorem registerFactory_mem_main {pending : List ServiceFactory} {opening : List Command}
    (hopening : ∀ command ∈ opening, command ∈ setup.start .listeners) (factory : ServiceFactory) :
    .registerFactory factory ∈ pending.map .registerFactory ++ opening ↔ factory ∈ pending := by
  rw [List.mem_append, or_iff_left (registerFactory_notMem_opening hopening factory), List.mem_map]
  simp

theorem consistent_init (setup : Setup) : Consistent setup (machine setup).init where
  named := by
    intro name factory hfound
    simp [machine] at hfound
  main := by
    refine ⟨setup.provided, setup.start .listeners, Setup.startAll_eq, List.suffix_rfl, ?_, ?_⟩
    · exact fun command hcommand => hcommand
    · exact fun _ => ⟨rfl, rfl, rfl⟩
  quits := by
    intro rest hrest
    cases hrest
  serves := by
    intro factory
    have hmain : (machine setup).init.main = _ := Setup.startAll_eq
    rw [hmain, registerFactory_mem_main fun command hcommand => hcommand]
    simp only [machine, Std.ExtTreeMap.getElem?_empty, reduceCtorEq, false_iff]
    exact fun hall => hall.2.1 hall.1
  failed := by
    intro text htext
    cases htext

/-- Where there is a listener, a client or a quit, everything has been registered. -/
theorem Consistent.registered (hc : Consistent setup app)
    (hbegun : app.accepting ≠ [] ∨ app.clients ≠ [] ∨ app.quits ≠ []) (factory : ServiceFactory) :
    .registerFactory factory ∉ app.main := by
  rcases hc.main with ⟨pending, opening, hmain, -, hopening, hnone⟩
  have hpending : pending = [] := by
    apply Classical.byContradiction
    intro hsome
    rcases hnone hsome with ⟨haccepting, hclients, hquits⟩
    rcases hbegun with h | h | h
    · exact h haccepting
    · exact h hclients
    · exact h hquits
  rw [hmain, registerFactory_mem_main hopening, hpending]
  exact List.not_mem_nil

theorem Consistent.register (hc : Consistent setup app) {factory : ServiceFactory}
    {pending : List ServiceFactory} {opening : List Command}
    (hmain : app.main = .registerFactory factory :: (pending.map .registerFactory ++ opening))
    (hsuffix : factory :: pending <:+ setup.provided)
    (hopening : ∀ command ∈ opening, command ∈ setup.start .listeners)
    (hnone : app.accepting = [] ∧ app.clients = [] ∧ app.quits = []) :
    ∃ app', app.perform (.registerFactory factory) = .ok app' ∧
      Consistent setup { app' with main := pending.map .registerFactory ++ opening } := by
  have hprovided : factory ∈ setup.provided := hsuffix.subset List.mem_cons_self
  have hnodup := List.nodup_cons.mp (hsuffix.sublist.nodup Setup.nodup_provided)
  have hmem (other : ServiceFactory) :
      .registerFactory other ∈ app.main ↔ other = factory ∨ other ∈ pending := by
    rw [hmain, ← List.cons_append, ← List.map_cons, registerFactory_mem_main hopening,
      List.mem_cons]
  have hfree : app.services[factory.name]? = none := by
    cases hfound : app.services[factory.name]? with
    | none => rfl
    | some other =>
        have heq := (ServiceFactory.name_injective _ _).mp (hc.named _ _ hfound)
        subst heq
        exact absurd ((hmem other).mpr (.inl rfl)) ((hc.serves other).mp hfound).2.1
  refine ⟨{ app with services := app.services.insert factory.name factory }, ?_, ?_⟩
  · rw [perform, registerServiceFactory, hfree]
    rfl
  have hinsert (name : String) :
      (app.services.insert factory.name factory)[name]? =
        if factory.name = name then some factory else app.services[name]? := by
    rw [Std.ExtTreeMap.getElem?_insert]
    simp only [Std.compare_eq_iff_eq]
  constructor
  · intro name other hfound
    dsimp only at hfound
    rw [hinsert] at hfound
    split at hfound
    · next heq =>
        cases hfound
        exact heq
    · exact hc.named name other hfound
  · refine ⟨pending, opening, rfl, (List.suffix_cons _ _).trans hsuffix, hopening, ?_⟩
    exact fun _ => hnone
  · exact hc.quits
  · intro other
    dsimp only
    rw [hinsert, registerFactory_mem_main hopening]
    simp only [ServiceFactory.name_injective]
    by_cases heq : factory = other
    · subst heq
      rw [if_pos rfl, hnone.2.2]
      simp [hprovided, hnodup.1]
    · rw [if_neg heq, hc.serves, hmem]
      have hother : ¬ other = factory := fun h => heq h.symm
      simp [hother]
  · exact hc.failed

theorem Consistent.start (hc : Consistent setup app) {command : Command} {rest : List Command}
    (hmain : app.main = command :: rest) :
    (∃ text, app.perform command = .error text ∧
      ∃ endpoint ∈ setup.endpoints, endpoint.bad = some text) ∨
    ∃ app', app.perform command = .ok app' ∧ Consistent setup { app' with main := rest } := by
  rcases hc.main with ⟨pending, opening, hparts, hsuffix, hopening, hnone⟩
  cases pending with
  | cons factory pending =>
      rw [hmain, List.map_cons, List.cons_append, List.cons.injEq] at hparts
      rcases hparts with ⟨rfl, rfl⟩
      exact .inr (hc.register hmain hsuffix hopening (hnone (List.cons_ne_nil _ _)))
  | nil =>
      rw [hmain, List.map_nil, List.nil_append] at hparts
      subst hparts
      have hrest : ∀ command ∈ rest, command ∈ setup.start .listeners :=
        fun other hother => hopening other (List.mem_cons_of_mem _ hother)
      have hgoes (app' : Application) (hservices : app'.services = app.services)
          (hquits : app'.quits = app.quits) (hfailed : app'.failed = app.failed) :
          Consistent setup { app' with main := rest } := by
        constructor
        · rw [hservices]
          exact hc.named
        · exact ⟨[], rest, rfl, List.nil_suffix, hrest, fun hsome => absurd rfl hsome⟩
        · rw [hquits]
          exact hc.quits
        · intro factory
          have hnot := registerFactory_notMem_opening hrest factory
          have hwas := registerFactory_notMem_opening hopening factory
          dsimp only
          rw [hservices, hquits, hc.serves, hmain]
          simp only [hnot, hwas]
        · rw [hfailed]
          exact hc.failed
      rcases Setup.mem_start_listeners (hopening command List.mem_cons_self) with
        ⟨i, endpoint, hendpoint, rfl⟩ | ⟨i, opens, -, rfl⟩
      · cases hbad : endpoint.bad with
        | some text => exact .inl ⟨text, rfl, endpoint, hendpoint, hbad⟩
        | none => exact .inr ⟨app, rfl, hgoes app rfl rfl rfl⟩
      · cases opens with
        | true => exact .inr ⟨_, rfl, hgoes _ rfl rfl rfl⟩
        | false => exact .inr ⟨_, rfl, hgoes _ rfl rfl rfl⟩

theorem forall_mem_set_iff {α : Type} {P : α → Prop} {l : List α} {k : Nat} {old new : α}
    (hold : l[k]? = some old) (hmono : P new → P old) :
    (∀ a ∈ l.set k new, P a) ↔ P new ∧ ∀ a ∈ l, P a := by
  constructor
  · intro hall
    have hk : k < l.length := (List.getElem?_eq_some_iff.mp hold).1
    have hnew : P new := hall new (List.mem_set hk new)
    refine ⟨hnew, ?_⟩
    intro a ha
    rcases List.mem_iff_getElem?.mp ha with ⟨i, hi⟩
    by_cases heq : k = i
    · subst heq
      rw [hold, Option.some_inj] at hi
      exact hi ▸ hmono hnew
    · rw [← List.getElem?_set_ne (a := new) heq] at hi
      exact hall a (List.mem_of_getElem? hi)
  · rintro ⟨hnew, hall⟩ a ha
    rcases List.mem_or_eq_of_mem_set ha with hmem | rfl
    · exact hall a hmem
    · exact hnew

theorem Consistent.quit (hc : Consistent setup app) {thread : Nat} {command : Command}
    {rest : List Command} (hthread : app.quits[thread]? = some (command :: rest)) :
    ∃ app', app.perform command = .ok app' ∧
      Consistent setup { app' with quits := app'.quits.set thread rest } := by
  have hmem : command :: rest ∈ app.quits := List.mem_of_getElem? hthread
  have hsuffix := hc.quits _ hmem
  rcases @perform_of_quit setup app hc.named command (hsuffix.subset List.mem_cons_self) with
    ⟨app', hperform, hnamed, hmain, hfailed, hquits, hserves⟩
  refine ⟨app', hperform, ?_⟩
  constructor
  · exact hnamed
  · rcases hc.main with ⟨pending, opening, hparts, hpending, hopening, hnone⟩
    refine ⟨pending, opening, hmain.trans hparts, hpending, hopening, ?_⟩
    intro hsome
    rw [(hnone hsome).2.2] at hmem
    cases hmem
  · intro other hother
    dsimp only at hother
    rw [hquits] at hother
    rcases List.mem_or_eq_of_mem_set hother with hbefore | rfl
    · exact hc.quits other hbefore
    · exact (List.suffix_cons _ _).trans hsuffix
  · intro factory
    have htail := spares_tail_iff hsuffix factory
    dsimp only
    rw [hserves, hc.serves, hmain, hquits,
      forall_mem_set_iff (P := fun rest => Spares rest factory) hthread fun h => (htail.mp h).1,
      htail]
    have hspares := fun hall : ∀ rest ∈ app.quits, Spares rest factory => hall _ hmem
    tauto
  · rw [hfailed]
    exact hc.failed

theorem consistent_step {event : Event} (hc : Consistent setup app)
    (hstep : step setup app event = some app') : Consistent setup app' := by
  cases event with
  | start =>
      rw [step] at hstep
      split at hstep
      · next command rest _ hmain =>
          rcases hc.start hmain with ⟨text, hperform, hbad⟩ | ⟨next, hperform, hnext⟩
          · rw [hperform] at hstep
            cases hstep
            refine ⟨hc.named, hc.main, hc.quits, hc.serves, ?_⟩
            intro other hother
            cases hother
            exact hbad
          · rw [hperform] at hstep
            cases hstep
            exact hnext
      · cases hstep
  | quit thread =>
      rw [step] at hstep
      split at hstep
      · next command rest hthread =>
          rcases hc.quit hthread with ⟨next, hperform, hnext⟩
          rw [hperform] at hstep
          cases hstep
          exact hnext
      · cases hstep
  | connect client endpoint =>
      rcases Machine.of_enabled hstep with ⟨hopen, rfl⟩
      refine ⟨hc.named, ?_, hc.quits, hc.serves, hc.failed⟩
      rcases hc.main with ⟨pending, opening, hmain, hpending, hopening, hnone⟩
      refine ⟨pending, opening, hmain, hpending, hopening, ?_⟩
      intro hsome
      rw [(hnone hsome).1] at hopen
      cases hopen
  | disconnect client =>
      cases hstep
      refine ⟨hc.named, ?_, hc.quits, hc.serves, hc.failed⟩
      rcases hc.main with ⟨pending, opening, hmain, hpending, hopening, hnone⟩
      refine ⟨pending, opening, hmain, hpending, hopening, ?_⟩
      intro hsome
      rcases hnone hsome with ⟨haccepting, hclients, hquits⟩
      exact ⟨haccepting, by rw [hclients, List.filter_nil], hquits⟩
  | exitProcess client =>
      rcases Machine.of_enabled hstep with ⟨hclient, rfl⟩
      refine ⟨hc.named, ?_, ?_, ?_, hc.failed⟩
      · rcases hc.main with ⟨pending, opening, hmain, hpending, hopening, hnone⟩
        refine ⟨pending, opening, hmain, hpending, hopening, ?_⟩
        intro hsome
        rw [(hnone hsome).2.1] at hclient
        cases hclient
      · intro rest hrest
        rcases List.mem_append.mp hrest with hbefore | hnew
        · exact hc.quits rest hbefore
        · rw [List.mem_singleton] at hnew
          exact hnew ▸ List.suffix_rfl
      · intro factory
        dsimp only
        rw [hc.serves, List.forall_mem_append, List.forall_mem_singleton,
          and_iff_left (spares_stopAll setup factory)]

theorem consistent_of_run {events : List Event} (hrun : (machine setup).run events = some app) :
    Consistent setup app :=
  Machine.history_induction (P := fun _ app => Consistent setup app) (consistent_init setup)
    (fun _ _ _ _ _ hc hstep => consistent_step hc hstep) hrun

/-- **What clients find.** Whenever a client is connected, whatever quits are on their way, it
finds exactly the services of the agent that none of them has come to. In no run does registering
one fail: the main thread ends with an exception only where an endpoint is bad. -/
theorem services_found {events : List Event} (hrun : (machine setup).run events = some app) :
    (app.clients ≠ [] → ∀ (name : String) (factory : ServiceFactory),
      (app.getService name = some factory ↔
        factory.name = name ∧ factory ∈ setup.provided ∧
          ∀ rest ∈ app.quits, Spares rest factory)) ∧
    ∀ text, app.failed = some text → ∃ endpoint ∈ setup.endpoints, endpoint.bad = some text := by
  have hc := consistent_of_run hrun
  refine ⟨?_, hc.failed⟩
  intro hclient name factory
  have hregistered := hc.registered (.inr (.inl hclient)) factory
  rw [getService]
  constructor
  · intro hfound
    have hname := hc.named name factory hfound
    subst hname
    exact ⟨rfl, ((hc.serves factory).mp hfound).1, ((hc.serves factory).mp hfound).2.2⟩
  · rintro ⟨rfl, hprovided, hspares⟩
    exact (hc.serves factory).mpr ⟨hprovided, hregistered, hspares⟩

/-- A board without gpio pins that listens at one endpoint -/
def oneEndpoint : Setup where
  withLua := true
  gpioAvailable := false
  endpoints := [{ bad := none, opens := true }]

/-- A client connects and asks the agent to quit, which has come to the services of spi. -/
def quitting : List Event :=
  List.replicate 9 .start ++ [.connect 1 0, .exitProcess 1, .quit 0, .quit 0, .quit 0]

theorem services_found_quitting :
    ∃ app, (machine oneEndpoint).run quitting = some app ∧
      app.getService "fr.proto.fs.file" = some .file ∧
      app.getService "fr.proto.spi.instance" ≠ some .spi := by
  refine ⟨((machine oneEndpoint).run quitting).get (by decide), (Option.some_get _).symm, ?_, ?_⟩
  · exact ((services_found (Option.some_get _).symm).1 (by decide) _ _).mpr (by decide)
  · exact ((services_found (Option.some_get _).symm).1 (by decide) _ _).not.mpr (by decide)

/-! ## What a quit leaves -/

/-- Nobody asks the agent to quit before it has started everything. -/
def Started (app : Application) : Event → Prop
  | .exitProcess _ => app.main = []
  | _ => True

instance (app : Application) (event : Event) : Decidable (Started app event) :=
  match event with
  | .exitProcess _ => inferInstanceAs (Decidable (app.main = []))
  | .start | .quit _ | .connect _ _ | .disconnect _ => isTrue trivial

structure Closing (setup : Setup) (app : Application) : Prop where
  listeners : ∀ endpoint ∈ app.accepting, endpoint < setup.endpoints.length
  started : app.quits ≠ [] → app.main = []
  closed : ∀ rest ∈ app.quits, ∀ endpoint ∈ app.accepting, .stopListener endpoint ∈ rest
  dropped : ∀ rest ∈ app.quits, app.clients ≠ [] ∨ app.accepting ≠ [] → .stopClients ∈ rest

theorem perform_closes {command : Command} (hquit : command ∈ setup.stopAll)
    (hperform : app.perform command = .ok app') :
    (∀ endpoint ∈ app'.accepting, endpoint ∈ app.accepting ∧ command ≠ .stopListener endpoint) ∧
      (app'.clients ≠ [] → app.clients ≠ [] ∧ command ≠ .stopClients) ∧
      app'.main = app.main ∧ app'.quits = app.quits := by
  rcases Setup.mem_stopAll hquit with ⟨removed, rfl⟩ | ⟨stopped, rfl⟩ | rfl | rfl
  · cases hperform
    exact ⟨fun endpoint hmem => ⟨hmem, by simp⟩, fun hsome => ⟨hsome, by simp⟩, rfl, rfl⟩
  · cases hperform
    refine ⟨?_, fun hsome => ⟨hsome, by simp⟩, rfl, rfl⟩
    intro endpoint hmem
    rw [List.mem_filter, decide_eq_true_eq] at hmem
    refine ⟨hmem.1, ?_⟩
    intro heq
    cases heq
    exact hmem.2 rfl
  · cases hperform
    exact ⟨fun endpoint hmem => ⟨hmem, by simp⟩, fun hsome => ⟨hsome, by simp⟩, rfl, rfl⟩
  · cases hperform
    exact ⟨fun endpoint hmem => ⟨hmem, by simp⟩, fun hsome => absurd rfl hsome, rfl, rfl⟩

theorem closing_quit (hc : Consistent setup app) (h : Closing setup app) {thread : Nat}
    {command : Command} {rest : List Command}
    (hthread : app.quits[thread]? = some (command :: rest))
    (hperform : app.perform command = .ok app') :
    Closing setup { app' with quits := app'.quits.set thread rest } := by
  have hmem : command :: rest ∈ app.quits := List.mem_of_getElem? hthread
  have hsuffix := hc.quits _ hmem
  rcases perform_closes (hsuffix.subset List.mem_cons_self) hperform with
    ⟨haccepting, hclients, hmain, hquits⟩
  have hclosed : ∀ endpoint ∈ app'.accepting, .stopListener endpoint ∈ rest := by
    intro endpoint hopen
    have hlater := h.closed _ hmem endpoint (haccepting endpoint hopen).1
    exact (List.mem_cons.mp hlater).resolve_left fun heq => (haccepting endpoint hopen).2 heq.symm
  constructor
  · exact fun endpoint hopen => h.listeners endpoint (haccepting endpoint hopen).1
  · exact fun _ => hmain.trans (h.started (List.ne_nil_of_mem hmem))
  · intro other hother endpoint hopen
    rcases List.mem_or_eq_of_mem_set hother with hbefore | rfl
    · exact h.closed other (hquits ▸ hbefore) endpoint (haccepting endpoint hopen).1
    · exact hclosed endpoint hopen
  · intro other hother hsome
    have hwas : app.clients ≠ [] ∨ app.accepting ≠ [] := by
      rcases hsome with hsome | hsome
      · exact .inl (hclients hsome).1
      · rcases List.exists_mem_of_ne_nil _ hsome with ⟨endpoint, hopen⟩
        exact .inr (List.ne_nil_of_mem (haccepting endpoint hopen).1)
    rcases List.mem_or_eq_of_mem_set hother with hbefore | rfl
    · exact h.dropped other (hquits ▸ hbefore) hwas
    · apply (List.mem_cons.mp (h.dropped _ hmem hwas)).resolve_left
      intro heq
      rw [← heq] at hsuffix
      rcases hsome with hsome | hsome
      · exact (hclients hsome).2 heq.symm
      · -- the clients are dropped when all listeners are closed
        rcases List.exists_mem_of_ne_nil _ hsome with ⟨endpoint, hopen⟩
        have hlater := hclosed endpoint hopen
        rw [Setup.eq_nil_of_stopClients hsuffix] at hlater
        cases hlater

/-- What commands do to the listeners and to the quits -/
theorem perform_opens {command : Command} (hperform : app.perform command = .ok app') :
    app'.quits = app.quits ∧ ∀ endpoint ∈ app'.accepting,
      endpoint ∈ app.accepting ∨ command = .startListener endpoint true := by
  have hsame : ∀ endpoint ∈ app.accepting,
      endpoint ∈ app.accepting ∨ command = .startListener endpoint true := fun _ hopen => .inl hopen
  cases command with
  | registerFactory factory =>
      rw [perform] at hperform
      cases hregister : registerServiceFactory app.services factory.name factory with
      | error text =>
          rw [hregister] at hperform
          cases hperform
      | ok services =>
          rw [hregister] at hperform
          cases hperform
          exact ⟨rfl, hsame⟩
  | addListener i bad =>
      cases bad with
      | some text => cases hperform
      | none =>
          cases hperform
          exact ⟨rfl, hsame⟩
  | startListener i opens =>
      cases opens with
      | false =>
          cases hperform
          exact ⟨rfl, hsame⟩
      | true =>
          cases hperform
          refine ⟨rfl, ?_⟩
          intro endpoint hopen
          rcases List.mem_cons.mp hopen with rfl | hbefore
          · exact .inr rfl
          · exact .inl hbefore
  | stopListener i =>
      cases hperform
      exact ⟨rfl, fun endpoint hopen => .inl (List.mem_filter.mp hopen).1⟩
  | unregisterFactory factory =>
      cases hperform
      exact ⟨rfl, hsame⟩
  | clearServices =>
      cases hperform
      exact ⟨rfl, hsame⟩
  | stopClients =>
      cases hperform
      exact ⟨rfl, hsame⟩

theorem closing_start (hc : Consistent setup app) (h : Closing setup app) {command : Command}
    {rest : List Command} (hmain : app.main = command :: rest)
    (hperform : app.perform command = .ok app') : Closing setup { app' with main := rest } := by
  have hnone : app'.quits = [] := by
    rw [(perform_opens hperform).1]
    apply Classical.byContradiction
    intro hsome
    rw [h.started hsome] at hmain
    cases hmain
  constructor
  · intro endpoint hopen
    rcases (perform_opens hperform).2 endpoint hopen with hbefore | rfl
    · exact h.listeners endpoint hbefore
    · rcases hc.main with ⟨pending, opening, hparts, -, hopening, -⟩
      have hmem : .startListener endpoint true ∈ opening := by
        have hmem : .startListener endpoint true ∈ app.main := hmain ▸ List.mem_cons_self
        rw [hparts, List.mem_append, List.mem_map] at hmem
        rcases hmem with ⟨factory, -, heq⟩ | hmem
        · cases heq
        · exact hmem
      rcases Setup.mem_start_listeners (hopening _ hmem) with ⟨i, bad, -, heq⟩ | ⟨i, opens, hi, heq⟩
      · cases heq
      · cases heq
        exact hi
  · exact fun hsome => absurd hnone hsome
  · intro other hother
    dsimp only at hother
    rw [hnone] at hother
    cases hother
  · intro other hother
    dsimp only at hother
    rw [hnone] at hother
    cases hother

theorem closing_step {event : Event} (hc : Consistent setup app) (h : Closing setup app)
    (hstarted : Started app event) (hstep : step setup app event = some app') :
    Closing setup app' := by
  cases event with
  | start =>
      rw [step] at hstep
      split at hstep
      · next command rest _ hmain =>
          cases hperform : app.perform command with
          | error text =>
              rw [hperform] at hstep
              cases hstep
              exact ⟨h.listeners, h.started, h.closed, h.dropped⟩
          | ok next =>
              rw [hperform] at hstep
              cases hstep
              exact closing_start hc h hmain hperform
      · cases hstep
  | quit thread =>
      rw [step] at hstep
      split at hstep
      · next command rest hthread =>
          cases hperform : app.perform command with
          | error text =>
              rw [hperform] at hstep
              cases hstep
          | ok next =>
              rw [hperform] at hstep
              cases hstep
              exact closing_quit hc h hthread hperform
      · cases hstep
  | connect client endpoint =>
      rcases Machine.of_enabled hstep with ⟨hopen, rfl⟩
      exact ⟨h.listeners, h.started, h.closed,
        fun rest hrest _ => h.dropped rest hrest (.inr (List.ne_nil_of_mem hopen))⟩
  | disconnect client =>
      cases hstep
      refine ⟨h.listeners, h.started, h.closed, ?_⟩
      intro rest hrest hsome
      apply h.dropped rest hrest
      apply hsome.imp_left
      intro hclients hnil
      rw [hnil, List.filter_nil] at hclients
      exact hclients rfl
  | exitProcess client =>
      rcases Machine.of_enabled hstep with ⟨hclient, rfl⟩
      refine ⟨h.listeners, fun _ => hstarted, ?_, ?_⟩
      · intro rest hrest endpoint hopen
        rcases List.mem_append.mp hrest with hbefore | hnew
        · exact h.closed rest hbefore endpoint hopen
        · rw [List.mem_singleton] at hnew
          rw [hnew, Setup.stopAll_eq, List.mem_append, Setup.mem_stop_listeners]
          exact .inl ⟨endpoint, h.listeners endpoint hopen, rfl⟩
      · intro rest hrest hsome
        rcases List.mem_append.mp hrest with hbefore | hnew
        · exact h.dropped rest hbefore hsome
        · rw [List.mem_singleton] at hnew
          rw [hnew, Setup.stopAll_eq]
          exact List.mem_append_right _ (by decide)

/-- **What a quit leaves.** When nobody has asked for it before everything was started, then at
the end of a quit no service is found, no listener is open and no client connected, and it stays
so, whatever the other quits still do. -/
theorem quit_leaves_nothing {events : List Event} (hmeets : (machine setup).Meets Started events)
    (hrun : (machine setup).run events = some app) (hdone : [] ∈ app.quits) :
    app.accepting = [] ∧ app.clients = [] ∧ ∀ name, app.getService name = none := by
  have hinit : Closing setup (machine setup).init := by
    refine ⟨?_, fun hsome => absurd rfl hsome, ?_, ?_⟩
    · intro endpoint hopen
      cases hopen
    · intro rest hrest
      cases hrest
    · intro rest hrest
      cases hrest
  have hboth : Consistent setup app ∧ Closing setup app := by
    have hkeep (s : Application) (event : Event) (s' : Application)
        (h : Consistent setup s ∧ Closing setup s) (hstarted : Started s event)
        (hstep : (machine setup).step s event = some s') :
        Consistent setup s' ∧ Closing setup s' :=
      ⟨consistent_step h.1 hstep, closing_step h.1 h.2 hstarted hstep⟩
    exact (Machine.along_of_meets ⟨consistent_init setup, hinit⟩ hkeep (fun _ h => h) hmeets).last
      hrun
  rcases hboth with ⟨hc, h⟩
  have hnone : ¬ (app.clients ≠ [] ∨ app.accepting ≠ []) := by
    intro hsome
    cases h.dropped _ hdone hsome
  rw [not_or, not_not, not_not] at hnone
  refine ⟨hnone.2, hnone.1, ?_⟩
  intro name
  rw [getService]
  cases hfound : app.services[name]? with
  | none => rfl
  | some factory =>
      have hname := hc.named name factory hfound
      subst hname
      cases (((hc.serves factory).mp hfound).2.2 _ hdone).1

-- Between the starts of two listeners a quit closes the first, and the second is opened after it.
example :
    ((machine { oneEndpoint with endpoints := List.replicate 2 { bad := none, opens := true } }).run
      (List.replicate 10 .start ++ [.connect 1 0, .exitProcess 1] ++ List.replicate 11 (.quit 0) ++
        [.start])).map (fun app => (app.accepting, app.quits)) = some ([1], [[]]) := by
  decide

/-- The quit comes to its end. -/
theorem quit_leaves_nothing_quitting :
    ∃ app, (machine oneEndpoint).run (quitting ++ List.replicate 7 (.quit 0)) = some app ∧
      app.accepting = [] ∧ app.clients = [] ∧ ∀ name, app.getService name = none := by
  refine ⟨((machine oneEndpoint).run (quitting ++ List.replicate 7 (.quit 0))).get (by decide),
    (Option.some_get _).symm, ?_⟩
  have hmeets : (machine oneEndpoint).Meets Started (quitting ++ List.replicate 7 (.quit 0)) := by
    decide
  exact quit_leaves_nothing hmeets (Option.some_get _).symm (by decide)

end Application

end FerroRemote.Agent

/-
# Closing from a script

`close` and `__gc` should take from the maps of their module the entries of the objects
they are given, each of its own handle, from the map of the objects and from the map of
the event containers. Closed once, an object is closed: its handle is never used again.
-/

import FerroRemote.Lua.ClientObjects
import FerroRemote.Math.Erasure
import FerroRemote.Math.Transitions

namespace FerroRemote.Lua

namespace LuaClient

/-- The object that an argument stands for. `clone` gives the script a handle and no full
userdata. -/
def objectAt (c : LuaClient) : Value → Option MetaObject
  | .userdata ud => c.userdata[ud]?
  | .lightuserdata hdl => if hdl ∈ c.fs.iterators then some ⟨.iterator, hdl⟩ else none
  | _ => none

/-- The handles of the arguments that are objects of a kind -/
def handles (c : LuaClient) (args : List Value) (name : MetaName) : List Nat :=
  ((args.filterMap c.objectAt).filter fun m => m.name = name).map MetaObject.hdl

/-- An object has its entry in the map of its module. -/
def IsOpen (c : LuaClient) (m : MetaObject) : Prop :=
  match m.name with
  | .file => m.hdl ∈ c.fs.files
  | .iterator => m.hdl ∈ c.fs.iterators
  | .gpio => m.hdl ∈ c.gpio.devs
  | .logger => m.hdl ∈ c.logger.loggers

/-- Objects and event containers have the same handles. Iterators have no containers. -/
structure MapsAgree (c : LuaClient) : Prop where
  files : Table.SameKeys c.fs.files c.fs.fileEvents
  devs : Table.SameKeys c.gpio.devs c.gpio.events
  loggers : Table.SameKeys c.logger.loggers c.logger.events

/-- The maps of the modules are those from before. -/
def SameMaps (c c' : LuaClient) : Prop :=
  c'.fs = c.fs ∧ c'.gpio = c.gpio ∧ c'.logger = c.logger

end LuaClient

def LuaFunction.kinds : LuaFunction → List MetaName
  | .fsClose => [.file, .iterator]
  | .gpioClose => [.gpio]
  | .loggerClose => [.logger]
  | _ => []

namespace LuaClient

/-- The entries of the objects that are passed go, from both maps, and no others. -/
def ClosesExactly (c : LuaClient) (args : List Value) (c' : LuaClient) : LuaFunction → Prop
  | .fsClose =>
    Table.Without c.fs.files c'.fs.files (c.handles args .file) ∧
      Table.Without c.fs.fileEvents c'.fs.fileEvents (c.handles args .file) ∧
      Table.Without c.fs.iterators c'.fs.iterators (c.handles args .iterator) ∧
      c'.gpio = c.gpio ∧ c'.logger = c.logger
  | .gpioClose =>
    Table.Without c.gpio.devs c'.gpio.devs (c.handles args .gpio) ∧
      Table.Without c.gpio.events c'.gpio.events (c.handles args .gpio) ∧
      c'.fs = c.fs ∧ c'.logger = c.logger
  | .loggerClose =>
    Table.Without c.logger.loggers c'.logger.loggers (c.handles args .logger) ∧
      Table.Without c.logger.events c'.logger.events (c.handles args .logger) ∧
      c'.fs = c.fs ∧ c'.gpio = c.gpio
  | _ => True

/-- The objects that a closing function is given -/
def closedBy (c : LuaClient) (args : List Value) (function : LuaFunction) : List MetaObject :=
  (args.filterMap c.objectAt).filter fun m => m.name ∈ function.kinds

/-- The function that an action calls, and its arguments -/
def request (c : LuaClient) : LuaAction → Option (LuaFunction × List Value)
  | .call function args _ _ => some (function, args)
  | .collect address =>
    c.userdata[address]?.map fun m => (m.name.closing, [.userdata address])

end LuaClient

/-- A client, with the objects that have been closed or collected -/
structure Closings where
  client : LuaClient
  closed : List MetaObject

structure ClosesWell (s : Closings) (a : LuaAction) (s' : Closings) : Prop where
  /-- The maps have the same keys afterwards. -/
  agree : s'.client.MapsAgree
  /-- A closing function removes what it is given. -/
  exact : ∀ function args, s.client.request a = some (function, args) →
    s.client.ClosesExactly args s'.client function
  /-- Closing again what has been closed does nothing. -/
  again : ∀ function args, s.client.request a = some (function, args) → function.kinds ≠ [] →
    (∀ m ∈ s.client.closedBy args function, m ∈ s.closed) → s.client.SameMaps s'.client

/-- Runs of scripts and of the collector, with what has been closed -/
def closingRuns (numberText : LuaNumber → Text) : Machine Closings LuaAction where
  init := ⟨.init, []⟩
  step s a := (s.client.perform numberText a).map fun out =>
    ⟨out.2, s.closed ++
      ((s.client.request a).map fun r => s.client.closedBy r.2 r.1).getD []⟩

namespace LuaClient

/-- `fs` closes the iterator of its first argument, `gpio` leaves the event container, and
`logger` erases the address of the userdata. -/
def CallCloses (c : LuaClient) (args : List Value) : LuaFunction → Prop
  | .fsClose =>
    ∀ h ∈ c.handles args .iterator, h ∈ c.fs.iterators → c.getMetaObject args[0]? .iterator = h
  | .gpioClose => ∀ h ∈ c.handles args .gpio, h ∉ c.gpio.devs
  | .loggerClose =>
    ∀ h ∈ c.logger.loggers,
      (c.testudata args[0]? .logger = some h ↔ h ∈ c.handles args .logger)
  | _ => True

end LuaClient

/-- No action closes an object in the way its module gets wrong. -/
def ClosesRightly (s : Closings) (a : LuaAction) : Prop :=
  ∀ function args, s.client.request a = some (function, args) →
    s.client.CallCloses args function

namespace LuaClient

variable {c : LuaClient} {args : List Value} {name : MetaName} {h : Nat}

theorem mem_handles_iff :
    h ∈ c.handles args name ↔ ∃ arg ∈ args, c.objectAt arg = some ⟨name, h⟩ := by
  simp only [handles, List.mem_map, List.mem_filter, List.mem_filterMap, decide_eq_true_eq]
  apply Iff.intro
  · intro hmem
    obtain ⟨⟨name', h'⟩, ⟨⟨arg, harg, hobject⟩, hname⟩, hhdl⟩ := hmem
    exact ⟨arg, harg, hname ▸ hhdl ▸ hobject⟩
  · intro hmem
    obtain ⟨arg, harg, hobject⟩ := hmem
    exact ⟨⟨name, h⟩, ⟨⟨arg, harg, hobject⟩, rfl⟩, rfl⟩

theorem mem_closedBy_iff {function : LuaFunction} {m : MetaObject} :
    m ∈ c.closedBy args function ↔ m.name ∈ function.kinds ∧ m.hdl ∈ c.handles args m.name := by
  rw [mem_handles_iff, closedBy, List.mem_filter, List.mem_filterMap, decide_eq_true_eq,
    and_comm]

theorem testudata_eq_some_iff {arg : Option Value} {ud : Nat} :
    c.testudata arg name = some ud ↔
      arg = some (.userdata ud) ∧ c.userdata[ud]?.map MetaObject.name = some name := by
  unfold testudata
  split
  · next ud' =>
      rw [Option.ite_none_right_eq_some, Option.some_inj, Option.some_inj, Value.userdata.injEq]
      apply Iff.intro
      · rintro ⟨hname, rfl⟩
        exact ⟨rfl, hname⟩
      · rintro ⟨rfl, hname⟩
        exact ⟨hname, rfl⟩
  · next hother =>
      apply iff_of_false (Option.some_ne_none ud).symm
      intro hboth
      exact hother ud hboth.1

/-- An argument with a handle is a full userdata with the metatable. -/
theorem getMetaObject_eq_iff {arg : Option Value} (hpos : h ≠ 0) :
    c.getMetaObject arg name = h ↔
      ∃ ud, arg = some (.userdata ud) ∧ c.userdata[ud]? = some ⟨name, h⟩ := by
  unfold getMetaObject
  apply Iff.intro
  · intro heq
    cases hfound : c.testudata arg name with
    | none =>
        rw [hfound] at heq
        exact absurd heq.symm hpos
    | some ud =>
        obtain ⟨harg, hname⟩ := testudata_eq_some_iff.mp hfound
        obtain ⟨m, hm, rfl⟩ := Option.map_eq_some_iff.mp hname
        rw [hfound] at heq
        simp only [Option.bind_some, hm, Option.map_some, Option.getD_some] at heq
        exact ⟨ud, harg, heq ▸ hm⟩
  · intro hobject
    obtain ⟨ud, harg, hm⟩ := hobject
    have hfound : c.testudata arg name = some ud :=
      testudata_eq_some_iff.mpr ⟨harg, by rw [hm]; rfl⟩
    rw [hfound]
    simp only [Option.bind_some, hm, Option.map_some, Option.getD_some]

/-- Handles are given out once: what is open has a handle that the counter has passed, no
two objects that are open share one, and a full userdata shares its handle with no other
object that is open. -/
structure Numbered (c : LuaClient) : Prop where
  positive : 0 < c.index
  issued : ∀ m, c.IsOpen m → 0 < m.hdl ∧ m.hdl < c.index
  given : ∀ (ud : Nat) (m : MetaObject), c.userdata[ud]? = some m → m.hdl < c.index
  unique : ∀ m m', c.IsOpen m → c.IsOpen m' → m.hdl = m'.hdl → m = m'
  holds : ∀ (ud : Nat) (m m' : MetaObject), c.userdata[ud]? = some m → c.IsOpen m' →
    m.hdl = m'.hdl → m = m'

/-- What a step does to the handles: they stay numbered, the maps agree, and what is open
was open before or has a new handle. -/
structure Kept (c c' : LuaClient) : Prop where
  numbered : c'.Numbered
  agree : c'.MapsAgree
  mono : c.index ≤ c'.index
  fresh : ∀ m, c'.IsOpen m → c.IsOpen m ∨ c.index ≤ m.hdl

section Handles

variable {c' : LuaClient}

theorem Numbered.hdl_pos (hc : c.Numbered) {m : MetaObject} (hopen : c.IsOpen m) : m.hdl ≠ 0 :=
  Nat.pos_iff_ne_zero.mp (hc.issued m hopen).1

theorem Numbered.of_subset (hc : c.Numbered) (hindex : c.index ≤ c'.index)
    (hopen : ∀ m, c'.IsOpen m → c.IsOpen m)
    (hgiven : ∀ (ud : Nat) (m : MetaObject), c'.userdata[ud]? = some m → c.userdata[ud]? = some m) :
    c'.Numbered where
  positive := Nat.lt_of_lt_of_le hc.positive hindex
  issued m hm :=
    ⟨(hc.issued m (hopen m hm)).1, Nat.lt_of_lt_of_le (hc.issued m (hopen m hm)).2 hindex⟩
  given ud m hm := Nat.lt_of_lt_of_le (hc.given ud m (hgiven ud m hm)) hindex
  unique m m' hm hm' := hc.unique m m' (hopen m hm) (hopen m' hm')
  holds ud m m' hm hm' := hc.holds ud m m' (hgiven ud m hm) (hopen m' hm')

/-- The counter gives its handle to a new object. -/
theorem Numbered.of_opened (hc : c.Numbered) (hindex : c'.index = c.index + 1)
    (hopen : ∀ m, c'.IsOpen m ↔ m = ⟨name, c.index⟩ ∨ c.IsOpen m)
    (huserdata : c'.userdata = c.userdata) : c'.Numbered where
  positive := hindex ▸ Nat.succ_pos c.index
  issued m hm := by
    rw [hindex]
    cases (hopen m).mp hm with
    | inl hnew => exact hnew ▸ ⟨hc.positive, Nat.lt_succ_self c.index⟩
    | inr hold => exact ⟨(hc.issued m hold).1, Nat.lt_succ_of_lt (hc.issued m hold).2⟩
  given ud m hm := by
    rw [hindex]
    exact Nat.lt_succ_of_lt (hc.given ud m (huserdata ▸ hm))
  unique m m' hm hm' heq := by
    cases (hopen m).mp hm with
    | inl hnew =>
        cases (hopen m').mp hm' with
        | inl hnew' => exact hnew.trans hnew'.symm
        | inr hold' =>
            have hlt := (hc.issued m' hold').2
            rw [← heq, hnew] at hlt
            exact absurd hlt (Nat.lt_irrefl c.index)
    | inr hold =>
        cases (hopen m').mp hm' with
        | inl hnew' =>
            have hlt := (hc.issued m hold).2
            rw [heq, hnew'] at hlt
            exact absurd hlt (Nat.lt_irrefl c.index)
        | inr hold' => exact hc.unique m m' hold hold' heq
  holds ud m m' hm hm' heq := by
    rw [huserdata] at hm
    cases (hopen m').mp hm' with
    | inl hnew' =>
        have hlt := hc.given ud m hm
        rw [heq, hnew'] at hlt
        exact absurd hlt (Nat.lt_irrefl c.index)
    | inr hold' => exact hc.holds ud m m' hm hold' heq

/-- A full userdata for a handle that belongs to no other object -/
theorem Numbered.pushObject (hc : c.Numbered) (address : Nat) {hdl : Nat} (hlt : hdl < c.index)
    (hown : ∀ m, c.IsOpen m → hdl = m.hdl → ⟨name, hdl⟩ = m) :
    (c.pushObject address hdl name).2.Numbered where
  positive := hc.positive
  issued := hc.issued
  given ud m hm := by
    change (c.userdata.insert address _)[ud]? = some m at hm
    rw [Table.getElem?_insert_eq] at hm
    split at hm
    · cases hm
      exact hlt
    · exact hc.given ud m hm
  unique := hc.unique
  holds ud m m' hm hm' heq := by
    change (c.userdata.insert address _)[ud]? = some m at hm
    rw [Table.getElem?_insert_eq] at hm
    split at hm
    · cases hm
      exact hown m' hm' heq
    · exact hc.holds ud m m' hm hm' heq

theorem Kept.of_subset (hc : c.Numbered) (hagree : c'.MapsAgree) (hindex : c.index ≤ c'.index)
    (hopen : ∀ m, c'.IsOpen m → c.IsOpen m)
    (hgiven : ∀ (ud : Nat) (m : MetaObject), c'.userdata[ud]? = some m → c.userdata[ud]? = some m) :
    Kept c c' where
  numbered := hc.of_subset hindex hopen hgiven
  agree := hagree
  mono := hindex
  fresh m hm := .inl (hopen m hm)

theorem Kept.of_opened (hc : c.Numbered) (hagree : c'.MapsAgree) (hindex : c'.index = c.index + 1)
    (hopen : ∀ m, c'.IsOpen m ↔ m = ⟨name, c.index⟩ ∨ c.IsOpen m)
    (huserdata : c'.userdata = c.userdata) : Kept c c' where
  numbered := hc.of_opened hindex hopen huserdata
  agree := hagree
  mono := hindex ▸ Nat.le_succ c.index
  fresh m hm := by
    cases (hopen m).mp hm with
    | inl hnew => exact .inr (hnew ▸ Nat.le_refl c.index)
    | inr hold => exact .inl hold

theorem Kept.refl (hc : c.Numbered) (hagree : c.MapsAgree) : Kept c c :=
  .of_subset hc hagree (Nat.le_refl c.index) (fun _ hm => hm) (fun _ _ hm => hm)

theorem Kept.skip (hc : c.Numbered) (hagree : c.MapsAgree) :
    Kept c { c with index := c.index + 1 } :=
  .of_subset hc ⟨hagree.files, hagree.devs, hagree.loggers⟩ (Nat.le_succ c.index)
    (fun _ hm => hm) (fun _ _ hm => hm)

theorem Kept.pushOpen (hkept : Kept c c') (address : Nat) (hopen : c'.IsOpen ⟨name, h⟩) :
    Kept c (c'.pushObject address h name).2 where
  numbered := hkept.numbered.pushObject address (hkept.numbered.issued _ hopen).2
    fun m hm heq => hkept.numbered.unique _ m hopen hm heq
  agree := ⟨hkept.agree.files, hkept.agree.devs, hkept.agree.loggers⟩
  mono := hkept.mono
  fresh := hkept.fresh

end Handles

/-! ## Opening and subscribing -/

section Opening

variable {numberText : LuaNumber → Text} {reply : Except String Unit} {address : Nat}

theorem newFile_isOpen_iff (u : Unit) (m : MetaObject) :
    (c.newFile (.ok u)).2.IsOpen m ↔ m = ⟨.file, c.index⟩ ∨ c.IsOpen m := by
  cases m with
  | mk name hdl =>
      cases name <;>
        simp only [newFile, IsOpen, Table.mem_insert_iff, MetaObject.mk.injEq, true_and,
          reduceCtorEq, false_and, false_or, eq_comm]

theorem newFsIter_isOpen_iff (u : Unit) (m : MetaObject) :
    (c.newFsIter (.ok u)).2.IsOpen m ↔ m = ⟨.iterator, c.index⟩ ∨ c.IsOpen m := by
  cases m with
  | mk name hdl =>
      cases name <;>
        simp only [newFsIter, IsOpen, Table.mem_insert_iff, MetaObject.mk.injEq, true_and,
          reduceCtorEq, false_and, false_or, eq_comm]

theorem newDev_isOpen_iff (u : Unit) (m : MetaObject) :
    (c.newDev (.ok u)).2.IsOpen m ↔ m = ⟨.gpio, c.index⟩ ∨ c.IsOpen m := by
  cases m with
  | mk name hdl =>
      cases name <;>
        simp only [newDev, IsOpen, Table.mem_insert_iff, MetaObject.mk.injEq, true_and,
          reduceCtorEq, false_and, false_or, eq_comm]

/-- A function that opens an object keeps the handles, and the handle it returns is that
of an open object. -/
def Opens (c : LuaClient) (name : MetaName) (opened : Except String Nat × LuaClient) : Prop :=
  Kept c opened.2 ∧ ∀ hdl, opened.1 = .ok hdl → opened.2.IsOpen ⟨name, hdl⟩

/-- When the client-core throws, a handle has been taken. -/
theorem opens_of_error (hc : c.Numbered) (hagree : c.MapsAgree) (name : MetaName)
    (what : String) : c.Opens name (.error what, { c with index := c.index + 1 }) := by
  apply And.intro (.skip hc hagree)
  intro hdl heq
  cases heq

theorem newFile_opens (hc : c.Numbered) (hagree : c.MapsAgree) :
    c.Opens .file (c.newFile reply) := by
  cases reply with
  | error what => exact opens_of_error hc hagree .file what
  | ok u =>
      apply And.intro
      · exact .of_opened hc ⟨hagree.files.insert c.index _ _, hagree.devs, hagree.loggers⟩ rfl
          (newFile_isOpen_iff u) rfl
      · intro hdl heq
        cases heq
        exact (newFile_isOpen_iff u _).mpr (.inl rfl)

theorem newFsIter_opens (hc : c.Numbered) (hagree : c.MapsAgree) :
    c.Opens .iterator (c.newFsIter reply) := by
  cases reply with
  | error what => exact opens_of_error hc hagree .iterator what
  | ok u =>
      apply And.intro
      · exact .of_opened hc ⟨hagree.files, hagree.devs, hagree.loggers⟩ rfl
          (newFsIter_isOpen_iff u) rfl
      · intro hdl heq
        cases heq
        exact (newFsIter_isOpen_iff u _).mpr (.inl rfl)

theorem newDev_opens (hc : c.Numbered) (hagree : c.MapsAgree) :
    c.Opens .gpio (c.newDev reply) := by
  cases reply with
  | error what => exact opens_of_error hc hagree .gpio what
  | ok u =>
      apply And.intro
      · exact .of_opened hc ⟨hagree.files, hagree.devs.insert c.index _ _, hagree.loggers⟩ rfl
          (newDev_isOpen_iff u) rfl
      · intro hdl heq
        cases heq
        exact (newDev_isOpen_iff u _).mpr (.inl rfl)

/-- What has been opened is pushed, or what the client-core throws is reported. -/
theorem pushNew_kept {opened : Except String Nat × LuaClient} (hopens : c.Opens name opened) :
    Kept c (pushNew opened address name).2 := by
  unfold pushNew
  split
  · next hdl heq => exact hopens.1.pushOpen address (hopens.2 hdl heq)
  · exact hopens.1

theorem lcallFileOpen_kept (hc : c.Numbered) (hagree : c.MapsAgree) :
    Kept c (c.lcallFileOpen numberText args reply address).2 := by
  -- the null handle belongs to no object
  have hnull : Kept c (c.pushObject address 0 .file).2 :=
    { numbered := hc.pushObject address hc.positive
        fun m hm heq => absurd heq.symm (hc.hdl_pos hm)
      agree := ⟨hagree.files, hagree.devs, hagree.loggers⟩
      mono := Nat.le_refl c.index
      fresh := fun _ hm => .inl hm }
  unfold lcallFileOpen
  split
  · exact .refl hc hagree
  · split <;> first | exact pushNew_kept (newFile_opens hc hagree) | exact hnull

theorem lcallFsIterBegin_kept (hc : c.Numbered) (hagree : c.MapsAgree) :
    Kept c (c.lcallFsIterBegin reply address).2 :=
  pushNew_kept (newFsIter_opens hc hagree)

theorem lcallExport_kept (hc : c.Numbered) (hagree : c.MapsAgree) :
    Kept c (c.lcallExport reply address).2 :=
  pushNew_kept (newDev_opens hc hagree)

theorem lcallFsIterClone_kept (hc : c.Numbered) (hagree : c.MapsAgree) :
    Kept c (c.lcallFsIterClone args reply).2 := by
  have hclone : ∀ hdl, Kept c (c.cloneFsIter hdl reply).2 := by
    intro hdl
    unfold cloneFsIter
    split
    · exact (newFsIter_opens hc hagree).1
    · exact .refl hc hagree
  unfold lcallFsIterClone
  dsimp only
  split
  · exact .refl hc hagree
  · specialize hclone (c.getMetaObject args[0]? .iterator)
    split <;> next heq => rwa [heq] at hclone

theorem lcallAddLogger_kept (hc : c.Numbered) (hagree : c.MapsAgree) :
    Kept c (c.lcallAddLogger reply address).2 := by
  cases reply with
  | error what => exact .refl hc hagree
  | ok u =>
      have hadded : ∀ m, LuaClient.IsOpen { c with
          index := c.index + 1
          logger := ⟨c.logger.loggers.insert c.index ⟨false⟩,
            c.logger.events.insert c.index (.ofNames loggerEventNames)⟩ } m ↔
          m = ⟨.logger, c.index⟩ ∨ c.IsOpen m := by
        intro m
        cases m with
        | mk name hdl =>
            cases name <;>
              simp only [IsOpen, Table.mem_insert_iff, MetaObject.mk.injEq, true_and,
                reduceCtorEq, false_and, false_or, eq_comm]
      apply Kept.pushOpen
      · apply Kept.of_opened hc
        · exact ⟨hagree.files, hagree.devs, hagree.loggers.insert c.index _ _⟩
        · rfl
        · exact hadded
        · rfl
      · exact (hadded _).mpr (.inl rfl)

theorem mem_putObject_iff {objects : Table CoreObject} {object' : Option CoreObject}
    (hthere : objects[h]? = none → object' = none) (k : Nat) :
    k ∈ putObject objects h object' ↔ k ∈ objects := by
  cases object' with
  | none => exact Iff.rfl
  | some o =>
      apply Table.mem_insert_of_mem
      by_contra hmem
      cases hthere ((Table.not_mem_iff objects h).mp hmem)

theorem follow_none (watched : Text) (si : SubscribeInfo) :
    (follow watched si none reply).2 = none := by
  unfold follow
  split <;> rfl

theorem Kept.of_keys {c' : LuaClient} (hc : c.Numbered) (hagree : c'.MapsAgree)
    (hindex : c'.index = c.index) (hopen : ∀ m, c'.IsOpen m ↔ c.IsOpen m)
    (huserdata : c'.userdata = c.userdata) : Kept c c' :=
  .of_subset hc hagree (Nat.le_of_eq hindex.symm) (fun m => (hopen m).mp)
    (fun _ _ hm => huserdata ▸ hm)

theorem lcallFileSubscribe_kept (hc : c.Numbered) (hagree : c.MapsAgree) :
    Kept c (c.lcallFileSubscribe numberText args reply).2 := by
  unfold lcallFileSubscribe
  dsimp only
  split
  · next e f hevents hfile =>
      have hthere : c.fs.files[c.getMetaObject args[0]? .file]? = none →
          (follow "on_pollin".toList (e.subscribe numberText args 1).1 (some f) reply).2 = none := by
        intro hnone
        rw [hnone] at hfile
        cases hfile
      have hmem := (Table.mem_iff_exists c.fs.fileEvents _).mpr ⟨e, hevents⟩
      apply Kept.of_keys hc
      · exact ⟨hagree.files.congr (mem_putObject_iff hthere) (Table.mem_insert_of_mem hmem _),
          hagree.devs, hagree.loggers⟩
      · rfl
      · intro m
        cases m with
        | mk name hdl => cases name <;> first | exact mem_putObject_iff hthere hdl | exact Iff.rfl
      · rfl
  · exact .refl hc hagree

theorem lcallGpioSubscribe_kept (hc : c.Numbered) (hagree : c.MapsAgree) :
    Kept c (c.lcallGpioSubscribe numberText args reply).2 := by
  unfold lcallGpioSubscribe
  dsimp only
  split
  · next e hevents =>
      have hthere : c.gpio.devs[c.getMetaObject args[0]? .gpio]? = none →
          (follow "on_changed".toList (e.subscribe numberText args 1).1
            c.gpio.devs[c.getMetaObject args[0]? .gpio]? reply).2 = none := by
        intro hnone
        rw [hnone]
        exact follow_none _ _
      have hmem := (Table.mem_iff_exists c.gpio.events _).mpr ⟨e, hevents⟩
      apply Kept.of_keys hc
      · exact ⟨hagree.files,
          hagree.devs.congr (mem_putObject_iff hthere) (Table.mem_insert_of_mem hmem _),
          hagree.loggers⟩
      · rfl
      · intro m
        cases m with
        | mk name hdl => cases name <;> first | exact mem_putObject_iff hthere hdl | exact Iff.rfl
      · rfl
  · exact .refl hc hagree

theorem lcallLoggerSubscribe_kept (hc : c.Numbered) (hagree : c.MapsAgree) :
    Kept c (c.lcallLoggerSubscribe numberText args reply).2 := by
  unfold lcallLoggerSubscribe
  dsimp only
  split
  · exact .refl hc hagree
  split
  · next e lgr hevents hlogger =>
      have hthere : c.logger.loggers[c.getMetaObject args[0]? .logger]? = none →
          (follow "on_write".toList (e.subscribe numberText args 1).1 (some lgr) reply).2 =
            none := by
        intro hnone
        rw [hnone] at hlogger
        cases hlogger
      have hmem := (Table.mem_iff_exists c.logger.events _).mpr ⟨e, hevents⟩
      have hafter : Kept c { c with
          logger := ⟨putObject c.logger.loggers (c.getMetaObject args[0]? .logger)
            (follow "on_write".toList (e.subscribe numberText args 1).1 (some lgr) reply).2,
            c.logger.events.insert (c.getMetaObject args[0]? .logger)
              (e.subscribe numberText args 1).2⟩ } := by
        apply Kept.of_keys hc
        · exact ⟨hagree.files, hagree.devs,
            hagree.loggers.congr (mem_putObject_iff hthere) (Table.mem_insert_of_mem hmem _)⟩
        · rfl
        · intro m
          cases m with
          | mk name hdl =>
              cases name <;> first | exact mem_putObject_iff hthere hdl | exact Iff.rfl
        · rfl
      split <;> exact hafter
  · exact .refl hc hagree

end Opening

/-! ## Closing -/

section Closing

/-- What a function does for its module: it closes exactly what it is given
when the call is allowed, and then the handles are kept. -/
def CloseExact (c : LuaClient) (args : List Value) (function : LuaFunction) (c' : LuaClient) :
    Prop :=
  (c'.MapsAgree ∧ c.ClosesExactly args c' function ↔ c.CallCloses args function) ∧
    (c.CallCloses args function → Kept c c')

/-- The object of the first argument is one of those that are passed. -/
theorem first_mem_handles (hfirst : c.getMetaObject args[0]? name = h) (hpos : h ≠ 0) :
    h ∈ c.handles args name := by
  obtain ⟨ud, harg, hm⟩ := (getMetaObject_eq_iff hpos).mp hfirst
  exact mem_handles_iff.mpr ⟨.userdata ud, List.mem_of_getElem? harg, hm⟩

/-- The device goes and its container stays. Both are right where nothing is open. -/
theorem lcallGpioClose_closeExact (hc : c.Numbered) (hagree : c.MapsAgree) :
    c.CloseExact args .gpioClose (c.lcallGpioClose args).2 := by
  have hevents : Table.Without c.gpio.events c.gpio.events (c.handles args .gpio) ↔
      c.CallCloses args .gpioClose := by
    rw [Table.without_self_iff]
    apply Iff.intro
    · intro hall k hk hopen
      exact hall k ((hagree.devs k).mp hopen) hk
    · intro hall k hopen hk
      exact hall k hk ((hagree.devs k).mpr hopen)
  have hdevs : c.CallCloses args .gpioClose →
      Table.Without c.gpio.devs (c.lcallGpioClose args).2.gpio.devs (c.handles args .gpio) := by
    intro hallowed
    apply Table.without_erase_iff.mpr
    intro k hk
    apply iff_of_false
    · intro hfirst
      exact hallowed k (first_mem_handles hfirst (hc.hdl_pos (m := ⟨.gpio, k⟩) hk)) hk
    · exact fun hmem => hallowed k hmem hk
  have hafter : c.CallCloses args .gpioClose → (c.lcallGpioClose args).2.MapsAgree :=
    fun hallowed => ⟨hagree.files,
      (hdevs hallowed).sameKeys (hevents.mpr hallowed) hagree.devs, hagree.loggers⟩
  apply And.intro
  · apply Iff.intro
    · intro hexact
      exact hevents.mp hexact.2.2.1
    · intro hallowed
      exact ⟨hafter hallowed, hdevs hallowed, hevents.mpr hallowed, rfl, rfl⟩
  · intro hallowed
    apply Kept.of_subset hc (hafter hallowed) (Nat.le_refl c.index)
    · intro m hm
      cases m with
      | mk name hdl =>
          cases name with
          | gpio => exact ((Table.mem_erase_iff c.gpio.devs _ hdl).mp hm).2
          | file => exact hm
          | iterator => exact hm
          | logger => exact hm
    · exact fun _ _ hm => hm

/-- The loggers whose handle is the address of the first argument are erased. -/
theorem lcallLoggerClose_lost (k : Nat) :
    (c.lcallLoggerClose args).2.logger.loggers[k]? =
        (if c.testudata args[0]? .logger = some k then none else c.logger.loggers[k]?) ∧
      (c.lcallLoggerClose args).2.logger.events[k]? =
        (if c.testudata args[0]? .logger = some k then none else c.logger.events[k]?) := by
  unfold lcallLoggerClose
  cases c.testudata args[0]? .logger with
  | none => exact ⟨rfl, rfl⟩
  | some ud =>
      simp only [Option.some_inj]
      exact ⟨Table.getElem?_erase_eq _ ud k, Table.getElem?_erase_eq _ ud k⟩

theorem lcallLoggerClose_others (c : LuaClient) (args : List Value) :
    (c.lcallLoggerClose args).2.fs = c.fs ∧ (c.lcallLoggerClose args).2.gpio = c.gpio ∧
      (c.lcallLoggerClose args).2.index = c.index ∧
      (c.lcallLoggerClose args).2.userdata = c.userdata := by
  unfold lcallLoggerClose
  split <;> exact ⟨rfl, rfl, rfl, rfl⟩

theorem lcallLoggerClose_closeExact (hc : c.Numbered) (hagree : c.MapsAgree) :
    c.CloseExact args .loggerClose (c.lcallLoggerClose args).2 := by
  obtain ⟨hfs, hgpio, hindex, huserdata⟩ := lcallLoggerClose_others c args
  have hloggers : Table.Without c.logger.loggers (c.lcallLoggerClose args).2.logger.loggers
      (c.handles args .logger) ↔ c.CallCloses args .loggerClose :=
    Table.without_iff fun k => (lcallLoggerClose_lost k).1
  have hevents : Table.Without c.logger.events (c.lcallLoggerClose args).2.logger.events
      (c.handles args .logger) ↔ c.CallCloses args .loggerClose := by
    rw [Table.without_iff fun k => (lcallLoggerClose_lost k).2]
    apply forall_congr'
    intro k
    rw [← hagree.loggers k]
  have hafter : c.CallCloses args .loggerClose → (c.lcallLoggerClose args).2.MapsAgree := by
    intro hallowed
    apply MapsAgree.mk
    · rw [hfs]
      exact hagree.files
    · rw [hgpio]
      exact hagree.devs
    · exact (hloggers.mpr hallowed).sameKeys (hevents.mpr hallowed) hagree.loggers
  apply And.intro
  · apply Iff.intro
    · intro hexact
      exact hloggers.mp hexact.2.1
    · intro hallowed
      exact ⟨hafter hallowed, hloggers.mpr hallowed, hevents.mpr hallowed, hfs, hgpio⟩
  · intro hallowed
    apply Kept.of_subset hc (hafter hallowed) (Nat.le_of_eq hindex.symm)
    · intro m hm
      cases m with
      | mk name hdl =>
          cases name with
          | logger => exact ((hloggers.mpr hallowed).mem_iff hdl |>.mp hm).2
          | file =>
              change hdl ∈ c.fs.files
              rw [← hfs]
              exact hm
          | iterator =>
              change hdl ∈ c.fs.iterators
              rw [← hfs]
              exact hm
          | gpio =>
              change hdl ∈ c.gpio.devs
              rw [← hgpio]
              exact hm
    · exact fun _ _ hm => huserdata ▸ hm

/-- The handle that `fs::lcall_close` closes for an argument -/
def target (c : LuaClient) (first : Option Value) (arg : Value) : Nat :=
  if c.getMetaObject (some arg) .file = 0 then c.getMetaObject first .iterator
  else c.getMetaObject (some arg) .file

theorem closeArgument_eq (first : Option Value) (fs : FsModule) (arg : Value) :
    c.closeArgument first fs arg = fs.close (c.target first arg) := by
  unfold closeArgument target
  dsimp only
  split <;> rfl

structure FsClosed (fs fs' : FsModule) (ids : List Nat) : Prop where
  files : Table.Without fs.files fs'.files ids
  fileEvents : Table.Without fs.fileEvents fs'.fileEvents ids
  iterators : Table.Without fs.iterators fs'.iterators ids

theorem FsClosed.trans {fs fs' fs'' : FsModule} {ids more : List Nat}
    (hfirst : FsClosed fs fs' ids) (hsecond : FsClosed fs' fs'' more) :
    FsClosed fs fs'' (ids ++ more) where
  files := hfirst.files.trans hsecond.files
  fileEvents := hfirst.fileEvents.trans hsecond.fileEvents
  iterators := hfirst.iterators.trans hsecond.iterators

theorem without_singleton_self {V : Type} {t : Table V} {k : Nat} (hk : k ∉ t) :
    Table.Without t t [k] := by
  rw [Table.without_self_iff]
  rintro a ha hmem
  exact hk (List.mem_singleton.mp hmem ▸ ha)

/-- One handle: that of a file, or that of an iterator, or none that is there. -/
theorem close_closed {fs : FsModule} (hsame : Table.SameKeys fs.files fs.fileEvents)
    (hapart : ∀ k ∈ fs.files, k ∉ fs.iterators) (id : Nat) : FsClosed fs (fs.close id) [id] := by
  unfold FsModule.close
  by_cases hfile : id ∈ fs.files
  · rw [if_pos hfile]
    exact ⟨Table.without_erase _ id, Table.without_erase _ id,
      without_singleton_self (hapart id hfile)⟩
  · have hevents : id ∉ fs.fileEvents := fun hmem => hfile ((hsame id).mpr hmem)
    rw [if_neg hfile]
    by_cases hiterator : id ∈ fs.iterators
    · rw [if_pos hiterator]
      exact ⟨without_singleton_self hfile, without_singleton_self hevents,
        Table.without_erase _ id⟩
    · rw [if_neg hiterator]
      exact ⟨without_singleton_self hfile, without_singleton_self hevents,
        without_singleton_self hiterator⟩

theorem foldl_closed (first : Option Value) (args : List Value) {fs : FsModule}
    (hsame : Table.SameKeys fs.files fs.fileEvents) (hapart : ∀ k ∈ fs.files, k ∉ fs.iterators) :
    FsClosed fs (args.foldl (c.closeArgument first) fs) (args.map (c.target first)) := by
  induction args generalizing fs with
  | nil => exact ⟨Table.without_refl _, Table.without_refl _, Table.without_refl _⟩
  | cons arg args ih =>
      have hone : FsClosed fs (c.closeArgument first fs arg) [c.target first arg] := by
        rw [closeArgument_eq]
        exact close_closed hsame hapart _
      have hrest := ih (hone.files.sameKeys hone.fileEvents hsame) fun k hk hmem =>
        hapart k ((hone.files.mem_iff k).mp hk).2 ((hone.iterators.mem_iff k).mp hmem).2
      exact hone.trans hrest

/-- A full userdata with the handle of something open is of its kind. -/
theorem Numbered.kind_eq (hc : c.Numbered) (kind : MetaName) {arg : Option Value}
    (hopen : c.IsOpen ⟨kind, h⟩) (hhdl : c.getMetaObject arg name = h) : name = kind := by
  obtain ⟨ud, _, hm⟩ := (getMetaObject_eq_iff (hc.hdl_pos hopen)).mp hhdl
  have heq := hc.holds ud _ _ hm hopen rfl
  exact (MetaObject.mk.inj heq).1

/-- An argument that stands for a file is its full userdata. -/
theorem getMetaObject_of_objectAt {arg : Value} (hfile : name ≠ .iterator) (hpos : h ≠ 0)
    (hobject : c.objectAt arg = some ⟨name, h⟩) : c.getMetaObject (some arg) name = h := by
  unfold objectAt at hobject
  split at hobject
  · next ud => exact (getMetaObject_eq_iff hpos).mpr ⟨ud, rfl, hobject⟩
  · split at hobject
    · cases hobject
      exact absurd rfl hfile
    · cases hobject
  · cases hobject

theorem mem_targets_file_iff (hc : c.Numbered) (hopen : h ∈ c.fs.files) :
    h ∈ args.map (c.target args[0]?) ↔ h ∈ c.handles args .file := by
  have hpos : h ≠ 0 := hc.hdl_pos (m := ⟨.file, h⟩) hopen
  rw [List.mem_map]
  apply Iff.intro
  · intro hmem
    obtain ⟨arg, harg, htarget⟩ := hmem
    unfold target at htarget
    split at htarget
    · cases hc.kind_eq .file hopen htarget
    · obtain ⟨ud, hud, hm⟩ := (getMetaObject_eq_iff hpos).mp htarget
      cases hud
      exact mem_handles_iff.mpr ⟨.userdata ud, harg, hm⟩
  · intro hmem
    obtain ⟨arg, harg, hobject⟩ := mem_handles_iff.mp hmem
    have hhdl : c.getMetaObject (some arg) .file = h :=
      getMetaObject_of_objectAt (by decide) hpos hobject
    refine ⟨arg, harg, ?_⟩
    rw [target, hhdl, if_neg hpos]

theorem mem_targets_iterator_iff (hc : c.Numbered) (hopen : h ∈ c.fs.iterators) :
    h ∈ args.map (c.target args[0]?) ↔ c.getMetaObject args[0]? .iterator = h := by
  have hpos : h ≠ 0 := hc.hdl_pos (m := ⟨.iterator, h⟩) hopen
  rw [List.mem_map]
  apply Iff.intro
  · intro hmem
    obtain ⟨arg, harg, htarget⟩ := hmem
    unfold target at htarget
    split at htarget
    · exact htarget
    · cases hc.kind_eq .iterator hopen htarget
  · intro hfirst
    obtain ⟨ud, harg, hm⟩ := (getMetaObject_eq_iff hpos).mp hfirst
    have hother : c.getMetaObject (some (.userdata ud)) .file = 0 := by
      by_contra hne
      obtain ⟨ud', hud, hm'⟩ := (getMetaObject_eq_iff hne).mp rfl
      cases hud
      rw [hm] at hm'
      cases hm'
    refine ⟨.userdata ud, List.mem_of_getElem? harg, ?_⟩
    rw [target, if_pos hother]
    exact hfirst

theorem lcallFsClose_closeExact (hc : c.Numbered) (hagree : c.MapsAgree) :
    c.CloseExact args .fsClose (c.lcallFsClose args).2 := by
  have hapart : ∀ k ∈ c.fs.files, k ∉ c.fs.iterators := by
    intro k hfile hiterator
    cases hc.unique ⟨.file, k⟩ ⟨.iterator, k⟩ hfile hiterator rfl
  have hclosed : FsClosed c.fs (c.lcallFsClose args).2.fs (args.map (c.target args[0]?)) :=
    foldl_closed args[0]? args hagree.files hapart
  have hfiles : Table.Without c.fs.files (c.lcallFsClose args).2.fs.files (c.handles args .file) :=
    hclosed.files.iff_of_lists.mpr fun k hk => mem_targets_file_iff hc hk
  have hevents : Table.Without c.fs.fileEvents (c.lcallFsClose args).2.fs.fileEvents
      (c.handles args .file) :=
    hclosed.fileEvents.iff_of_lists.mpr fun k hk =>
      mem_targets_file_iff hc ((hagree.files k).mpr hk)
  have hiterators : Table.Without c.fs.iterators (c.lcallFsClose args).2.fs.iterators
      (c.handles args .iterator) ↔ c.CallCloses args .fsClose := by
    rw [hclosed.iterators.iff_of_lists]
    apply Iff.intro
    · intro hall k hmem hopen
      exact (mem_targets_iterator_iff hc hopen).mp ((hall k hopen).mpr hmem)
    · intro hallowed k hopen
      rw [mem_targets_iterator_iff hc hopen]
      apply Iff.intro
      · intro hfirst
        exact first_mem_handles hfirst (hc.hdl_pos (m := ⟨.iterator, k⟩) hopen)
      · exact fun hmem => hallowed k hmem hopen
  have hafter : (c.lcallFsClose args).2.MapsAgree :=
    ⟨hfiles.sameKeys hevents hagree.files, hagree.devs, hagree.loggers⟩
  apply And.intro
  · apply Iff.intro
    · intro hexact
      exact hiterators.mp hexact.2.2.2.1
    · intro hallowed
      exact ⟨hafter, hfiles, hevents, hiterators.mpr hallowed, rfl, rfl⟩
  · intro _
    apply Kept.of_subset hc hafter (Nat.le_refl c.index)
    · intro m hm
      cases m with
      | mk name hdl =>
          cases name with
          | file => exact ((hfiles.mem_iff hdl).mp hm).2
          | iterator => exact ((hclosed.iterators.mem_iff hdl).mp hm).2
          | gpio => exact hm
          | logger => exact hm
    · exact fun _ _ hm => hm

end Closing

section Actions

variable {numberText : LuaNumber → Text} {reply : Except String Unit} {address : Nat}

theorem closeExact_of_kept {function : LuaFunction} {c' : LuaClient} (hkept : Kept c c')
    (hexact : c.ClosesExactly args c' function) (hallowed : c.CallCloses args function) :
    c.CloseExact args function c' :=
  ⟨iff_of_true ⟨hkept.agree, hexact⟩ hallowed, fun _ => hkept⟩

theorem call_closeExact (hc : c.Numbered) (hagree : c.MapsAgree) (function : LuaFunction) :
    c.CloseExact args function (c.call numberText args reply address function).2 := by
  cases function with
  | fileOpen => exact closeExact_of_kept (lcallFileOpen_kept hc hagree) trivial trivial
  | fsIterBegin => exact closeExact_of_kept (lcallFsIterBegin_kept hc hagree) trivial trivial
  | fsIterClone => exact closeExact_of_kept (lcallFsIterClone_kept hc hagree) trivial trivial
  | fsClose => exact lcallFsClose_closeExact hc hagree
  | fileSubscribe => exact closeExact_of_kept (lcallFileSubscribe_kept hc hagree) trivial trivial
  | gpioExport => exact closeExact_of_kept (lcallExport_kept hc hagree) trivial trivial
  | gpioClose => exact lcallGpioClose_closeExact hc hagree
  | gpioSubscribe => exact closeExact_of_kept (lcallGpioSubscribe_kept hc hagree) trivial trivial
  | addLogger => exact closeExact_of_kept (lcallAddLogger_kept hc hagree) trivial trivial
  | loggerClose => exact lcallLoggerClose_closeExact hc hagree
  | loggerSubscribe =>
      exact closeExact_of_kept (lcallLoggerSubscribe_kept hc hagree) trivial trivial

/-- The collector also takes the full userdata, which is in no map. -/
theorem CloseExact.collected {function : LuaFunction} {c' : LuaClient}
    (hexact : c.CloseExact args function c') :
    c.CloseExact args function { c' with userdata := c'.userdata.erase address } := by
  have hagree : LuaClient.MapsAgree { c' with userdata := c'.userdata.erase address } ↔
      c'.MapsAgree :=
    ⟨fun h => ⟨h.files, h.devs, h.loggers⟩, fun h => ⟨h.files, h.devs, h.loggers⟩⟩
  have hcloses : c.ClosesExactly args { c' with userdata := c'.userdata.erase address } function ↔
      c.ClosesExactly args c' function := by
    cases function <;> exact Iff.rfl
  apply And.intro
  · rw [hagree, hcloses]
    exact hexact.1
  · intro hallowed
    have hkept := hexact.2 hallowed
    have hsubset : ∀ (ud : Nat) (m : MetaObject), (c'.userdata.erase address)[ud]? = some m →
        c'.userdata[ud]? = some m :=
      fun ud m hm => (Table.getElem?_erase_eq_some_iff.mp hm).2
    exact
      { numbered := hkept.numbered.of_subset (Nat.le_refl _) (fun _ hm => hm) hsubset
        agree := hagree.mpr hkept.agree
        mono := hkept.mono
        fresh := hkept.fresh }

theorem perform_closeExact (hc : c.Numbered) (hagree : c.MapsAgree) {a : LuaAction}
    {out : Answer × LuaClient} (hout : c.perform numberText a = some out) :
    ∃ function args, c.request a = some (function, args) ∧ c.CloseExact args function out.2 := by
  cases a with
  | call function args reply address =>
      unfold perform at hout
      dsimp only at hout
      split at hout
      · cases hout
        exact ⟨function, args, rfl, call_closeExact hc hagree function⟩
      · cases hout
  | collect address =>
      obtain ⟨m, hm, rfl⟩ := Option.map_eq_some_iff.mp hout
      refine ⟨m.name.closing, [.userdata address], ?_, ?_⟩
      · rw [request, hm]
        rfl
      · exact (call_closeExact hc hagree m.name.closing).collected

end Actions

section Closed

variable {c' : LuaClient} {function : LuaFunction} {m : MetaObject}

theorem not_isOpen_of_closedBy (hexact : c.ClosesExactly args c' function)
    (hm : m ∈ c.closedBy args function) : ¬ c'.IsOpen m := by
  obtain ⟨hkind, hgone⟩ := mem_closedBy_iff.mp hm
  cases m with
  | mk name hdl =>
      intro hopen
      cases function with
      | fsClose =>
          cases name with
          | file => exact ((hexact.1.mem_iff hdl).mp hopen).1 hgone
          | iterator => exact ((hexact.2.2.1.mem_iff hdl).mp hopen).1 hgone
          | gpio => cases hkind with | tail _ h => cases h with | tail _ h => cases h
          | logger => cases hkind with | tail _ h => cases h with | tail _ h => cases h
      | gpioClose =>
          cases List.mem_singleton.mp hkind
          exact ((hexact.1.mem_iff hdl).mp hopen).1 hgone
      | loggerClose =>
          cases List.mem_singleton.mp hkind
          exact ((hexact.1.mem_iff hdl).mp hopen).1 hgone
      | _ => cases hkind

theorem Numbered.closedBy_lt (hc : c.Numbered) (hm : m ∈ c.closedBy args function) :
    m.hdl < c.index := by
  obtain ⟨arg, _, hobject⟩ := mem_handles_iff.mp (mem_closedBy_iff.mp hm).2
  cases m with
  | mk name hdl =>
      unfold objectAt at hobject
      split at hobject
      · exact hc.given _ _ hobject
      · split at hobject
        · next hopen =>
            cases hobject
            exact (hc.issued ⟨.iterator, hdl⟩ hopen).2
        · cases hobject
      · cases hobject

theorem sameMaps_of_closed (hagree : c.MapsAgree) (hexact : c.ClosesExactly args c' function)
    (hkinds : function.kinds ≠ []) (hclosed : ∀ m ∈ c.closedBy args function, ¬ c.IsOpen m) :
    c.SameMaps c' := by
  have hgone : ∀ name ∈ function.kinds, ∀ k ∈ c.handles args name, ¬ c.IsOpen ⟨name, k⟩ :=
    fun name hname k hk => hclosed ⟨name, k⟩ (mem_closedBy_iff.mpr ⟨hname, hk⟩)
  cases function with
  | fsClose =>
      obtain ⟨hfiles, hevents, hiterators, hgpio, hlogger⟩ := hexact
      have hfile := hgone .file (by decide)
      refine ⟨?_, hgpio, hlogger⟩
      show (⟨c'.fs.iterators, c'.fs.files, c'.fs.fileEvents⟩ : FsModule) = c.fs
      rw [hfiles.eq_of_absent hfile,
        hevents.eq_of_absent fun k hk hmem => hfile k hk ((hagree.files k).mpr hmem),
        hiterators.eq_of_absent (hgone .iterator (by decide))]
  | gpioClose =>
      obtain ⟨hdevs, hevents, hfs, hlogger⟩ := hexact
      have hgpio := hgone .gpio (by decide)
      refine ⟨hfs, ?_, hlogger⟩
      show (⟨c'.gpio.devs, c'.gpio.events⟩ : GpioModule) = c.gpio
      rw [hdevs.eq_of_absent hgpio,
        hevents.eq_of_absent fun k hk hmem => hgpio k hk ((hagree.devs k).mpr hmem)]
  | loggerClose =>
      obtain ⟨hloggers, hevents, hfs, hgpio⟩ := hexact
      have hlogger := hgone .logger (by decide)
      refine ⟨hfs, hgpio, ?_⟩
      show (⟨c'.logger.loggers, c'.logger.events⟩ : LoggerModule) = c.logger
      rw [hloggers.eq_of_absent hlogger,
        hevents.eq_of_absent fun k hk hmem => hlogger k hk ((hagree.loggers k).mpr hmem)]
  | _ => exact absurd rfl hkinds

end Closed

theorem numbered_init : init.Numbered where
  positive := by decide
  issued m hm := by
    cases m with
    | mk name hdl => cases name <;> exact absurd hm Std.ExtTreeMap.not_mem_empty
  given ud m hm := absurd hm (Table.getElem?_empty_ne ud m)
  unique m m' hm := by
    cases m with
    | mk name hdl => cases name <;> exact absurd hm Std.ExtTreeMap.not_mem_empty
  holds ud m m' hm := absurd hm (Table.getElem?_empty_ne ud m)

theorem mapsAgree_init : init.MapsAgree where
  files _ := iff_of_false Std.ExtTreeMap.not_mem_empty Std.ExtTreeMap.not_mem_empty
  devs _ := iff_of_false Std.ExtTreeMap.not_mem_empty Std.ExtTreeMap.not_mem_empty
  loggers _ := iff_of_false Std.ExtTreeMap.not_mem_empty Std.ExtTreeMap.not_mem_empty

end LuaClient

/-- The invariant of the runs: what has been closed is not open, and its handle is not
given out again. -/
structure Settled (s : Closings) : Prop where
  numbered : s.client.Numbered
  agree : s.client.MapsAgree
  closed : ∀ m ∈ s.closed, m.hdl < s.client.index ∧ ¬ s.client.IsOpen m

theorem settled_init : Settled ⟨.init, []⟩ where
  numbered := LuaClient.numbered_init
  agree := LuaClient.mapsAgree_init
  closed _ hm := absurd hm List.not_mem_nil

theorem closingRuns_step {numberText : LuaNumber → Text} {s s' : Closings} {a : LuaAction}
    (hs : Settled s) (hstep : (closingRuns numberText).step s a = some s') :
    ∃ function args, s.client.request a = some (function, args) ∧
      s.client.CloseExact args function s'.client ∧
      s'.closed = s.closed ++ s.client.closedBy args function := by
  obtain ⟨out, hout, rfl⟩ := Option.map_eq_some_iff.mp hstep
  obtain ⟨function, args, hrequest, hexact⟩ :=
    LuaClient.perform_closeExact hs.numbered hs.agree hout
  refine ⟨function, args, hrequest, hexact, ?_⟩
  rw [hrequest]
  rfl

theorem Settled.step {numberText : LuaNumber → Text} {s s' : Closings} {a : LuaAction}
    (hs : Settled s) (hguard : ClosesRightly s a)
    (hstep : (closingRuns numberText).step s a = some s') : Settled s' := by
  obtain ⟨function, args, hrequest, hexact, hclosed⟩ := closingRuns_step hs hstep
  have hallowed := hguard function args hrequest
  have hkept := hexact.2 hallowed
  have hcloses := (hexact.1.mpr hallowed).2
  apply Settled.mk hkept.numbered hkept.agree
  intro m hm
  rw [hclosed, List.mem_append] at hm
  cases hm with
  | inl hbefore =>
      obtain ⟨hlt, hnot⟩ := hs.closed m hbefore
      apply And.intro (Nat.lt_of_lt_of_le hlt hkept.mono)
      intro hopen
      cases hkept.fresh m hopen with
      | inl hold => exact hnot hold
      | inr hle => exact absurd hlt (Nat.not_lt.mpr hle)
  | inr hnow =>
      exact ⟨Nat.lt_of_lt_of_le (hs.numbered.closedBy_lt hnow) hkept.mono,
        LuaClient.not_isOpen_of_closedBy hcloses hnow⟩

theorem closesWell_iff {numberText : LuaNumber → Text} {s s' : Closings} {a : LuaAction}
    (hs : Settled s) (hstep : (closingRuns numberText).step s a = some s') :
    ClosesWell s a s' ↔ ClosesRightly s a := by
  obtain ⟨function, args, hrequest, hexact, _⟩ := closingRuns_step hs hstep
  have hthis : ∀ {function' : LuaFunction} {args' : List Value},
      s.client.request a = some (function', args') → function' = function ∧ args' = args := by
    intro function' args' hrequest'
    rw [hrequest, Option.some_inj, Prod.mk.injEq] at hrequest'
    exact ⟨hrequest'.1.symm, hrequest'.2.symm⟩
  apply Iff.intro
  · intro hwell function' args' hrequest'
    obtain ⟨rfl, rfl⟩ := hthis hrequest'
    exact hexact.1.mp ⟨hwell.agree, hwell.exact _ _ hrequest'⟩
  · intro hguard
    obtain ⟨hagree, hcloses⟩ := hexact.1.mpr (hguard function args hrequest)
    apply ClosesWell.mk hagree
    · intro function' args' hrequest'
      obtain ⟨rfl, rfl⟩ := hthis hrequest'
      exact hcloses
    · intro function' args' hrequest' hkinds hclosed
      obtain ⟨rfl, rfl⟩ := hthis hrequest'
      exact LuaClient.sameMaps_of_closed hs.agree hcloses hkinds fun m hm =>
        (hs.closed m (hclosed m hm)).2

/-- **Closing removes what is passed.** In every run of scripts and collector, whatever the
client-core answers: the maps of a module have the same keys, closing removes the entries
of the objects that are passed and no others, and closing again does nothing, exactly when
no action closes an object in the way its module gets wrong. -/
theorem closes_well_iff (numberText : LuaNumber → Text) (as : List LuaAction) :
    (closingRuns numberText).Each ClosesWell as ↔
      (closingRuns numberText).Meets ClosesRightly as := by
  apply Machine.each_iff_meets settled_init
  · intro s a s' hs hguard hstep
    exact hs.step hguard hstep
  · intro s a s' hs hstep
    exact closesWell_iff hs hstep

def pinClosed : List LuaAction :=
  [.call .gpioExport [.number (.whole 17)] (.ok ()) 1,
    .call .gpioClose [.userdata 1] (.ok ()) 2]

def iteratorsClosed : List LuaAction :=
  [.call .fsIterBegin [.string "/etc".toList] (.ok ()) 1,
    .call .fsIterBegin [.string "/tmp".toList] (.ok ()) 2,
    .call .fsClose [.userdata 1, .userdata 2] (.ok ()) 3]

def loggerCollected : List LuaAction :=
  [.call .addLogger [] (.ok ()) 1, .collect 1]

/-- The container of the pin stays, and so do the second iterator and the logger. -/
theorem entries_stay :
    ¬ (closingRuns fun _ => []).Each ClosesWell pinClosed ∧
      ¬ (closingRuns fun _ => []).Each ClosesWell iteratorsClosed ∧
      ¬ (closingRuns fun _ => []).Each ClosesWell loggerCollected := by
  refine ⟨fun heach => ?_, fun heach => ?_, fun heach => ?_⟩
  · have hexported := (heach _ rfl).2
    have hclosed := (hexported _ rfl).1
    have hdev := (hclosed.agree.devs 100).mpr (by decide +kernel)
    revert hdev
    decide +kernel
  · have hfirst := (heach _ rfl).2
    have hsecond := (hfirst _ rfl).2
    have hclosed := (hsecond _ rfl).1
    have hgone := (hclosed.exact .fsClose _ rfl).2.2.1 101
    revert hgone
    decide +kernel
  · have hadded := (heach _ rfl).2
    have hcollected := (hadded _ rfl).1
    have hgone := (hcollected.exact .loggerClose _ rfl).1 100
    revert hgone
    decide +kernel

end FerroRemote.Lua

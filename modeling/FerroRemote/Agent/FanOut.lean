/-
# Fan-out of pin events

`reactor_handler` posts a task for every event that finds somebody connected, and the
strand runs the tasks one by one: `send_to_all` walks the map of connections under
`connections_lock_`, calls each, and erases those that answer `false` as it goes. Between
two tasks connections are added and deleted.

Every `add_reactor_action` makes a `gpio_reaction` of its own, and connections are these
objects here, not their ids: under an id that is taken, the new one replaces the old one.
-/

import FerroRemote.Math.Machine
import FerroRemote.Math.Table

namespace FerroRemote.Agent

structure PinEvent where
  value : Nat
  tick : Nat
  deriving DecidableEq, Repr

structure ReactionCall where
  object : Nat
  event : PinEvent
  deriving DecidableEq, Repr

/-- `gpio_helper::impl`, as far as its connections go. -/
structure FanOut where
  /-- `connections_`: the `gpio_reaction` under each id. -/
  connections : Table Nat := ∅
  /-- The tasks of the strand, oldest first. -/
  queue : List PinEvent := []
  /-- The next unused identity of a `gpio_reaction`. -/
  born : Nat := 0
  /-- All the events that were posted. -/
  posted : List PinEvent := []
  /-- All the tasks that ran, with what was in the map when they did. -/
  ran : List (PinEvent × List Nat) := []
  /-- All the calls. -/
  calls : List ReactionCall := []

inductive FanOutAction
  /-- `add_reactor_action`. -/
  | add (id : Nat)
  /-- `del_reactor_action`. -/
  | del (id : Nat)
  /-- `reactor_handler`, with what it reads. -/
  | event (read : Option (List UInt8)) (tick : Nat)
  /-- The strand runs the oldest task; `answers` is what the connections return. -/
  | task (answers : Nat → Bool)

namespace FanOut

/-- The loop of `send_to_all` over the `entries` that are left: erasing gives the next
one, as going on does. -/
def sendLoop (answers : Nat → Bool) (ev : PinEvent) :
    List (Nat × Nat) → Table Nat → List ReactionCall → Table Nat × List ReactionCall
  | [], connections, calls => (connections, calls)
  | (id, object) :: entries, connections, calls =>
    let calls := calls ++ [⟨object, ev⟩]
    if answers object = false then sendLoop answers ev entries (connections.erase id) calls
    else sendLoop answers ev entries connections calls

/-- The connections in the map, in the order of their ids. -/
def objects (s : FanOut) : List Nat := s.connections.toList.map (·.2)

def sendToAll (s : FanOut) (answers : Nat → Bool) (ev : PinEvent) : FanOut :=
  let res := sendLoop answers ev s.connections.toList s.connections s.calls
  { s with connections := res.1, calls := res.2 }

def step (s : FanOut) : FanOutAction → Option FanOut
  | .add id => some { s with connections := s.connections.insert id s.born, born := s.born + 1 }
  | .del id => some { s with connections := s.connections.erase id }
  | .event read tick =>
    if s.connections.isEmpty then some s
    else
      match read with
      | none => some s
      | some buf =>
        -- buf[0] == '1'
        let ev : PinEvent := ⟨if buf.head? = some 49 then 1 else 0, tick⟩
        some { s with queue := s.queue ++ [ev], posted := s.posted ++ [ev] }
  | .task answers =>
    match s.queue with
    | [] => none
    | ev :: queue =>
      some { s.sendToAll answers ev with queue, ran := s.ran ++ [(ev, s.objects)] }

end FanOut

/-- A helper that nobody is connected to. -/
def fanOut : Machine FanOut FanOutAction where
  init := {}
  step := FanOut.step

namespace FanOut

def InMap (s : FanOut) (object : Nat) : Prop := ∃ id : Nat, s.connections[id]? = some object

def callsTo (s : FanOut) (object : Nat) : List PinEvent :=
  (s.calls.filter (·.object = object)).map (·.event)

/-- A connection leaves when it is deleted or answers `false`. -/
def LeavesAlone (s : FanOut) (a : FanOutAction) (object : Nat) : Prop :=
  match a with
  | .del id => s.connections[id]? = some object
  | .task answers => answers object = false
  | _ => False

/-- A connection leaves when it is deleted or answers `false`, or when another one is
added under its id. -/
def Leaves (s : FanOut) (a : FanOutAction) (object : Nat) : Prop :=
  match a with
  | .add id => s.connections[id]? = some object
  | .del id => s.connections[id]? = some object
  | .task answers => answers object = false
  | .event _ _ => False

/-- Tasks run in posting order; a connection is called once, with what was posted, by
every task that ran while it was in the map, in that order; and in any step from here it
leaves the map just when `leaves` says so. -/
structure FansOut (leaves : FanOut → FanOutAction → Nat → Prop) (s : FanOut) : Prop where
  ordered : s.ran.map (·.1) ++ s.queue = s.posted
  called : ∀ object, s.callsTo object =
    (s.ran.filter fun run => object ∈ run.2).map (·.1)
  leaving : ∀ a s', s.step a = some s' → ∀ object, s.InMap object →
    (¬ s'.InMap object ↔ leaves s a object)

/-- No connection is in the map twice, and the next one is new. -/
structure Served (s : FanOut) : Prop where
  ordered : s.ran.map (·.1) ++ s.queue = s.posted
  called : ∀ object, s.callsTo object =
    (s.ran.filter fun run => object ∈ run.2).map (·.1)
  unique : ∀ {id id' object : Nat}, s.connections[id]? = some object →
    s.connections[id']? = some object → id = id'
  fresh : ∀ {id object : Nat}, s.connections[id]? = some object → object < s.born

theorem sendLoop_calls (answers : Nat → Bool) (ev : PinEvent) (entries : List (Nat × Nat))
    (connections : Table Nat) (calls : List ReactionCall) :
    (sendLoop answers ev entries connections calls).2 =
      calls ++ entries.map fun entry => ⟨entry.2, ev⟩ := by
  induction entries generalizing connections calls with
  | nil => exact (List.append_nil calls).symm
  | cons entry entries ih =>
      rw [sendLoop]
      split
      · rw [ih, List.append_assoc, List.map_cons, List.singleton_append]
      · rw [ih, List.append_assoc, List.map_cons, List.singleton_append]

theorem sendLoop_connections (answers : Nat → Bool) (ev : PinEvent)
    (entries : List (Nat × Nat)) (connections : Table Nat) (calls : List ReactionCall)
    (id object : Nat) :
    (sendLoop answers ev entries connections calls).1[id]? = some object ↔
      connections[id]? = some object ∧ ∀ entry ∈ entries, entry.1 = id → answers entry.2 = true := by
  induction entries generalizing connections calls with
  | nil => simp [sendLoop]
  | cons entry entries ih =>
      rw [sendLoop, List.forall_mem_cons]
      split
      · next hfalse =>
          rw [ih, Table.getElem?_erase_eq_some_iff]
          simp [hfalse, and_assoc, and_left_comm]
      · next htrue =>
          have hanswer : answers entry.2 = true := by simpa using htrue
          rw [ih]
          simp [hanswer]

variable {s s' : FanOut}

theorem sendToAll_connections (answers : Nat → Bool) (ev : PinEvent) (id object : Nat) :
    (s.sendToAll answers ev).connections[id]? = some object ↔
      s.connections[id]? = some object ∧ answers object = true := by
  rw [sendToAll, sendLoop_connections]
  apply and_congr_right
  intro hobject
  constructor
  · intro hall
    exact hall (id, object) (Std.ExtTreeMap.mem_toList_iff_getElem?_eq_some.mpr hobject) rfl
  · rintro hanswer ⟨id', object'⟩ hmem rfl
    have hsame := Std.ExtTreeMap.mem_toList_iff_getElem?_eq_some.mp hmem
    rw [hobject, Option.some_inj] at hsame
    exact hsame ▸ hanswer

theorem mem_objects_iff (object : Nat) : object ∈ s.objects ↔ s.InMap object := by
  rw [objects, List.mem_map]
  constructor
  · rintro ⟨⟨id, object⟩, hmem, rfl⟩
    exact ⟨id, Std.ExtTreeMap.mem_toList_iff_getElem?_eq_some.mp hmem⟩
  · rintro ⟨id, hobject⟩
    exact ⟨(id, object), Std.ExtTreeMap.mem_toList_iff_getElem?_eq_some.mpr hobject, rfl⟩

theorem Served.callsTo_sendToAll (hs : s.Served) (answers : Nat → Bool) (ev : PinEvent)
    (object : Nat) :
    (s.sendToAll answers ev).callsTo object =
      s.callsTo object ++ if object ∈ s.objects then [ev] else [] := by
  rw [callsTo, sendToAll, sendLoop_calls, List.filter_append, List.map_append]
  congr 1
  rw [List.filter_map, List.map_map]
  by_cases hmem : object ∈ s.objects
  · obtain ⟨id, hobject⟩ := (mem_objects_iff object).mp hmem
    have honce := Table.filter_toList_of_unique (fun _ other => decide (other = object)) hobject
      (decide_eq_true rfl) fun id' other hother heq =>
        hs.unique (of_decide_eq_true heq ▸ hother) hobject
    rw [if_pos hmem]
    simp only [Function.comp_def]
    rw [honce]
    rfl
  · rw [if_neg hmem, List.map_eq_nil_iff, List.filter_eq_nil_iff]
    rintro ⟨id, other⟩ hentry heq
    apply hmem
    rw [objects, List.mem_map]
    exact ⟨(id, other), hentry, of_decide_eq_true heq⟩

theorem add_connections (id id' object : Nat) :
    (s.connections.insert id s.born)[id']? = some object ↔
      (id = id' ∧ s.born = object) ∨ (id ≠ id' ∧ s.connections[id']? = some object) := by
  rw [Table.getElem?_insert_eq]
  by_cases heq : id = id'
  · simp [heq]
  · simp [heq]

theorem step_event {read : Option (List UInt8)} {tick : Nat}
    (htaken : s.step (.event read tick) = some s') :
    s' = s ∨ ∃ ev, s' = { s with queue := s.queue ++ [ev], posted := s.posted ++ [ev] } := by
  simp only [step] at htaken
  split at htaken
  · cases htaken
    exact Or.inl rfl
  · cases read with
    | none =>
        cases htaken
        exact Or.inl rfl
    | some buf =>
        cases htaken
        exact Or.inr ⟨_, rfl⟩

theorem step_task {answers : Nat → Bool} (htaken : s.step (.task answers) = some s') :
    ∃ ev queue, s.queue = ev :: queue ∧
      s' = { s.sendToAll answers ev with queue, ran := s.ran ++ [(ev, s.objects)] } := by
  simp only [step] at htaken
  cases hqueue : s.queue with
  | nil =>
      rw [hqueue] at htaken
      cases htaken
  | cons ev queue =>
      rw [hqueue] at htaken
      cases htaken
      exact ⟨ev, queue, rfl, rfl⟩

/-- A new connection is in the map once, whether or not it replaces another. -/
theorem Served.add (hs : s.Served) (id : Nat) :
    Served { s with connections := s.connections.insert id s.born, born := s.born + 1 } where
  ordered := hs.ordered
  called := hs.called
  unique := by
    intro id' id'' object hfirst hsecond
    rcases (add_connections id id' object).mp hfirst with ⟨rfl, hnew⟩ | ⟨-, hold⟩
    · rcases (add_connections id id'' object).mp hsecond with ⟨rfl, -⟩ | ⟨-, hold'⟩
      · rfl
      · exact absurd (hs.fresh hold') (hnew ▸ Nat.lt_irrefl _)
    · rcases (add_connections id id'' object).mp hsecond with ⟨-, hnew⟩ | ⟨-, hold'⟩
      · exact absurd (hs.fresh hold) (hnew ▸ Nat.lt_irrefl _)
      · exact hs.unique hold hold'
  fresh := by
    intro id' object hin
    rcases (add_connections id id' object).mp hin with ⟨-, rfl⟩ | ⟨-, hold⟩
    · exact Nat.lt_succ_self _
    · exact Nat.lt_succ_of_lt (hs.fresh hold)

theorem Served.del (hs : s.Served) (id : Nat) :
    Served { s with connections := s.connections.erase id } where
  ordered := hs.ordered
  called := hs.called
  unique hfirst hsecond := hs.unique (Table.getElem?_erase_eq_some_iff.mp hfirst).2
    (Table.getElem?_erase_eq_some_iff.mp hsecond).2
  fresh hin := hs.fresh (Table.getElem?_erase_eq_some_iff.mp hin).2

theorem Served.task (hs : s.Served) (answers : Nat → Bool) {ev : PinEvent}
    {queue : List PinEvent} (hqueue : s.queue = ev :: queue) :
    Served { s.sendToAll answers ev with queue, ran := s.ran ++ [(ev, s.objects)] } where
  ordered := by
    change (s.ran ++ [(ev, s.objects)]).map (·.1) ++ queue = s.posted
    rw [← hs.ordered, hqueue, List.map_append, List.append_assoc]
    rfl
  called := by
    intro object
    rw [List.filter_append, List.map_append, ← hs.called object]
    change (s.sendToAll answers ev).callsTo object = _
    rw [hs.callsTo_sendToAll]
    congr 1
    by_cases hmem : object ∈ s.objects
    · simp [hmem]
    · simp [hmem]
  unique := by
    intro id id' object hfirst hsecond
    exact hs.unique ((sendToAll_connections answers ev id object).mp hfirst).1
      ((sendToAll_connections answers ev id' object).mp hsecond).1
  fresh := by
    intro id object hin
    exact hs.fresh ((sendToAll_connections answers ev id object).mp hin).1

theorem served_step (a : FanOutAction) (hs : s.Served) (htaken : s.step a = some s') :
    s'.Served := by
  cases a with
  | add id =>
      cases htaken
      exact hs.add id
  | del id =>
      cases htaken
      exact hs.del id
  | event read tick =>
      rcases step_event htaken with rfl | ⟨ev, rfl⟩
      · exact hs
      · refine ⟨?_, hs.called, hs.unique, hs.fresh⟩
        change s.ran.map (·.1) ++ (s.queue ++ [ev]) = s.posted ++ [ev]
        rw [← List.append_assoc, hs.ordered]
  | task answers =>
      obtain ⟨ev, queue, hqueue, rfl⟩ := step_task htaken
      exact hs.task answers hqueue

theorem Served.not_inMap_add_iff (hs : s.Served) {id id₀ object : Nat}
    (hobject : s.connections[id₀]? = some object) :
    ¬ InMap { s with connections := s.connections.insert id s.born, born := s.born + 1 } object ↔
      s.connections[id]? = some object := by
  constructor
  · intro hgone
    by_contra hother
    have hne : id ≠ id₀ := by
      rintro rfl
      exact hother hobject
    exact hgone ⟨id₀, (add_connections id id₀ object).mpr (Or.inr ⟨hne, hobject⟩)⟩
  · rintro htarget ⟨id', hstill⟩
    rcases (add_connections id id' object).mp hstill with ⟨-, hnew⟩ | ⟨hne, hold⟩
    · exact absurd (hs.fresh hobject) (hnew ▸ Nat.lt_irrefl _)
    · exact hne (hs.unique htarget hold)

theorem Served.not_inMap_del_iff (hs : s.Served) {id id₀ object : Nat}
    (hobject : s.connections[id₀]? = some object) :
    ¬ InMap { s with connections := s.connections.erase id } object ↔
      s.connections[id]? = some object := by
  constructor
  · intro hgone
    by_contra hother
    have hne : id ≠ id₀ := by
      rintro rfl
      exact hother hobject
    exact hgone ⟨id₀, Table.getElem?_erase_eq_some_iff.mpr ⟨hne, hobject⟩⟩
  · rintro htarget ⟨id', hstill⟩
    obtain ⟨hne, hold⟩ := Table.getElem?_erase_eq_some_iff.mp hstill
    exact hne (hs.unique htarget hold)

theorem Served.leaves (hs : s.Served) (a : FanOutAction) (htaken : s.step a = some s')
    (object : Nat) (hin : s.InMap object) : ¬ s'.InMap object ↔ s.Leaves a object := by
  obtain ⟨id₀, hobject⟩ := hin
  cases a with
  | add id =>
      cases htaken
      exact hs.not_inMap_add_iff hobject
  | del id =>
      cases htaken
      exact hs.not_inMap_del_iff hobject
  | event read tick =>
      have hsame : s'.connections = s.connections := by
        rcases step_event htaken with rfl | ⟨ev, rfl⟩
        · rfl
        · rfl
      apply iff_of_false
      · intro hgone
        exact hgone ⟨id₀, hsame ▸ hobject⟩
      · exact id
  | task answers =>
      obtain ⟨ev, queue, -, rfl⟩ := step_task htaken
      rw [Leaves, ← Bool.not_eq_true]
      apply not_congr
      constructor
      · rintro ⟨id', hstill⟩
        exact ((sendToAll_connections answers ev id' object).mp hstill).2
      · intro hanswer
        exact ⟨id₀, (sendToAll_connections answers ev id₀ object).mpr ⟨hobject, hanswer⟩⟩

theorem served_init : Served {} where
  ordered := rfl
  called _ := rfl
  unique hfirst _ := absurd hfirst (Table.getElem?_empty_ne _ _)
  fresh hin := absurd hin (Table.getElem?_empty_ne _ _)

theorem Served.fansOut (hs : s.Served) : s.FansOut Leaves where
  ordered := hs.ordered
  called := hs.called
  leaving a _ htaken object hin := hs.leaves a htaken object hin

/-- However connections come and go between the tasks and whatever they answer, each is
called once by every task that finds it in the map, in posting order, and leaves when it
is deleted, answers `false` or is replaced under its id. -/
theorem fanOut_fansOut (as : List FanOutAction) : fanOut.Along (FansOut Leaves) as :=
  Machine.along_of_steps served_init (fun _ a _ hs htaken => served_step a hs htaken)
    (fun _ hs => hs.fansOut) as

/-- A connection is replaced by another one under its id: nobody has deleted it, and it
has not been asked. -/
theorem connection_is_replaced : ¬ fanOut.Along (FansOut LeavesAlone) [.add 101] := by
  apply Machine.not_along_of_run rfl
  intro hfans
  have hin : (FanOut.mk ((∅ : Table Nat).insert 101 0) [] 1 [] [] []).InMap 0 :=
    ⟨101, by decide +kernel⟩
  apply (hfans.leaving (.add 101) _ rfl 0 hin).mp
  rintro ⟨id, hstill⟩
  rw [Table.getElem?_insert_eq, Table.getElem?_insert_eq] at hstill
  split at hstill
  · cases hstill
  · cases hstill

end FanOut

end FerroRemote.Agent

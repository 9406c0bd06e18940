/-
# The queue of the logger

Every call of `send_data` puts a record into the queue, and only then posts a
`do_write` to the strand: between the two, other producers put their own records and
post their own tasks, and the strand runs. A `do_write` takes whatever record is the
oldest, not the one it was posted for, and does not look whether there is one.

There are as many records in the queue as tasks that have not begun and producers that
have not posted theirs yet. When the pool stops, tasks are left over together with their
records, and `drop_all` writes those.
-/

import FerroRemote.Agent.Logger
import FerroRemote.Math.Machine

namespace FerroRemote.Agent

/-- What a slot of `on_write` is called with. -/
abbrev Written := LogRecordInfo × List String

/-- `logger::impl`, with the threads that use it. -/
structure LogQueue where
  queue : List QueueElement := []
  /-- The producers that have put a record into the queue and not posted a task. -/
  unposted : List Nat := []
  /-- The tasks of the strand that have not begun. -/
  tasks : Nat := 0
  /-- The record that a `do_write` has taken and not written yet. -/
  writing : Option QueueElement := none
  /-- The pool has stopped: the strand begins no more tasks. -/
  stopped : Bool := false
  /-- `drop_all` has run. -/
  dropped : Bool := false
  /-- The front of an empty queue has been read. -/
  crashed : Bool := false
  /-- All the records that were put into the queue. -/
  enqueued : List QueueElement := []
  /-- All the calls of `on_write`. -/
  written : List Written := []
  deriving Repr

namespace LogQueue

def emplaceElement (s : LogQueue) (info : LogRecordInfo) (data : String) (split : Bool) :
    LogQueue :=
  let qi : QueueElement := { info, data, split }
  { s with queue := s.queue ++ [qi], enqueued := s.enqueued ++ [qi] }

/-- The first half of `do_write`: the oldest record is taken out of the queue. -/
def takeFront (s : LogQueue) : LogQueue :=
  match s.queue with
  | [] => { s with crashed := true }
  | e :: queue => { s with queue, writing := some e }

variable (splitString : String)

/-- The call of `on_write` for a record. -/
def callOf (e : QueueElement) : Written := (e.info, loggerData splitString e)

/-- The second half of `do_write`: the record is split and written. -/
def write (s : LogQueue) : LogQueue :=
  match s.writing with
  | none => s
  | some e => { s with writing := none, written := s.written ++ [callOf splitString e] }

def doWrite (s : LogQueue) : LogQueue := s.takeFront.write splitString

theorem doWrite_of_queue {s : LogQueue} {e : QueueElement} {queue : List QueueElement}
    (hqueue : s.queue = e :: queue) :
    s.doWrite splitString =
      { s with
        queue, writing := none, written := s.written ++ [callOf splitString e] } := by
  rw [doWrite, takeFront, hqueue, write]

/-- `drop_all`, with the number of records it has written. -/
def dropAll (s : LogQueue) : Nat × LogQueue :=
  if hempty : s.queue.isEmpty then (0, s)
  else
    let rest := dropAll (s.doWrite splitString)
    (rest.1 + 1, rest.2)
termination_by s.queue.length
decreasing_by
  cases hqueue : s.queue with
  | nil =>
      rw [hqueue] at hempty
      exact absurd rfl hempty
  | cons e queue =>
      rw [doWrite_of_queue splitString hqueue, List.length_cons]
      exact Nat.lt_succ_self _

/-- What happens in the process, one step at a time. -/
inductive LogAction
  /-- `send_data`, up to the post. -/
  | sendData (producer : Nat) (info : LogRecordInfo) (data : String)
  /-- `send_data_nosplit`, up to the post. -/
  | sendDataNosplit (producer : Nat) (info : LogRecordInfo) (data : String)
  /-- The post of either. -/
  | post (producer : Nat)
  /-- The strand begins a `do_write`. -/
  | begin
  /-- The `do_write` goes on, and ends. -/
  | finish
  /-- The pool stops. -/
  | stop
  /-- `drop_all`, after every other thread has ended. -/
  | dropAll
  deriving Repr

/-- A producer has a record to put into the queue: its last call has returned. -/
def send (s : LogQueue) (producer : Nat) (info : LogRecordInfo) (data : String)
    (split : Bool) : Option LogQueue :=
  if !s.dropped ∧ producer ∉ s.unposted then
    some { s.emplaceElement info data split with unposted := producer :: s.unposted }
  else none

def step (s : LogQueue) : LogAction → Option LogQueue
  | .sendData producer info data => s.send producer info data true
  | .sendDataNosplit producer info data => s.send producer info data false
  | .post producer =>
    if !s.dropped ∧ producer ∈ s.unposted then
      some { s with unposted := s.unposted.erase producer, tasks := s.tasks + 1 }
    else none
  | .begin =>
    if !s.stopped ∧ s.writing.isNone ∧ 0 < s.tasks then
      some { s.takeFront with tasks := s.tasks - 1 }
    else none
  | .finish => if s.writing.isSome then some (s.write splitString) else none
  | .stop => some { s with stopped := true }
  | .dropAll =>
    if s.stopped ∧ s.writing.isNone ∧ !s.dropped then
      some { (s.dropAll splitString).2 with dropped := true }
    else none

end LogQueue

/-- The logger, from the moment it is made. -/
def logQueue (splitString : String) : Machine LogQueue LogQueue.LogAction where
  init := {}
  step := LogQueue.step splitString

namespace LogQueue

/-- What the queue is for: no `do_write` runs on an empty queue, records are written in
the order they were put in and once each, and after `drop_all` all of them are. -/
structure Faithful (splitString : String) (s : LogQueue) : Prop where
  safe : s.crashed = false
  ordered : s.written <+: s.enqueued.map (callOf splitString)
  complete : s.dropped = true → s.written = s.enqueued.map (callOf splitString)

/-- Every record is written, being written or in the queue, in the order they were put
in, and every record in the queue has a task that has not begun. -/
structure Counted (splitString : String) (s : LogQueue) : Prop where
  safe : s.crashed = false
  ordered : s.written ++ (s.writing.toList ++ s.queue).map (callOf splitString) =
    s.enqueued.map (callOf splitString)
  counted : s.dropped = false → s.queue.length = s.tasks + s.unposted.length
  drained : s.dropped = true → s.queue = [] ∧ s.writing = none
  last : s.dropped = true → s.stopped = true

variable {splitString : String} {s s' : LogQueue}

theorem Counted.of_running (hrunning : s.dropped = false) (hsafe : s.crashed = false)
    (hordered : s.written ++ (s.writing.toList ++ s.queue).map (callOf splitString) =
      s.enqueued.map (callOf splitString))
    (hcounted : s.queue.length = s.tasks + s.unposted.length) : s.Counted splitString where
  safe := hsafe
  ordered := hordered
  counted _ := hcounted
  drained h := absurd (hrunning.symm.trans h) Bool.false_ne_true
  last h := absurd (hrunning.symm.trans h) Bool.false_ne_true

theorem Counted.send (hs : s.Counted splitString) {producer : Nat} {info : LogRecordInfo}
    {data : String} {split : Bool} (htaken : s.send producer info data split = some s') :
    s'.Counted splitString := by
  obtain ⟨⟨hdropped, -⟩, rfl⟩ := Machine.of_enabled htaken
  have hrunning : s.dropped = false := by simpa using hdropped
  have hcounted := hs.counted hrunning
  apply Counted.of_running
  · exact hrunning
  · exact hs.safe
  · simp only [emplaceElement, List.map_append, ← hs.ordered, List.append_assoc]
  · simp only [emplaceElement, List.length_append, List.length_cons, List.length_nil]
    omega

theorem Counted.begin (hs : s.Counted splitString)
    (htaken : s.step splitString .begin = some s') : s'.Counted splitString := by
  obtain ⟨⟨hstopped, hidle, htasks⟩, rfl⟩ := Machine.of_enabled htaken
  have hnone : s.writing = none := by simpa using hidle
  have hrunning : s.dropped = false := by
    cases hdropped : s.dropped with
    | false => rfl
    | true =>
        rw [hs.last hdropped] at hstopped
        exact absurd hstopped (by decide)
  have hcounted := hs.counted hrunning
  cases hqueue : s.queue with
  | nil =>
      -- a task that has not begun has a record in the queue
      rw [hqueue, List.length_nil] at hcounted
      omega
  | cons e queue =>
      have hordered := hs.ordered
      rw [hqueue, hnone] at hordered
      rw [hqueue, List.length_cons] at hcounted
      simp only [takeFront, hqueue]
      apply Counted.of_running
      · exact hrunning
      · exact hs.safe
      · exact hordered
      · change queue.length = s.tasks - 1 + s.unposted.length
        omega

theorem Counted.finish (hs : s.Counted splitString)
    (htaken : s.step splitString .finish = some s') : s'.Counted splitString := by
  obtain ⟨hsome, rfl⟩ := Machine.of_enabled htaken
  obtain ⟨e, hwriting⟩ := Option.isSome_iff_exists.mp hsome
  have hordered := hs.ordered
  rw [hwriting] at hordered
  simp only [write, hwriting]
  constructor
  · exact hs.safe
  · rw [← hordered]
    simp
  · exact hs.counted
  · intro h
    exact ⟨(hs.drained h).1, rfl⟩
  · exact hs.last

theorem dropAll_eq (hnone : s.writing = none) :
    s.dropAll splitString =
      (s.queue.length,
        { s with queue := [], written := s.written ++ s.queue.map (callOf splitString) }) := by
  induction hqueue : s.queue generalizing s with
  | nil =>
      rw [LogQueue.dropAll, dif_pos (by rw [hqueue, List.isEmpty_nil]), List.map_nil,
        List.append_nil, List.length_nil, ← hqueue]
  | cons e queue ih =>
      have hfull : ¬ s.queue.isEmpty = true := by
        rw [hqueue, List.isEmpty_cons]
        exact Bool.false_ne_true
      have hrest : (s.doWrite splitString).queue = queue := by
        rw [doWrite_of_queue splitString hqueue]
      rw [LogQueue.dropAll, dif_neg hfull, doWrite_of_queue splitString hqueue]
      rw [doWrite_of_queue splitString hqueue] at hrest
      rw [ih rfl hrest, List.map_cons, List.append_assoc, List.length_cons]
      simp only [hnone, List.singleton_append]

theorem Counted.dropAll (hs : s.Counted splitString)
    (htaken : s.step splitString .dropAll = some s') : s'.Counted splitString := by
  obtain ⟨⟨hstopped, hidle, -⟩, rfl⟩ := Machine.of_enabled htaken
  have hnone : s.writing = none := by simpa using hidle
  have hordered := hs.ordered
  rw [hnone, Option.toList_none, List.nil_append] at hordered
  rw [dropAll_eq hnone]
  constructor
  · exact hs.safe
  · simpa [hnone] using hordered
  · intro h
    cases h
  · intro _
    exact ⟨rfl, hnone⟩
  · intro _
    exact hstopped

theorem counted_init : Counted splitString {} where
  safe := rfl
  ordered := rfl
  counted _ := rfl
  drained h := Bool.noConfusion h
  last h := Bool.noConfusion h

theorem counted_step (a : LogAction) (hs : s.Counted splitString)
    (htaken : s.step splitString a = some s') : s'.Counted splitString := by
  cases a with
  | sendData producer info data => exact hs.send htaken
  | sendDataNosplit producer info data => exact hs.send htaken
  | post producer =>
      obtain ⟨⟨-, hmem⟩, rfl⟩ := Machine.of_enabled htaken
      have hpos := List.length_pos_of_mem hmem
      constructor
      · exact hs.safe
      · exact hs.ordered
      · intro hrunning
        have hcounted := hs.counted hrunning
        change s.queue.length = s.tasks + 1 + (s.unposted.erase producer).length
        rw [List.length_erase_of_mem hmem]
        omega
      · exact hs.drained
      · exact hs.last
  | begin => exact hs.begin htaken
  | finish => exact hs.finish htaken
  | stop =>
      rw [step, Option.some_inj] at htaken
      subst htaken
      exact ⟨hs.safe, hs.ordered, hs.counted, hs.drained, fun _ => rfl⟩
  | dropAll => exact hs.dropAll htaken

theorem Counted.faithful (hs : s.Counted splitString) : s.Faithful splitString where
  safe := hs.safe
  ordered := ⟨_, hs.ordered⟩
  complete hdropped := by
    obtain ⟨hqueue, hwriting⟩ := hs.drained hdropped
    have hordered := hs.ordered
    rw [hqueue, hwriting] at hordered
    simpa using hordered

/-- However the producers, the strand, the end of the pool and `drop_all` interleave, no
`do_write` finds the queue empty, and every record is written once, in the order in
which they were put in. -/
theorem logQueue_faithful (splitString : String) (as : List LogAction) :
    (logQueue splitString).Along (Faithful splitString) as :=
  Machine.along_of_steps counted_init (fun _ a _ hs htaken => counted_step a hs htaken)
    (fun _ hs => hs.faithful) as

/-- Whenever the pool has stopped and no `do_write` is in progress, `drop_all` can run. -/
theorem dropAll_enabled (hstopped : s.stopped = true) (hidle : s.writing = none)
    (hdropped : s.dropped = false) :
    (s.step splitString .dropAll).isSome = true := by
  rw [step, if_pos ⟨hstopped, by rw [hidle]; rfl, by rw [hdropped]; rfl⟩]
  rfl

end LogQueue

end FerroRemote.Agent

/-
# The reactor's thread

The reactor has one thread, which takes one event after the other from `epoll_wait`, and an
eventfd for being told to stop. The eventfd is written to and never read; it is in the poll set
edge-triggered, so that each write is reported once. `epoll_wait` is asked for one event at a
time and goes round the descriptors that are ready: one that stays ready is reported again
after all others that are. A stop has its turn for this reason, whatever the callbacks do.

Starts and stops come one after the other: none is called before an earlier stop has joined the
thread. Two at once would race for `thread_`, and what comes of that is not said.
-/

import FerroRemote.Agent.PollAgreement
import FerroRemote.Math.Histories

namespace FerroRemote.Agent

/-- An event that `epoll_wait` is going to report -/
inductive ReadyEvent
  | stopEvent
  | fd (fd : Fd)
  deriving DecidableEq, Repr

/-- Where `reactor_thread` is -/
inductive ReactorPhase
  | waiting
  /-- `run_one` has an event of the descriptor. -/
  | holding (fd : Fd)
  | finished
  deriving DecidableEq, Repr

structure ReactorThread where
  table : PollTable := {}
  ready : List ReadyEvent := []
  /-- `thread_` -/
  thread : Option ReactorPhase := none
  /-- `running_` -/
  running : Bool := false
  /-- `stop_thread` waits in `join`. -/
  joining : Bool := false
  /-- The callbacks that have been made -/
  made : List (Fd × Reaction) := []

inductive ReactorAction
  /-- What others do with the table of the reactor -/
  | others (a : PollAction)
  | becomesReady (fd : Fd)
  | drained (fd : Fd)
  | start
  /-- `stop_thread` up to its `join` -/
  | stop
  | joined
  /-- `epoll_wait` reports an event. -/
  | wait
  /-- `epoll_wait` fails, and the exception is logged. -/
  | interrupted
  /-- The callback answers, or throws. -/
  | callback (res : Option Bool)

/-- A step of the thread that gets it on -/
def ReactorAction.isThreads : ReactorAction → Bool
  | .wait | .callback _ => true
  | _ => false

namespace ReactorThread

/-- What leaves the poll set is not ready any more. -/
def live (table : PollTable) : ReadyEvent → Bool
  | .stopEvent => true
  | .fd fd => decide (fd ∈ table.react.kernel.poll)

def withTable (s : ReactorThread) (table : PollTable) : ReactorThread :=
  { s with table := table, ready := s.ready.filter (live table) }

/-- A descriptor without `EPOLLET` goes to the end. -/
def requeue (s : ReactorThread) (fd : Fd) (rest : List ReadyEvent) : List ReadyEvent :=
  if (s.table.react.kernel.poll[fd]?).any (Nat.testBit · 31) then rest else rest ++ [.fd fd]

/-- `make_callback`. An exception leaves the entry as the answer `true` does. -/
def makeCallback (s : ReactorThread) (fd : Fd) (res : Option Bool) : ReactorThread :=
  let table := { s.table with react := PollTable.makeCallback s.table.react fd (res.getD true) }
  { s.withTable table with
    thread := some .waiting
    made := s.made ++ (s.table.react.react[fd]?.map fun cb => (fd, cb)).toList }

/-- While a stop waits in `join` there is no other start or stop. -/
def step (s : ReactorThread) : ReactorAction → Option ReactorThread
  | .others (.makeCallback _ _) => none
  | .others a => (s.table.step a).map s.withTable
  | .becomesReady fd =>
      if fd ∈ s.table.react.kernel.poll ∧ .fd fd ∉ s.ready then
        some { s with ready := s.ready ++ [.fd fd] }
      else none
  | .drained fd => some { s with ready := s.ready.filter (· ≠ .fd fd) }
  | .start =>
      if s.joining then none
      else if s.running then some s
      else some { s with thread := some .waiting, running := true }
  | .stop =>
      if s.joining then none
      else if s.thread = none then some s
      else
        some { s with
          ready := if .stopEvent ∈ s.ready then s.ready else s.ready ++ [.stopEvent]
          joining := true }
  | .joined =>
      if s.joining ∧ s.thread = some .finished then
        some { s with thread := none, running := false, joining := false }
      else none
  | .wait =>
      match s.thread, s.ready with
      | some .waiting, .stopEvent :: rest => some { s with ready := rest, thread := some .finished }
      | some .waiting, .fd fd :: rest =>
          some { s with ready := s.requeue fd rest, thread := some (.holding fd) }
      | _, _ => none
  | .interrupted => if s.thread = some .waiting then some s else none
  | .callback res =>
      match s.thread with
      | some (.holding fd) => some (s.makeCallback fd res)
      | _ => none

end ReactorThread

def reactorThread : Machine ReactorThread ReactorAction where
  init := {}
  step := ReactorThread.step

namespace ReactorThread

/-- The stop event is pending just as long as somebody waits for a thread that goes on. -/
structure Sound (s : ReactorThread) : Prop where
  nodup : s.ready.Nodup
  pending : .stopEvent ∈ s.ready ↔ s.joining = true ∧ s.thread ≠ some .finished
  asked : s.thread = some .finished → s.joining = true
  joined : s.joining = true → s.thread ≠ none
  running : s.running = s.thread.isSome

theorem mem_filter_live (table : PollTable) (ready : List ReadyEvent) :
    .stopEvent ∈ ready.filter (live table) ↔ .stopEvent ∈ ready := by
  rw [List.mem_filter]
  exact and_iff_left rfl

/-- A step that has to do with neither the stop event nor the thread's life -/
theorem Sound.congr {s s' : ReactorThread} (hs : s.Sound) (hnodup : s'.ready.Nodup)
    (hpending : .stopEvent ∈ s'.ready ↔ .stopEvent ∈ s.ready)
    (hfinished : s'.thread = some .finished ↔ s.thread = some .finished)
    (hthere : s'.thread.isSome = s.thread.isSome) (hjoining : s'.joining = s.joining)
    (hrunning : s'.running = s.running) : s'.Sound where
  nodup := hnodup
  pending := by rw [hpending, hs.pending, hjoining, ne_eq, ne_eq, hfinished]
  asked hend := by
    rw [hjoining]
    exact hs.asked (hfinished.mp hend)
  joined hjoin := by
    rw [hjoining] at hjoin
    rw [← Option.isSome_iff_ne_none, hthere, Option.isSome_iff_ne_none]
    exact hs.joined hjoin
  running := by rw [hrunning, hthere, hs.running]

theorem Sound.withTable {s : ReactorThread} (hs : s.Sound) (table : PollTable) :
    (s.withTable table).Sound :=
  hs.congr (hs.nodup.filter _) (mem_filter_live table s.ready) Iff.rfl rfl rfl rfl

theorem nodup_concat {ready : List ReadyEvent} (hnodup : ready.Nodup) {e : ReadyEvent}
    (hnew : e ∉ ready) : (ready ++ [e]).Nodup := by
  rw [List.nodup_append]
  refine ⟨hnodup, List.pairwise_singleton _ e, ?_⟩
  rintro a ha b hb rfl
  exact hnew (List.mem_singleton.mp hb ▸ ha)

theorem mem_requeue (s : ReactorThread) (fd : Fd) (rest : List ReadyEvent) :
    .stopEvent ∈ s.requeue fd rest ↔ .stopEvent ∈ rest := by
  rw [requeue]
  split
  · exact Iff.rfl
  · simp only [List.mem_append, List.mem_singleton, reduceCtorEq, or_false]

theorem nodup_requeue (s : ReactorThread) {fd : Fd} {rest : List ReadyEvent}
    (hnodup : (.fd fd :: rest).Nodup) : (s.requeue fd rest).Nodup := by
  rw [List.nodup_cons] at hnodup
  rw [requeue]
  split
  · exact hnodup.2
  · exact nodup_concat hnodup.2 hnodup.1

/-- What a step of others with the table comes to -/
theorem others_cases {s s' : ReactorThread} {a : PollAction}
    (hstep : s.step (.others a) = some s') : ∃ table, s' = s.withTable table := by
  have hmap (htaken : (s.table.step a).map s.withTable = some s') :
      ∃ table, s' = s.withTable table := by
    rcases Option.map_eq_some_iff.mp htaken with ⟨table, -, heq⟩
    exact ⟨table, heq.symm⟩
  cases a with
  | makeCallback fd res => cases hstep
  | opened owner fd => exact hmap hstep
  | addFd fd events cb fault => exact hmap hstep
  | delFd fd => exact hmap hstep
  | locked n => exact hmap hstep

theorem wait_cases {s s' : ReactorThread} (hstep : s.step .wait = some s') :
    s.thread = some .waiting ∧
      ((∃ rest, s.ready = .stopEvent :: rest ∧
          s' = { s with ready := rest, thread := some .finished }) ∨
        ∃ fd rest, s.ready = .fd fd :: rest ∧
          s' = { s with ready := s.requeue fd rest, thread := some (.holding fd) }) := by
  cases hthread : s.thread with
  | none => simp only [step, hthread, reduceCtorEq] at hstep
  | some phase =>
      cases phase with
      | holding fd => simp only [step, hthread, reduceCtorEq] at hstep
      | finished => simp only [step, hthread, reduceCtorEq] at hstep
      | waiting =>
          refine ⟨rfl, ?_⟩
          cases hready : s.ready with
          | nil => simp only [step, hthread, hready, reduceCtorEq] at hstep
          | cons e rest =>
              cases e with
              | stopEvent =>
                  simp only [step, hthread, hready, Option.some_inj] at hstep
                  exact .inl ⟨rest, rfl, hstep.symm⟩
              | fd fd =>
                  simp only [step, hthread, hready, Option.some_inj] at hstep
                  exact .inr ⟨fd, rest, rfl, hstep.symm⟩

theorem callback_cases {s s' : ReactorThread} {res : Option Bool}
    (hstep : s.step (.callback res) = some s') :
    ∃ fd, s.thread = some (.holding fd) ∧ s' = s.makeCallback fd res := by
  cases hthread : s.thread with
  | none => simp only [step, hthread, reduceCtorEq] at hstep
  | some phase =>
      cases phase with
      | waiting => simp only [step, hthread, reduceCtorEq] at hstep
      | finished => simp only [step, hthread, reduceCtorEq] at hstep
      | holding fd =>
          simp only [step, hthread, Option.some_inj] at hstep
          exact ⟨fd, rfl, hstep.symm⟩

theorem sound_step (s : ReactorThread) (a : ReactorAction) (s' : ReactorThread) (hs : s.Sound)
    (hstep : s.step a = some s') : s'.Sound := by
  cases a with
  | others a =>
      rcases others_cases hstep with ⟨table, rfl⟩
      exact hs.withTable table
  | becomesReady fd =>
      rcases Machine.of_enabled hstep with ⟨hnew, rfl⟩
      have hpending : ReadyEvent.stopEvent ∈ s.ready ++ [.fd fd] ↔ .stopEvent ∈ s.ready := by
        simp only [List.mem_append, List.mem_singleton, reduceCtorEq, or_false]
      apply hs.congr _ hpending
      · exact Iff.rfl
      · rfl
      · rfl
      · rfl
      · exact nodup_concat hs.nodup hnew.2
  | drained fd =>
      cases hstep
      have hpending : ReadyEvent.stopEvent ∈ s.ready.filter (· ≠ .fd fd) ↔
          .stopEvent ∈ s.ready := by
        rw [List.mem_filter]
        exact and_iff_left (decide_eq_true nofun)
      exact hs.congr (hs.nodup.filter _) hpending Iff.rfl rfl rfl rfl
  | start =>
      simp only [step] at hstep
      split at hstep
      · cases hstep
      · split at hstep
        · cases hstep
          exact hs
        · rename_i hjoining hrunning
          cases hstep
          have hnone : s.thread = none := by
            rw [hs.running, Bool.not_eq_true, Option.isSome_eq_false_iff] at hrunning
            exact Option.isNone_iff_eq_none.mp hrunning
          have hidle : ReadyEvent.stopEvent ∉ s.ready := by
            rw [hs.pending]
            exact fun hpending => hjoining hpending.1
          exact
            { nodup := hs.nodup
              pending := iff_of_false hidle fun hpending => hjoining hpending.1
              asked := fun hend => by cases hend
              joined := fun _ hend => by cases hend
              running := rfl }
  | stop =>
      simp only [step] at hstep
      split at hstep
      · cases hstep
      · split at hstep
        · cases hstep
          exact hs
        · rename_i hjoining hthread
          cases hstep
          have hgoes : s.thread ≠ some .finished := fun hend => hjoining (hs.asked hend)
          have hidle : ReadyEvent.stopEvent ∉ s.ready := by
            rw [hs.pending]
            exact fun hpending => hjoining hpending.1
          rw [if_neg hidle]
          exact
            { nodup := nodup_concat hs.nodup hidle
              pending := iff_of_true (List.mem_append_right _ List.mem_cons_self) ⟨rfl, hgoes⟩
              asked := fun _ => rfl
              joined := fun _ => hthread
              running := hs.running }
  | joined =>
      rcases Machine.of_enabled hstep with ⟨⟨-, hend⟩, rfl⟩
      have hread : ReadyEvent.stopEvent ∉ s.ready := by
        rw [hs.pending]
        exact fun hpending => hpending.2 hend
      exact
        { nodup := hs.nodup
          pending := iff_of_false hread fun hpending => by cases hpending.1
          asked := fun hend => by cases hend
          joined := fun hjoin => by cases hjoin
          running := rfl }
  | wait =>
      rcases wait_cases hstep with ⟨hthread, ⟨rest, hready, rfl⟩ | ⟨fd, rest, hready, rfl⟩⟩
      · have hnodup := hs.nodup
        rw [hready, List.nodup_cons] at hnodup
        have hjoining : s.joining = true := by
          apply (hs.pending.mp _).1
          rw [hready]
          exact List.mem_cons_self
        have hrunning : s.running = true := by
          rw [hs.running, hthread]
          rfl
        exact
          { nodup := hnodup.2
            pending := iff_of_false hnodup.1 fun hpending => hpending.2 rfl
            asked := fun _ => hjoining
            joined := fun _ hnone => by cases hnone
            running := hrunning }
      · have hnodup := hs.nodup
        rw [hready] at hnodup
        apply hs.congr (nodup_requeue s hnodup)
        · rw [mem_requeue, hready]
          simp only [List.mem_cons, reduceCtorEq, false_or]
        · rw [hthread]
          simp only [Option.some_inj, reduceCtorEq]
        · rw [hthread]
          rfl
        · rfl
        · rfl
  | interrupted =>
      rcases Machine.of_enabled hstep with ⟨-, rfl⟩
      exact hs
  | callback res =>
      rcases callback_cases hstep with ⟨fd, hthread, rfl⟩
      have hnodup : (s.makeCallback fd res).ready.Nodup := hs.nodup.filter _
      apply hs.congr hnodup (mem_filter_live _ s.ready)
      · rw [hthread]
        simp only [makeCallback, Option.some_inj, reduceCtorEq]
      · rw [hthread]
        rfl
      · rfl
      · rfl

theorem sound_init : Sound {} where
  nodup := List.nodup_nil
  pending := by simp
  asked := fun hend => by cases hend
  joined := fun hjoin => by cases hjoin
  running := rfl

theorem sound_of_run {as : List ReactorAction} {s : ReactorThread}
    (hrun : reactorThread.run as = some s) : s.Sound :=
  (Machine.along_of_steps sound_init sound_step (fun _ hs => hs) as).last hrun

/-! ## Stopping -/

/-- The events in front of the stop event -/
def aheadOf (ready : List ReadyEvent) : Nat :=
  if .stopEvent ∈ ready then (ready.takeWhile (· ≠ .stopEvent)).length else 0

theorem aheadOf_of_not_mem {ready : List ReadyEvent} (hidle : .stopEvent ∉ ready) :
    aheadOf ready = 0 := if_neg hidle

theorem aheadOf_stop (rest : List ReadyEvent) : aheadOf (.stopEvent :: rest) = 0 := by
  rw [aheadOf, if_pos List.mem_cons_self, List.takeWhile_cons_of_neg (by simp), List.length_nil]

theorem aheadOf_told_le (ready : List ReadyEvent) :
    aheadOf (ready ++ [.stopEvent]) ≤ ready.length := by
  rw [aheadOf, if_pos (List.mem_append_right _ List.mem_cons_self), List.takeWhile_append]
  split
  · simp
  · exact (List.takeWhile_sublist _).length_le

theorem aheadOf_fd {fd : Fd} {rest : List ReadyEvent} (hpending : .stopEvent ∈ rest) :
    aheadOf (.fd fd :: rest) = aheadOf rest + 1 := by
  rw [aheadOf, aheadOf, if_pos hpending, if_pos (List.mem_cons_of_mem _ hpending),
    List.takeWhile_cons_of_pos (by simp), List.length_cons]

/-- What comes to the end is behind the stop event. -/
theorem aheadOf_append (ready : List ReadyEvent) (fd : Fd) :
    aheadOf (ready ++ [.fd fd]) = aheadOf ready := by
  induction ready with
  | nil => exact aheadOf_of_not_mem (by simp)
  | cons e rest ih =>
      cases e with
      | stopEvent => rw [List.cons_append, aheadOf_stop, aheadOf_stop]
      | fd a =>
          by_cases hpending : .stopEvent ∈ rest
          · rw [List.cons_append, aheadOf_fd (List.mem_append_left _ hpending), ih,
              aheadOf_fd hpending]
          · rw [aheadOf_of_not_mem (by simp [hpending]), aheadOf_of_not_mem (by simp [hpending])]

/-- What is not ready any more leaves the others their order. -/
theorem aheadOf_filter_le {p : ReadyEvent → Bool} (hstop : p .stopEvent = true)
    (ready : List ReadyEvent) : aheadOf (ready.filter p) ≤ aheadOf ready := by
  induction ready with
  | nil => exact Nat.le_refl _
  | cons e rest ih =>
      cases e with
      | stopEvent =>
          rw [List.filter_cons_of_pos hstop, aheadOf_stop]
          exact Nat.zero_le _
      | fd a =>
          by_cases hpending : .stopEvent ∈ rest
          · have hkept : .stopEvent ∈ rest.filter p := List.mem_filter.mpr ⟨hpending, hstop⟩
            rw [aheadOf_fd hpending, List.filter_cons]
            split
            · rw [aheadOf_fd hkept]
              exact Nat.add_le_add_right ih 1
            · exact Nat.le_succ_of_le ih
          · have hgone : .stopEvent ∉ (ReadyEvent.fd a :: rest).filter p := by
              rw [List.mem_filter, List.mem_cons]
              rintro ⟨hstop' | hmem, -⟩
              · cases hstop'
              · exact hpending hmem
            rw [aheadOf_of_not_mem hgone]
            exact Nat.zero_le _

theorem aheadOf_requeue (s : ReactorThread) (fd : Fd) (rest : List ReadyEvent) :
    aheadOf (s.requeue fd rest) = aheadOf rest := by
  rw [requeue]
  split
  · rfl
  · exact aheadOf_append rest fd

/-- The callbacks of the thread that are certain to come -/
def held (s : ReactorThread) : Nat :=
  match s.thread with
  | some (.holding _) => 1
  | _ => 0

/-- The steps that the thread has before it once it has been told to stop -/
def stepsLeft (s : ReactorThread) : Nat :=
  if .stopEvent ∈ s.ready then 2 * aheadOf s.ready + s.held + 1 else 0

/-- How often the thread may still call back -/
def callsLeft (s : ReactorThread) : Nat := aheadOf s.ready + s.held

theorem held_le (s : ReactorThread) : s.held ≤ 1 := by
  rw [held]
  split
  · exact Nat.le_refl _
  · exact Nat.zero_le _

/-- `n` steps nearer to the end -/
structure Nearer (n : Nat) (s s' : ReactorThread) : Prop where
  joining : s'.joining = true
  steps : n + s'.stepsLeft ≤ s.stepsLeft
  calls : s'.made.length + s'.callsLeft ≤ s.made.length + s.callsLeft

theorem Nearer.idle {s s' : ReactorThread} (hjoining : s'.joining = true)
    (hthread : s'.thread = s.thread) (hmade : s'.made = s.made)
    (hpending : .stopEvent ∈ s'.ready → .stopEvent ∈ s.ready)
    (hahead : aheadOf s'.ready ≤ aheadOf s.ready) : Nearer 0 s s' := by
  have hheld : s'.held = s.held := by rw [held, held, hthread]
  refine ⟨hjoining, ?_, ?_⟩
  · rw [Nat.zero_add, stepsLeft, stepsLeft, hheld]
    split
    · rename_i hstop
      rw [if_pos (hpending hstop)]
      omega
    · exact Nat.zero_le _
  · rw [hmade, callsLeft, callsLeft, hheld]
    omega

/-- Nobody gets between the thread and its end, and each step of its own brings it nearer. -/
theorem Sound.nearer {s s' : ReactorThread} (hs : s.Sound) (hjoining : s.joining = true)
    {a : ReactorAction} (hwaits : a ≠ .joined) (hstep : s.step a = some s') :
    Nearer (if a.isThreads then 1 else 0) s s' := by
  cases a with
  | others a =>
      rcases others_cases hstep with ⟨table, rfl⟩
      exact .idle hjoining rfl rfl (mem_filter_live table s.ready).mp (aheadOf_filter_le rfl _)
  | becomesReady fd =>
      rcases Machine.of_enabled hstep with ⟨-, rfl⟩
      have hstop (hpending : .stopEvent ∈ s.ready ++ [.fd fd]) : .stopEvent ∈ s.ready := by
        rcases List.mem_append.mp hpending with hstop | hstop
        · exact hstop
        · cases List.mem_singleton.mp hstop
      exact .idle hjoining rfl rfl hstop (Nat.le_of_eq (aheadOf_append s.ready fd))
  | drained fd =>
      cases hstep
      exact .idle hjoining rfl rfl (fun hpending => (List.mem_filter.mp hpending).1)
        (aheadOf_filter_le (decide_eq_true nofun) _)
  | start => simp only [step, hjoining, if_true, reduceCtorEq] at hstep
  | stop => simp only [step, hjoining, if_true, reduceCtorEq] at hstep
  | joined => exact absurd rfl hwaits
  | interrupted =>
      rcases Machine.of_enabled hstep with ⟨-, rfl⟩
      exact .idle hjoining rfl rfl id (Nat.le_refl _)
  | wait =>
      rcases wait_cases hstep with ⟨hthread, hcases⟩
      have hheld : s.held = 0 := by rw [held, hthread]
      have hpending : .stopEvent ∈ s.ready := by
        rw [hs.pending, hthread]
        exact ⟨hjoining, by simp⟩
      rcases hcases with ⟨rest, hready, rfl⟩ | ⟨fd, rest, hready, rfl⟩
      · have hread : .stopEvent ∉ rest := by
          have hnodup := hs.nodup
          rw [hready, List.nodup_cons] at hnodup
          exact hnodup.1
        refine ⟨hjoining, ?_, ?_⟩
        · simp only [ReactorAction.isThreads, stepsLeft, if_neg hread, if_pos hpending, hheld,
            if_true]
          omega
        · simp only [callsLeft, aheadOf_of_not_mem hread, held]
          omega
      · have hrest : .stopEvent ∈ rest := by
          rw [hready, List.mem_cons] at hpending
          exact hpending.resolve_left nofun
        have hahead : aheadOf s.ready = aheadOf (s.requeue fd rest) + 1 := by
          rw [hready, aheadOf_fd hrest, aheadOf_requeue]
        refine ⟨hjoining, ?_, ?_⟩
        · simp only [ReactorAction.isThreads, stepsLeft, if_pos ((mem_requeue s fd rest).mpr hrest),
            if_pos hpending, hheld, hahead, if_true]
          simp only [held]
          omega
        · simp only [callsLeft, hheld, hahead]
          simp only [held]
          omega
  | callback res =>
      rcases callback_cases hstep with ⟨fd, hthread, rfl⟩
      have hheld : s.held = 1 := by rw [held, hthread]
      have hpending : .stopEvent ∈ s.ready := by
        rw [hs.pending, hthread]
        exact ⟨hjoining, by simp⟩
      have hfree : (s.makeCallback fd res).held = 0 := rfl
      have hstop : .stopEvent ∈ (s.makeCallback fd res).ready :=
        (mem_filter_live _ s.ready).mpr hpending
      have hahead : aheadOf (s.makeCallback fd res).ready ≤ aheadOf s.ready :=
        aheadOf_filter_le rfl _
      have hmade : (s.makeCallback fd res).made.length ≤ s.made.length + 1 := by
        rw [makeCallback, List.length_append]
        exact Nat.add_le_add_left (Option.length_toList_le) _
      refine ⟨hjoining, ?_, ?_⟩
      · simp only [ReactorAction.isThreads, stepsLeft, if_pos hpending, if_pos hstop, hheld, hfree,
          if_true]
        omega
      · simp only [callsLeft, hheld, hfree]
        omega

/-- A run in which the one who waits for the thread goes on waiting -/
theorem Sound.nearer_run {s s' : ReactorThread} (hs : s.Sound) (hjoining : s.joining = true)
    {as : List ReactorAction} (hwaits : .joined ∉ as)
    (hrun : reactorThread.runFrom s as = some s') :
    s'.Sound ∧ Nearer (as.countP (·.isThreads)) s s' := by
  induction as generalizing s with
  | nil =>
      cases hrun
      exact ⟨hs, .idle hjoining rfl rfl id (Nat.le_refl _)⟩
  | cons a rest ih =>
      rw [Machine.runFrom_cons, Option.bind_eq_some_iff] at hrun
      rcases hrun with ⟨next, hstep, hrest⟩
      have hother : a ≠ .joined := fun heq => hwaits (heq ▸ List.mem_cons_self)
      have hfirst := hs.nearer hjoining hother hstep
      rcases ih (sound_step s a next hs hstep) hfirst.joining
        (fun hmem => hwaits (List.mem_cons_of_mem _ hmem)) hrest with ⟨hs', hthen⟩
      have hsteps := hfirst.steps
      have hcalls := hfirst.calls
      refine ⟨hs', hthen.joining, ?_, Nat.le_trans hthen.calls hcalls⟩
      have hthen := hthen.steps
      rw [List.countP_cons]
      omega

/-- A thread that has been told to stop is never stuck. -/
theorem Sound.goes_on {s : ReactorThread} (hs : s.Sound) (hjoining : s.joining = true) :
    s.thread = some .finished ∨ ∃ a, a.isThreads = true ∧ (s.step a).isSome = true := by
  cases hthread : s.thread with
  | none => exact absurd hthread (hs.joined hjoining)
  | some phase =>
      cases phase with
      | finished => exact .inl rfl
      | holding fd =>
          exact .inr ⟨.callback none, rfl, by simp only [step, hthread, Option.isSome_some]⟩
      | waiting =>
          have hpending : .stopEvent ∈ s.ready := by
            rw [hs.pending, hthread]
            exact ⟨hjoining, by simp⟩
          refine .inr ⟨.wait, rfl, ?_⟩
          cases hready : s.ready with
          | nil =>
              rw [hready] at hpending
              cases hpending
          | cons e rest => cases e <;> simp only [step, hthread, hready, Option.isSome_some]

end ReactorThread

/-- **A stop gets through.** In runs whose starts and stops do not overlap, while somebody waits
for the thread to end, the thread makes no more callbacks than there were events before the
stop, has only so many steps before it, and can take its next one until it has ended: whatever
the callbacks answer or throw, and whatever becomes ready, is added or is deleted meanwhile. -/
theorem stop_gets_through {as bs : List ReactorAction} {s s' : ReactorThread}
    (hrun : reactorThread.run as = some s) (hthread : s.thread ≠ none)
    (hstop : reactorThread.runFrom s (.stop :: bs) = some s') (hwaits : .joined ∉ bs) :
    s'.made.length ≤ s.made.length + s.ready.length + 1 ∧
      bs.countP (·.isThreads) ≤ 2 * s.ready.length + 2 ∧
      (s'.thread = some .finished ∨ ∃ a, a.isThreads = true ∧ (s'.step a).isSome = true) := by
  have hs := ReactorThread.sound_of_run hrun
  rw [Machine.runFrom_cons, Option.bind_eq_some_iff] at hstop
  rcases hstop with ⟨told, htold, hrest⟩
  have hsound := ReactorThread.sound_step s .stop told hs htold
  simp only [reactorThread, ReactorThread.step, if_neg hthread] at htold
  split at htold
  · cases htold
  · rename_i hidle
    rw [Option.some_inj] at htold
    have hjoining : told.joining = true := by rw [← htold]
    have hmade : told.made = s.made := by rw [← htold]
    have hheld : told.held ≤ 1 := told.held_le
    have hahead : ReactorThread.aheadOf told.ready ≤ s.ready.length := by
      have hnew : ReadyEvent.stopEvent ∉ s.ready := fun hmem => hidle (hs.pending.mp hmem).1
      rw [← htold, if_neg hnew]
      exact ReactorThread.aheadOf_told_le s.ready
    rcases hsound.nearer_run hjoining hwaits hrest with ⟨hs', hnearer⟩
    have hcalls := hnearer.calls
    have hsteps := hnearer.steps
    rw [hmade, ReactorThread.callsLeft, ReactorThread.callsLeft] at hcalls
    have hleft : told.stepsLeft ≤ 2 * s.ready.length + 2 := by
      rw [ReactorThread.stepsLeft]
      split <;> omega
    exact ⟨by omega, by omega, hs'.goes_on hnearer.joining⟩

/-- Stopped while one descriptor stays ready, whose callback fails -/
theorem stop_gets_through_busy :
    ∃ s s', reactorThread.run
        [.others (.opened (.file 0) 3), .others (.addFd 3 EPOLLIN (.fileEvent 0 0 3 101) none),
          .start, .becomesReady 3, .wait, .callback none] = some s ∧
      reactorThread.runFrom s [.stop, .wait, .callback none, .interrupted, .wait] = some s' ∧
      s'.made.length ≤ s.made.length + s.ready.length + 1 ∧
      s'.thread = some .finished := by
  refine ⟨_, _, rfl, rfl, ?_, rfl⟩
  exact (@stop_gets_through
    [.others (.opened (.file 0) 3), .others (.addFd 3 EPOLLIN (.fileEvent 0 0 3 101) none),
      .start, .becomesReady 3, .wait, .callback none]
    [.wait, .callback none, .interrupted, .wait] _ _ rfl nofun rfl (by simp)).1

namespace ReactorThread

/-! ## One thread after the other -/

/-- Without a thread, and without a start, there are no callbacks. -/
theorem quiet_step {s s' : ReactorThread} (hthread : s.thread = none) {a : ReactorAction}
    (hother : a ≠ .start) (hstep : s.step a = some s') : s'.thread = none ∧ s'.made = s.made := by
  cases a with
  | others a =>
      rcases others_cases hstep with ⟨table, rfl⟩
      exact ⟨hthread, rfl⟩
  | becomesReady fd =>
      rcases Machine.of_enabled hstep with ⟨-, rfl⟩
      exact ⟨hthread, rfl⟩
  | drained fd =>
      cases hstep
      exact ⟨hthread, rfl⟩
  | start => exact absurd rfl hother
  | stop =>
      simp only [step, hthread, if_true] at hstep
      split at hstep
      · cases hstep
      · cases hstep
        exact ⟨hthread, rfl⟩
  | joined =>
      rcases Machine.of_enabled hstep with ⟨-, rfl⟩
      exact ⟨rfl, rfl⟩
  | wait =>
      rcases wait_cases hstep with ⟨hwaiting, -⟩
      rw [hthread] at hwaiting
      cases hwaiting
  | interrupted =>
      rcases Machine.of_enabled hstep with ⟨-, rfl⟩
      exact ⟨hthread, rfl⟩
  | callback res =>
      rcases callback_cases hstep with ⟨fd, hholding, -⟩
      rw [hthread] at hholding
      cases hholding

/-- A thread that nobody has told to stop -/
structure GoesOn (s : ReactorThread) : Prop where
  sound : s.Sound
  joining : s.joining = false
  thread : s.thread ≠ none

theorem GoesOn.not_finished {s : ReactorThread} (hs : s.GoesOn) : s.thread ≠ some .finished := by
  intro hend
  have hjoining := hs.sound.asked hend
  rw [hs.joining] at hjoining
  cases hjoining

theorem GoesOn.step {s s' : ReactorThread} (hs : s.GoesOn) {a : ReactorAction}
    (hother : a ≠ .stop) (hstep : s.step a = some s') : s'.GoesOn := by
  have hsound := sound_step s a s' hs.sound hstep
  cases a with
  | others a =>
      rcases others_cases hstep with ⟨table, rfl⟩
      exact ⟨hsound, hs.joining, hs.thread⟩
  | becomesReady fd =>
      rcases Machine.of_enabled hstep with ⟨-, rfl⟩
      exact ⟨hsound, hs.joining, hs.thread⟩
  | drained fd =>
      cases hstep
      exact ⟨hsound, hs.joining, hs.thread⟩
  | start =>
      have hrunning : s.running = true := by
        rw [hs.sound.running, Option.isSome_iff_ne_none]
        exact hs.thread
      simp only [ReactorThread.step, hs.joining, hrunning, if_true] at hstep
      cases hstep
      exact hs
  | stop => exact absurd rfl hother
  | joined =>
      rcases Machine.of_enabled hstep with ⟨⟨hjoining, -⟩, -⟩
      rw [hs.joining] at hjoining
      cases hjoining
  | wait =>
      rcases wait_cases hstep with ⟨-, ⟨rest, hready, -⟩ | ⟨fd, rest, -, rfl⟩⟩
      · have hpending : .stopEvent ∈ s.ready := by
          rw [hready]
          exact List.mem_cons_self
        have hjoining := (hs.sound.pending.mp hpending).1
        rw [hs.joining] at hjoining
        cases hjoining
      · exact ⟨hsound, hs.joining, nofun⟩
  | interrupted =>
      rcases Machine.of_enabled hstep with ⟨-, rfl⟩
      exact hs
  | callback res =>
      rcases callback_cases hstep with ⟨fd, -, rfl⟩
      exact ⟨hsound, hs.joining, nofun⟩

end ReactorThread

/-- **One thread after the other.** In runs whose starts and stops do not overlap, after a thread
has been joined there are no callbacks until the next start. The thread of that one goes on until
it is told to stop itself, whatever its callbacks throw, and however often threads before it have
been stopped over the same eventfd. -/
theorem restarted_thread_goes_on {as bs : List ReactorAction} {s s' : ReactorThread}
    (hrun : reactorThread.run as = some s) (hthread : s.thread = none) :
    (.start ∉ bs → reactorThread.runFrom s bs = some s' →
        s'.thread = none ∧ s'.made = s.made) ∧
      (.stop ∉ bs → reactorThread.runFrom s (.start :: bs) = some s' →
        s'.thread ≠ none ∧ s'.thread ≠ some .finished ∧ s'.joining = false) := by
  have hs := ReactorThread.sound_of_run hrun
  constructor
  · intro hother hrest
    apply Machine.runFrom_invariant (fun t => t.thread = none ∧ t.made = s.made)
      (fun a => a ≠ ReactorAction.start) _ ⟨hthread, rfl⟩ (fun a ha heq => hother (heq ▸ ha)) hrest
    intro t a t' ht hstart hstep
    rcases ReactorThread.quiet_step ht.1 hstart hstep with ⟨hnone, hmade⟩
    exact ⟨hnone, hmade.trans ht.2⟩
  · intro hother hrest
    rw [Machine.runFrom_cons, Option.bind_eq_some_iff] at hrest
    rcases hrest with ⟨begun, hstart, hrest⟩
    have hidle : s.joining = false := by
      cases hjoining : s.joining with
      | false => rfl
      | true => exact absurd hthread (hs.joined hjoining)
    have hrunning : s.running = false := by
      rw [hs.running, hthread]
      rfl
    have hbegun : begun.GoesOn := by
      refine ⟨ReactorThread.sound_step s .start begun hs hstart, ?_, ?_⟩
      · simp only [reactorThread, ReactorThread.step, hidle, hrunning] at hstart
        cases hstart
        rfl
      · simp only [reactorThread, ReactorThread.step, hidle, hrunning] at hstart
        cases hstart
        exact nofun
    have hgoes : s'.GoesOn := Machine.runFrom_invariant ReactorThread.GoesOn
      (fun a => a ≠ ReactorAction.stop) (fun _ _ _ ht hstop hstep => ht.step hstop hstep) hbegun
      (fun a ha heq => hother (heq ▸ ha)) hrest
    exact ⟨hgoes.thread, hgoes.not_finished, hgoes.joining⟩

/-- Started, stopped and joined, started again, and interrupted -/
theorem restarted_thread_goes_on_twice :
    ∃ s s', reactorThread.run [.start, .stop, .wait, .joined] = some s ∧
      reactorThread.runFrom s [.start, .interrupted] = some s' ∧
      s'.thread ≠ some .finished := by
  refine ⟨_, _, rfl, rfl, ?_⟩
  exact ((@restarted_thread_goes_on [.start, .stop, .wait, .joined] [.interrupted] _ _ rfl rfl).2
    (by simp) rfl).2.1

end FerroRemote.Agent

/-
# The reactor's table and the poll set

Any number of threads call `add_fd`, `del_fd` and `make_callback` on the same
descriptors. `add_fd` and `make_callback` do all of their work inside
`react_lock_`; `del_fd` takes the descriptor out of the poll set first and gets
the lock afterwards, so that anything may happen between its two halves.

The table and the poll set agree all the same whenever no `del_fd` is half done,
because an entry that goes closes its descriptor, and closing takes it out of the
poll set. What a run may lose is the state before an `add_fd` that fails.
-/

import FerroRemote.Agent.PollReactor
import FerroRemote.Math.Machine

namespace FerroRemote.Agent

/-- The reactor, the calls of `del_fd` that wait for the lock, and what the calls
of `add_fd` that failed found and left. -/
structure PollTable where
  react : PollReactor := {}
  /-- The descriptors of `del_fd` calls between `epoll_ctl` and the lock. -/
  deleting : List Fd := []
  failed : List (PollReactor × PollReactor) := []

inductive PollAction
  /-- Somebody opens a descriptor. -/
  | opened (owner : Owner) (fd : Fd)
  | addFd (fd : Fd) (events : Nat) (cb : Reaction) (fault : Option Errno)
  /-- `del_fd` up to the lock. -/
  | delFd (fd : Fd)
  /-- A `del_fd` gets the lock. -/
  | locked (n : Nat)
  /-- `make_callback`, whose callback answers `res` if there is one. -/
  | makeCallback (fd : Fd) (res : Bool)

namespace PollTable

def addFd (s : PollTable) (fd : Fd) (events : Nat) (cb : Reaction) (fault : Option Errno) :
    PollTable :=
  match s.react.addFd fd events cb fault with
  | (.ok _, react) => { s with react := react }
  | (.error _, react) => { s with react := react, failed := s.failed ++ [(s.react, react)] }

def makeCallback (r : PollReactor) (fd : Fd) (res : Bool) : PollReactor :=
  if fd ∈ r.react then r.afterCallback fd res else r.staleEvent fd

def step (s : PollTable) : PollAction → Option PollTable
  | .opened owner fd =>
    if fd ∉ s.react.kernel.fds then
      some { s with react := { s.react with kernel := s.react.kernel.openFd owner fd } }
    else none
  | .addFd fd events cb fault => some (s.addFd fd events cb fault)
  | .delFd fd =>
    some { s with
      react := { s.react with kernel := s.react.kernel.delFdFromEpoll fd }
      deleting := s.deleting ++ [fd] }
  | .locked n =>
    (s.deleting[n]?).map fun fd =>
      { s with react := s.react.eraseReaction fd, deleting := s.deleting.eraseIdx n }
  | .makeCallback fd res => some { s with react := makeCallback s.react fd res }

end PollTable

def pollTable : Machine PollTable PollAction where
  init := {}
  step := PollTable.step

namespace PollTable

/-- Nothing that matters to others is different: the poll set, the entries with
their callbacks, and which descriptors are open. -/
structure SameTable (before after : PollReactor) : Prop where
  poll : after.kernel.poll = before.kernel.poll
  react : after.react = before.react
  fds : after.kernel.fds = before.kernel.fds

/-- The poll set holds what the table holds when no `del_fd` is half done, and an
`add_fd` that failed has changed nothing. -/
structure Agreement (s : PollTable) : Prop where
  agrees : s.deleting = [] → ∀ fd, fd ∈ s.react.kernel.poll ↔ fd ∈ s.react.react
  failed : ∀ call ∈ s.failed, SameTable call.1 call.2

/-- An `add_fd` succeeds, or has nothing to spoil: a descriptor without an entry
is not open, or the entry has the callback already. -/
def SparesTable (s : PollTable) : PollAction → Prop
  | .addFd fd events cb fault =>
    if fd ∈ s.react.react then
      s.react.react[fd]? = some cb ∨ ∃ k, s.react.kernel.modifyFdEpoll fd events fault = .ok k
    else fd ∉ s.react.kernel.fds ∨ ∃ k, s.react.kernel.addFdToEpoll fd events fault = .ok k
  | _ => True

/-- What holds also in the middle of a `del_fd`. -/
structure Matched (s : PollTable) : Prop where
  known : ∀ fd, fd ∈ s.react.kernel.poll → fd ∈ s.react.react
  watched : ∀ fd, fd ∈ s.react.react → fd ∈ s.react.kernel.poll ∨ fd ∈ s.deleting

theorem Matched.agrees {s : PollTable} (hs : s.Matched) (hidle : s.deleting = []) (fd : Fd) :
    fd ∈ s.react.kernel.poll ↔ fd ∈ s.react.react := by
  constructor
  · exact hs.known fd
  · intro hmem
    rcases hs.watched fd hmem with hpoll | hdeleting
    · exact hpoll
    · rw [hidle] at hdeleting
      cases hdeleting

/-- The three outcomes of `add_fd`, and what each asks of a call that spares the
table. -/
theorem addFd_cases (s : PollTable) (fd : Fd) (events : Nat) (cb : Reaction)
    (fault : Option Errno) :
    (s.addFd fd events cb fault = { s with
        react.kernel.poll := s.react.kernel.poll.insert fd events
        react.react := s.react.react.insert fd cb } ∧
      s.SparesTable (.addFd fd events cb fault)) ∨
    (fd ∉ s.react.react ∧
      s.addFd fd events cb fault = { s with
        react := s.react.dropReaction fd
        failed := s.failed ++ [(s.react, s.react.dropReaction fd)] } ∧
      (s.SparesTable (.addFd fd events cb fault) ↔ fd ∉ s.react.kernel.fds)) ∨
    (fd ∈ s.react.react ∧
      s.addFd fd events cb fault = { s with
        react.react := s.react.react.insert fd cb
        failed := s.failed ++ [(s.react, { s.react with react := s.react.react.insert fd cb })] } ∧
      (s.SparesTable (.addFd fd events cb fault) ↔ s.react.react[fd]? = some cb)) := by
  by_cases hknown : fd ∈ s.react.react
  · cases hmod : s.react.kernel.modifyFdEpoll fd events fault with
    | ok k =>
        left
        obtain ⟨-, -, -, rfl⟩ := Kernel.modifyFdEpoll_ok hmod
        constructor
        · simp only [addFd, PollReactor.addFd, hknown, not_true_eq_false, if_false, hmod]
        · simp only [SparesTable, hknown, if_true]
          exact .inr ⟨_, hmod⟩
    | error code =>
        right
        right
        refine ⟨hknown, ?_, ?_⟩
        · simp only [addFd, PollReactor.addFd, hknown, not_true_eq_false, if_false, hmod]
        · simp only [SparesTable, hknown, if_true, hmod, reduceCtorEq, exists_false, or_false]
  · cases hadd : s.react.kernel.addFdToEpoll fd events fault with
    | ok k =>
        left
        obtain ⟨-, -, -, rfl⟩ := Kernel.addFdToEpoll_ok hadd
        constructor
        · simp only [addFd, PollReactor.addFd, hknown, not_false_eq_true, if_true, hadd]
        · simp only [SparesTable, hknown, if_false]
          exact .inr ⟨_, hadd⟩
    | error code =>
        right
        left
        refine ⟨hknown, ?_, ?_⟩
        · simp only [addFd, PollReactor.addFd, hknown, not_false_eq_true, if_true, hadd]
        · simp only [SparesTable, hknown, if_false, hadd, reduceCtorEq, exists_false, or_false]

/-- A descriptor that the table does not know is in the poll set neither. -/
theorem Matched.unwatched {s : PollTable} (hs : s.Matched) {fd : Fd}
    (hunknown : fd ∉ s.react.react) : s.react.kernel.poll.erase fd = s.react.kernel.poll := by
  apply Table.erase_of_getElem?
  rw [← Table.not_mem_iff]
  exact fun hmem => hunknown (hs.known fd hmem)

/-- The same descriptors in both, and the same calls half done. -/
theorem Matched.congr {s s' : PollTable} (hs : s.Matched)
    (hpoll : ∀ fd, fd ∈ s'.react.kernel.poll ↔ fd ∈ s.react.kernel.poll)
    (hreact : ∀ fd, fd ∈ s'.react.react ↔ fd ∈ s.react.react)
    (hdeleting : s'.deleting = s.deleting) : s'.Matched := by
  constructor
  · intro fd hmem
    rw [hreact]
    exact hs.known fd ((hpoll fd).mp hmem)
  · intro fd hmem
    rw [hpoll, hdeleting]
    exact hs.watched fd ((hreact fd).mp hmem)

theorem Matched.erase {s s' : PollTable} (hs : s.Matched) {fd : Fd}
    (hpoll : s'.react.kernel.poll = s.react.kernel.poll.erase fd)
    (hreact : s'.react.react = s.react.react.erase fd)
    (hdeleting : ∀ a, a ≠ fd → a ∈ s.deleting → a ∈ s'.deleting) : s'.Matched := by
  constructor
  · intro a ha
    rw [hpoll, Table.mem_erase_iff] at ha
    rw [hreact, Table.mem_erase_iff]
    exact ⟨ha.1, hs.known a ha.2⟩
  · intro a ha
    rw [hreact, Table.mem_erase_iff] at ha
    rw [hpoll, Table.mem_erase_iff]
    rcases hs.watched a ha.2 with hmem | hmem
    · exact .inl ⟨ha.1, hmem⟩
    · exact .inr (hdeleting a (Ne.symm ha.1) hmem)

theorem Matched.addFd {s : PollTable} (hs : s.Matched) (fd : Fd) (events : Nat) (cb : Reaction)
    (fault : Option Errno) : (s.addFd fd events cb fault).Matched := by
  rcases s.addFd_cases fd events cb fault with ⟨heq, -⟩ | ⟨hunknown, heq, -⟩ | ⟨hknown, heq, -⟩
  · rw [heq]
    constructor
    · intro a ha
      rcases (Table.mem_insert_iff _ fd a events).mp ha with hfd | hold
      · exact (Table.mem_insert_iff _ fd a cb).mpr (.inl hfd)
      · exact (Table.mem_insert_iff _ fd a cb).mpr (.inr (hs.known a hold))
    · intro a ha
      rcases (Table.mem_insert_iff _ fd a cb).mp ha with hfd | hold
      · exact .inl ((Table.mem_insert_iff _ fd a events).mpr (.inl hfd))
      · rcases hs.watched a hold with hmem | hmem
        · exact .inl ((Table.mem_insert_iff _ fd a events).mpr (.inr hmem))
        · exact .inr hmem
  · have hpoll : ∀ a, a ∈ s.react.kernel.poll.erase fd ↔ a ∈ s.react.kernel.poll := by
      rw [hs.unwatched hunknown]
      exact fun _ => Iff.rfl
    rw [heq]
    exact hs.congr hpoll (fun _ => Iff.rfl) rfl
  · rw [heq]
    exact hs.congr (fun _ => Iff.rfl) (Table.mem_insert_of_mem hknown cb) rfl

theorem Matched.makeCallback {s : PollTable} (hs : s.Matched) (fd : Fd) (res : Bool) :
    Matched { s with react := makeCallback s.react fd res } := by
  by_cases hknown : fd ∈ s.react.react
  · cases res with
    | true =>
        rw [PollTable.makeCallback, if_pos hknown]
        exact hs
    | false =>
        rw [PollTable.makeCallback, if_pos hknown]
        have hpoll : (s.react.kernel.poll.erase fd).erase fd = s.react.kernel.poll.erase fd := by
          apply Table.erase_of_getElem?
          rw [Table.getElem?_erase_self]
        show Matched { s with react := s.react.delFd fd }
        rw [PollReactor.delFd_of_mem hknown]
        exact hs.erase hpoll rfl fun _ _ hmem => hmem
  · have hpoll : ∀ a, a ∈ s.react.kernel.poll.erase fd ↔ a ∈ s.react.kernel.poll := by
      rw [hs.unwatched hknown]
      exact fun _ => Iff.rfl
    rw [PollTable.makeCallback, if_neg hknown]
    exact hs.congr hpoll (fun _ => Iff.rfl) rfl

/-- A `del_fd` that gets the lock. The entry may be another by now. -/
theorem Matched.locked {s : PollTable} (hs : s.Matched) {n : Nat} {fd : Fd}
    (hn : s.deleting[n]? = some fd) :
    Matched { s with react := s.react.eraseReaction fd, deleting := s.deleting.eraseIdx n } := by
  have hothers : ∀ a, a ≠ fd → a ∈ s.deleting → a ∈ s.deleting.eraseIdx n := by
    intro a hne hmem
    rw [List.mem_eraseIdx_iff_getElem?]
    obtain ⟨i, hi⟩ := List.mem_iff_getElem?.mp hmem
    refine ⟨i, ?_, hi⟩
    rintro rfl
    rw [hn, Option.some_inj] at hi
    exact hne hi.symm
  by_cases hknown : fd ∈ s.react.react
  · rw [PollReactor.eraseReaction, if_pos hknown]
    exact hs.erase rfl rfl hothers
  · have hreact : s.react.react = s.react.react.erase fd :=
      (Table.erase_of_getElem? ((Table.not_mem_iff _ _).mp hknown)).symm
    rw [PollReactor.eraseReaction, if_neg hknown]
    exact hs.erase (hs.unwatched hknown).symm hreact hothers

theorem matched_step (s : PollTable) (a : PollAction) (s' : PollTable) (hs : s.Matched)
    (hstep : s.step a = some s') : s'.Matched := by
  cases a with
  | opened owner fd =>
      obtain ⟨-, rfl⟩ := Machine.of_enabled hstep
      exact hs.congr (fun _ => Iff.rfl) (fun _ => Iff.rfl) rfl
  | addFd fd events cb fault =>
      cases hstep
      exact hs.addFd fd events cb fault
  | delFd fd =>
      cases hstep
      constructor
      · intro a ha
        exact hs.known a ((Table.mem_erase_iff _ fd a).mp ha).2
      · intro a ha
        by_cases heq : fd = a
        · exact .inr (List.mem_append.mpr (.inr (List.mem_singleton.mpr heq.symm)))
        · rcases hs.watched a ha with hmem | hmem
          · exact .inl ((Table.mem_erase_iff _ fd a).mpr ⟨heq, hmem⟩)
          · exact .inr (List.mem_append.mpr (.inl hmem))
  | locked n =>
      obtain ⟨fd, hn, rfl⟩ := Option.map_eq_some_iff.mp hstep
      exact hs.locked hn
  | makeCallback fd res =>
      cases hstep
      exact hs.makeCallback fd res

/-- The record of calls that failed grows by `add_fd` alone. -/
theorem failed_step {s s' : PollTable} {a : PollAction} (hstep : s.step a = some s')
    (hother : ∀ fd events cb fault, a ≠ .addFd fd events cb fault) : s'.failed = s.failed := by
  cases a with
  | opened owner fd =>
      obtain ⟨-, rfl⟩ := Machine.of_enabled hstep
      rfl
  | addFd fd events cb fault => exact absurd rfl (hother fd events cb fault)
  | delFd fd =>
      cases hstep
      rfl
  | locked n =>
      obtain ⟨fd, -, rfl⟩ := Option.map_eq_some_iff.mp hstep
      rfl
  | makeCallback fd res =>
      cases hstep
      rfl

/-- A refused descriptor is left as it was exactly when it was not open. -/
theorem Matched.sameTable_drop {s : PollTable} (hs : s.Matched) {fd : Fd}
    (hunknown : fd ∉ s.react.react) :
    SameTable s.react (s.react.dropReaction fd) ↔ fd ∉ s.react.kernel.fds := by
  constructor
  · intro hsame hopen
    rw [← hsame.fds] at hopen
    exact ((Table.mem_erase_iff _ fd fd).mp hopen).1 rfl
  · intro hclosed
    have hfds : s.react.kernel.fds.erase fd = s.react.kernel.fds :=
      Table.erase_of_getElem? ((Table.not_mem_iff _ _).mp hclosed)
    exact ⟨hs.unwatched hunknown, rfl, hfds⟩

/-- An entry is left as it was exactly when it has the callback already. -/
theorem sameTable_insert {r : PollReactor} {fd : Fd} {cb : Reaction} :
    SameTable r { r with react := r.react.insert fd cb } ↔ r.react[fd]? = some cb := by
  constructor
  · intro hsame
    rw [← hsame.react, Table.getElem?_insert_self]
  · intro hsame
    exact ⟨rfl, Table.insert_of_getElem? hsame, rfl⟩

/-- **Calls that fail, exactly.** The record stays clean by the calls that spare
the table, and by no others. -/
theorem failed_iff_spares {s s' : PollTable} (hs : s.Matched) {a : PollAction}
    (hstep : s.step a = some s') :
    (∀ call ∈ s'.failed, SameTable call.1 call.2) ↔
      (∀ call ∈ s.failed, SameTable call.1 call.2) ∧ s.SparesTable a := by
  cases a with
  | addFd fd events cb fault =>
      cases hstep
      rcases s.addFd_cases fd events cb fault with
        ⟨heq, hspares⟩ | ⟨hunknown, heq, hspares⟩ | ⟨-, heq, hspares⟩
      · rw [heq]
        exact (and_iff_left hspares).symm
      · rw [heq, hspares, ← hs.sameTable_drop hunknown, List.forall_mem_append,
          List.forall_mem_singleton]
      · rw [heq, hspares, ← sameTable_insert, List.forall_mem_append, List.forall_mem_singleton]
  | opened | delFd | locked | makeCallback =>
      have hother : s'.failed = s.failed := failed_step hstep (by simp)
      rw [hother]
      exact (and_iff_left trivial).symm

structure Clean (s : PollTable) : Prop where
  matched : s.Matched
  failed : ∀ call ∈ s.failed, SameTable call.1 call.2

theorem clean_init : Clean {} where
  matched :=
    { known := fun _ hmem => absurd hmem Std.ExtTreeMap.not_mem_empty
      watched := fun _ hmem => absurd hmem Std.ExtTreeMap.not_mem_empty }
  failed := fun _ hmem => absurd hmem List.not_mem_nil

end PollTable

/-- The table and the poll set agree in every run. -/
theorem agrees_along (as : List PollAction) :
    pollTable.Along (fun s => s.deleting = [] →
      ∀ fd, fd ∈ s.react.kernel.poll ↔ fd ∈ s.react.react) as := by
  apply Machine.along_of_steps PollTable.clean_init.matched PollTable.matched_step
  intro s hs
  exact hs.agrees

/-- **Agreement with the poll set, exactly.** In a run the table agrees with the
poll set whenever no call is half done, and calls of `add_fd` that fail change
nothing, if and only if no call fails where it has something to spoil. -/
theorem agreement_iff_sparesTable (as : List PollAction) :
    pollTable.Along PollTable.Agreement as ↔ pollTable.Meets PollTable.SparesTable as := by
  apply Machine.along_iff_meets PollTable.clean_init
  · intro s a s' hs hspares hstep
    exact ⟨PollTable.matched_step s a s' hs.matched hstep,
      (PollTable.failed_iff_spares hs.matched hstep).mpr ⟨hs.failed, hspares⟩⟩
  · intro s hs
    exact ⟨hs.matched.agrees, hs.failed⟩
  · intro s a s' hs hstep hagreement
    exact ((PollTable.failed_iff_spares hs.matched hstep).mp hagreement.failed).2

/-- A file's descriptor that the poll set refuses is closed. -/
theorem refused_descriptor_closed :
    ¬ pollTable.Along PollTable.Agreement
      [.opened (.file 0) 3, .addFd 3 EPOLLIN (.fileEvent 0 0 3 101) (some EINVAL)] := by
  apply Machine.not_along_of_run rfl
  intro hagreement
  have hsame : (({} : Kernel).openFd (.file 0) 3).fds.erase 3 =
      (({} : Kernel).openFd (.file 0) 3).fds :=
    (hagreement.failed _ (List.mem_singleton.mpr rfl)).fds
  have hopen : (3 : Fd) ∈ (({} : Kernel).openFd (.file 0) 3).fds :=
    (Table.mem_insert_iff _ _ _ _).mpr (.inl rfl)
  rw [← hsame] at hopen
  exact ((Table.mem_erase_iff _ _ _).mp hopen).1 rfl

end FerroRemote.Agent

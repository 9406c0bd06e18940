/-
# The poll reactor's table

`poll_reactor::impl` keeps one `handle_reaction` for every registered
descriptor: a `file_keeper` over the number and the callback to run. The keeper
closes the number when the entry is destroyed, so every path that drops an
entry also issues a `close`: erasing it from the table, and the failing branch
of `add_fd`, where the freshly made entry dies with the exception.

Each function below is one critical section of `react_lock_` together with the
`epoll_ctl` call it makes; `makeCallback` is split into finding the callback and
acting on its answer, because what the callback does belongs to its owner.
-/

import FerroRemote.Agent.Kernel

namespace FerroRemote.Agent

def EPOLLIN : Nat := 0x1
def EPOLLPRI : Nat := 0x2
def EPOLLET : Nat := 0x80000000

/-- What a registered `reaction_callback` was bound to. A file's callback
carries the service instance it calls and the `value_data` copied into the bind
expression; a pin's callback carries the raw pointer of its helper. -/
inductive Reaction
  | fileEvent (inst : Nat) (file : Nat) (fd : Fd) (op : Nat)
  | pinEvent (helper : Nat)
  deriving DecidableEq, Repr

/-- The reactor: the kernel side, and `react_`. -/
structure PollReactor where
  kernel : Kernel := {}
  react : Table Reaction := ∅

namespace PollReactor

/-- The destructor of the `handle_reaction` for `fd`. -/
def dropReaction (r : PollReactor) (fd : Fd) : PollReactor :=
  { r with kernel := r.kernel.close .reactor fd }

/-- `react_.erase( fd )`: an entry that is there is destroyed. -/
def eraseReaction (r : PollReactor) (fd : Fd) : PollReactor :=
  if fd ∈ r.react then { r.dropReaction fd with react := r.react.erase fd } else r

/-- `poll_reactor::impl::add_fd`. A new entry is inserted only after the
descriptor is in the poll set; for a known descriptor the callback is replaced
first and the mask changed afterwards. -/
def addFd (r : PollReactor) (fd : Fd) (events : Nat) (cb : Reaction)
    (fault : Option Errno) : Except Error Unit × PollReactor :=
  if fd ∉ r.react then
    match r.kernel.addFdToEpoll fd events fault with
    | .error code => (.error (.errno "epoll_ctl" code), r.dropReaction fd)
    | .ok kernel => (.ok (), { kernel := kernel, react := r.react.insert fd cb })
  else
    let r := { r with react := r.react.insert fd cb }
    match r.kernel.modifyFdEpoll fd events fault with
    | .error code => (.error (.errno "epoll_ctl" code), r)
    | .ok kernel => (.ok (), { r with kernel := kernel })

/-- `poll_reactor::impl::del_fd_unsafe`, and the effect of `del_fd`. -/
def delFd (r : PollReactor) (fd : Fd) : PollReactor :=
  { r with kernel := r.kernel.delFdFromEpoll fd }.eraseReaction fd

/-- What `make_callback` does once the callback of `fd` has answered. -/
def afterCallback (r : PollReactor) (fd : Fd) (res : Bool) : PollReactor :=
  if res then r else r.delFd fd

/-- What `make_callback` does for a descriptor without an entry. -/
def staleEvent (r : PollReactor) (fd : Fd) : PollReactor :=
  { r with kernel := r.kernel.delFdFromEpoll fd }

/-- A descriptor can be added, or is known already: `add_fd` then destroys no
entry. -/
def AcceptsFd (r : PollReactor) (fd : Fd) (events : Nat) (fault : Option Errno) : Prop :=
  fd ∈ r.react ∨ ∃ kernel, r.kernel.addFdToEpoll fd events fault = .ok kernel

theorem delFd_of_not_mem {r : PollReactor} {fd : Fd} (h : fd ∉ r.react) :
    r.delFd fd = { r with kernel := r.kernel.delFdFromEpoll fd } := by
  simp [delFd, eraseReaction, h]

theorem delFd_of_mem {r : PollReactor} {fd : Fd} (h : fd ∈ r.react) :
    r.delFd fd =
      { kernel := (r.kernel.delFdFromEpoll fd).close .reactor fd, react := r.react.erase fd } := by
  simp [delFd, eraseReaction, dropReaction, h]

@[simp]
theorem delFd_react (r : PollReactor) (fd : Fd) : (r.delFd fd).react = r.react.erase fd := by
  by_cases h : fd ∈ r.react
  · rw [delFd_of_mem h]
  · rw [delFd_of_not_mem h, Table.erase_of_getElem? ((Table.not_mem_iff _ _).mp h)]

theorem addFd_cases (r : PollReactor) (fd : Fd) (events : Nat) (cb : Reaction)
    (fault : Option Errno) :
    (r.addFd fd events cb fault =
        (.ok (), { kernel := { r.kernel with poll := r.kernel.poll.insert fd events }
                   react := r.react.insert fd cb }) ∧
        fd ∈ r.kernel.fds ∧ fault = none) ∨
    (∃ code, fd ∉ r.react ∧ ¬ r.AcceptsFd fd events fault ∧
        r.addFd fd events cb fault =
          (.error (.errno "epoll_ctl" code), r.dropReaction fd)) ∨
    (∃ code, fd ∈ r.react ∧
        r.addFd fd events cb fault =
          (.error (.errno "epoll_ctl" code), { r with react := r.react.insert fd cb })) := by
  by_cases hknown : fd ∈ r.react
  · cases hmod : r.kernel.modifyFdEpoll fd events fault with
    | error code => exact .inr (.inr ⟨code, hknown, by simp [addFd, hknown, hmod]⟩)
    | ok kernel =>
        obtain ⟨hfault, hopen, -, rfl⟩ := Kernel.modifyFdEpoll_ok hmod
        exact .inl ⟨by simp [addFd, hknown, hmod], hopen, hfault⟩
  · cases hadd : r.kernel.addFdToEpoll fd events fault with
    | error code =>
        refine .inr (.inl ⟨code, hknown, ?_, by simp [addFd, hknown, hadd]⟩)
        rintro (hmem | ⟨kernel, hok⟩)
        · exact hknown hmem
        · rw [hadd] at hok
          cases hok
    | ok kernel =>
        obtain ⟨hfault, hopen, -, rfl⟩ := Kernel.addFdToEpoll_ok hadd
        exact .inl ⟨by simp [addFd, hknown, hadd], hopen, hfault⟩

/-- A descriptor that `add_fd` cannot add is closed by the failing call. -/
theorem addFd_of_refused {r : PollReactor} {fd : Fd} {events : Nat} {fault : Option Errno}
    (hrefused : ¬ r.AcceptsFd fd events fault) (cb : Reaction) :
    (r.addFd fd events cb fault).2 = r.dropReaction fd := by
  have hunknown : fd ∉ r.react := fun hmem => hrefused (.inl hmem)
  cases hadd : r.kernel.addFdToEpoll fd events fault with
  | error code => simp [addFd, hunknown, hadd]
  | ok kernel => exact absurd (.inr ⟨kernel, hadd⟩) hrefused

/-- A descriptor that `add_fd` accepts has the callback afterwards, even when
changing its mask fails. -/
theorem addFd_react_of_accepted {r : PollReactor} {fd : Fd} {events : Nat} {fault : Option Errno}
    (haccepted : r.AcceptsFd fd events fault) (cb : Reaction) :
    (r.addFd fd events cb fault).2.react = r.react.insert fd cb := by
  rcases r.addFd_cases fd events cb fault with
    ⟨heq, -, -⟩ | ⟨code, -, hrefused, -⟩ | ⟨code, -, heq⟩
  · rw [heq]
  · exact absurd haccepted hrefused
  · rw [heq]

theorem log_subset_delFd (r : PollReactor) (fd : Fd) : r.kernel.log ⊆ (r.delFd fd).kernel.log := by
  by_cases hmem : fd ∈ r.react
  · rw [delFd_of_mem hmem]
    exact List.subset_cons_self _ _
  · rw [delFd_of_not_mem hmem]
    exact List.Subset.refl _

theorem delFd_other {r : PollReactor} {a fd : Fd} (hne : a ≠ fd) :
    (r.delFd a).react[fd]? = r.react[fd]? ∧
      (r.delFd a).kernel.fds[fd]? = r.kernel.fds[fd]? ∧
      (r.delFd a).kernel.poll[fd]? = r.kernel.poll[fd]? := by
  refine ⟨?_, ?_⟩
  · rw [delFd_react, Table.getElem?_erase_of_ne hne]
  · by_cases hmem : a ∈ r.react
    · rw [delFd_of_mem hmem]
      simp [Kernel.close, Kernel.delFdFromEpoll, Table.getElem?_erase_eq, hne]
    · rw [delFd_of_not_mem hmem]
      simp [Kernel.delFdFromEpoll, Table.getElem?_erase_eq, hne]

end PollReactor

end FerroRemote.Agent

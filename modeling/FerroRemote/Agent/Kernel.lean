/-
# Descriptors and the poll set

The part of the operating system the agent's reactor works with: the table of
open descriptor numbers, and the kernel's poll set behind `epoll_ctl`. An
`open` may return any number that is not open, so callers pass the number in.
Two kinds of agent objects hold descriptors for longer than one call, files and
gpio helpers, and the table remembers which object opened each number. The
event log is history that no code reads; it is what statements about ownership
are about.
-/

import FerroRemote.Math.Table

namespace FerroRemote.Agent

/-- A descriptor number; `-1` is represented by `none` where it can occur. -/
abbrev Fd := Nat

/-- The value of `errno` after a failed call. -/
abbrev Errno := Nat

def ENOENT : Errno := 2
def EBADF : Errno := 9
def EAGAIN : Errno := 11
def EEXIST : Errno := 17
def EINVAL : Errno := 22

/-- The exceptions the agent throws. `errno` is `errno_error::throw_error`,
whose text names the failed call and the number; `system` is
`throw_system_error` with a text of the caller's own. -/
inductive Error
  | errno (func : String) (code : Errno)
  | system (code : Errno) (mess : String)
  deriving DecidableEq, Repr

/-- How an operation on a state ends: with a result or an exception, and in a
state. -/
abbrev Outcome (S α : Type) : Type := Except Error α × S

namespace Outcome

variable {S α β : Type}

/-- Going on with the result. An exception is passed on. -/
def andThen (out : Outcome S α) (next : α → S → Outcome S β) : Outcome S β :=
  match out with
  | (.error err, s) => (.error err, s)
  | (.ok a, s) => next a s

theorem andThen_error {out : Outcome S α} {err : Error} (hout : out.1 = .error err)
    (next : α → S → Outcome S β) : out.andThen next = (.error err, out.2) := by
  obtain ⟨res, s⟩ := out
  change res = _ at hout
  subst hout
  rfl

theorem andThen_ok {out : Outcome S α} {a : α} (hout : out.1 = .ok a)
    (next : α → S → Outcome S β) : out.andThen next = next a out.2 := by
  obtain ⟨res, s⟩ := out
  change res = _ at hout
  subst hout
  rfl

/-- What holds of the state after both halves, whether the second one is reached
or not. -/
theorem andThen_state {P : S → Prop} {out : Outcome S α} {next : α → S → Outcome S β}
    (hout : P out.2) (hnext : ∀ a s, P s → P (next a s).2) : P (out.andThen next).2 := by
  cases hres : out.1 with
  | error err =>
      rw [andThen_error hres]
      exact hout
  | ok a =>
      rw [andThen_ok hres]
      exact hnext a out.2 hout

end Outcome

/-- The objects that open descriptors, by identity. -/
inductive Owner
  | file (id : Nat)
  | helper (id : Nat)
  deriving DecidableEq, Repr

/-- Where a `close` comes from: the destructor of an object, or the
`file_keeper` inside an entry of the reactor's table. -/
inductive Closer
  | object (owner : Owner)
  | reactor
  deriving DecidableEq, Repr

/-- History of the descriptor table. A `closed` event records to which object
the number belonged at that moment, or `none` when it was not open. -/
inductive FdEvent
  | opened (owner : Owner) (fd : Fd)
  | closed (closer : Closer) (fd : Fd) (hit : Option Owner)
  deriving DecidableEq, Repr

/-- The descriptor table, the poll set with its event masks, and the history,
newest event first. -/
structure Kernel where
  fds : Table Owner := ∅
  poll : Table Nat := ∅
  log : List FdEvent := []

namespace Kernel

/-- A successful `open` that returned `fd`. -/
def openFd (k : Kernel) (owner : Owner) (fd : Fd) : Kernel :=
  { k with fds := k.fds.insert fd owner, log := .opened owner fd :: k.log }

/-- What `open` returned is a number that is not open. -/
def Unused {ε : Type} (k : Kernel) (res : Except ε Fd) : Prop := ∀ fd, res = .ok fd → fd ∉ k.fds

instance {ε : Type} (k : Kernel) (res : Except ε Fd) : Decidable (k.Unused res) :=
  match res with
  | .error _ => isTrue fun _ h => nomatch h
  | .ok fd =>
    if h : fd ∉ k.fds then isTrue fun _ heq => by cases heq; exact h
    else isFalse fun hunused => h (hunused fd rfl)

/-- `close(fd)`. Closing the number takes it out of the poll set; closing a
number that is not open changes nothing but the history. -/
def close (k : Kernel) (closer : Closer) (fd : Fd) : Kernel :=
  { fds := k.fds.erase fd
    poll := k.poll.erase fd
    log := .closed closer fd k.fds[fd]? :: k.log }

/-- `epoll_ctl( EPOLL_CTL_ADD )`. Besides its own two checks the call may fail
for reasons of the system's, given as `fault`. -/
def addFdToEpoll (k : Kernel) (fd : Fd) (events : Nat) (fault : Option Errno) :
    Except Errno Kernel :=
  match fault with
  | some code => .error code
  | none =>
    if fd ∉ k.fds then .error EBADF
    else if fd ∈ k.poll then .error EEXIST
    else .ok { k with poll := k.poll.insert fd events }

/-- `epoll_ctl( EPOLL_CTL_MOD )`. -/
def modifyFdEpoll (k : Kernel) (fd : Fd) (events : Nat) (fault : Option Errno) :
    Except Errno Kernel :=
  match fault with
  | some code => .error code
  | none =>
    if fd ∉ k.fds then .error EBADF
    else if fd ∈ k.poll then .ok { k with poll := k.poll.insert fd events }
    else .error ENOENT

/-- `epoll_ctl( EPOLL_CTL_DEL )`, whose result no caller looks at. -/
def delFdFromEpoll (k : Kernel) (fd : Fd) : Kernel :=
  { k with poll := k.poll.erase fd }

@[simp]
theorem delFdFromEpoll_fds (k : Kernel) (fd : Fd) : (k.delFdFromEpoll fd).fds = k.fds := rfl

@[simp]
theorem openFd_fds (k : Kernel) (owner : Owner) (fd : Fd) :
    (k.openFd owner fd).fds = k.fds.insert fd owner := rfl

@[simp]
theorem openFd_log (k : Kernel) (owner : Owner) (fd : Fd) :
    (k.openFd owner fd).log = .opened owner fd :: k.log := rfl

@[simp]
theorem close_fds (k : Kernel) (closer : Closer) (fd : Fd) :
    (k.close closer fd).fds = k.fds.erase fd := rfl

@[simp]
theorem close_log (k : Kernel) (closer : Closer) (fd : Fd) :
    (k.close closer fd).log = .closed closer fd k.fds[fd]? :: k.log := rfl

/-- Adding to the poll set leaves descriptors and history alone. -/
theorem addFdToEpoll_ok {k k' : Kernel} {fd : Fd} {events : Nat} {fault : Option Errno}
    (h : k.addFdToEpoll fd events fault = .ok k') :
    fault = none ∧ fd ∈ k.fds ∧ fd ∉ k.poll ∧
      k' = { k with poll := k.poll.insert fd events } := by
  unfold addFdToEpoll at h
  split at h
  · cases h
  · split at h
    · cases h
    · split at h
      · cases h
      · refine ⟨rfl, by simp_all, by simp_all, ?_⟩
        simpa using h.symm

theorem modifyFdEpoll_ok {k k' : Kernel} {fd : Fd} {events : Nat} {fault : Option Errno}
    (h : k.modifyFdEpoll fd events fault = .ok k') :
    fault = none ∧ fd ∈ k.fds ∧ fd ∈ k.poll ∧
      k' = { k with poll := k.poll.insert fd events } := by
  unfold modifyFdEpoll at h
  split at h
  · cases h
  · split at h
    · cases h
    · split at h
      · refine ⟨rfl, by simp_all, by simp_all, ?_⟩
        simpa using h.symm
      · cases h

end Kernel

end FerroRemote.Agent

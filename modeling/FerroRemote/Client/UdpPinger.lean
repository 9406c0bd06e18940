/-
# Pings, one after the other

A pinger has one socket, one timer, one buffer and one handler for all its pings. What has
been begun for a ping is ended by the library later: an operation of a socket that is
closed completes with an error, and a wait of the timer that is over may be queued. The
handler that is called then is the one of the last ping.
-/

import Mathlib.Data.List.Infix
import FerroRemote.Math.Machine

namespace FerroRemote.Client

/-- `async_send_to` and `async_receive_from`. -/
inductive PingOp
  | send
  | receive
  deriving DecidableEq, Repr

/-- How an operation has ended. A datagram that is received is in the buffer. -/
inductive PingResult (D : Type)
  | failed
  | sent
  | received (d : D)
  deriving DecidableEq, Repr

/-- What has happened, for a ping each. Handlers and sockets have the numbers of their
pings. -/
inductive PingNote (D : Type)
  /-- A datagram arrives at a socket. -/
  | arrived (sock : Nat) (d : D)
  /-- `handler_( err, &inf )` for a receive of a ping. -/
  | replied (handler ping : Nat) (d : Option D)
  /-- `handler_( err, NULL )` for an operation of a ping. -/
  | failed (handler ping : Nat)
  /-- What the handler says to a reply. -/
  | answered (handler : Nat) (more : Bool)
  /-- The timer of a ping closes a socket. -/
  | closed (sock ping : Nat)
  deriving DecidableEq, Repr

/-- `sender`. A datagram has the address it is from with it: `buffer` is `data_` and `from_`,
and is none when `from_` is reset. -/
structure Pinger (D : Type) where
  /-- Somebody holds the pinger. -/
  alive : Bool := true
  /-- The ping that `handler_` is from. -/
  current : Nat := 0
  /-- The ping that has opened the socket. -/
  socket : Option Nat := none
  /-- What the socket has received. -/
  inbox : List D := []
  buffer : Option D := none
  /-- Operations on the socket. -/
  pending : List (PingOp × Nat) := []
  /-- Completions that are to be run. -/
  queue : List (PingResult D × Nat) := []
  /-- The wait of `timeout_`. -/
  armed : Option Nat := none
  /-- Waits that are over. -/
  waits : List Nat := []
  /-- Calls of `handler_` with a reply that have not come back, with the ping of the
  receive. -/
  calls : List (Nat × Nat) := []
  log : List (PingNote D) := []

/-- How `async_ping` goes, with a local address or without. -/
inductive PingStart
  /-- The address is no endpoint. -/
  | invalid
  /-- It is none of a host, or the socket cannot be opened. -/
  | notOpened
  /-- The socket is open, and the local address is bad. -/
  | badLocal
  /-- `bind` fails. -/
  | notBound
  | sends

inductive PingEvent (D : Type)
  | asyncPing (start : PingStart)
  | stop
  /-- The last owner goes. -/
  | drop
  | arrive (d : D)
  /-- An operation ends, well or with an error. -/
  | finish (i : Nat) (ok : Bool)
  /-- The completion is run. -/
  | run (i : Nat)
  | expire
  | timeout (i : Nat)
  /-- A handler comes back. -/
  | answer (i : Nat) (more : Bool)

namespace Pinger

variable {D : Type} (s : Pinger D)

def note (n : PingNote D) : Pinger D := { s with log := s.log ++ [n] }

/-- `socket_.close( )`. -/
def close : Pinger D :=
  { s with
    socket := none
    inbox := []
    pending := []
    queue := s.queue ++ s.pending.map fun op => (.failed, op.2) }

/-- `handle_send` without an error. A receive on a socket that is closed has its completion
at once. -/
def listen (ping : Nat) : Pinger D :=
  let s := { s with buffer := none, armed := some ping }
  match s.socket with
  | none => { s with queue := s.queue ++ [(.failed, ping)] }
  | some _ => { s with pending := s.pending ++ [(.receive, ping)] }

/-- `handle_send` and `handle_recv`. -/
def complete (ping : Nat) : PingResult D → Pinger D
  | .failed => s.note (.failed s.current ping)
  | .sent => s.listen ping
  | .received _ =>
    let s' := s.note (.replied s.current ping s.buffer)
    { s' with calls := s'.calls ++ [(s.current, ping)] }

/-- `async_ping` from where `handler_` is set. -/
def startPing (start : PingStart) : Pinger D :=
  let ping := s.current + 1
  let s := { s with current := ping }
  let opened := { s with socket := some ping, inbox := [] }
  match start with
  | .invalid => s
  | .notOpened => s
  | .badLocal => opened
  | .notBound => opened.note (.failed ping ping)
  | .sends => { opened with pending := opened.pending ++ [(.send, ping)] }

def asyncPing (start : PingStart) : Pinger D :=
  let s := if s.socket.isSome then s.close else s
  match start with
  | .invalid => s
  | start => s.startPing start

/-- An operation ends. A receive that ends well has taken a datagram. -/
def finish (op : PingOp × Nat) (ok : Bool) : Option (Pinger D) :=
  match ok, op.1, s.inbox with
  | false, _, _ => some { s with queue := s.queue ++ [(.failed, op.2)] }
  | true, .send, _ => some { s with queue := s.queue ++ [(.sent, op.2)] }
  | true, .receive, d :: inbox =>
    some { s with inbox := inbox, buffer := some d, queue := s.queue ++ [(.received d, op.2)] }
  | true, .receive, [] => none

/-- `handle_timeout` without an error. -/
def timedOut (ping : Nat) : Pinger D :=
  match s.socket with
  | none => s
  | some sock => (s.note (.closed sock ping)).close

end Pinger

/-- A pinger and the library. A completion is for nothing when the pinger is gone. -/
def pingMachine (D : Type) : Machine (Pinger D) (PingEvent D) where
  init := {}
  step s
    | .asyncPing start => if s.alive then some (s.asyncPing start) else none
    | .stop => if s.alive then some s.close else none
    | .drop => if s.alive ∧ s.calls = [] then some { s.close with alive := false } else none
    | .arrive d => s.socket.map fun sock =>
        { s.note (.arrived sock d) with inbox := s.inbox ++ [d] }
    | .finish i ok => s.pending[i]?.bind fun op =>
        Pinger.finish { s with pending := s.pending.eraseIdx i } op ok
    | .run i => s.queue[i]?.map fun c =>
        let s := { s with queue := s.queue.eraseIdx i }
        if s.alive then s.complete c.2 c.1 else s
    | .expire => s.armed.map fun ping => { s with armed := none, waits := s.waits ++ [ping] }
    | .timeout i => s.waits[i]?.map fun ping =>
        let s := { s with waits := s.waits.eraseIdx i }
        if s.alive then s.timedOut ping else s
    | .answer i more => s.calls[i]?.map fun call =>
        let s := { s.note (.answered call.1 more) with calls := s.calls.eraseIdx i }
        if more then s.listen call.2 else s

namespace PingNote

variable {D : Type}

def Own : PingNote D → Prop
  | replied handler ping _ => handler = ping
  | failed handler ping => handler = ping
  | closed sock ping => sock = ping
  | _ => True

def called : PingNote D → Option Nat
  | replied handler _ _ => some handler
  | failed handler _ => some handler
  | _ => none

def arrivedAt (sock : Nat) : PingNote D → Option D
  | arrived sock' d => if sock' = sock then some d else none
  | _ => none

def replyTo (handler : Nat) : PingNote D → Option (Option D)
  | replied handler' _ d => if handler' = handler then some d else none
  | _ => none

/-- A handler that has heard of an error, or does not want to hear more. -/
def Ends (handler : Nat) : PingNote D → Prop
  | failed handler' _ => handler' = handler
  | answered handler' more => handler' = handler ∧ more = false
  | _ => False

end PingNote

def repliesTo {D : Type} (k : Nat) (log : List (PingNote D)) : List (Option D) :=
  log.filterMap (PingNote.replyTo k)

def arrivalsAt {D : Type} (k : Nat) (log : List (PingNote D)) : List (Option D) :=
  (log.filterMap (PingNote.arrivedAt k)).map some

/-- The completions and the timer of a ping call its own handler and close its own socket;
the replies to a handler are what has arrived at its socket, in order; and it is not called
any more when it has said so, or has been told of an error. -/
structure Undisturbed {D : Type} (log : List (PingNote D)) : Prop where
  own : ∀ n ∈ log, n.Own
  order : ∀ k, repliesTo k log <+: arrivalsAt k log
  ended : ∀ i n k, log[i]? = some n → n.called = some k → ∀ m ∈ log.take i, ¬ m.Ends k

structure Pinger.Idle {D : Type} (s : Pinger D) : Prop where
  pending : s.pending = []
  queue : s.queue = []
  armed : s.armed = none
  waits : s.waits = []
  calls : s.calls = []

/-- A ping that is begun finds nothing left of earlier ones. -/
def Separate {D : Type} (s : Pinger D) : PingEvent D → Prop
  | .asyncPing .invalid => True
  | .asyncPing _ => s.Idle
  | _ => True

namespace PingNote

variable {D : Type} {n : PingNote D} {k : Nat}

/-- The ping whose handler or socket it is. -/
def about : PingNote D → Nat
  | arrived sock _ => sock
  | replied handler _ _ => handler
  | failed handler _ => handler
  | answered handler _ => handler
  | closed sock _ => sock

theorem replyTo_of_about_ne (hne : n.about ≠ k) : n.replyTo k = none := by
  cases n with
  | replied handler ping d => exact if_neg hne
  | arrived sock d => rfl
  | failed handler ping => rfl
  | answered handler more => rfl
  | closed sock ping => rfl

theorem arrivedAt_of_about_ne (hne : n.about ≠ k) : n.arrivedAt k = none := by
  cases n with
  | arrived sock d => exact if_neg hne
  | replied handler ping d => rfl
  | failed handler ping => rfl
  | answered handler more => rfl
  | closed sock ping => rfl

theorem not_ends_of_about_ne (hne : n.about ≠ k) : ¬ n.Ends k := by
  intro hends
  cases n with
  | failed handler ping => exact hne hends
  | answered handler more => exact hne hends.1
  | arrived sock d => exact hends
  | replied handler ping d => exact hends
  | closed sock ping => exact hends

end PingNote

section Logs

variable {D : Type} {log : List (PingNote D)} {n : PingNote D}

theorem repliesTo_append (k : Nat) (log : List (PingNote D)) (n : PingNote D) :
    repliesTo k (log ++ [n]) = repliesTo k log ++ (n.replyTo k).toList := by
  rw [repliesTo, List.filterMap_append]
  cases hn : n.replyTo k <;> simp [repliesTo, hn]

theorem arrivalsAt_append (k : Nat) (log : List (PingNote D)) (n : PingNote D) :
    arrivalsAt k (log ++ [n]) = arrivalsAt k log ++ ((n.arrivedAt k).map some).toList := by
  rw [arrivalsAt, List.filterMap_append]
  cases hn : n.arrivedAt k <;> simp [arrivalsAt, hn]

theorem forall_mem_concat {α : Type} {p : α → Prop} {as : List α} {a : α} (has : ∀ b ∈ as, p b)
    (ha : p a) : ∀ b ∈ as ++ [a], p b :=
  List.forall_mem_append.mpr ⟨has, List.forall_mem_singleton.mpr ha⟩

theorem Undisturbed.append (hlog : Undisturbed log) (hown : n.Own)
    (horder : ∀ k, repliesTo k (log ++ [n]) <+: arrivalsAt k (log ++ [n]))
    (hended : ∀ k, n.called = some k → ∀ m ∈ log, ¬ m.Ends k) : Undisturbed (log ++ [n]) where
  own := forall_mem_concat hlog.own hown
  order := horder
  ended := by
    intro i m k hi hcalled
    by_cases hlt : i < log.length
    · rw [List.getElem?_append_left hlt] at hi
      rw [List.take_append_of_le_length (Nat.le_of_lt hlt)]
      exact hlog.ended i m k hi hcalled
    · have hle := Nat.le_of_not_lt hlt
      rw [List.getElem?_append_right hle, List.getElem?_singleton] at hi
      split at hi
      next hzero =>
        cases hi
        have hi : i = log.length := by omega
        rw [hi, List.take_left]
        exact hended k hcalled
      next => cases hi

theorem Undisturbed.order_append (hlog : Undisturbed log) (hreply : ∀ k, n.replyTo k = none)
    (k : Nat) : repliesTo k (log ++ [n]) <+: arrivalsAt k (log ++ [n]) := by
  rw [repliesTo_append, arrivalsAt_append, hreply k, Option.toList_none, List.append_nil]
  exact (hlog.order k).trans (List.prefix_append _ _)

end Logs

end FerroRemote.Client

/-
# Events that overtake their own subscription

A client subscribes to an object of the agent's by a call over the network. The
agent draws or reuses an operation id, arms the object, and only then answers; the
client's I/O thread takes the answer off the wire, and the calling thread, when
it gets to run, installs the callback under the id it was told. From the moment
the object is armed the agent may send events for the id, and they travel behind
or ahead of the answer on the same channel.

Both directions are reliable and ordered. Any number of calls, for files and
pins alike, may be in progress at once, and an object may be unsubscribed at any
time. A call that fails on the agent may still have armed the object, because
`add_fd` replaces the callback of a known descriptor before it can fail.
-/

import FerroRemote.Math.Machine
import FerroRemote.Client.AsyncOps

namespace FerroRemote.Client

/-- What a client subscribes to, by the handle it has for it. -/
inductive Subject
  | file (hdl : Nat)
  | gpio (hdl : Nat)
  deriving DecidableEq, Repr

/-- A request on its way to the agent; a subscription carries the number of the
call that waits for the answer. -/
inductive Request
  | register (call : Nat) (subject : Subject)
  | unregister (subject : Subject)
  deriving DecidableEq, Repr

/-- What the agent sends; `none` answers a call with an error. The number of the
call that armed the object stands beside an event as history. -/
inductive Reply
  | answer (call : Nat) (id : Option Nat)
  | event (call : Nat) (m : AsyncOp)
  deriving DecidableEq, Repr

/-- How far a call of `register_for_events` or `register_for_change` has got. -/
inductive Progress
  /-- The request is on its way, or the agent is working on it. -/
  | waiting
  /-- The answer has arrived and the caller has not run yet. -/
  | answered (id : Option Nat)
  /-- The callback is installed under the id. -/
  | installed (id : Nat)
  /-- The call has thrown. -/
  | failed
  deriving DecidableEq, Repr

/-- What became of an event the client has processed. -/
structure Outcome where
  call : Nat
  message : AsyncOp
  /-- The callback invoked, by the number of the call that installed it. -/
  callback : Option Nat
  /-- The object had not been unsubscribed. -/
  live : Bool
  deriving DecidableEq, Repr

/-- Client, agent and the two channels between them. -/
structure RaceState where
  /-- The agent's counter behind `next_op_id`. -/
  opId : Nat := 100
  /-- The armed objects: the call that armed it and the id its events carry. -/
  armed : List (Subject × Nat × Nat) := []
  /-- Answers the agent has not sent yet. -/
  answers : List (Nat × Option Nat) := []
  requests : List Request := []
  replies : List Reply := []
  /-- The calls made so far, in order. -/
  calls : List (Subject × Progress) := []
  asyncOps : AsyncOps Nat := {}
  /-- The calls that have installed their callbacks and the ids, the last one first. -/
  installs : List (Nat × Nat) := []
  /-- Calls whose object the client has unsubscribed. -/
  ended : List Nat := []
  /-- Every event sent, oldest first. -/
  sent : List AsyncOp := []
  /-- Every event processed, oldest first. -/
  outcomes : List Outcome := []

/-- The result of `add_fd` or `add_reactor_action` on the agent. -/
inductive Arming
  | ok
  | failed (armed : Bool)
  deriving DecidableEq, Repr

/-- One step of one of the four parties. -/
inductive RaceAction
  /-- A client thread calls `register_for_events` or `register_for_change`. -/
  | register (subject : Subject)
  /-- A client thread calls `unregister`. -/
  | unregister (subject : Subject)
  /-- An RPC thread of the agent handles the next request, up to its answer. -/
  | serve (arming : Arming)
  /-- An RPC thread of the agent sends an answer. -/
  | respond (n : Nat)
  /-- The agent sends an event of an armed object. -/
  | event (n : Nat) (error : Option ErrorData) (data : Option (List UInt8)) (tick : Nat)
  /-- The client's I/O thread processes the next message. -/
  | receive
  /-- A caller whose answer has arrived runs on. -/
  | resume (call : Nat)

namespace RaceState

/-- The id that events of the subject carry: a file draws a fresh one, a pin
uses its handle. -/
def asyncOpId (s : RaceState) : Subject → Nat × RaceState
  | .file _ =>
    let op := (s.opId + 1) % UInt64.size
    (AsyncOp.idField op, { s with opId := op })
  | .gpio hdl => (AsyncOp.idField hdl, s)

def arm (s : RaceState) (subject : Subject) (call id : Nat) : RaceState :=
  { s with armed := (subject, call, id) :: s.armed.filter fun entry => entry.1 ≠ subject }

/-- The agent's side of a request. -/
def serve (s : RaceState) (request : Request) (arming : Arming) : RaceState :=
  match request with
  | .unregister subject => { s with armed := s.armed.filter fun entry => entry.1 ≠ subject }
  | .register call subject =>
    let (id, s) := s.asyncOpId subject
    match arming with
    | .ok => { s.arm subject call id with answers := s.answers ++ [(call, some id)] }
    | .failed true => { s.arm subject call id with answers := s.answers ++ [(call, none)] }
    | .failed false => { s with answers := s.answers ++ [(call, none)] }

def advance (s : RaceState) (call : Nat) (progress : Progress) : RaceState :=
  { s with calls := s.calls.modify call fun entry => (entry.1, progress) }

/-- The client's I/O thread handles a message. -/
def receive (s : RaceState) : Reply → RaceState
  | .answer call id =>
    match s.calls[call]? with
    | some (_, .waiting) => s.advance call (.answered id)
    | _ => s
  | .event call m =>
    { s with outcomes := s.outcomes ++ [⟨call, m, s.asyncOps.asyncOp m, call ∉ s.ended⟩] }

def callsOn (s : RaceState) (subject : Subject) : List Nat :=
  (List.range s.calls.length).filter fun call => s.calls[call]?.map (·.1) = some subject

def step (s : RaceState) : RaceAction → Option RaceState
  | .register subject =>
    some { s with
      requests := s.requests ++ [.register s.calls.length subject]
      calls := s.calls ++ [(subject, .waiting)] }
  | .unregister subject =>
    some { s with
      requests := s.requests ++ [.unregister subject]
      ended := s.callsOn subject ++ s.ended }
  | .serve arming =>
    match s.requests with
    | [] => none
    | request :: rest => some { s.serve request arming with requests := rest }
  | .respond n =>
    s.answers[n]?.map fun (call, id) =>
      { s with answers := s.answers.eraseIdx n, replies := s.replies ++ [.answer call id] }
  | .event n error data tick =>
    s.armed[n]?.map fun (_, call, id) =>
      let m : AsyncOp := { id := id, error := error, data := data, tickCount := tick }
      { s with replies := s.replies ++ [.event call m], sent := s.sent ++ [m] }
  | .receive =>
    match s.replies with
    | [] => none
    | reply :: rest => some { s.receive reply with replies := rest }
  | .resume call =>
    match s.calls[call]? with
    | some (_, .answered (some id)) =>
      some { s.advance call (.installed id) with
        asyncOps := s.asyncOps.registerAsyncOp id call
        installs := (call, id) :: s.installs }
    | some (_, .answered none) => some (s.advance call .failed)
    | _ => none

end RaceState

/-- One client, one agent, and nothing in flight. -/
def subscriptionRace : Machine RaceState RaceAction where
  init := {}
  step := RaceState.step

namespace RaceState

/-- The events on their way to the client. -/
def inFlight (replies : List Reply) : List AsyncOp :=
  replies.filterMap fun
    | .event _ m => some m
    | .answer .. => none

/-- The call has installed its callback under the id, and no other call has after it. -/
def LastInstalled (s : RaceState) (call id : Nat) : Prop :=
  ∃ later before, s.installs = later ++ (call, id) :: before ∧ ∀ entry ∈ later, entry.2 ≠ id

/-- Every event sent is on its way or has been processed, once and in order, and
every processed event of an object still subscribed has reached the callback of the
call that subscribed to it. -/
structure NoneLost (s : RaceState) : Prop where
  accounted : s.sent = s.outcomes.map (·.message) ++ inFlight s.replies
  delivered : ∀ o ∈ s.outcomes, o.live = true → o.callback = some o.call

/-- The client only processes an event of an object still subscribed when the call it
belongs to is the last one that has installed its callback under the id. -/
def InstalledFirst (s : RaceState) : RaceAction → Prop
  | .receive => ∀ call m rest, s.replies = .event call m :: rest → call ∉ s.ended →
      s.LastInstalled call m.id
  | _ => True

/-- The table has the callback that was installed last under each id. -/
def Listed (s : RaceState) : Prop :=
  ∀ id : Nat, s.asyncOps.acb[id]? = (s.installs.find? fun entry => entry.2 = id).map (·.1)

variable {s s' : RaceState} {a : RaceAction}

theorem Listed.lookup_iff (hlisted : s.Listed) (call id : Nat) :
    s.asyncOps.acb[id]? = some call ↔ s.LastInstalled call id := by
  have hfound : s.asyncOps.acb[id]? = some call ↔
      (s.installs.find? fun entry => entry.2 = id) = some (call, id) := by
    rw [hlisted id, Option.map_eq_some_iff]
    constructor
    · rintro ⟨⟨other, id'⟩, hfind, rfl⟩
      have hpred := List.find?_some hfind
      have hid : id' = id := of_decide_eq_true hpred
      rw [hfind, hid]
    · intro hfind
      exact ⟨(call, id), hfind, rfl⟩
  rw [hfound, List.find?_eq_some_iff_append, LastInstalled]
  simp

theorem serve_client (s : RaceState) (request : Request) (arming : Arming) :
    (s.serve request arming).asyncOps = s.asyncOps ∧
      (s.serve request arming).installs = s.installs ∧
      (s.serve request arming).sent = s.sent ∧
      (s.serve request arming).outcomes = s.outcomes ∧
      (s.serve request arming).replies = s.replies := by
  cases request with
  | unregister subject => exact ⟨rfl, rfl, rfl, rfl, rfl⟩
  | register call subject =>
      cases subject <;> cases arming with
      | ok => exact ⟨rfl, rfl, rfl, rfl, rfl⟩
      | failed armed => cases armed <;> exact ⟨rfl, rfl, rfl, rfl, rfl⟩

/-- Only a call that runs on changes the table and its history. -/
theorem installs_step (hstep : s.step a = some s') :
    (s'.asyncOps = s.asyncOps ∧ s'.installs = s.installs) ∨
      ∃ call id, s'.asyncOps = s.asyncOps.registerAsyncOp id call ∧
        s'.installs = (call, id) :: s.installs := by
  cases a with
  | register subject | unregister subject =>
      cases hstep
      exact .inl ⟨rfl, rfl⟩
  | serve arming =>
      rw [step] at hstep
      split at hstep
      · cases hstep
      · next request rest _ =>
          cases hstep
          rcases s.serve_client request arming with ⟨hops, hinstalls, -⟩
          exact .inl ⟨hops, hinstalls⟩
  | respond n =>
      rcases Option.map_eq_some_iff.mp hstep with ⟨⟨call, id⟩, -, rfl⟩
      exact .inl ⟨rfl, rfl⟩
  | event n error data tick =>
      rcases Option.map_eq_some_iff.mp hstep with ⟨⟨subject, call, id⟩, -, rfl⟩
      exact .inl ⟨rfl, rfl⟩
  | receive =>
      rw [step] at hstep
      split at hstep
      · cases hstep
      · next reply rest _ =>
          cases hstep
          cases reply with
          | event call m => exact .inl ⟨rfl, rfl⟩
          | answer call id =>
              simp only [receive]
              split <;> exact .inl ⟨rfl, rfl⟩
  | resume call =>
      rw [step] at hstep
      split at hstep
      · next subject id _ =>
          cases hstep
          exact .inr ⟨call, id, rfl, rfl⟩
      · cases hstep
        exact .inl ⟨rfl, rfl⟩
      · cases hstep

theorem Listed.step (hlisted : s.Listed) (hstep : s.step a = some s') : s'.Listed := by
  intro id
  rcases installs_step hstep with ⟨hops, hinstalls⟩ | ⟨call, id', hops, hinstalls⟩
  · rw [hops, hinstalls]
    exact hlisted id
  · rw [hops, hinstalls, AsyncOps.acb_registerAsyncOp, List.find?_cons]
    by_cases heq : id' = id
    · rw [if_pos heq, decide_eq_true heq]
      rfl
    · rw [if_neg heq, decide_eq_false heq]
      exact hlisted id

theorem inFlight_append (replies replies' : List Reply) :
    inFlight (replies ++ replies') = inFlight replies ++ inFlight replies' :=
  List.filterMap_append

/-- **The channel, step by step.** Only receiving an event adds an outcome. -/
theorem outcomes_step (hstep : s.step a = some s')
    (haccounted : s.sent = s.outcomes.map (·.message) ++ inFlight s.replies) :
    s'.sent = s'.outcomes.map (·.message) ++ inFlight s'.replies ∧
      (s'.outcomes = s.outcomes ∨
        ∃ call m rest, a = .receive ∧ s.replies = .event call m :: rest ∧
          s' = { s with
            replies := rest
            outcomes := s.outcomes ++ [⟨call, m, s.asyncOps.asyncOp m, call ∉ s.ended⟩] }) := by
  cases a with
  | register subject | unregister subject =>
      cases hstep
      exact ⟨haccounted, .inl rfl⟩
  | serve arming =>
      rw [step] at hstep
      split at hstep
      · cases hstep
      · next request rest _ =>
          cases hstep
          obtain ⟨-, -, hsent, houtcomes, hreplies⟩ := s.serve_client request arming
          refine ⟨?_, .inl houtcomes⟩
          show (s.serve request arming).sent = _
          rw [hsent, houtcomes, hreplies]
          exact haccounted
  | respond n =>
      obtain ⟨⟨call, id⟩, -, rfl⟩ := Option.map_eq_some_iff.mp hstep
      refine ⟨?_, .inl rfl⟩
      show s.sent = _ ++ inFlight (s.replies ++ [.answer call id])
      rw [inFlight_append, haccounted]
      simp [inFlight]
  | event n error data tick =>
      obtain ⟨⟨subject, call, id⟩, -, rfl⟩ := Option.map_eq_some_iff.mp hstep
      refine ⟨?_, .inl rfl⟩
      simp only [inFlight_append, haccounted, List.append_assoc]
      simp [inFlight]
  | receive =>
      rw [step] at hstep
      split at hstep
      · cases hstep
      · next reply rest hreplies =>
          cases hstep
          rw [hreplies] at haccounted
          cases reply with
          | event call m =>
              refine ⟨?_, .inr ⟨call, m, rest, rfl, hreplies, rfl⟩⟩
              show s.sent = _
              rw [haccounted]
              simp [receive, inFlight]
          | answer call id =>
              simp only [receive]
              split
              · exact ⟨haccounted, .inl rfl⟩
              · exact ⟨haccounted, .inl rfl⟩
  | resume call =>
      rw [step] at hstep
      split at hstep
      · cases hstep
        exact ⟨haccounted, .inl rfl⟩
      · cases hstep
        exact ⟨haccounted, .inl rfl⟩
      · cases hstep

/-- The table is right, and nothing was lost. -/
structure Consistent (s : RaceState) : Prop where
  noneLost : s.NoneLost
  listed : s.Listed

theorem consistent_init : Consistent {} where
  noneLost := ⟨rfl, by simp⟩
  listed := by simp [Listed]

theorem consistent_step (hs : s.Consistent) (hfirst : s.InstalledFirst a)
    (hstep : s.step a = some s') : s'.Consistent := by
  rcases outcomes_step hstep hs.noneLost.accounted with ⟨haccounted, houtcomes⟩
  refine ⟨⟨haccounted, ?_⟩, hs.listed.step hstep⟩
  rcases houtcomes with hsame | ⟨call, m, rest, rfl, hreplies, rfl⟩
  · rw [hsame]
    exact hs.noneLost.delivered
  · intro o ho hlive
    rcases List.mem_append.mp ho with ho | ho
    · exact hs.noneLost.delivered o ho hlive
    · rw [List.mem_singleton] at ho
      subst ho
      have hlast := hfirst call m rest hreplies (of_decide_eq_true hlive)
      exact (hs.listed.lookup_iff call m.id).mpr hlast

/-- An event that reaches the callback of its call finds it installed last. -/
theorem installedFirst_of_noneLost (hs : s.Consistent) (hstep : s.step a = some s')
    (hnone : s'.NoneLost) : s.InstalledFirst a := by
  cases a with
  | receive =>
      intro call m rest hreplies hlive
      rw [step, hreplies] at hstep
      cases hstep
      have hnew : ⟨call, m, s.asyncOps.asyncOp m, true⟩ ∈
          (s.receive (.event call m)).outcomes := by simp [receive, hlive]
      exact (hs.listed.lookup_iff call m.id).mp (hnone.delivered _ hnew rfl)
  | register | unregister | serve | respond | event | resume => trivial

end RaceState

/-- **Subscribing without losing events, exactly.** In every state of a run all
events sent are on their way or have reached the callback of the call they belong to,
once and in order, if and only if the client processes no event of an object still
subscribed unless that call is the last that has installed its callback under the id. -/
theorem noneLost_iff_installedFirst (as : List RaceAction) :
    subscriptionRace.Along RaceState.NoneLost as ↔
      subscriptionRace.Meets RaceState.InstalledFirst as := by
  apply Machine.along_iff_meets RaceState.consistent_init
  · intro s a s' hs hfirst hstep
    exact RaceState.consistent_step hs hfirst hstep
  · intro s hs
    exact hs.noneLost
  · intro s a s' hs hstep hnone
    exact RaceState.installedFirst_of_noneLost hs hstep hnone

/-- The answer and an event are both processed before the caller runs on: the event finds
no callback, or, of a pin that was subscribed before, the one that was given up. -/
theorem event_lost_before_resume :
    ¬ subscriptionRace.Along RaceState.NoneLost
        [.register (.file 7), .serve .ok, .respond 0, .event 0 none (some [1]) 5, .receive,
          .receive] ∧
      ¬ subscriptionRace.Along RaceState.NoneLost
        [.register (.gpio 7), .serve .ok, .respond 0, .receive, .resume 0, .unregister (.gpio 7),
          .serve .ok, .register (.gpio 7), .serve .ok, .respond 0, .event 0 none (some [1]) 5,
          .receive, .receive] := by
  constructor
  · apply Machine.not_along_of_run rfl
    intro hnone
    have hcallback := hnone.delivered ⟨0, ⟨101, none, some [1], 5⟩, none, true⟩ (by decide) rfl
    cases hcallback
  · apply Machine.not_along_of_run rfl
    intro hnone
    have hcallback := hnone.delivered ⟨1, ⟨7, none, some [1], 5⟩, some 0, true⟩
      (by decide +kernel) rfl
    cases hcallback

end FerroRemote.Client

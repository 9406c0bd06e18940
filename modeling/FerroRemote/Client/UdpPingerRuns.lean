/-
# Runs of a pinger

When every ping is begun with nothing left of the earlier ones, all that is going on is of the
last ping, and pings do not disturb each other. When something is left, it may be told to the
handler of the next ping, or close its socket.
-/

import FerroRemote.Client.UdpPinger

namespace FerroRemote.Client

section Tidy

variable {D : Type}

/-- A ping has one thing going on at most: an operation, a completion, or a handler that has
been given a reply. -/
inductive Chain (k : Nat) :
    List (PingOp × Nat) → List (PingResult D × Nat) → List (Nat × Nat) → Prop
  | idle : Chain k [] [] []
  | operation (op : PingOp) : Chain k [(op, k)] [] []
  | completion (r : PingResult D) : Chain k [] [(r, k)] []
  | call : Chain k [] [] [(k, k)]

/-- The replies that wait in the queue. -/
def queued (queue : List (PingResult D × Nat)) : List (Option D) :=
  queue.filterMap fun c =>
    match c.1 with
    | .received d => some (some d)
    | _ => none

/-- Everything that is going on is of the last ping. -/
structure Tidy (s : Pinger D) : Prop where
  chain : Chain s.current s.pending s.queue s.calls
  socket : ∀ sock, s.socket = some sock → sock = s.current
  armed : ∀ k, s.armed = some k → k = s.current
  waits : ∀ k ∈ s.waits, k = s.current
  fresh : ∀ n ∈ s.log, n.about ≤ s.current
  running : s.pending ≠ [] ∨ s.queue ≠ [] ∨ s.calls ≠ [] → ∀ n ∈ s.log, ¬ n.Ends s.current
  buffer : ∀ d k, (.received d, k) ∈ s.queue → s.buffer = some d
  taken : repliesTo s.current s.log ++ queued s.queue <+: arrivalsAt s.current s.log
  inbox : s.socket ≠ none →
    repliesTo s.current s.log ++ queued s.queue ++ s.inbox.map some = arrivalsAt s.current s.log
  closed : s.socket = none → s.inbox = []
  gone : s.alive = false → s.socket = none
  log : Undisturbed s.log

theorem not_running {pending : List (PingOp × Nat)} {queue : List (PingResult D × Nat)}
    {calls : List (Nat × Nat)} (hpending : pending = []) (hqueue : queue = [])
    (hcalls : calls = []) : ¬ (pending ≠ [] ∨ queue ≠ [] ∨ calls ≠ []) := by
  rintro (h | h | h)
  · exact h hpending
  · exact h hqueue
  · exact h hcalls

theorem tidy_init : Tidy ({} : Pinger D) where
  chain := .idle
  socket := fun _ hsock => nomatch hsock
  armed := fun _ harmed => nomatch harmed
  waits := fun _ hk => absurd hk List.not_mem_nil
  fresh := fun _ hn => absurd hn List.not_mem_nil
  running := fun hsome => absurd hsome (not_running rfl rfl rfl)
  buffer := fun _ _ hd => absurd hd List.not_mem_nil
  taken := List.prefix_refl _
  inbox := fun hsock => absurd rfl hsock
  closed := fun _ => rfl
  gone := fun _ => rfl
  log := ⟨fun _ hn => absurd hn List.not_mem_nil, fun _ => List.prefix_refl _,
    fun _ _ _ hi => nomatch hi⟩

variable {s : Pinger D}

theorem Chain.closed {k : Nat} {pending : List (PingOp × Nat)}
    {queue : List (PingResult D × Nat)} {calls : List (Nat × Nat)}
    (hchain : Chain k pending queue calls) :
    Chain k [] (queue ++ pending.map fun op => (.failed, op.2)) calls := by
  cases hchain with
  | idle => exact .idle
  | operation op => exact .completion .failed
  | completion r => exact .completion r
  | call => exact .call

theorem queued_append_failed (queue : List (PingResult D × Nat))
    (pending : List (PingOp × Nat)) :
    queued (queue ++ pending.map fun op => (.failed, op.2)) = queued queue := by
  have hnone : queued (pending.map fun op => ((.failed : PingResult D), op.2)) = [] := by
    rw [queued, List.filterMap_map, List.filterMap_eq_nil_iff]
    intro op _
    rfl
  rw [queued, List.filterMap_append]
  exact (congrArg (queued queue ++ ·) hnone).trans (List.append_nil _)

theorem Tidy.close (htidy : Tidy s) : Tidy s.close :=
  { htidy with
    chain := htidy.chain.closed
    socket := fun _ hsock => nomatch hsock
    running := by
      intro hsome
      apply htidy.running
      rcases hsome with hpending | hqueue | hcalls
      · exact absurd rfl hpending
      · by_cases hnil : s.queue = []
        · left
          intro hpending
          apply hqueue
          change s.queue ++ s.pending.map _ = []
          rw [hnil, hpending]
          rfl
        · exact .inr (.inl hnil)
      · exact .inr (.inr hcalls)
    buffer := by
      intro d k hd
      rcases List.mem_append.mp hd with hold | hnew
      · exact htidy.buffer d k hold
      · obtain ⟨op, -, hop⟩ := List.mem_map.mp hnew
        cases hop
    taken := by
      change repliesTo s.current s.log ++ queued (s.queue ++ s.pending.map _) <+: _
      rw [queued_append_failed]
      exact htidy.taken
    inbox := fun hsock => absurd rfl hsock
    closed := fun _ => rfl
    gone := fun _ => rfl }

theorem Tidy.rest (htidy : Tidy s) (hqueued : queued s.queue = [] ∨ s.socket = none) :
    Tidy { s with pending := [], queue := [], calls := [] } :=
  { htidy with
    chain := .idle
    running := fun hsome => absurd hsome (not_running rfl rfl rfl)
    buffer := fun _ _ hd => absurd hd List.not_mem_nil
    taken := by
      change repliesTo s.current s.log ++ [] <+: _
      rw [List.append_nil]
      exact (List.prefix_append _ _).trans htidy.taken
    inbox := by
      intro hsock
      have hnil := hqueued.resolve_right hsock
      have hinbox := htidy.inbox hsock
      rw [hnil] at hinbox
      exact hinbox }

theorem Tidy.note (htidy : Tidy s) {n : PingNote D} (habout : n.about ≤ s.current)
    (hown : n.Own) (hreply : ∀ k, n.replyTo k = none) (harrived : ∀ k, n.arrivedAt k = none)
    (hcalled : ∀ k, n.called = some k → ∀ m ∈ s.log, ¬ m.Ends k)
    (hrunning : s.pending ≠ [] ∨ s.queue ≠ [] ∨ s.calls ≠ [] → ¬ n.Ends s.current) :
    Tidy (s.note n) :=
  { htidy with
    fresh := forall_mem_concat htidy.fresh habout
    running := fun hsome => forall_mem_concat (htidy.running hsome) (hrunning hsome)
    taken := by
      change repliesTo s.current (s.log ++ [n]) ++ queued s.queue <+:
        arrivalsAt s.current (s.log ++ [n])
      rw [repliesTo_append, arrivalsAt_append, hreply, harrived]
      simpa using htidy.taken
    inbox := by
      intro hsock
      change repliesTo s.current (s.log ++ [n]) ++ queued s.queue ++ s.inbox.map some =
        arrivalsAt s.current (s.log ++ [n])
      rw [repliesTo_append, arrivalsAt_append, hreply, harrived]
      simpa using htidy.inbox hsock
    log := htidy.log.append hown (htidy.log.order_append hreply) hcalled }

theorem listen_of_closed (hsock : s.socket = none) (k : Nat) :
    s.listen k =
      { s with buffer := none, armed := some k, queue := s.queue ++ [(.failed, k)] } := by
  simp only [Pinger.listen, hsock]

theorem listen_of_open {sock : Nat} (hsock : s.socket = some sock) (k : Nat) :
    s.listen k =
      { s with buffer := none, armed := some k, pending := s.pending ++ [(.receive, k)] } := by
  simp only [Pinger.listen, hsock]

/-- A receive is begun when nothing else is going on. -/
theorem Tidy.listen (htidy : Tidy s) (hpending : s.pending = []) (hqueue : s.queue = [])
    (hcalls : s.calls = []) (hends : ∀ n ∈ s.log, ¬ n.Ends s.current) :
    Tidy (s.listen s.current) := by
  have harmed : ∀ k, some s.current = some k → k = s.current := by
    intro k hk
    exact (Option.some_inj.mp hk).symm
  cases hsock : s.socket with
  | none =>
      rw [listen_of_closed hsock]
      exact { htidy with
        chain := by
          rw [hpending, hqueue, hcalls]
          exact .completion .failed
        armed := harmed
        running := fun _ => hends
        buffer := by
          intro d k hd
          rw [hqueue] at hd
          cases List.mem_singleton.mp hd
        taken := by
          have htaken := htidy.taken
          rw [hqueue] at htaken ⊢
          exact htaken
        inbox := fun hopen => absurd hsock hopen }
  | some sock =>
      rw [listen_of_open hsock]
      exact { htidy with
        chain := by
          rw [hpending, hqueue, hcalls]
          exact .operation .receive
        armed := harmed
        running := fun _ => hends
        buffer := by
          intro d k hd
          rw [hqueue] at hd
          cases hd }

theorem eq_of_getElem?_singleton {α : Type} {a b : α} {i : Nat} (hi : [a][i]? = some b) :
    i = 0 ∧ b = a := by
  rw [List.getElem?_singleton] at hi
  split at hi
  next hzero =>
    cases hi
    exact ⟨hzero, rfl⟩
  next => cases hi

section Inversion

variable {k i : Nat} {pending : List (PingOp × Nat)} {queue : List (PingResult D × Nat)}
  {calls : List (Nat × Nat)}

theorem Chain.of_pending (hchain : Chain k pending queue calls) {op : PingOp × Nat}
    (hop : pending[i]? = some op) :
    i = 0 ∧ pending = [op] ∧ queue = [] ∧ calls = [] ∧ op.2 = k := by
  cases hchain with
  | operation kind =>
      obtain ⟨rfl, rfl⟩ := eq_of_getElem?_singleton hop
      exact ⟨rfl, rfl, rfl, rfl, rfl⟩
  | idle => cases hop
  | completion r => cases hop
  | call => cases hop

theorem Chain.of_queue (hchain : Chain k pending queue calls) {c : PingResult D × Nat}
    (hc : queue[i]? = some c) :
    i = 0 ∧ pending = [] ∧ queue = [c] ∧ calls = [] ∧ c.2 = k := by
  cases hchain with
  | completion r =>
      obtain ⟨rfl, rfl⟩ := eq_of_getElem?_singleton hc
      exact ⟨rfl, rfl, rfl, rfl, rfl⟩
  | idle => cases hc
  | operation kind => cases hc
  | call => cases hc

theorem Chain.of_calls (hchain : Chain k pending queue calls) {call : Nat × Nat}
    (hcall : calls[i]? = some call) :
    i = 0 ∧ pending = [] ∧ queue = [] ∧ calls = [call] ∧ call = (k, k) := by
  cases hchain with
  | call =>
      obtain ⟨rfl, rfl⟩ := eq_of_getElem?_singleton hcall
      exact ⟨rfl, rfl, rfl, rfl, rfl⟩
  | idle => cases hcall
  | operation kind => cases hcall
  | completion r => cases hcall

end Inversion

/-- An operation that ends is a completion. `inbox` and `buffer` are those after it. -/
theorem Tidy.completed (htidy : Tidy s) {op : PingOp × Nat} (hpending : s.pending = [op])
    (hqueue : s.queue = []) (hcalls : s.calls = []) (hping : op.2 = s.current)
    (r : PingResult D) (inbox : List D) (buffer : Option D)
    (hbuffer : ∀ d, r = .received d → buffer = some d)
    (hinbox : queued [(r, op.2)] ++ inbox.map some = s.inbox.map some) :
    Tidy { s with pending := [], queue := [(r, op.2)], inbox := inbox, buffer := buffer } := by
  have hends := htidy.running (.inl (hpending ▸ List.cons_ne_nil _ _))
  have horder : s.socket ≠ none →
      repliesTo s.current s.log ++ queued [(r, op.2)] ++ inbox.map some =
        arrivalsAt s.current s.log := by
    intro hopen
    have hbefore := htidy.inbox hopen
    rw [hqueue] at hbefore
    rw [List.append_assoc, hinbox, ← hbefore]
    exact congrArg (· ++ _) (List.append_nil _).symm
  exact { htidy with
    chain := by
      rw [hcalls, hping]
      exact .completion r
    running := fun _ => hends
    buffer := by
      intro d k hd
      cases List.mem_singleton.mp hd
      exact hbuffer d rfl
    taken := by
      by_cases hopen : s.socket = none
      · rw [htidy.closed hopen] at hinbox
        have hnil : queued [(r, op.2)] = [] := (List.append_eq_nil_iff.mp hinbox).1
        have htaken := htidy.taken
        rw [hqueue] at htaken
        rw [hnil]
        exact htaken
      · exact ⟨_, horder hopen⟩
    inbox := horder
    closed := by
      intro hclosed
      rw [htidy.closed hclosed] at hinbox
      exact List.map_eq_nil_iff.mp (List.append_eq_nil_iff.mp hinbox).2 }

theorem Tidy.finish (htidy : Tidy s) {i : Nat} {op : PingOp × Nat} (hop : s.pending[i]? = some op)
    {ok : Bool} {s' : Pinger D}
    (hfinish : Pinger.finish { s with pending := s.pending.eraseIdx i } op ok = some s') :
    Tidy s' := by
  obtain ⟨rfl, hpending, hqueue, hcalls, hping⟩ := htidy.chain.of_pending hop
  have hcompleted := htidy.completed hpending hqueue hcalls hping
  obtain ⟨kind, ping⟩ := op
  rw [hpending] at hfinish
  cases ok with
  | false =>
      cases hfinish
      rw [hqueue]
      exact hcompleted .failed s.inbox s.buffer (fun _ h => nomatch h) rfl
  | true =>
      cases kind with
      | send =>
          cases hfinish
          rw [hqueue]
          exact hcompleted .sent s.inbox s.buffer (fun _ h => nomatch h) rfl
      | receive =>
          cases hinbox : s.inbox with
          | nil =>
              simp only [Pinger.finish, hinbox] at hfinish
              cases hfinish
          | cons d inbox =>
              simp only [Pinger.finish, hinbox, Option.some_inj] at hfinish
              subst hfinish
              rw [hqueue]
              apply hcompleted (.received d) inbox (some d)
              · intro d' hd
                cases hd
                rfl
              · rw [hinbox]
                rfl

theorem Tidy.arrive (htidy : Tidy s) {sock : Nat} (hsock : s.socket = some sock) (d : D) :
    Tidy { s.note (.arrived sock d) with inbox := s.inbox ++ [d] } := by
  have hopen : s.socket ≠ none := hsock ▸ Option.some_ne_none sock
  have harrived : ((PingNote.arrived sock d).arrivedAt s.current).map some = some (some d) := by
    rw [PingNote.arrivedAt, if_pos (htidy.socket sock hsock)]
    rfl
  have hinbox : repliesTo s.current (s.log ++ [.arrived sock d]) ++ queued s.queue ++
      (s.inbox ++ [d]).map some = arrivalsAt s.current (s.log ++ [.arrived sock d]) := by
    rw [repliesTo_append, arrivalsAt_append, harrived, ← htidy.inbox hopen]
    simp [PingNote.replyTo]
  exact { htidy with
    fresh := forall_mem_concat htidy.fresh (Nat.le_of_eq (htidy.socket sock hsock))
    running := fun hsome => forall_mem_concat (htidy.running hsome) id
    taken := ⟨_, hinbox⟩
    inbox := fun _ => hinbox
    closed := fun hclosed => absurd hclosed hopen
    log := htidy.log.append trivial (htidy.log.order_append fun _ => rfl) fun _ h => nomatch h }

theorem Tidy.reply (htidy : Tidy s) {d : D} (hpending : s.pending = [])
    (hqueue : s.queue = [(.received d, s.current)]) :
    Tidy { s.note (.replied s.current s.current s.buffer) with
      queue := [], calls := [(s.current, s.current)] } := by
  have hends := htidy.running (.inr (.inl (hqueue ▸ List.cons_ne_nil _ _)))
  have hbuffer := htidy.buffer d s.current (hqueue ▸ List.mem_singleton_self _)
  have hreply : (PingNote.replied s.current s.current s.buffer).replyTo s.current =
      some (some d) := by
    rw [PingNote.replyTo, if_pos rfl, hbuffer]
  have hreplies : repliesTo s.current (s.log ++ [.replied s.current s.current s.buffer]) =
      repliesTo s.current s.log ++ queued s.queue := by
    rw [repliesTo_append, hreply, hqueue]
    rfl
  have harrivals : ∀ k, arrivalsAt k (s.log ++ [.replied s.current s.current s.buffer]) =
      arrivalsAt k s.log := by
    intro k
    rw [arrivalsAt_append]
    exact List.append_nil _
  have htaken : repliesTo s.current (s.log ++ [.replied s.current s.current s.buffer]) <+:
      arrivalsAt s.current (s.log ++ [.replied s.current s.current s.buffer]) := by
    rw [hreplies, harrivals]
    exact htidy.taken
  exact { htidy with
    chain := by
      rw [Pinger.note, hpending]
      exact .call
    fresh := forall_mem_concat htidy.fresh (Nat.le_refl _)
    running := fun _ => forall_mem_concat hends id
    buffer := fun _ _ h => absurd h List.not_mem_nil
    taken := by
      change _ ++ [] <+: _
      rw [List.append_nil]
      exact htaken
    inbox := by
      intro hopen
      change repliesTo s.current (s.log ++ [.replied s.current s.current s.buffer]) ++ [] ++ _ =
        arrivalsAt s.current (s.log ++ [.replied s.current s.current s.buffer])
      rw [List.append_nil, hreplies, harrivals]
      exact htidy.inbox hopen
    log := by
      have hown : (PingNote.replied s.current s.current s.buffer).Own := rfl
      apply htidy.log.append hown
      · intro k
        by_cases hk : s.current = k
        · subst hk
          exact htaken
        · have hnone : (PingNote.replied s.current s.current s.buffer).replyTo k = none :=
            if_neg hk
          rw [repliesTo_append, hnone, harrivals, Option.toList_none, List.append_nil]
          exact htidy.log.order k
      · intro k hk
        cases hk
        exact hends }

theorem tidy_of_new {k : Nat} (hcurrent : s.current = k + 1)
    (hpending : s.pending = [] ∨ ∃ op, s.pending = [(op, k + 1)]) (hqueue : s.queue = [])
    (hcalls : s.calls = []) (harmed : s.armed = none) (hwaits : s.waits = [])
    (hsocket : ∀ sock, s.socket = some sock → sock = k + 1) (hinbox : s.inbox = [])
    (halive : s.alive = true) (hfresh : ∀ n ∈ s.log, n.about ≤ k) (hlog : Undisturbed s.log) :
    Tidy s := by
  have hne : ∀ n ∈ s.log, n.about ≠ k + 1 := fun n hn =>
    Nat.ne_of_lt (Nat.lt_succ_of_le (hfresh n hn))
  have hreplies : repliesTo s.current s.log = [] := by
    rw [hcurrent, repliesTo, List.filterMap_eq_nil_iff]
    intro n hn
    exact PingNote.replyTo_of_about_ne (hne n hn)
  have harrivals : arrivalsAt s.current s.log = [] := by
    rw [hcurrent, arrivalsAt, List.map_eq_nil_iff, List.filterMap_eq_nil_iff]
    intro n hn
    exact PingNote.arrivedAt_of_about_ne (hne n hn)
  have hqueued : queued s.queue = [] := by rw [hqueue]; rfl
  exact {
    chain := by
      rw [hqueue, hcalls, hcurrent]
      rcases hpending with hnil | ⟨op, hop⟩
      · rw [hnil]
        exact .idle
      · rw [hop]
        exact .operation op
    socket := by
      rw [hcurrent]
      exact hsocket
    armed := by
      intro k' hk
      rw [harmed] at hk
      cases hk
    waits := by
      intro k' hk
      rw [hwaits] at hk
      cases hk
    fresh := by
      intro n hn
      rw [hcurrent]
      exact Nat.le_succ_of_le (hfresh n hn)
    running := by
      intro _ n hn
      rw [hcurrent]
      exact PingNote.not_ends_of_about_ne (hne n hn)
    buffer := by
      intro d k' hd
      rw [hqueue] at hd
      cases hd
    taken := by
      rw [hreplies, hqueued]
      exact List.nil_prefix
    inbox := by
      intro _
      rw [hreplies, hqueued, harrivals, hinbox]
      rfl
    closed := fun _ => hinbox
    gone := by
      intro hgone
      rw [halive] at hgone
      cases hgone
    log := hlog }

theorem tidy_startPing (htidy : Tidy s) (halive : s.alive = true) (hsock : s.socket = none)
    (hidle : s.Idle) (start : PingStart) : Tidy (s.startPing start) := by
  have hclosed : ∀ sock, s.socket = some sock → sock = s.current + 1 := by
    intro sock hopen
    rw [hsock] at hopen
    cases hopen
  have hopened : ∀ sock, some (s.current + 1) = some sock → sock = s.current + 1 := by
    intro sock hopen
    exact (Option.some_inj.mp hopen).symm
  have hbound : Tidy (s.startPing .badLocal) :=
    tidy_of_new rfl (.inl hidle.pending) hidle.queue hidle.calls hidle.armed hidle.waits hopened
      rfl halive htidy.fresh htidy.log
  cases start with
  | invalid =>
      exact tidy_of_new rfl (.inl hidle.pending) hidle.queue hidle.calls hidle.armed hidle.waits
        hclosed (htidy.closed hsock) halive htidy.fresh htidy.log
  | notOpened =>
      exact tidy_of_new rfl (.inl hidle.pending) hidle.queue hidle.calls hidle.armed hidle.waits
        hclosed (htidy.closed hsock) halive htidy.fresh htidy.log
  | badLocal => exact hbound
  | notBound =>
      have hown : (PingNote.failed (s.current + 1) (s.current + 1) : PingNote D).Own := rfl
      apply hbound.note (Nat.le_refl _) hown (fun _ => rfl) (fun _ => rfl)
      · intro k hk n hn
        cases hk
        exact PingNote.not_ends_of_about_ne (Nat.ne_of_lt (Nat.lt_succ_of_le (htidy.fresh n hn)))
      · exact fun hsome => absurd hsome (not_running hidle.pending hidle.queue hidle.calls)
  | sends =>
      have hsend : s.pending ++ [(PingOp.send, s.current + 1)] = [(.send, s.current + 1)] := by
        rw [hidle.pending, List.nil_append]
      exact tidy_of_new rfl (.inr ⟨.send, hsend⟩) hidle.queue hidle.calls hidle.armed hidle.waits
        hopened rfl halive htidy.fresh htidy.log

theorem Tidy.asyncPing (htidy : Tidy s) (halive : s.alive = true) {start : PingStart}
    (hseparate : Separate s (.asyncPing start)) : Tidy (s.asyncPing start) := by
  have hclosed : ∃ s', (if s.socket.isSome then s.close else s) = s' ∧ Tidy s' ∧
      s'.alive = true ∧ s'.socket = none ∧ (s.Idle → s'.Idle) := by
    cases hsock : s.socket with
    | none => exact ⟨s, rfl, htidy, halive, hsock, id⟩
    | some sock =>
        refine ⟨s.close, rfl, htidy.close, halive, rfl, fun hidle => ?_⟩
        have hqueue : s.close.queue = [] := by
          rw [Pinger.close, hidle.queue, hidle.pending]
          rfl
        exact ⟨rfl, hqueue, hidle.armed, hidle.waits, hidle.calls⟩
  obtain ⟨_, rfl, htidy', halive', hsock, hidle⟩ := hclosed
  have hstart := fun start h => tidy_startPing htidy' halive' hsock (hidle h) start
  cases start with
  | invalid => exact htidy'
  | notOpened => exact hstart .notOpened hseparate
  | badLocal => exact hstart .badLocal hseparate
  | notBound => exact hstart .notBound hseparate
  | sends => exact hstart .sends hseparate

theorem Tidy.popped (htidy : Tidy s) {i : Nat} {c : PingResult D × Nat}
    (hc : s.queue[i]? = some c) (hrest : c.1 = .failed ∨ c.1 = .sent ∨ s.alive = false) :
    Tidy { s with queue := s.queue.eraseIdx i } := by
  obtain ⟨rfl, hpending, hqueue, hcalls, -⟩ := htidy.chain.of_queue hc
  have hidle := htidy.rest (by
    obtain ⟨result, ping⟩ := c
    rw [hqueue]
    rcases hrest with rfl | rfl | hgone
    · exact .inl rfl
    · exact .inl rfl
    · exact .inr (htidy.gone hgone))
  rw [hqueue]
  rwa [← hpending, ← hcalls] at hidle

theorem Tidy.run (htidy : Tidy s) {i : Nat} {c : PingResult D × Nat}
    (hc : s.queue[i]? = some c) :
    Tidy (({ s with queue := s.queue.eraseIdx i } : Pinger D).complete c.2 c.1) := by
  have hpopped := htidy.popped hc
  obtain ⟨rfl, hpending, hqueue, hcalls, hping⟩ := htidy.chain.of_queue hc
  have hends := htidy.running (.inr (.inl (hqueue ▸ List.cons_ne_nil _ _)))
  have hnil : s.queue.eraseIdx 0 = [] := by rw [hqueue]; rfl
  obtain ⟨result, ping⟩ := c
  change ping = s.current at hping
  subst hping
  cases result with
  | failed =>
      have hown : (PingNote.failed s.current s.current : PingNote D).Own := rfl
      apply (hpopped (.inl rfl)).note (Nat.le_refl _) hown (fun _ => rfl) (fun _ => rfl)
      · intro k hk
        cases hk
        exact hends
      · exact fun hsome => absurd hsome (not_running hpending hnil hcalls)
  | sent => exact (hpopped (.inr (.inl rfl))).listen hpending hnil hcalls hends
  | received d =>
      have hreply := htidy.reply hpending hqueue
      rw [← hnil] at hreply
      have hcalls' : s.calls ++ [(s.current, s.current)] = [(s.current, s.current)] := by
        rw [hcalls, List.nil_append]
      rw [← hcalls'] at hreply
      exact hreply

theorem Tidy.answer (htidy : Tidy s) {i : Nat} {call : Nat × Nat}
    (hcall : s.calls[i]? = some call) (more : Bool) :
    Tidy (if more then
      Pinger.listen { s.note (.answered call.1 more) with calls := s.calls.eraseIdx i } call.2
      else { s.note (.answered call.1 more) with calls := s.calls.eraseIdx i }) := by
  obtain ⟨rfl, hpending, hqueue, hcalls, rfl⟩ := htidy.chain.of_calls hcall
  have hends := htidy.running (.inr (.inr (hcalls ▸ List.cons_ne_nil _ _)))
  have hrest : { s.note (.answered s.current more) with calls := s.calls.eraseIdx 0 } =
      Pinger.note { s with pending := [], queue := [], calls := [] }
        (.answered s.current more) := by
    rw [Pinger.note, hqueue, hpending, hcalls]
    rfl
  have hanswered := (htidy.rest (.inl (hqueue ▸ rfl))).note (n := .answered s.current more)
    (Nat.le_refl _) trivial (fun _ => rfl) (fun _ => rfl) (fun _ h => nomatch h)
    fun hsome => absurd hsome (not_running rfl rfl rfl)
  rw [hrest]
  cases more with
  | false => exact hanswered
  | true =>
      apply hanswered.listen rfl rfl rfl
      apply forall_mem_concat hends
      intro hstops
      cases hstops.2

theorem Tidy.waiting (htidy : Tidy s) {armed : Option Nat} {waits : List Nat}
    (harmed : ∀ k, armed = some k → k = s.current) (hwaits : ∀ k ∈ waits, k = s.current) :
    Tidy { s with armed, waits } :=
  { htidy with armed := harmed, waits := hwaits }

theorem Tidy.timedOut (htidy : Tidy s) : Tidy (s.timedOut s.current) := by
  cases hsock : s.socket with
  | none =>
      rw [Pinger.timedOut, hsock]
      exact htidy
  | some sock =>
      rw [Pinger.timedOut, hsock]
      have hown : (PingNote.closed sock s.current : PingNote D).Own := htidy.socket sock hsock
      have habout : (PingNote.closed sock s.current : PingNote D).about ≤ s.current :=
        Nat.le_of_eq hown
      exact (htidy.note habout hown (fun _ => rfl) (fun _ => rfl) (fun _ h => nomatch h)
        fun _ => id).close

theorem Tidy.step {e : PingEvent D} {s' : Pinger D} (htidy : Tidy s) (hseparate : Separate s e)
    (hstep : (pingMachine D).step s e = some s') : Tidy s' := by
  cases e with
  | asyncPing start =>
      obtain ⟨halive, rfl⟩ := Machine.of_enabled hstep
      exact htidy.asyncPing halive hseparate
  | stop =>
      obtain ⟨-, rfl⟩ := Machine.of_enabled hstep
      exact htidy.close
  | drop =>
      obtain ⟨-, rfl⟩ := Machine.of_enabled hstep
      exact { htidy.close with gone := fun _ => rfl }
  | arrive d =>
      obtain ⟨sock, hsock, rfl⟩ := Option.map_eq_some_iff.mp hstep
      exact htidy.arrive hsock d
  | finish i ok =>
      obtain ⟨op, hop, hfinish⟩ := Option.bind_eq_some_iff.mp hstep
      exact htidy.finish hop hfinish
  | run i =>
      obtain ⟨c, hc, rfl⟩ := Option.map_eq_some_iff.mp hstep
      dsimp only
      split
      next => exact htidy.run hc
      next hgone => exact htidy.popped hc (.inr (.inr (eq_false_of_ne_true hgone)))
  | expire =>
      obtain ⟨ping, hping, rfl⟩ := Option.map_eq_some_iff.mp hstep
      have hnone : ∀ k, none = some k → k = s.current := fun _ h => nomatch h
      exact htidy.waiting hnone (forall_mem_concat htidy.waits (htidy.armed ping hping))
  | timeout i =>
      obtain ⟨ping, hping, rfl⟩ := Option.map_eq_some_iff.mp hstep
      have hcurrent := htidy.waits ping (List.mem_of_getElem? hping)
      have hwaiting : Tidy { s with waits := s.waits.eraseIdx i } :=
        htidy.waiting htidy.armed fun k hk => htidy.waits k (List.mem_of_mem_eraseIdx hk)
      dsimp only
      split
      next =>
        rw [hcurrent]
        exact hwaiting.timedOut
      next => exact hwaiting
  | answer i more =>
      obtain ⟨call, hcall, rfl⟩ := Option.map_eq_some_iff.mp hstep
      exact htidy.answer hcall more

end Tidy

/-- Pings that are begun when nothing is left of earlier ones do not disturb each other. -/
theorem undisturbed_of_separate (D : Type) (es : List (PingEvent D))
    (hmeets : (pingMachine D).Meets Separate es) :
    (pingMachine D).Along (fun s => Undisturbed s.log) es :=
  Machine.along_of_meets tidy_init (fun _ _ _ htidy hseparate hstep => htidy.step hseparate hstep)
    (fun _ htidy => htidy.log) hmeets

/-- One reply, the end of the wait, and the next ping. -/
def twoPings : List (PingEvent Nat) :=
  [.asyncPing .sends, .finish 0 true, .run 0, .arrive 7, .finish 0 true, .run 0,
    .answer 0 false, .expire, .timeout 0, .asyncPing .sends, .finish 0 true, .run 0]

theorem twoPings_undisturbed : (pingMachine Nat).Along (fun s => Undisturbed s.log) twoPings := by
  apply undisturbed_of_separate
  apply Machine.MeetsFrom.cons rfl ⟨rfl, rfl, rfl, rfl, rfl⟩
  iterate 8 apply Machine.MeetsFrom.cons rfl trivial
  apply Machine.MeetsFrom.cons rfl ⟨rfl, rfl, rfl, rfl, rfl⟩
  iterate 2 apply Machine.MeetsFrom.cons rfl trivial
  trivial

/-- A ping that is begun at once: the send of the first one is aborted. -/
def restarted : List (PingEvent Nat) := [.asyncPing .sends, .asyncPing .sends, .run 0]

/-- The second handler hears of the error of the first ping. -/
theorem abort_is_told_to_next :
    ¬ ∀ es, (pingMachine Nat).Along (fun s => Undisturbed s.log) es := by
  intro hall
  have hrun : ∃ s, (pingMachine Nat).run restarted = some s ∧ s.log = [.failed 2 1] :=
    ⟨_, rfl, rfl⟩
  obtain ⟨s, hs, hlog⟩ := hrun
  have hlast := Machine.AlongFrom.last (hall restarted) hs
  have hown : (2 : Nat) = 1 :=
    Undisturbed.own hlast (.failed 2 1) (hlog ▸ List.mem_singleton_self _)
  cases hown

/-! ## What comes of a ping that is not separate -/

section Disturbed

variable {D : Type} {s s' : Pinger D} {k : Nat}

/-- Something can happen after which a ping has disturbed another. -/
def CanDisturb (s : Pinger D) : Prop :=
  ∃ es s', (pingMachine D).runFrom s es = some s' ∧ ¬ Undisturbed s'.log

theorem CanDisturb.of_step {e : PingEvent D} (hstep : (pingMachine D).step s e = some s')
    (hdisturb : CanDisturb s') : CanDisturb s := by
  obtain ⟨es, last, hrun, hlast⟩ := hdisturb
  refine ⟨e :: es, last, ?_, hlast⟩
  rw [Machine.runFrom_cons, hstep]
  exact hrun

theorem canDisturb_of_note {n : PingNote D} (hn : n ∈ s.log) (hown : ¬ n.Own) : CanDisturb s :=
  ⟨[], s, rfl, fun hlog => hown (hlog.own n hn)⟩

/-- An error of another ping is told to the handler. -/
theorem canDisturb_of_failed (halive : s.alive = true) (hne : s.current ≠ k)
    (hc : (.failed, k) ∈ s.queue) : CanDisturb s := by
  obtain ⟨i, hi⟩ := List.getElem?_of_mem hc
  have hstep : (pingMachine D).step s (.run i) =
      some (Pinger.note { s with queue := s.queue.eraseIdx i } (.failed s.current k)) := by
    change s.queue[i]?.map _ = _
    rw [hi, Option.map_some]
    exact congrArg some (if_pos halive)
  have hlast : PingNote.failed s.current k ∈ s.log ++ [.failed s.current k] :=
    List.mem_append_right _ (List.mem_singleton_self _)
  have hown : ¬ (PingNote.failed s.current k : PingNote D).Own := hne
  exact .of_step hstep (canDisturb_of_note hlast hown)

theorem canDisturb_of_operation (halive : s.alive = true) (hne : s.current ≠ k) {op : PingOp}
    (hop : (op, k) ∈ s.pending) : CanDisturb s := by
  obtain ⟨i, hi⟩ := List.getElem?_of_mem hop
  have hstep : (pingMachine D).step s (.finish i false) =
      some { s with pending := s.pending.eraseIdx i, queue := s.queue ++ [(.failed, k)] } := by
    change s.pending[i]?.bind _ = _
    rw [hi]
    rfl
  have hfailed : ((.failed : PingResult D), k) ∈ s.queue ++ [(.failed, k)] :=
    List.mem_append_right _ (List.mem_singleton_self _)
  exact .of_step hstep (canDisturb_of_failed halive hne hfailed)

theorem canDisturb_listen (halive : s.alive = true) (hne : s.current ≠ k) :
    CanDisturb (s.listen k) := by
  cases hsock : s.socket with
  | none =>
      rw [listen_of_closed hsock]
      exact canDisturb_of_failed halive hne
        (List.mem_append_right _ (List.mem_singleton_self _))
  | some sock =>
      rw [listen_of_open hsock]
      exact canDisturb_of_operation halive hne
        (List.mem_append_right _ (List.mem_singleton_self _))

theorem canDisturb_of_completion (halive : s.alive = true) (hne : s.current ≠ k)
    {r : PingResult D} (hc : (r, k) ∈ s.queue) : CanDisturb s := by
  obtain ⟨i, hi⟩ := List.getElem?_of_mem hc
  have hstep : (pingMachine D).step s (.run i) =
      some (({ s with queue := s.queue.eraseIdx i } : Pinger D).complete k r) := by
    change s.queue[i]?.map _ = _
    rw [hi, Option.map_some]
    exact congrArg some (if_pos halive)
  cases r with
  | failed => exact canDisturb_of_failed halive hne hc
  | sent => exact .of_step hstep (canDisturb_listen halive hne)
  | received d =>
      have hlast : PingNote.replied s.current k s.buffer ∈
          s.log ++ [.replied s.current k s.buffer] :=
        List.mem_append_right _ (List.mem_singleton_self _)
      have hown : ¬ (PingNote.replied s.current k s.buffer).Own := hne
      exact .of_step hstep (canDisturb_of_note hlast hown)

theorem canDisturb_of_call (halive : s.alive = true) (hne : s.current ≠ k) {handler : Nat}
    (hcall : (handler, k) ∈ s.calls) : CanDisturb s := by
  obtain ⟨i, hi⟩ := List.getElem?_of_mem hcall
  have hstep : (pingMachine D).step s (.answer i true) = some (Pinger.listen
      { s.note (.answered handler true) with calls := s.calls.eraseIdx i } k) := by
    change s.calls[i]?.map _ = _
    rw [hi]
    rfl
  exact .of_step hstep (canDisturb_listen halive hne)

theorem canDisturb_of_wait (halive : s.alive = true) {sock : Nat} (hsock : s.socket = some sock)
    (hne : sock ≠ k) (hwait : k ∈ s.waits) : CanDisturb s := by
  obtain ⟨i, hi⟩ := List.getElem?_of_mem hwait
  have hstep : (pingMachine D).step s (.timeout i) =
      some (({ s with waits := s.waits.eraseIdx i } : Pinger D).timedOut k) := by
    change s.waits[i]?.map _ = _
    rw [hi, Option.map_some]
    exact congrArg some (if_pos halive)
  have hlast : PingNote.closed sock k ∈
      (({ s with waits := s.waits.eraseIdx i } : Pinger D).timedOut k).log := by
    rw [Pinger.timedOut, hsock]
    exact List.mem_append_right _ (List.mem_singleton_self _)
  have hown : ¬ (PingNote.closed sock k : PingNote D).Own := hne
  exact .of_step hstep (canDisturb_of_note hlast hown)

theorem canDisturb_of_armed (halive : s.alive = true) {sock : Nat} (hsock : s.socket = some sock)
    (hne : sock ≠ k) (harmed : s.armed = some k) : CanDisturb s := by
  have hstep : (pingMachine D).step s .expire =
      some { s with armed := none, waits := s.waits ++ [k] } := by
    change s.armed.map _ = _
    rw [harmed]
    rfl
  have hwait : k ∈ s.waits ++ [k] := List.mem_append_right _ (List.mem_singleton_self _)
  exact .of_step hstep (canDisturb_of_wait halive hsock hne hwait)

theorem canDisturb_startPing (htidy : Tidy s) (halive : s.alive = true) (hidle : ¬ s.Idle) :
    CanDisturb (s.startPing .sends) := by
  have hne : s.current + 1 ≠ s.current := Nat.succ_ne_self _
  by_contra hno
  apply hidle
  exact {
    pending := by
      by_contra hsome
      obtain ⟨op, hop⟩ := List.exists_mem_of_ne_nil _ hsome
      obtain ⟨i, hi⟩ := List.getElem?_of_mem hop
      obtain ⟨-, -, -, -, hping⟩ := htidy.chain.of_pending hi
      have hop' : (op.1, s.current) ∈ (s.startPing .sends).pending := by
        rw [← hping]
        exact List.mem_append_left _ hop
      exact hno (canDisturb_of_operation halive hne hop')
    queue := by
      by_contra hsome
      obtain ⟨c, hc⟩ := List.exists_mem_of_ne_nil _ hsome
      obtain ⟨i, hi⟩ := List.getElem?_of_mem hc
      obtain ⟨-, -, -, -, hping⟩ := htidy.chain.of_queue hi
      have hc' : (c.1, s.current) ∈ (s.startPing .sends).queue := by
        rw [← hping]
        exact hc
      exact hno (canDisturb_of_completion halive hne hc')
    armed := by
      by_contra hsome
      obtain ⟨k, hk⟩ := Option.ne_none_iff_exists'.mp hsome
      rw [htidy.armed k hk] at hk
      exact hno (canDisturb_of_armed halive rfl hne hk)
    waits := by
      by_contra hsome
      obtain ⟨k, hk⟩ := List.exists_mem_of_ne_nil _ hsome
      rw [htidy.waits k hk] at hk
      exact hno (canDisturb_of_wait halive rfl hne hk)
    calls := by
      by_contra hsome
      obtain ⟨call, hcall⟩ := List.exists_mem_of_ne_nil _ hsome
      obtain ⟨i, hi⟩ := List.getElem?_of_mem hcall
      obtain ⟨-, -, -, -, rfl⟩ := htidy.chain.of_calls hi
      exact hno (canDisturb_of_call halive hne hcall) }

end Disturbed

/-- A ping that is begun while something is left of the last one may be disturbed by it. -/
theorem canDisturb_of_not_idle {D : Type} {s : Pinger D}
    (hreach : (pingMachine D).ReachableUnder Separate s) (halive : s.alive = true)
    (hidle : ¬ s.Idle) : CanDisturb (s.asyncPing .sends) := by
  have htidy : Tidy s := hreach.invariant tidy_init fun _ _ _ htidy hseparate hstep =>
    htidy.step hseparate hstep
  cases hsock : s.socket with
  | none =>
      have hstart : s.asyncPing .sends = s.startPing .sends := by simp [Pinger.asyncPing, hsock]
      rw [hstart]
      exact canDisturb_startPing htidy halive hidle
  | some sock =>
      have hstart : s.asyncPing .sends = s.close.startPing .sends := by
        simp [Pinger.asyncPing, hsock]
      rw [hstart]
      apply canDisturb_startPing htidy.close halive
      intro hclosed
      obtain ⟨hqueue, hpending⟩ := List.append_eq_nil_iff.mp hclosed.queue
      exact hidle ⟨List.map_eq_nil_iff.mp hpending, hqueue, hclosed.armed, hclosed.waits,
        hclosed.calls⟩

end FerroRemote.Client

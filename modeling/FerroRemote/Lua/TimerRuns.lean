/-
# What becomes of a timer

A timer is posted once, and its function is called once: with nothing in front of its
arguments when the time has run out, with an error when the timer was taken away before. The
map of the module and the waits of the I/O service never disagree about which timer a number
stands for, so no handler takes another timer away.
-/

import FerroRemote.Lua.EventQueue

namespace FerroRemote.Lua.EventQueue

open Machine

namespace Queue

theorem pushCall_eq (q : Queue) (source : Option Nat) (call : Call) :
    q.pushCall source call =
      { q with strand := if q.enabled then q.strand ++ [⟨source, call⟩] else q.strand } := by
  rw [pushCall]
  split <;> rfl

theorem dropped_of_not {hit : Prop} [Decidable hit] (hno : ¬ hit) (w : Wait) :
    dropped hit w = w := if_neg fun h => hno h.1

theorem destroy_eq (q : Queue) (object : Nat) :
    q.destroy object = { q with waits := (q.destroy object).waits } := by
  rw [destroy.eq_def]
  split <;> rfl

theorem getElem?_destroy (q : Queue) (object n : Nat) :
    (q.destroy object).waits[n]? = q.waits[n]?.map (dropped (object = n)) := by
  have hkeep : object ≠ n → q.waits[n]?.map (dropped (object = n)) = q.waits[n]? := by
    intro hne
    cases q.waits[n]? with
    | none => rfl
    | some v => rw [Option.map_some, dropped_of_not hne]
  rw [destroy.eq_def]
  split
  · next hw =>
      by_cases hn : object = n
      · subst hn
        rw [hw]
        rfl
      · exact (hkeep hn).symm
  · next w hw =>
      by_cases hn : object = n
      · subst hn
        dsimp only
        rw [hw, Table.getElem?_insert_self, Option.map_some]
        simp only [dropped]
      · rw [hkeep hn]
        exact Table.getElem?_insert_of_ne hn _

theorem delTimer_eq (q : Queue) (id : Nat) :
    q.delTimer id = { q with
      timers := q.timers.erase id
      waits := (q.delTimer id).waits } := by
  rw [delTimer.eq_def]
  split
  · next hnone => rw [Table.erase_of_getElem? hnone]
  · rw [destroy_eq]

theorem getElem?_delTimer (q : Queue) (id n : Nat) :
    (q.delTimer id).waits[n]? = q.waits[n]?.map (dropped (q.timers[id]? = some n)) := by
  rw [delTimer.eq_def]
  split
  · next hnone =>
      cases q.waits[n]? with
      | none => rfl
      | some w => rw [Option.map_some, hnone, dropped_of_not nofun]
  · next object hobject =>
      have hsame : dropped (object = n) = dropped (some object = some n) := by
        funext w
        simp only [dropped, Option.some.injEq]
      rw [getElem?_destroy, hobject, hsame]

end Queue

/-- No number stands for two timers. A wait that goes on is in the map, and what is in the
map is not destroyed. -/
structure Coherent (index made : Nat) (timers : Table Nat) (waits : Table Wait) : Prop where
  bound : ∀ (n : Nat) (w : Wait), waits[n]? = some w → n < made ∧ w.id < index
  mapped : ∀ (id n : Nat), timers[id]? = some n → n < made ∧ id < index
  unique : ∀ (n m : Nat) (w v : Wait), waits[n]? = some w → waits[m]? = some v → w.id = v.id → n = m
  waiting : ∀ (n : Nat) (w : Wait), waits[n]? = some w → w.progress = .waiting →
    timers[w.id]? = some n
  entry : ∀ (id n : Nat) (w : Wait), timers[id]? = some n → waits[n]? = some w →
    w.id = id ∧ w.progress ≠ .aborted

def Queue.Coherent (q : Queue) : Prop :=
  EventQueue.Coherent q.index q.made q.timers q.waits

variable {index made : Nat} {timers timers' : Table Nat} {waits waits' : Table Wait} {q q' : Queue}
  {a : QueueAction}

theorem dropped_id (hit : Prop) [Decidable hit] (w : Wait) : (Queue.dropped hit w).id = w.id := by
  rw [Queue.dropped]
  split <;> rfl

/-- What is left of both is still coherent, as far as the progress of the waits is right. -/
theorem Coherent.shrink (hcoherent : Coherent index made timers waits)
    (htimers : ∀ (id n : Nat), timers'[id]? = some n → timers[id]? = some n)
    (hwaits : ∀ (n : Nat) (w : Wait), waits'[n]? = some w → ∃ v, waits[n]? = some v ∧ v.id = w.id)
    (hwaiting : ∀ (n : Nat) (w : Wait), waits'[n]? = some w → w.progress = .waiting →
      timers'[w.id]? = some n)
    (hentry : ∀ (id n : Nat) (w : Wait), timers'[id]? = some n → waits'[n]? = some w →
      w.progress ≠ .aborted) :
    Coherent index made timers' waits' where
  bound n w hw := by
    rcases hwaits n w hw with ⟨v, hv, hid⟩
    rw [← hid]
    exact hcoherent.bound n v hv
  mapped id n hn := hcoherent.mapped id n (htimers id n hn)
  unique n m w v hw hv hid := by
    rcases hwaits n w hw with ⟨w', hw', hid'⟩
    rcases hwaits m v hv with ⟨v', hv', hidv⟩
    exact hcoherent.unique n m w' v' hw' hv' (by rw [hid', hidv, hid])
  waiting := hwaiting
  entry id n w hn hw := by
    rcases hwaits n w hw with ⟨v, hv, hid⟩
    exact ⟨hid ▸ (hcoherent.entry id n v (htimers id n hn) hv).1, hentry id n w hn hw⟩

theorem Queue.Coherent.delTimer (hcoherent : q.Coherent) (id : Nat) : (q.delTimer id).Coherent := by
  rw [Queue.Coherent, q.delTimer_eq id]
  have hwaits : ∀ (n : Nat) (w : Wait), (q.delTimer id).waits[n]? = some w →
      ∃ v, q.waits[n]? = some v ∧ w = Queue.dropped (q.timers[id]? = some n) v := by
    intro n w hw
    rw [q.getElem?_delTimer, Option.map_eq_some_iff] at hw
    rcases hw with ⟨v, hv, rfl⟩
    exact ⟨v, hv, rfl⟩
  refine EventQueue.Coherent.shrink hcoherent ?_ ?_ ?_ ?_
  · intro key n hn
    exact (Table.getElem?_erase_eq_some_iff.mp hn).2
  · intro n w hw
    rcases hwaits n w hw with ⟨v, hv, rfl⟩
    exact ⟨v, hv, (dropped_id _ v).symm⟩
  · intro n w hw hprogress
    rcases hwaits n w hw with ⟨v, hv, rfl⟩
    rw [dropped_id]
    rw [Queue.dropped] at hprogress
    split at hprogress
    · cases hprogress
    · next hno =>
        have hin := hcoherent.waiting n v hv hprogress
        apply Table.getElem?_erase_eq_some_iff.mpr
        refine ⟨?_, hin⟩
        rintro rfl
        exact hno ⟨hin, hprogress⟩
  · intro key n w hn hw
    rcases Table.getElem?_erase_eq_some_iff.mp hn with ⟨hne, hin⟩
    rcases hwaits n w hw with ⟨v, hv, rfl⟩
    have hentry := hcoherent.entry key n v hin hv
    rw [Queue.dropped, if_neg]
    · exact hentry.2
    · rintro ⟨hid, -⟩
      exact hne (hentry.1 ▸ (hcoherent.entry id n v hid hv).1 ▸ rfl)

theorem Queue.Coherent.timerPost (hcoherent : q.Coherent) (callee : Value) (timeout : Timeout)
    (params : List Value) :
    q.timerPost (some callee) timeout params = (q.index, { q with
      index := q.index + 1
      made := q.made + 1
      timers := q.timers.insert q.index q.made
      waits := q.waits.insert q.made
        ⟨q.index, ⟨callee, params⟩, q.now + timeout.total, .waiting⟩ }) := by
  have hfree : q.timers[q.index]? = none := by
    cases hentry : q.timers[q.index]? with
    | none => rfl
    | some n => exact absurd (hcoherent.mapped _ n hentry).2 (Nat.lt_irrefl _)
  have hdel : q.nextIndex.2.delTimer q.index = q.nextIndex.2 := by
    rw [Queue.delTimer.eq_def]
    dsimp only [Queue.nextIndex]
    rw [hfree]
  rw [Queue.timerPost]
  dsimp only [Queue.addTimer]
  rw [show q.nextIndex.1 = q.index from rfl, hdel]
  rfl

/-- What a script posts is a step of the machine, and waits as long as the argument says. -/
theorem Queue.Coherent.lcallTimerPost (hcoherent : q.Coherent) (unsigned : LuaNumber → Nat)
    (callee : Value) (timeout : Option Obj) (params : List Value) :
    ∃ q', queueRuns.step q (.timerPost (some callee) (timeoutOf unsigned timeout) params) =
        some q' ∧
      q.lcallTimerPost unsigned (some callee) timeout params = (q.index, q') ∧
      q'.waits[q.made]? = some ⟨q.index, ⟨callee, params⟩,
        q.now + (timeoutOf unsigned timeout).total, .waiting⟩ := by
  have hpost := hcoherent.timerPost callee (timeoutOf unsigned timeout) params
  refine ⟨_, rfl, ?_, ?_⟩
  · rw [Queue.lcallTimerPost, hpost]
  · rw [hpost]
    exact Table.getElem?_insert_self q.waits q.made _

theorem Coherent.post (hcoherent : Coherent index made timers waits) (call : Call)
    (deadline : Nat) :
    Coherent (index + 1) (made + 1) (timers.insert index made)
      (waits.insert made ⟨index, call, deadline, .waiting⟩) := by
  have hold : ∀ n w, (waits.insert made ⟨index, call, deadline, .waiting⟩)[n]? = some w →
      (n = made ∧ w = ⟨index, call, deadline, .waiting⟩) ∨ (n ≠ made ∧ waits[n]? = some w) := by
    intro n w hw
    rw [Table.getElem?_insert_eq] at hw
    split at hw
    · next heq =>
        cases hw
        exact Or.inl ⟨heq.symm, rfl⟩
    · next hne => exact Or.inr ⟨fun heq => hne heq.symm, hw⟩
  constructor
  · intro n w hw
    rcases hold n w hw with ⟨rfl, rfl⟩ | ⟨-, hw⟩
    · exact ⟨Nat.lt_succ_self _, Nat.lt_succ_self _⟩
    · have hbound := hcoherent.bound n w hw
      omega
  · intro id n hn
    rw [Table.getElem?_insert_eq] at hn
    split at hn
    · next heq =>
        cases hn
        omega
    · have hmapped := hcoherent.mapped id n hn
      omega
  · intro n m w v hw hv hid
    rcases hold n w hw with ⟨hn, rfl⟩ | ⟨-, hwold⟩
    · rcases hold m v hv with ⟨hm, -⟩ | ⟨-, hvold⟩
      · rw [hn, hm]
      · have hbound := hcoherent.bound m v hvold
        dsimp only at hid
        omega
    · rcases hold m v hv with ⟨-, rfl⟩ | ⟨-, hvold⟩
      · have hbound := hcoherent.bound n w hwold
        dsimp only at hid
        omega
      · exact hcoherent.unique n m w v hwold hvold hid
  · intro n w hw hwaiting
    rcases hold n w hw with ⟨rfl, rfl⟩ | ⟨-, hw⟩
    · exact Table.getElem?_insert_self _ _ _
    · have hbound := hcoherent.bound n w hw
      rw [Table.getElem?_insert_of_ne (by omega)]
      exact hcoherent.waiting n w hw hwaiting
  · intro id n w hn hw
    rw [Table.getElem?_insert_eq] at hn
    split at hn
    · next heq =>
        cases hn
        rcases hold made w hw with ⟨-, rfl⟩ | ⟨hne, -⟩
        · exact ⟨heq, Progress.noConfusion⟩
        · exact absurd rfl hne
    · have hmapped := hcoherent.mapped id n hn
      rcases hold n w hw with ⟨rfl, -⟩ | ⟨-, hw⟩
      · exact absurd hmapped.1 (Nat.lt_irrefl _)
      · exact hcoherent.entry id n w hn hw

theorem Coherent.erase (hcoherent : Coherent index made timers waits) (object : Nat) :
    Coherent index made timers (waits.erase object) := by
  refine hcoherent.shrink (fun _ _ hn => hn) ?_ ?_ ?_
  · intro n v hv
    exact ⟨v, (Table.getElem?_erase_eq_some_iff.mp hv).2, rfl⟩
  · intro n v hv
    exact hcoherent.waiting n v (Table.getElem?_erase_eq_some_iff.mp hv).2
  · intro id n v hn hv
    exact (hcoherent.entry id n v hn (Table.getElem?_erase_eq_some_iff.mp hv).2).2

/-- A timer whose time has come is still in the map. -/
theorem Coherent.expire (hcoherent : Coherent index made timers waits) {object : Nat} {w : Wait}
    (hw : waits[object]? = some w) :
    Coherent index made timers (waits.insert object { w with progress := .expired }) := by
  have hold : ∀ n v, (waits.insert object { w with progress := .expired })[n]? = some v →
      (n = object ∧ v = { w with progress := .expired }) ∨ waits[n]? = some v := by
    intro n v hv
    rw [Table.getElem?_insert_eq] at hv
    split at hv
    · next heq =>
        cases hv
        exact Or.inl ⟨heq.symm, rfl⟩
    · exact Or.inr hv
  refine hcoherent.shrink (fun _ _ hn => hn) ?_ ?_ ?_
  · intro n v hv
    rcases hold n v hv with ⟨rfl, rfl⟩ | hv
    · exact ⟨w, hw, rfl⟩
    · exact ⟨v, hv, rfl⟩
  · intro n v hv hwaiting
    rcases hold n v hv with ⟨rfl, rfl⟩ | hv
    · cases hwaiting
    · exact hcoherent.waiting n v hv hwaiting
  · intro id n v hn hv
    rcases hold n v hv with ⟨rfl, rfl⟩ | hv
    · exact Progress.noConfusion
    · exact (hcoherent.entry id n v hn hv).2

theorem Queue.Coherent.deinit (hcoherent : q.Coherent) : q.deinit.Coherent := by
  have hwaits : ∀ (n : Nat) (w : Wait), q.deinit.waits[n]? = some w →
      ∃ v, q.waits[n]? = some v ∧ w = Queue.dropped (q.timers[v.id]? = some n) v := by
    intro n w hw
    rw [Queue.deinit, Std.ExtTreeMap.getElem?_map, Option.map_eq_some_iff] at hw
    rcases hw with ⟨v, hv, rfl⟩
    exact ⟨v, hv, rfl⟩
  have hnone : ∀ (id n : Nat), q.deinit.timers[id]? = some n → False :=
    fun id n hn => Table.getElem?_empty_ne id n hn
  refine EventQueue.Coherent.shrink hcoherent ?_ ?_ ?_ ?_
  · exact fun id n hn => (hnone id n hn).elim
  · intro n w hw
    rcases hwaits n w hw with ⟨v, hv, rfl⟩
    exact ⟨v, hv, (dropped_id _ v).symm⟩
  · intro n w hw hwaiting
    rcases hwaits n w hw with ⟨v, hv, rfl⟩
    rw [Queue.dropped] at hwaiting
    split at hwaiting
    · cases hwaiting
    · next hno => exact absurd ⟨hcoherent.waiting n v hv hwaiting, hwaiting⟩ hno
  · exact fun id n w hn => (hnone id n hn).elim

theorem Queue.Coherent.handler (hcoherent : q.Coherent) (object : Nat) (w : Wait) :
    (q.timerHandler object w).Coherent := by
  rw [Queue.timerHandler]
  split
  · split
    · apply Queue.Coherent.delTimer
      rw [Queue.pushCall_eq]
      exact hcoherent
    · exact hcoherent
  · exact hcoherent

/-- **No step confuses two timers.** -/
theorem Queue.Coherent.step (hcoherent : q.Coherent) (hstep : q.step a = some q') :
    q'.Coherent := by
  cases a with
  | tick elapsed =>
      cases hstep
      exact hcoherent
  | index =>
      cases hstep
      refine ⟨?_, ?_, hcoherent.unique, hcoherent.waiting, hcoherent.entry⟩
      · intro n w hw
        have hbound := hcoherent.bound n w hw
        exact ⟨hbound.1, Nat.lt_succ_of_lt hbound.2⟩
      · intro id n hn
        have hmapped := hcoherent.mapped id n hn
        exact ⟨hmapped.1, Nat.lt_succ_of_lt hmapped.2⟩
  | post call =>
      cases hstep
      rw [Queue.pushCall_eq]
      exact hcoherent
  | timerPost callee timeout params =>
      cases hstep
      cases callee with
      | none => exact hcoherent
      | some callee =>
          rw [hcoherent.timerPost]
          exact EventQueue.Coherent.post hcoherent _ _
  | timerCancel id =>
      cases hstep
      rw [Queue.timerCancel]
      split
      · exact hcoherent.delTimer id
      · exact hcoherent
  | expire object =>
      rw [Queue.step] at hstep
      split at hstep
      · cases hstep
      · next w hw =>
          split at hstep
          · cases hstep
            exact EventQueue.Coherent.expire hcoherent hw
          · cases hstep
  | handle object =>
      rw [Queue.step] at hstep
      split at hstep
      · cases hstep
      · next w hw =>
          split at hstep
          · cases hstep
          · cases hstep
            exact Queue.Coherent.handler (q := { q with waits := q.waits.erase object })
              (EventQueue.Coherent.erase hcoherent object) object w
  | call =>
      rw [Queue.step] at hstep
      split at hstep
      · cases hstep
      · cases hstep
        exact hcoherent
  | setEnable value =>
      cases hstep
      exact hcoherent
  | deinit =>
      cases hstep
      exact hcoherent.deinit
  | release =>
      cases hstep
      exact hcoherent

theorem start_coherent : Queue.start.Coherent where
  bound n w hw := absurd hw (Table.getElem?_empty_ne n w)
  mapped id n hn := absurd hn (Table.getElem?_empty_ne id n)
  unique n _ w _ hw := absurd hw (Table.getElem?_empty_ne n w)
  waiting n w hw := absurd hw (Table.getElem?_empty_ne n w)
  entry id n _ hn := absurd hn (Table.getElem?_empty_ne id n)

/-- Calls of a timer that have been made or stand in the strand -/
def Queue.calls (q : Queue) (n : Nat) : Nat :=
  (q.called ++ q.strand).countP fun p => p.source = some n

def Queue.pending (q : Queue) (n : Nat) : Nat := if n ∈ q.waits then 1 else 0

/-- What a step loses of a timer: a handler that makes no call, or a call that finds the caller
gone -/
def Queue.lost (q : Queue) (n : Nat) : QueueAction → Nat
  | .handle object =>
      if object = n ∧ ¬ (q.working ∧ q.alive ∧ q.enabled) then 1 else 0
  | .call => if ¬ q.alive ∧ q.strand.head?.bind Posted.source = some n then 1 else 0
  | _ => 0

theorem mem_congr_waits {t t' : Table Wait} {n : Nat}
    (h : t'[n]?.isSome = t[n]?.isSome) : n ∈ t' ↔ n ∈ t := by
  rw [Std.ExtTreeMap.mem_iff_isSome_getElem?, Std.ExtTreeMap.mem_iff_isSome_getElem?, h]

theorem Queue.mem_delTimer (q : Queue) (id n : Nat) : n ∈ (q.delTimer id).waits ↔ n ∈ q.waits := by
  apply mem_congr_waits
  rw [q.getElem?_delTimer, Option.isSome_map]

theorem Queue.mem_deinit (q : Queue) (n : Nat) : n ∈ q.deinit.waits ↔ n ∈ q.waits := by
  apply mem_congr_waits
  rw [Queue.deinit, Std.ExtTreeMap.getElem?_map, Option.isSome_map]

theorem Queue.calls_delTimer (q : Queue) (id n : Nat) : (q.delTimer id).calls n = q.calls n := by
  rw [q.delTimer_eq id]
  rfl

theorem Queue.pending_delTimer (q : Queue) (id n : Nat) :
    (q.delTimer id).pending n = q.pending n := by
  rw [Queue.pending, Queue.pending]
  simp only [q.mem_delTimer]

theorem Queue.calls_pushCall (q : Queue) (source : Option Nat) (call : Call) (n : Nat) :
    (q.pushCall source call).calls n =
      q.calls n + if q.enabled ∧ source = some n then 1 else 0 := by
  rw [Queue.pushCall_eq, Queue.calls, Queue.calls]
  cases q.enabled with
  | false => simp
  | true =>
      simp only [if_true, ← List.append_assoc, List.countP_append, List.countP_singleton,
        true_and]
      by_cases hsource : source = some n
      · simp [hsource]
      · simp [hsource]

theorem Queue.calls_handler (q : Queue) (object : Nat) (w : Wait) (n : Nat) :
    (q.timerHandler object w).calls n =
      q.calls n + if object = n ∧ q.working ∧ q.alive ∧ q.enabled then 1 else 0 := by
  rw [Queue.timerHandler]
  cases hworking : q.working with
  | false => simp
  | true =>
      cases halive : q.alive with
      | false => simp
      | true =>
          simp only [if_true, true_and]
          rw [Queue.calls_delTimer, Queue.calls_pushCall]
          simp only [Option.some.injEq, and_comm]

theorem Queue.pending_handler (q : Queue) (object : Nat) (w : Wait) (n : Nat) :
    (q.timerHandler object w).pending n = q.pending n := by
  rw [Queue.timerHandler]
  split
  · split
    · rw [Queue.pending_delTimer, Queue.pushCall_eq]
      rfl
    · rfl
  · rfl

theorem Queue.made_handler (q : Queue) (object : Nat) (w : Wait) :
    (q.timerHandler object w).made = q.made := by
  rw [Queue.timerHandler]
  split
  · split
    · rw [Queue.delTimer_eq, Queue.pushCall_eq]
    · rfl
  · rfl

/-- **Conservation.** What a step takes from the waits and the calls of a timer is what it loses,
and it adds to them only the timer that it makes. -/
theorem Queue.conserved (hcoherent : q.Coherent) (hstep : q.step a = some q') (n : Nat) :
    q'.calls n + q'.pending n + q.lost n a =
      q.calls n + q.pending n + if q.made ≤ n ∧ n < q'.made then 1 else 0 := by
  cases a with
  | tick | index | setEnable | release =>
      cases hstep
      rw [if_neg fun h => Nat.not_lt.mpr h.1 h.2]
      rfl
  | post call =>
      cases hstep
      have hsame : (q.pushCall none call).pending n = q.pending n ∧
          (q.pushCall none call).made = q.made := by
        rw [Queue.pushCall_eq]
        exact ⟨rfl, rfl⟩
      rw [Queue.calls_pushCall, hsame.1, hsame.2, if_neg (by rintro ⟨-, ⟨⟩⟩),
        if_neg fun h => Nat.not_lt.mpr h.1 h.2]
      rfl
  | timerPost callee timeout params =>
      cases hstep
      cases callee with
      | none =>
          rw [if_neg fun h => Nat.not_lt.mpr h.1 h.2]
          rfl
      | some callee =>
          rw [hcoherent.timerPost]
          rw [Queue.pending, Queue.pending]
          simp only [Queue.lost, Std.ExtTreeMap.mem_insert, Nat.compare_eq_eq]
          have hnew : q.made ∉ q.waits := by
            rw [Std.ExtTreeMap.mem_iff_isSome_getElem?]
            intro hsome
            rcases Option.isSome_iff_exists.mp hsome with ⟨w, hw⟩
            exact Nat.lt_irrefl _ (hcoherent.bound _ w hw).1
          by_cases hn : q.made = n
          · subst hn
            simp [hnew, Queue.calls]
          · have hno : ¬ (q.made ≤ n ∧ n < q.made + 1) := by omega
            rw [if_neg hno]
            simp [hn, Queue.calls]
  | timerCancel id =>
      cases hstep
      have hsame : (q.timerCancel id).calls n = q.calls n ∧
          (q.timerCancel id).pending n = q.pending n ∧ (q.timerCancel id).made = q.made := by
        rw [Queue.timerCancel]
        split
        · refine ⟨q.calls_delTimer id n, q.pending_delTimer id n, ?_⟩
          rw [q.delTimer_eq id]
        · exact ⟨rfl, rfl, rfl⟩
      rw [hsame.1, hsame.2.1, hsame.2.2, if_neg fun h => Nat.not_lt.mpr h.1 h.2]
      rfl
  | expire object =>
      rw [Queue.step] at hstep
      split at hstep
      · cases hstep
      · next w hw =>
          split at hstep
          · cases hstep
            have hmem : ∀ v : Wait, n ∈ q.waits.insert object v ↔ n ∈ q.waits := by
              intro v
              rw [Table.mem_insert_iff]
              apply or_iff_right_of_imp
              rintro rfl
              exact (Table.mem_iff_exists _ _).mpr ⟨w, hw⟩
            rw [if_neg fun h => Nat.not_lt.mpr h.1 h.2, Queue.pending, Queue.pending]
            simp only [hmem]
            rfl
          · cases hstep
  | handle object =>
      rw [Queue.step] at hstep
      split at hstep
      · cases hstep
      · next w hw =>
          split at hstep
          · cases hstep
          · cases hstep
            have hmade := Queue.made_handler { q with waits := q.waits.erase object } object w
            rw [Queue.calls_handler, Queue.pending_handler, hmade,
              if_neg (c := q.made ≤ n ∧ n < q.made) fun h => Nat.not_lt.mpr h.1 h.2]
            have hmem : object ∈ q.waits := (Table.mem_iff_exists _ _).mpr ⟨w, hw⟩
            simp only [Queue.pending, Queue.lost, Table.mem_erase_iff, Queue.calls]
            by_cases hn : object = n
            · subst hn
              by_cases hserved : q.working = true ∧ q.alive = true ∧ q.enabled = true
              · simp [hmem, hserved]
              · simp [hmem, hserved]
            · simp [hn]
  | call =>
      rw [Queue.step] at hstep
      split at hstep
      · cases hstep
      · next p rest hstrand =>
          cases hstep
          rw [if_neg (c := q.made ≤ n ∧ n < q.made) fun h => Nat.not_lt.mpr h.1 h.2]
          simp only [Queue.pending, Queue.lost, Queue.calls, hstrand, List.head?_cons,
            Option.bind_some]
          cases q.alive with
          | true => simp
          | false =>
              simp only [Bool.false_eq_true, if_false, not_false_eq_true, true_and,
                List.countP_append, List.countP_cons, decide_eq_true_eq]
              omega
  | deinit =>
      cases hstep
      rw [if_neg fun h => Nat.not_lt.mpr h.1 h.2, Queue.pending, Queue.pending]
      simp only [q.mem_deinit]
      rfl

/-! ## Once -/

/-- A handler runs while the module works and calls are taken, and a call of a timer is made
while there is a caller. -/
def Serves (q : Queue) : QueueAction → Prop
  | .handle _ => q.working ∧ q.alive ∧ q.enabled
  | .call => q.alive ∨ q.strand.head?.bind Posted.source = none
  | _ => True

/-- Each timer that was made has either a wait or a call. -/
def Queue.Once (q : Queue) : Prop := ∀ n < q.made, q.calls n + q.pending n = 1

theorem Queue.made_le (hcoherent : q.Coherent) (hstep : q.step a = some q') :
    q.made ≤ q'.made := by
  cases a with
  | tick | index | setEnable | release | deinit =>
      cases hstep
      exact Nat.le_refl _
  | post call =>
      cases hstep
      rw [Queue.pushCall_eq]
  | timerPost callee timeout params =>
      cases hstep
      cases callee with
      | none => exact Nat.le_refl _
      | some callee =>
          rw [hcoherent.timerPost]
          exact Nat.le_succ _
  | timerCancel id =>
      cases hstep
      rw [Queue.timerCancel]
      split
      · rw [q.delTimer_eq id]
      · exact Nat.le_refl _
  | expire object =>
      rw [Queue.step] at hstep
      split at hstep
      · cases hstep
      · split at hstep
        · cases hstep
          exact Nat.le_refl _
        · cases hstep
  | handle object =>
      rw [Queue.step] at hstep
      split at hstep
      · cases hstep
      · split at hstep
        · cases hstep
        · cases hstep
          rw [Queue.made_handler]
  | call =>
      rw [Queue.step] at hstep
      split at hstep
      · cases hstep
      · cases hstep
        exact Nat.le_refl _

/-- Timers that were made have one wait or call, and others have none. -/
structure Queue.Accounted (q : Queue) : Prop where
  coherent : q.Coherent
  once : ∀ n, q.calls n + q.pending n = if n < q.made then 1 else 0

theorem lost_of_serves (hserves : Serves q a) (n : Nat) : q.lost n a = 0 := by
  cases a with
  | handle object => exact if_neg fun h => h.2 hserves
  | call =>
      apply if_neg
      rintro ⟨hdead, hsource⟩
      rcases hserves with halive | hnone
      · exact hdead halive
      · rw [hnone] at hsource
        cases hsource
  | _ => rfl

theorem Queue.Accounted.step (haccounted : q.Accounted) (hserves : Serves q a)
    (hstep : q.step a = some q') : q'.Accounted where
  coherent := haccounted.coherent.step hstep
  once n := by
    have hconserved := Queue.conserved haccounted.coherent hstep n
    have hle := Queue.made_le haccounted.coherent hstep
    rw [lost_of_serves hserves, haccounted.once n] at hconserved
    rw [Nat.add_zero] at hconserved
    rw [hconserved]
    split <;> split <;> split <;> omega

/-- A step that loses a call of a timer leaves it without wait and call. -/
theorem serves_of_once (haccounted : q.Accounted) (hstep : q.step a = some q')
    (honce : q'.Once) : Serves q a := by
  have hlost : ∀ n < q.made, q.lost n a = 0 := by
    intro n hn
    have hconserved := Queue.conserved haccounted.coherent hstep n
    have hle := Queue.made_le haccounted.coherent hstep
    rw [haccounted.once n, honce n (by omega), if_pos hn,
      if_neg fun h => Nat.not_lt.mpr h.1 hn] at hconserved
    omega
  cases a with
  | handle object =>
      by_contra hno
      rw [Queue.step] at hstep
      split at hstep
      · cases hstep
      · next w hw =>
          have hzero := hlost object (haccounted.coherent.bound object w hw).1
          rw [Queue.lost, if_pos ⟨rfl, hno⟩] at hzero
          cases hzero
  | call =>
      cases hsource : q.strand.head?.bind Posted.source with
      | none => exact Or.inr hsource
      | some n =>
          left
          by_contra hdead
          have hcalls : 0 < q.calls n := by
            rw [Queue.calls, List.countP_pos_iff]
            rcases Option.bind_eq_some_iff.mp hsource with ⟨p, hp, hpn⟩
            refine ⟨p, List.mem_append_right _ (List.mem_of_mem_head? hp), ?_⟩
            rw [hpn, decide_eq_true_eq]
          have hmade : n < q.made := by
            by_contra hge
            have hzero := haccounted.once n
            rw [if_neg hge] at hzero
            omega
          have hzero := hlost n hmade
          rw [Queue.lost, if_pos ⟨hdead, hsource⟩] at hzero
          cases hzero
  | _ => trivial

theorem start_accounted : Queue.start.Accounted where
  coherent := start_coherent
  once n := by
    rw [Queue.pending, if_neg]
    · rfl
    · exact Std.ExtTreeMap.not_mem_empty

/-- **Every timer is served once.** Along a run each timer has either its wait or one call, made
or in the strand, exactly when handlers run only while the module works, its caller is there
and calls are taken, and calls of timers are made only while the caller is there. -/
theorem each_timer_once_iff (as : List QueueAction) :
    queueRuns.Along Queue.Once as ↔ queueRuns.Meets Serves as := by
  have hstart : Queue.Accounted queueRuns.init := start_accounted
  apply along_iff_meets hstart
  · exact fun q a q' hq hserves hstep => hq.step hserves hstep
  · intro q hq n hn
    rw [hq.once n, if_pos hn]
  · exact fun q a q' hq hstep honce => serves_of_once hq hstep honce

end FerroRemote.Lua.EventQueue

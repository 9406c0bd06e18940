/-
# What the function of a timer is called with

The arguments are those that the script posted, and what stands in front of them tells how
the timer ended: nothing, when its time had come, and never before; the text of an error, when
the timer was cancelled or destroyed while it was waiting. A cancellation that comes after the
time has run out changes nothing: the function is called as if it had not been.
-/

import FerroRemote.Lua.TimerRuns
import FerroRemote.Math.Histories

namespace FerroRemote.Lua.EventQueue

open Machine

variable {q q' : Queue} {a : QueueAction} {as : List QueueAction} {n : Nat}

/-- The history has made the timer with a number as it was posted, and tells how far it is: its
time has come since then or not, and it was aborted only through its own handle or with all
others. -/
def Made (as : List QueueAction) (n : Nat) (w : Wait) : Prop :=
  ∃ before timeout after before', as =
      before ++ .timerPost (some w.call.callee) timeout w.call.params :: after ∧
    queueRuns.run before = some before' ∧ before'.made = n ∧ before'.index = w.id ∧
    w.deadline = before'.now + timeout.total ∧
    (w.progress = .expired ↔ .expire n ∈ after) ∧
    (w.progress = .aborted → .timerCancel w.id ∈ after ∨ .deinit ∈ after)

/-- How a wait changes with a step -/
structure Changed (a : QueueAction) (n : Nat) (v w : Wait) : Prop where
  id : w.id = v.id
  call : w.call = v.call
  deadline : w.deadline = v.deadline
  expired : w.progress = .expired ↔ v.progress = .expired ∨ a = .expire n
  aborted : w.progress = .aborted →
    v.progress = .aborted ∨ a = .timerCancel v.id ∨ a = .deinit

theorem Changed.refl {w : Wait} (ha : a ≠ .expire n) : Changed a n w w :=
  ⟨rfl, rfl, rfl, (or_iff_left ha).symm, Or.inl⟩

theorem Made.change {v w : Wait} (hmade : Made as n v) (hchanged : Changed a n v w) :
    Made (as ++ [a]) n w := by
  rcases hmade with
    ⟨before, timeout, after, before', rfl, hrun, hn, hid, hdeadline, hexpired, haborted⟩
  refine ⟨before, timeout, after ++ [a], before', ?_, hrun, hn, ?_, ?_, ?_, ?_⟩
  · rw [List.append_assoc, List.cons_append, hchanged.call]
  · rw [hid, hchanged.id]
  · rw [hchanged.deadline, hdeadline]
  · rw [hchanged.expired, hexpired, List.mem_append, List.mem_singleton, eq_comm (a := a)]
  · intro hprogress
    simp only [List.mem_append, List.mem_singleton, hchanged.id]
    rcases hchanged.aborted hprogress with hbefore | rfl | rfl
    · exact (haborted hbefore).imp Or.inl Or.inl
    · exact Or.inl (Or.inr rfl)
    · exact Or.inr (Or.inr rfl)

theorem Changed.dropped {hit : Prop} [Decidable hit] {v : Wait} (ha : a ≠ .expire n)
    (hhit : hit → a = .timerCancel v.id ∨ a = .deinit) :
    Changed a n v (Queue.dropped hit v) := by
  rw [Queue.dropped]
  split
  · next h =>
      refine ⟨rfl, rfl, rfl, iff_of_false (by rintro ⟨⟩) ?_, fun _ => Or.inr (hhit h.1)⟩
      rw [h.2]
      exact not_or.mpr ⟨(by rintro ⟨⟩), ha⟩
  · exact Changed.refl ha

/-- A wait after a step is one from before it, or a new one. -/
def FromBefore (q : Queue) (a : QueueAction) (n : Nat) (w : Wait) : Prop :=
  (∃ v, q.waits[n]? = some v ∧ Changed a n v w ∧ (a = .expire n → v.deadline ≤ q.now)) ∨
    (n = q.made ∧ w.id = q.index ∧ w.progress = .waiting ∧ ∃ timeout,
      a = .timerPost (some w.call.callee) timeout w.call.params ∧
      w.deadline = q.now + timeout.total)

theorem FromBefore.same {w : Wait} (hw : q.waits[n]? = some w) (ha : a ≠ .expire n) :
    FromBefore q a n w :=
  Or.inl ⟨w, hw, Changed.refl ha, fun h => absurd h ha⟩

theorem FromBefore.dropped {v : Wait} (hv : q.waits[n]? = some v) {hit : Prop} [Decidable hit]
    (ha : a ≠ .expire n) (hhit : hit → a = .timerCancel v.id ∨ a = .deinit) :
    FromBefore q a n (Queue.dropped hit v) :=
  Or.inl ⟨v, hv, Changed.dropped ha hhit, fun h => absurd h ha⟩

/-- The handler of a timer takes only this timer out of the map. -/
theorem FromBefore.handler (hcoherent : q.Coherent) {object : Nat} {v w : Wait}
    (hv : q.waits[object]? = some v)
    (hw : (({ q with waits := q.waits.erase object } : Queue).timerHandler object v).waits[n]? =
      some w) (ha : a ≠ .expire n) : FromBefore q a n w := by
  have herased : ∀ u : Wait, (q.waits.erase object)[n]? = some u →
      object ≠ n ∧ q.waits[n]? = some u := fun u hu => Table.getElem?_erase_eq_some_iff.mp hu
  rw [Queue.timerHandler] at hw
  split at hw
  · split at hw
    · rw [Queue.getElem?_delTimer, Queue.pushCall_eq, Option.map_eq_some_iff] at hw
      rcases hw with ⟨u, hu, rfl⟩
      rcases herased u hu with ⟨hne, hold⟩
      apply FromBefore.dropped hold ha
      intro hit
      have hid := (hcoherent.entry v.id n u hit hold).1
      exact absurd (hcoherent.unique object n v u hv hold hid.symm) hne
    · exact FromBefore.same (herased w hw).2 ha
  · exact FromBefore.same (herased w hw).2 ha

theorem wait_of_step (hcoherent : q.Coherent) (hstep : q.step a = some q') {w : Wait}
    (hw : q'.waits[n]? = some w) : FromBefore q a n w := by
  cases a with
  | tick | index | setEnable | release =>
      cases hstep
      exact FromBefore.same hw (by rintro ⟨⟩)
  | post call =>
      cases hstep
      rw [Queue.pushCall_eq] at hw
      exact FromBefore.same hw (by rintro ⟨⟩)
  | timerPost callee timeout params =>
      cases hstep
      cases callee with
      | none => exact FromBefore.same hw (by rintro ⟨⟩)
      | some callee =>
          rw [hcoherent.timerPost] at hw
          dsimp only at hw
          rw [Table.getElem?_insert_eq] at hw
          split at hw
          · next heq =>
              cases hw
              exact Or.inr ⟨heq.symm, rfl, rfl, timeout, rfl, rfl⟩
          · exact FromBefore.same hw (by rintro ⟨⟩)
  | timerCancel id =>
      cases hstep
      rw [Queue.timerCancel] at hw
      split at hw
      · rw [q.getElem?_delTimer, Option.map_eq_some_iff] at hw
        rcases hw with ⟨v, hv, rfl⟩
        have ha : QueueAction.timerCancel id ≠ .expire n := (by rintro ⟨⟩)
        apply FromBefore.dropped hv ha
        intro hit
        rw [(hcoherent.entry id n v hit hv).1]
        exact Or.inl rfl
      · exact FromBefore.same hw (by rintro ⟨⟩)
  | expire object =>
      rw [Queue.step] at hstep
      split at hstep
      · cases hstep
      · next v hv =>
          split at hstep
          · next hready =>
              cases hstep
              dsimp only at hw
              rw [Table.getElem?_insert_eq] at hw
              split at hw
              · next heq =>
                  cases hw
                  subst heq
                  exact Or.inl ⟨v, hv,
                    ⟨rfl, rfl, rfl, iff_of_true rfl (Or.inr rfl), (by rintro ⟨⟩)⟩,
                    fun _ => hready.2⟩
              · next hne =>
                  apply FromBefore.same hw
                  rintro ⟨⟩
                  exact hne rfl
          · cases hstep
  | handle object =>
      rw [Queue.step] at hstep
      split at hstep
      · cases hstep
      · next v hv =>
          split at hstep
          · cases hstep
          · cases hstep
            exact FromBefore.handler hcoherent hv hw (by rintro ⟨⟩)
  | call =>
      rw [Queue.step] at hstep
      split at hstep
      · cases hstep
      · cases hstep
        exact FromBefore.same hw (by rintro ⟨⟩)
  | deinit =>
      cases hstep
      rw [Queue.deinit, Std.ExtTreeMap.getElem?_map, Option.map_eq_some_iff] at hw
      rcases hw with ⟨v, hv, rfl⟩
      exact FromBefore.dropped hv (by rintro ⟨⟩) fun _ => Or.inr rfl

/-- A call of a timer after a step was there before it, or the handler of a wait has posted
it. -/
theorem posted_of_step (hstep : q.step a = some q') {p : Posted}
    (hp : p ∈ q'.called ++ q'.strand) (hsource : p.source = some n) :
    p ∈ q.called ++ q.strand ∨
      ∃ w, a = .handle n ∧ q.waits[n]? = some w ∧ w.progress ≠ .waiting ∧
        p.call = { w.call with params := Queue.outcome w.progress :: w.call.params } := by
  cases a with
  | tick | index | setEnable | release | deinit =>
      cases hstep
      exact Or.inl hp
  | post call =>
      cases hstep
      rw [Queue.pushCall_eq] at hp
      dsimp only at hp
      split at hp
      · rw [← List.append_assoc, List.mem_append, List.mem_singleton] at hp
        rcases hp with hp | rfl
        · exact Or.inl hp
        · cases hsource
      · exact Or.inl hp
  | timerPost callee timeout params =>
      cases hstep
      cases callee with
      | none => exact Or.inl hp
      | some callee =>
          have hsame : (q.timerPost (some callee) timeout params).2.called = q.called ∧
              (q.timerPost (some callee) timeout params).2.strand = q.strand := by
            rw [Queue.timerPost]
            dsimp only [Queue.addTimer]
            rw [Queue.delTimer_eq]
            exact ⟨rfl, rfl⟩
          rw [hsame.1, hsame.2] at hp
          exact Or.inl hp
  | timerCancel id =>
      cases hstep
      rw [Queue.timerCancel] at hp
      split at hp
      · rw [q.delTimer_eq id] at hp
        exact Or.inl hp
      · exact Or.inl hp
  | expire object =>
      rw [Queue.step] at hstep
      split at hstep
      · cases hstep
      · split at hstep
        · cases hstep
          exact Or.inl hp
        · cases hstep
  | handle object =>
      rw [Queue.step] at hstep
      split at hstep
      · cases hstep
      · next w hw =>
          split at hstep
          · cases hstep
          · next hdone =>
              cases hstep
              rw [Queue.timerHandler] at hp
              split at hp
              · split at hp
                · rw [Queue.delTimer_eq, Queue.pushCall_eq] at hp
                  dsimp only at hp
                  split at hp
                  · rw [← List.append_assoc, List.mem_append, List.mem_singleton] at hp
                    rcases hp with hp | rfl
                    · exact Or.inl hp
                    · cases hsource
                      exact Or.inr ⟨w, rfl, hw, hdone, rfl⟩
                  · exact Or.inl hp
                · exact Or.inl hp
              · exact Or.inl hp
  | call =>
      rw [Queue.step] at hstep
      split at hstep
      · cases hstep
      · next first rest hstrand =>
          cases hstep
          left
          rw [hstrand]
          dsimp only at hp
          split at hp
          · rwa [List.append_assoc, List.singleton_append] at hp
          · rw [List.mem_append] at hp ⊢
            exact hp.imp_right (List.mem_cons_of_mem _)

theorem now_le (hstep : q.step a = some q') : q.now ≤ q'.now := by
  cases a with
  | tick elapsed =>
      cases hstep
      exact Nat.le_add_right _ _
  | index | setEnable | release | deinit =>
      cases hstep
      exact Nat.le_refl _
  | post call =>
      cases hstep
      rw [Queue.pushCall_eq]
  | timerPost callee timeout params =>
      cases hstep
      cases callee with
      | none => exact Nat.le_refl _
      | some callee =>
          rw [Queue.timerPost]
          dsimp only [Queue.addTimer]
          rw [Queue.delTimer_eq]
          exact Nat.le_refl _
  | timerCancel id =>
      cases hstep
      rw [Queue.timerCancel]
      split
      · rw [q.delTimer_eq id]
      · exact Nat.le_refl _
  | expire object =>
      rw [Queue.step] at hstep
      split at hstep
      · cases hstep
      · split at hstep
        · cases hstep
          exact Nat.le_refl _
        · cases hstep
  | handle object =>
      rw [Queue.step] at hstep
      split at hstep
      · cases hstep
      · split at hstep
        · cases hstep
        · cases hstep
          rw [Queue.timerHandler]
          split
          · split
            · rw [Queue.delTimer_eq, Queue.pushCall_eq]
            · exact Nat.le_refl _
          · exact Nat.le_refl _
  | call =>
      rw [Queue.step] at hstep
      split at hstep
      · cases hstep
      · cases hstep
        exact Nat.le_refl _

/-- A call that the history explains: the arguments posted, after what tells how the timer
ended. -/
def Explained (as : List QueueAction) (q : Queue) (n : Nat) (c : Call) : Prop :=
  ∃ w, Made as n w ∧ w.progress ≠ .waiting ∧ (w.progress = .expired → w.deadline ≤ q.now) ∧
    c = { w.call with params := Queue.outcome w.progress :: w.call.params }

/-- What the history says about the waits and the calls -/
structure Recorded (as : List QueueAction) (q : Queue) : Prop where
  coherent : q.Coherent
  once : ∀ n, q.calls n + q.pending n ≤ if n < q.made then 1 else 0
  waits : ∀ (n : Nat) (w : Wait), q.waits[n]? = some w →
    Made as n w ∧ (w.progress = .expired → w.deadline ≤ q.now)
  calls : ∀ p ∈ q.called ++ q.strand, ∀ n, p.source = some n → Explained as q n p.call

theorem Queue.once_step (hcoherent : q.Coherent)
    (honce : ∀ n, q.calls n + q.pending n ≤ if n < q.made then 1 else 0)
    (hstep : q.step a = some q') (n : Nat) :
    q'.calls n + q'.pending n ≤ if n < q'.made then 1 else 0 := by
  have hconserved := Queue.conserved hcoherent hstep n
  have hle := Queue.made_le hcoherent hstep
  have hold := honce n
  split at hconserved <;> split at hold <;> split <;> omega

/-- A timer that has a call has no wait, so its time does not come any more. -/
theorem not_expire_of_call
    (honce : ∀ n, q.calls n + q.pending n ≤ if n < q.made then 1 else 0) {p : Posted}
    (hp : p ∈ q.called ++ q.strand) (hsource : p.source = some n)
    (hstep : q.step a = some q') : a ≠ .expire n := by
  rintro rfl
  have hcalls : 0 < q.calls n := by
    rw [Queue.calls, List.countP_pos_iff]
    exact ⟨p, hp, decide_eq_true hsource⟩
  have hle := honce n
  rw [Queue.step] at hstep
  split at hstep
  · cases hstep
  · next w hw =>
      rw [Queue.pending, if_pos ((Table.mem_iff_exists _ _).mpr ⟨w, hw⟩)] at hle
      split at hle <;> omega

theorem Recorded.step (hrecorded : Recorded as q) (hrun : queueRuns.run as = some q)
    (hstep : q.step a = some q') : Recorded (as ++ [a]) q' where
  coherent := hrecorded.coherent.step hstep
  once := Queue.once_step hrecorded.coherent hrecorded.once hstep
  waits n w hw := by
    have hnow := now_le hstep
    rcases wait_of_step hrecorded.coherent hstep hw with
      ⟨v, hv, hchanged, hready⟩ | ⟨rfl, hid, hwaiting, timeout, rfl, hdeadline⟩
    · rcases hrecorded.waits n v hv with ⟨hmade, hdue⟩
      refine ⟨hmade.change hchanged, fun hexpired => ?_⟩
      rw [hchanged.deadline]
      rcases hchanged.expired.mp hexpired with hbefore | ha
      · exact (hdue hbefore).trans hnow
      · exact (hready ha).trans hnow
    · refine ⟨⟨as, timeout, [], q, rfl, hrun, rfl, hid.symm, hdeadline, ?_, ?_⟩, ?_⟩
      · exact iff_of_false (by rw [hwaiting]; exact (by rintro ⟨⟩)) List.not_mem_nil
      · exact fun haborted => absurd (hwaiting.symm.trans haborted) (by rintro ⟨⟩)
      · exact fun hexpired => absurd (hwaiting.symm.trans hexpired) (by rintro ⟨⟩)
  calls p hp n hsource := by
    have hnow := now_le hstep
    rcases posted_of_step hstep hp hsource with hbefore | ⟨w, rfl, hw, hdone, hcall⟩
    · have hno := not_expire_of_call hrecorded.once hbefore hsource hstep
      rcases hrecorded.calls p hbefore n hsource with ⟨w, hmade, hdone, hdue, hcall⟩
      exact ⟨w, hmade.change (Changed.refl hno), hdone, fun h => (hdue h).trans hnow, hcall⟩
    · rcases hrecorded.waits n w hw with ⟨hmade, hdue⟩
      exact ⟨w, hmade.change (Changed.refl (by rintro ⟨⟩)), hdone, fun h => (hdue h).trans hnow,
        hcall⟩

theorem start_recorded : Recorded [] Queue.start where
  coherent := start_coherent
  once n := (start_accounted.once n).le
  waits n w hw := absurd hw (Table.getElem?_empty_ne n w)
  calls _ hp := absurd hp List.not_mem_nil

/-- **What a timer's function is called with.** In every run a timer has at most one call, made or
in the strand. It has the arguments that were posted, after nothing exactly when the time of
the timer had come, which is never early, and otherwise after the text of an error, which
needs a cancellation of its own handle or of all timers. -/
theorem timer_calls_explained {as : List QueueAction} {q : Queue}
    (hrun : queueRuns.run as = some q) :
    (∀ n, q.calls n ≤ 1) ∧
      ∀ p ∈ q.called ++ q.strand, ∀ n, p.source = some n → Explained as q n p.call := by
  have hrecorded : Recorded as q := history_induction (P := Recorded) start_recorded
    (fun as s a s' hrun hs hstep => hs.step hrun hstep) hrun
  refine ⟨fun n => ?_, hrecorded.calls⟩
  have hle := hrecorded.once n
  split at hle <;> omega

/-- Two timers, one cancelled while it waits and one too late -/
def cancellations : List QueueAction :=
  [.setEnable true, .timerPost (some (.function 1)) ⟨1, 0, 0⟩ [.boolean true],
    .timerPost (some (.function 2)) ⟨0, 5, 0⟩ [], .timerCancel 100, .tick 5000, .expire 1,
    .timerCancel 101, .handle 1, .handle 0, .call]

theorem timer_calls_explained_of_cancellations :
    ∃ q, queueRuns.run cancellations = some q ∧ (∀ n, q.calls n ≤ 1) ∧
      ∀ p ∈ q.called ++ q.strand, ∀ n, p.source = some n → Explained cancellations q n p.call :=
  ⟨_, rfl, timer_calls_explained rfl⟩

end FerroRemote.Lua.EventQueue

/-
# Threads, mutexes and lock order

Threads run straight-line programs over a shared state. A program acquires and
releases non-recursive mutexes in a nested fashion and does everything else in
labelled local actions, whose outcome decides how it goes on. Any thread that
has finished may be started again with another program.

The discipline is the usual one: a thread only asks for a mutex that ranks above
all it holds. It is stated relative to a guard on labelled actions, because a
program may keep it on some outcomes and break it on others; breaking it has to
mean running straight into a mutex the thread already holds. Then the runs
without self-deadlock and without a circular wait are exactly the guarded ones.
-/

import Mathlib.Logic.Relation
import FerroRemote.Math.Machine

namespace FerroRemote

universe u

/-- A program over locks `L`, labels `A` and a shared state `σ`. A local action
changes the state and reads what comes next off the state it found. -/
inductive Program (L A σ : Type u) : Type u
  | done
  | acquire (lock : L) (next : Program L A σ)
  | release (lock : L) (next : Program L A σ)
  | act (label : A) (effect : σ → σ) (next : σ → Program L A σ)

namespace Program

variable {L A σ : Type u}

/-- A local action with a result. -/
def compute {β : Type u} (label : A) (f : σ → β × σ) (next : β → Program L A σ) : Program L A σ :=
  .act label (fun s => (f s).2) fun s => next (f s).1

/-- The program next asks for a lock from the list. -/
def Asks (held : List L) : Program L A σ → Prop
  | .acquire lock _ => lock ∈ held
  | _ => False

/-- Run by a thread that holds `held`, innermost first, the program keeps the
order of `rank`, as long as its labelled actions meet `guard`; a labelled action
that does not is followed by a request for a lock already held. -/
def Disciplined (rank : L → Nat) (guard : σ → A → Prop) : List L → Program L A σ → Prop
  | held, .done => held = []
  | held, .acquire lock next =>
    (∀ m ∈ held, rank m < rank lock) ∧ Disciplined rank guard (lock :: held) next
  | held, .release lock next =>
    ∃ rest, held = lock :: rest ∧ Disciplined rank guard rest next
  | held, .act label _ next =>
    ∀ s, (guard s label → Disciplined rank guard held (next s)) ∧
      (¬ guard s label → (next s).Asks held)

variable {rank : L → Nat} {guard : σ → A → Prop} {held : List L}

theorem Disciplined.acquire {lock : L} {next : Program L A σ}
    (habove : ∀ m ∈ held, rank m < rank lock) (hnext : Disciplined rank guard (lock :: held) next) :
    Disciplined rank guard held (.acquire lock next) :=
  ⟨habove, hnext⟩

theorem Disciplined.release {lock : L} {next : Program L A σ}
    (hnext : Disciplined rank guard held next) :
    Disciplined rank guard (lock :: held) (.release lock next) :=
  ⟨held, rfl, hnext⟩

theorem Disciplined.act {label : A} {effect : σ → σ} {next : σ → Program L A σ}
    (hfree : ∀ s, guard s label) (hnext : ∀ s, Disciplined rank guard held (next s)) :
    Disciplined rank guard held (.act label effect next) :=
  fun s => ⟨fun _ => hnext s, fun hforbidden => absurd (hfree s) hforbidden⟩

theorem Disciplined.compute {β : Type u} {label : A} {f : σ → β × σ} {next : β → Program L A σ}
    (hfree : ∀ s, guard s label) (hnext : ∀ b, Disciplined rank guard held (next b)) :
    Disciplined rank guard held (.compute label f next) :=
  .act hfree fun s => hnext (f s).1

/-- What a program does to the state when no other thread interferes. -/
def alone : Program L A σ → σ → σ
  | .done, s => s
  | .acquire _ next, s | .release _ next, s => next.alone s
  | .act _ effect next, s => (next s).alone (effect s)

@[simp]
theorem alone_done (s : σ) : (.done : Program L A σ).alone s = s := rfl

@[simp]
theorem alone_acquire (lock : L) (next : Program L A σ) (s : σ) :
    (Program.acquire lock next).alone s = next.alone s := rfl

@[simp]
theorem alone_release (lock : L) (next : Program L A σ) (s : σ) :
    (Program.release lock next).alone s = next.alone s := rfl

@[simp]
theorem alone_act (label : A) (effect : σ → σ) (next : σ → Program L A σ) (s : σ) :
    (Program.act label effect next).alone s = (next s).alone (effect s) := rfl

@[simp]
theorem alone_compute {β : Type u} (label : A) (f : σ → β × σ) (next : β → Program L A σ) (s : σ) :
    (Program.compute label f next).alone s = (next (f s).1).alone (f s).2 := rfl

end Program

/-- Threads over a shared state, and who holds which mutex. -/
structure LockState (T L A σ : Type u) where
  shared : σ
  threads : T → Program L A σ
  holder : L → Option T

/-- A thread that has finished starts a program, or a thread takes a step. -/
inductive LockAction (T Q : Type u)
  | start (t : T) (request : Q)
  | run (t : T)

variable {T L A σ Q : Type u} [DecidableEq T] [DecidableEq L]

namespace LockState

/-- Thread `t` goes on with `p`. -/
def goOn (s : LockState T L A σ) (t : T) (p : Program L A σ) : LockState T L A σ :=
  { s with threads := Function.update s.threads t p }

/-- One step of a thread. A mutex that is held is not available to anyone. -/
def runThread (s : LockState T L A σ) (t : T) : Option (LockState T L A σ) :=
  match s.threads t with
  | .done => none
  | .acquire lock next =>
    if s.holder lock = none then
      some { s.goOn t next with holder := Function.update s.holder lock (some t) }
    else none
  | .release lock next => some { s.goOn t next with holder := Function.update s.holder lock none }
  | .act _ effect next => some { s.goOn t (next s.shared) with shared := effect s.shared }

/-- A finished thread takes up a program. -/
def startThread (program : σ → T → Q → Option (Program L A σ)) (s : LockState T L A σ) (t : T)
    (request : Q) : Option (LockState T L A σ) :=
  match s.threads t with
  | .done => (program s.shared t request).map fun p => s.goOn t p
  | _ => none

/-- What each thread holds, and that it goes on in order. -/
def Orderly (rank : L → Nat) (guard : σ → A → Prop) (s : LockState T L A σ) : Prop :=
  ∃ held : T → List L, (∀ t lock, s.holder lock = some t ↔ lock ∈ held t) ∧
    (∀ t, (held t).Pairwise fun l m => rank m < rank l) ∧
    ∀ t, (s.threads t).Disciplined rank guard (held t)

end LockState

/-- The machine of threads: `program` says what a thread may be started with. -/
def lockMachine (start : σ) (program : σ → T → Q → Option (Program L A σ)) :
    Machine (LockState T L A σ) (LockAction T Q) where
  init := ⟨start, fun _ => .done, fun _ => none⟩
  step s
    | .start t request => s.startThread program t request
    | .run t => s.runThread t

namespace LockState

variable {rank : L → Nat} {guard : σ → A → Prop} {s s' : LockState T L A σ}
  {program : σ → T → Q → Option (Program L A σ)}

/-- The labelled action a step takes meets the guard. -/
def Allowed (guard : σ → A → Prop) (s : LockState T L A σ) : LockAction T Q → Prop
  | .start _ _ => True
  | .run t =>
    match s.threads t with
    | .act label _ _ => guard s.shared label
    | _ => True

omit [DecidableEq L] in
/-- A thread that moves on to `p` while holding `now`. -/
theorem Orderly.goOn {held : T → List L} {t : T} {p : Program L A σ} {now : List L}
    {shared : σ} {holder : L → Option T}
    (hsorted : ∀ u, (held u).Pairwise fun l m => rank m < rank l)
    (hdisciplined : ∀ u, (s.threads u).Disciplined rank guard (held u))
    (hnow : now.Pairwise fun l m => rank m < rank l) (hp : p.Disciplined rank guard now)
    (hholder : ∀ u lock, holder lock = some u ↔ lock ∈ Function.update held t now u) :
    Orderly rank guard ⟨shared, Function.update s.threads t p, holder⟩ := by
  refine ⟨Function.update held t now, hholder, fun u => ?_, fun u => ?_⟩
  · by_cases hu : u = t
    · subst hu
      rwa [Function.update_self]
    · rw [Function.update_of_ne hu]
      exact hsorted u
  · by_cases hu : u = t
    · subst hu
      simpa only [Function.update_self] using hp
    · simpa only [Function.update_of_ne hu] using hdisciplined u

theorem Orderly.runThread {t : T} (hs : s.Orderly rank guard)
    (hallowed : Allowed guard s (.run t : LockAction T Q)) (hrun : s.runThread t = some s') :
    s'.Orderly rank guard := by
  obtain ⟨held, hholder, hsorted, hdisciplined⟩ := hs
  have ht := hdisciplined t
  unfold LockState.runThread at hrun
  rw [Allowed] at hallowed
  -- what a thread holds is unchanged unless it acquires or releases
  have hsame : ∀ u lock, s.holder lock = some u ↔
      lock ∈ Function.update held t (held t) u := by
    intro u lock
    rw [Function.update_eq_self]
    exact hholder u lock
  cases hprogram : s.threads t with
  | done =>
      rw [hprogram] at hrun
      cases hrun
  | acquire lock next =>
      rw [hprogram] at hrun ht
      obtain ⟨hfree, rfl⟩ := Machine.of_enabled hrun
      obtain ⟨habove, hnext⟩ := ht
      refine Orderly.goOn hsorted hdisciplined
        (List.pairwise_cons.mpr ⟨habove, hsorted t⟩) hnext fun u m => ?_
      by_cases hm : m = lock
      · subst hm
        rw [Function.update_self]
        by_cases hu : u = t
        · subst hu
          simp
        · rw [Function.update_of_ne hu, ← hholder u m, hfree]
          simp [Ne.symm hu]
      · rw [Function.update_of_ne hm]
        by_cases hu : u = t
        · subst hu
          rw [Function.update_self, List.mem_cons, hholder u m]
          simp [hm]
        · rw [Function.update_of_ne hu]
          exact hholder u m
  | release lock next =>
      rw [hprogram] at hrun ht
      cases hrun
      obtain ⟨rest, hheld, hnext⟩ := ht
      have hsorted' := hsorted t
      rw [hheld, List.pairwise_cons] at hsorted'
      have hgone : lock ∉ rest := fun hmem => Nat.lt_irrefl _ (hsorted'.1 lock hmem)
      have hmine : s.holder lock = some t := (hholder t lock).mpr (by rw [hheld]; exact List.mem_cons_self)
      refine Orderly.goOn hsorted hdisciplined hsorted'.2 hnext fun u m => ?_
      by_cases hm : m = lock
      · subst hm
        rw [Function.update_self]
        by_cases hu : u = t
        · subst hu
          simp [hgone]
        · rw [Function.update_of_ne hu, ← hholder u m, hmine]
          simp [Ne.symm hu]
      · rw [Function.update_of_ne hm]
        by_cases hu : u = t
        · subst hu
          rw [Function.update_self, hholder u m, hheld, List.mem_cons]
          simp [hm]
        · rw [Function.update_of_ne hu]
          exact hholder u m
  | act label effect next =>
      rw [hprogram] at hrun ht
      rw [hprogram] at hallowed
      cases hrun
      exact Orderly.goOn hsorted hdisciplined (hsorted t) ((ht s.shared).1 hallowed) hsame

omit [DecidableEq L] in
theorem Orderly.startThread {t : T} {request : Q} (hs : s.Orderly rank guard)
    (hprograms : ∀ shared t request p, program shared t request = some p →
      p.Disciplined rank guard [])
    (hstart : s.startThread program t request = some s') : s'.Orderly rank guard := by
  obtain ⟨held, hholder, hsorted, hdisciplined⟩ := hs
  have ht := hdisciplined t
  unfold LockState.startThread at hstart
  split at hstart
  · next hdone =>
      obtain ⟨p, hp, rfl⟩ := Option.map_eq_some_iff.mp hstart
      rw [hdone] at ht
      have hnone : held t = [] := ht
      refine Orderly.goOn hsorted hdisciplined List.Pairwise.nil (hprograms _ _ _ _ hp) fun u m => ?_
      rw [← hnone, Function.update_eq_self]
      exact hholder u m
  · cases hstart

end LockState

end FerroRemote

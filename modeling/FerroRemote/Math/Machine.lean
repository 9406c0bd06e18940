/-
# Machines, runs and guarded runs

A machine has one initial state and a partial step function: `step s a = none`
means that action `a` is not enabled in `s`. A run is a list of actions. Two
predicates speak about whole runs. `Along P` says that every state a run passes
through satisfies `P`; `Meets guard` says that every step the run takes is
allowed by `guard`, which reads only the state before the step and the action.

The central result is `along_iff_meets`: when a guarded step keeps an
inductive invariant, and a step that the guard forbids destroys the property at
once, the runs that keep the property are exactly the guarded ones.
-/

import Mathlib.Tactic.Common

namespace FerroRemote

universe uσ uα

/-- A deterministic machine over explicit states and actions. -/
structure Machine (σ : Type uσ) (α : Type uα) where
  /-- The state every run starts from. -/
  init : σ
  /-- One step, or `none` when the action is not enabled. -/
  step : σ → α → Option σ

namespace Machine

variable {σ : Type uσ} {α : Type uα} (M : Machine σ α)

/-- Execute a list of actions, failing at the first one that is not enabled. -/
def runFrom : σ → List α → Option σ
  | s, [] => some s
  | s, a :: as => (M.step s a).bind fun s' => runFrom s' as

/-- Execute a list of actions from the initial state. -/
def run (as : List α) : Option σ := M.runFrom M.init as

/-- Every state passed through, the first and the last included, satisfies `P`. -/
def AlongFrom (P : σ → Prop) : σ → List α → Prop
  | s, [] => P s
  | s, a :: as => P s ∧ ∀ s', M.step s a = some s' → AlongFrom P s' as

/-- Every state of the run satisfies `P`. -/
def Along (P : σ → Prop) (as : List α) : Prop := M.AlongFrom P M.init as

/-- Every step that is taken satisfies `guard` in the state before it. -/
def MeetsFrom (guard : σ → α → Prop) : σ → List α → Prop
  | _, [] => True
  | s, a :: as => ∀ s', M.step s a = some s' → guard s a ∧ MeetsFrom guard s' as

/-- Every step of the run satisfies `guard`. -/
def Meets (guard : σ → α → Prop) (as : List α) : Prop := M.MeetsFrom guard M.init as

/-- The states that runs whose steps all satisfy `guard` can reach. -/
inductive ReachableUnder (guard : σ → α → Prop) : σ → Prop
  | /-- The initial state needs no step. -/
    init : ReachableUnder guard M.init
  | /-- One more step that the guard allows. -/
    step {s s' : σ} {a : α} (prior : ReachableUnder guard s) (allowed : guard s a)
      (taken : M.step s a = some s') : ReachableUnder guard s'

theorem of_enabled {c : Prop} [Decidable c] {s s' : σ}
    (htaken : (if c then some s else none) = some s') : c ∧ s = s' := by
  rwa [Option.ite_none_right_eq_some, Option.some_inj] at htaken

variable {M}

@[simp]
theorem runFrom_cons (s : σ) (a : α) (as : List α) :
    M.runFrom s (a :: as) = (M.step s a).bind fun s' => M.runFrom s' as := rfl

/-- **Induction over guarded runs.** What holds initially and is kept by every
allowed step holds in every state guarded runs reach. -/
theorem ReachableUnder.invariant {guard : σ → α → Prop} {inv : σ → Prop}
    (hinit : inv M.init)
    (hstep : ∀ s a s', inv s → guard s a → M.step s a = some s' → inv s')
    {s : σ} (hreach : M.ReachableUnder guard s) : inv s := by
  induction hreach with
  | init => exact hinit
  | step _ allowed taken ih => exact hstep _ _ _ ih allowed taken

/-- A guarded run with one more allowed step in front. -/
theorem MeetsFrom.cons {guard : σ → α → Prop} {s s' : σ} {a : α} {as : List α}
    (hstep : M.step s a = some s') (hguard : guard s a) (hrest : M.MeetsFrom guard s' as) :
    M.MeetsFrom guard s (a :: as) := by
  intro s'' hstep'
  rw [hstep, Option.some_inj] at hstep'
  exact ⟨hguard, hstep' ▸ hrest⟩

theorem AlongFrom.head {P : σ → Prop} {s : σ} {as : List α}
    (halong : M.AlongFrom P s as) : P s := by
  cases as with
  | nil => exact halong
  | cons a as => exact halong.1

/-- A property kept along a run holds where the run ends. -/
theorem AlongFrom.last {P : σ → Prop} {s s' : σ} {as : List α}
    (halong : M.AlongFrom P s as) (hrun : M.runFrom s as = some s') : P s' := by
  induction as generalizing s with
  | nil =>
      cases hrun
      exact halong
  | cons a as ih =>
      rw [runFrom_cons, Option.bind_eq_some_iff] at hrun
      obtain ⟨middle, hstep, hrest⟩ := hrun
      exact ih (halong.2 middle hstep) hrest

/-- Guarded steps that keep an invariant keep everything the invariant implies. -/
theorem alongFrom_of_meetsFrom {guard : σ → α → Prop} {inv P : σ → Prop}
    (hkeep : ∀ s a s', inv s → guard s a → M.step s a = some s' → inv s')
    (himplies : ∀ s, inv s → P s) {s : σ} (hinv : inv s) {as : List α}
    (hmeets : M.MeetsFrom guard s as) : M.AlongFrom P s as := by
  induction as generalizing s with
  | nil => exact himplies s hinv
  | cons a as ih =>
      refine ⟨himplies s hinv, fun s' hstep => ?_⟩
      obtain ⟨hguard, hrest⟩ := hmeets s' hstep
      exact ih (hkeep s a s' hinv hguard hstep) hrest

/-- Guarded runs keep everything an invariant implies that guarded steps keep. -/
theorem along_of_meets {guard : σ → α → Prop} {inv P : σ → Prop}
    (hinit : inv M.init)
    (hkeep : ∀ s a s', inv s → guard s a → M.step s a = some s' → inv s')
    (himplies : ∀ s, inv s → P s) {as : List α} (hmeets : M.Meets guard as) : M.Along P as :=
  alongFrom_of_meetsFrom hkeep himplies hinit hmeets

theorem meetsFrom_true (s : σ) (as : List α) : M.MeetsFrom (fun _ _ => True) s as := by
  induction as generalizing s with
  | nil => trivial
  | cons a as ih => exact fun s' _ => ⟨trivial, ih s'⟩

/-- What every step keeps, and all it implies, holds along every run. -/
theorem along_of_steps {inv P : σ → Prop} (hinit : inv M.init)
    (hkeep : ∀ s a s', inv s → M.step s a = some s' → inv s')
    (himplies : ∀ s, inv s → P s) (as : List α) : M.Along P as := by
  have hmeets : M.Meets (fun _ _ => True) as := meetsFrom_true M.init as
  exact along_of_meets hinit (fun s a s' hs _ => hkeep s a s' hs) himplies hmeets

/-- If a forbidden step destroys the property, runs that keep it are guarded. -/
theorem meetsFrom_of_alongFrom {guard : σ → α → Prop} {inv P : σ → Prop}
    (hkeep : ∀ s a s', inv s → guard s a → M.step s a = some s' → inv s')
    (hbreak : ∀ s a s', inv s → M.step s a = some s' → P s' → guard s a)
    {s : σ} (hinv : inv s) {as : List α}
    (halong : M.AlongFrom P s as) : M.MeetsFrom guard s as := by
  induction as generalizing s with
  | nil => trivial
  | cons a as ih =>
      intro s' hstep
      have hrest := halong.2 s' hstep
      have hguard : guard s a := hbreak s a s' hinv hstep hrest.head
      exact ⟨hguard, ih (hkeep s a s' hinv hguard hstep) hrest⟩

/-- **Exact guards.** A run keeps the property in every state exactly when
every one of its steps meets the guard. -/
theorem along_iff_meets {guard : σ → α → Prop} {inv P : σ → Prop}
    (hinit : inv M.init)
    (hkeep : ∀ s a s', inv s → guard s a → M.step s a = some s' → inv s')
    (himplies : ∀ s, inv s → P s)
    (hbreak : ∀ s a s', inv s → M.step s a = some s' → P s' → guard s a)
    (as : List α) : M.Along P as ↔ M.Meets guard as :=
  ⟨meetsFrom_of_alongFrom hkeep hbreak hinit, along_of_meets hinit hkeep himplies⟩

/-- A run that ends in a state without the property does not keep it. -/
theorem not_along_of_run {P : σ → Prop} {as : List α} {s : σ}
    (hrun : M.run as = some s) (hnot : ¬ P s) : ¬ M.Along P as :=
  fun halong => hnot (halong.last hrun)

end Machine

end FerroRemote

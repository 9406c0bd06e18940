/-
# Properties of the steps of a run

`Each T` says that every step a run takes has the property `T`, which may speak of the
state before the step, of the action and of the state after it. When a guard on the state
before is exactly `T`, and a guarded step keeps an invariant, the runs all of whose steps
have the property are the guarded ones.
-/

import FerroRemote.Math.Machine

namespace FerroRemote

namespace Machine

universe uσ uα

variable {σ : Type uσ} {α : Type uα} (M : Machine σ α)

/-- Every step that is taken has the property. -/
def EachFrom (T : σ → α → σ → Prop) : σ → List α → Prop
  | _, [] => True
  | s, a :: as => ∀ s', M.step s a = some s' → T s a s' ∧ EachFrom T s' as

/-- Every step of the run has the property. -/
def Each (T : σ → α → σ → Prop) (as : List α) : Prop := M.EachFrom T M.init as

variable {M}

theorem eachFrom_iff_meetsFrom {guard : σ → α → Prop} {inv : σ → Prop} {T : σ → α → σ → Prop}
    (hkeep : ∀ s a s', inv s → guard s a → M.step s a = some s' → inv s')
    (hexact : ∀ s a s', inv s → M.step s a = some s' → (T s a s' ↔ guard s a))
    {s : σ} (hinv : inv s) (as : List α) : M.EachFrom T s as ↔ M.MeetsFrom guard s as := by
  induction as generalizing s with
  | nil => exact Iff.rfl
  | cons a as ih =>
      apply forall_congr'
      intro s'
      apply forall_congr'
      intro hstep
      rw [hexact s a s' hinv hstep]
      apply and_congr_right
      intro hguard
      exact ih (hkeep s a s' hinv hguard hstep)

/-- **Exact guards of steps.** Every step of a run has the property exactly when every
step meets the guard. -/
theorem each_iff_meets {guard : σ → α → Prop} {inv : σ → Prop} {T : σ → α → σ → Prop}
    (hinit : inv M.init)
    (hkeep : ∀ s a s', inv s → guard s a → M.step s a = some s' → inv s')
    (hexact : ∀ s a s', inv s → M.step s a = some s' → (T s a s' ↔ guard s a))
    (as : List α) : M.Each T as ↔ M.Meets guard as :=
  eachFrom_iff_meetsFrom hkeep hexact hinit as

/-- The property of the step that a run ends with -/
theorem EachFrom.last {T : σ → α → σ → Prop} {s s' s'' : σ} {a : α} {as : List α}
    (heach : M.EachFrom T s (as ++ [a])) (hrun : M.runFrom s as = some s')
    (hstep : M.step s' a = some s'') : T s' a s'' := by
  induction as generalizing s with
  | nil =>
      cases hrun
      exact (heach s'' hstep).1
  | cons b as ih =>
      rw [runFrom_cons, Option.bind_eq_some_iff] at hrun
      obtain ⟨middle, hfirst, hrest⟩ := hrun
      exact ih (heach middle hfirst).2 hrest

end Machine

end FerroRemote

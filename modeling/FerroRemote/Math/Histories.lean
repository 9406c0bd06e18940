/-
# Runs with their histories

What holds of a run together with the actions it has taken is shown from its end: the empty
run has it, and one more action keeps it.
-/

import FerroRemote.Math.Machine
import Mathlib.Data.List.Induction

namespace FerroRemote.Machine

universe uσ uα

variable {σ : Type uσ} {α : Type uα} {M : Machine σ α}

theorem runFrom_append (s : σ) (as bs : List α) :
    M.runFrom s (as ++ bs) = (M.runFrom s as).bind fun s' => M.runFrom s' bs := by
  induction as generalizing s with
  | nil => rfl
  | cons a as ih =>
      rw [List.cons_append, runFrom_cons, runFrom_cons]
      cases M.step s a with
      | none => rfl
      | some s' => exact ih s'

theorem run_concat (as : List α) (a : α) :
    M.run (as ++ [a]) = (M.run as).bind fun s => M.step s a := by
  rw [run, run, runFrom_append]
  congr 1
  funext s
  rw [runFrom_cons]
  cases M.step s a with
  | none => rfl
  | some s' => rfl

/-- **Induction over runs and their histories.** -/
theorem history_induction {P : List α → σ → Prop} (hinit : P [] M.init)
    (hstep : ∀ as s a s', M.run as = some s → P as s → M.step s a = some s' → P (as ++ [a]) s')
    {as : List α} {s : σ} (hrun : M.run as = some s) : P as s := by
  induction as using List.reverseRecOn generalizing s with
  | nil =>
      cases hrun
      exact hinit
  | append_singleton as a ih =>
      rw [run_concat, Option.bind_eq_some_iff] at hrun
      rcases hrun with ⟨middle, hmiddle, htaken⟩
      exact hstep as middle a s hmiddle (ih hmiddle) htaken

theorem runFrom_invariant (P : σ → Prop) (allowed : α → Prop)
    (hstep : ∀ s a s', P s → allowed a → M.step s a = some s' → P s') {s s' : σ} (hs : P s)
    {as : List α} (hallowed : ∀ a ∈ as, allowed a) (hrun : M.runFrom s as = some s') : P s' := by
  induction as generalizing s with
  | nil =>
      cases hrun
      exact hs
  | cons a rest ih =>
      rw [runFrom_cons, Option.bind_eq_some_iff] at hrun
      rcases hrun with ⟨next, htaken, hrest⟩
      exact ih (hstep s a next hs (hallowed a List.mem_cons_self) htaken)
        (fun b hb => hallowed b (List.mem_cons_of_mem _ hb)) hrest

instance decidableMeetsFrom {guard : σ → α → Prop} [∀ s a, Decidable (guard s a)] (s : σ) :
    (as : List α) → Decidable (M.MeetsFrom guard s as)
  | [] => isTrue trivial
  | a :: as =>
      match hstep : M.step s a with
      | none => isTrue fun s' htaken => by rw [hstep] at htaken; cases htaken
      | some s' =>
          have : Decidable (M.MeetsFrom guard s' as) := decidableMeetsFrom s' as
          decidable_of_iff (guard s a ∧ M.MeetsFrom guard s' as)
            ⟨fun h => .cons hstep h.1 h.2, fun h => h s' hstep⟩

instance {guard : σ → α → Prop} [∀ s a, Decidable (guard s a)] (as : List α) :
    Decidable (M.Meets guard as) :=
  decidableMeetsFrom M.init as

end FerroRemote.Machine

/-
# Objects that answer calls

An object takes calls one after the other, answers each, and changes. Two objects cannot
be told apart by their answers when a relation between their states survives every call
that both answer alike.
-/

import Mathlib.Tactic.Common

namespace FerroRemote.Calls

universe u v w x

variable {σ : Type u} {τ : Type v} {α : Type w} {β : Type x}

/-- The answers to a sequence of calls. -/
def answers (step : σ → α → β × σ) : σ → List α → List β
  | _, [] => []
  | s, call :: calls => (step s call).1 :: answers step (step s call).2 calls

/-- The state after a sequence of calls. -/
def final (step : σ → α → β × σ) : σ → List α → σ
  | s, [] => s
  | s, call :: calls => final step (step s call).2 calls

/-- Two states are related, and calls are answered alike and keep it so. -/
def Simulates (step : σ → α → β × σ) (step' : τ → α → β × τ) (R : σ → τ → Prop) : Prop :=
  ∀ s t call, R s t → (step s call).1 = (step' t call).1 ∧ R (step s call).2 (step' t call).2

variable {step : σ → α → β × σ} {step' : τ → α → β × τ} {R : σ → τ → Prop}

/-- **Induction over calls.** -/
theorem Simulates.run (hsimulates : Simulates step step' R) {s : σ} {t : τ} (hrelated : R s t)
    (calls : List α) :
    answers step s calls = answers step' t calls ∧ R (final step s calls) (final step' t calls) := by
  induction calls generalizing s t with
  | nil => exact ⟨rfl, hrelated⟩
  | cons call calls ih =>
      obtain ⟨hanswer, hnext⟩ := hsimulates s t call hrelated
      obtain ⟨hanswers, hfinal⟩ := ih hnext
      exact ⟨by rw [answers, answers, hanswer, hanswers], hfinal⟩

end FerroRemote.Calls

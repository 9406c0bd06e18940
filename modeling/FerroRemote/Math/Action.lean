/-
# Actions that may throw

An action changes a state and ends in one of three ways: it returns, it throws an
exception that its caller may catch, or control leaves for a place outside of the
program that is looked at and never comes back.

`Ends` says what is asked of the first two ends. It composes along `bind` and through a
handler that cleans up and throws again. `InOrder` says what a loop over a list comes to.
-/

import Mathlib.Tactic.Common

namespace FerroRemote

universe u v w x

variable {ε : Type u} {σ : Type v} {α : Type w} {β : Type x}

inductive Conclusion (ε : Type u) (σ : Type v) (α : Type w)
  | done (a : α) (s : σ)
  | thrown (e : ε) (s : σ)
  | left
  deriving DecidableEq

namespace Conclusion

/-- What holds where an action has returned, and where it has thrown. -/
def Ends (post : α → σ → Prop) (caught : σ → Prop) : Conclusion ε σ α → Prop
  | .done a s => post a s
  | .thrown _ s => caught s
  | .left => True

/-- What the caller is told: a value, or an exception. -/
def answer : Conclusion ε σ α → Option (Except ε α)
  | .done a _ => some (.ok a)
  | .thrown e _ => some (.error e)
  | .left => none

/-- The state that an action leaves behind, unless control left. -/
def final : Conclusion ε σ α → Option σ
  | .done _ s => some s
  | .thrown _ s => some s
  | .left => none

variable {post post' : α → σ → Prop} {caught caught' : σ → Prop} {o : Conclusion ε σ α}

theorem Ends.imp (hends : o.Ends post caught) (hpost : ∀ a s, post a s → post' a s)
    (hcaught : ∀ s, caught s → caught' s) : o.Ends post' caught' := by
  cases o with
  | done a s => exact hpost a s hends
  | thrown e s => exact hcaught s hends
  | left => trivial

end Conclusion

/-- A program over the state `σ` with exceptions `ε`. -/
def Action (ε : Type u) (σ : Type v) (α : Type w) := σ → Conclusion ε σ α

namespace Action

protected def pure (a : α) : Action ε σ α := fun s => .done a s

protected def bind (x : Action ε σ α) (f : α → Action ε σ β) : Action ε σ β := fun s =>
  match x s with
  | .done a s' => f a s'
  | .thrown e s' => .thrown e s'
  | .left => .left

instance : Monad (Action ε σ) where
  pure := Action.pure
  bind := Action.bind

def throw (e : ε) : Action ε σ α := fun s => .thrown e s

/-- `try { x } catch( ... ) { cleanup; throw; }` -/
def cleaning (x : Action ε σ α) (cleanup : Action ε σ PUnit.{w + 1}) : Action ε σ α := fun s =>
  match x s with
  | .done a s' => .done a s'
  | .thrown e s' => Action.bind cleanup (fun _ => throw e) s'
  | .left => .left

section Monad

variable {γ : Type w} (x : Action ε σ α) (f : α → Action ε σ γ) (s : σ)

@[simp]
theorem pure_apply (a : α) : (pure a : Action ε σ α) s = .done a s := rfl

theorem bind_apply : (x >>= f) s = Action.bind x f s := rfl

theorem bind_assoc {δ : Type w} (g : γ → Action ε σ δ) :
    x >>= f >>= g = x >>= fun a => f a >>= g := by
  funext s
  change Action.bind (Action.bind x f) g s = Action.bind x (fun a => Action.bind (f a) g) s
  simp only [Action.bind]
  cases x s <;> rfl

theorem bind_pure : x >>= pure = x := by
  funext s
  change Action.bind x Action.pure s = x s
  simp only [Action.bind]
  cases x s <;> rfl

variable {x f s}

theorem bind_congr_left {y : Action ε σ α} (hxy : x s = y s) : (x >>= f) s = (y >>= f) s := by
  rw [bind_apply, bind_apply, Action.bind, Action.bind, hxy]

@[simp]
theorem bind_done {a : α} {s' : σ} (hx : x s = .done a s') : (x >>= f) s = f a s' := by
  rw [bind_apply, Action.bind, hx]

@[simp]
theorem bind_thrown {e : ε} {s' : σ} (hx : x s = .thrown e s') : (x >>= f) s = .thrown e s' := by
  rw [bind_apply, Action.bind, hx]

@[simp]
theorem bind_left (hx : x s = .left) : (x >>= f) s = .left := by
  rw [bind_apply, Action.bind, hx]

theorem cleaning_done {cleanup : Action ε σ PUnit.{w + 1}} {a : α} {s' : σ}
    (hx : x s = .done a s') : x.cleaning cleanup s = .done a s' := by
  rw [cleaning, hx]

theorem cleaning_thrown {cleanup : Action ε σ PUnit.{w + 1}} {e : ε} {s' s'' : σ}
    (hx : x s = .thrown e s') (hcleanup : cleanup s' = .done ⟨⟩ s'') :
    x.cleaning cleanup s = .thrown e s'' := by
  rw [cleaning, hx]
  simp only [Action.bind, hcleanup, throw]

theorem of_bind_done {c : γ} {s' : σ} (hrun : (x >>= f) s = .done c s') :
    ∃ a s₁, x s = .done a s₁ ∧ f a s₁ = .done c s' := by
  cases hx : x s with
  | done a s₁ =>
      rw [bind_done hx] at hrun
      exact ⟨a, s₁, rfl, hrun⟩
  | thrown e s₁ =>
      rw [bind_thrown hx] at hrun
      cases hrun
  | left =>
      rw [bind_left hx] at hrun
      cases hrun

/-- What goes on without touching the state does not show in it. -/
theorem final_bind (hf : ∀ a s', (f a s').final = some s') : ((x >>= f) s).final = (x s).final := by
  cases hx : x s with
  | done a s' =>
      rw [bind_done hx, hf]
      rfl
  | thrown e s' =>
      rw [bind_thrown hx]
      rfl
  | left =>
      rw [bind_left hx]
      rfl

/-- What an action leaves is what the next one starts from. -/
theorem ends_bind {Q : α → σ → Prop} {post : γ → σ → Prop} {caught : σ → Prop}
    (hx : (x s).Ends Q caught) (hf : ∀ a s', Q a s' → (f a s').Ends post caught) :
    ((x >>= f) s).Ends post caught := by
  cases hrun : x s with
  | done a s' =>
      rw [hrun] at hx
      rw [bind_done hrun]
      exact hf a s' hx
  | thrown e s' =>
      rw [hrun] at hx
      rw [bind_thrown hrun]
      exact hx
  | left =>
      rw [bind_left hrun]
      trivial

/-- The handler runs from where the exception was thrown. -/
theorem ends_cleaning {cleanup : Action ε σ PUnit.{w + 1}} {post : α → σ → Prop}
    {E caught : σ → Prop} (hx : (x s).Ends post E)
    (hcleanup : ∀ s', E s' → (cleanup s').Ends (fun _ => caught) caught) :
    (x.cleaning cleanup s).Ends post caught := by
  cases hrun : x s with
  | done a s' =>
      rw [hrun] at hx
      rw [cleaning_done hrun]
      exact hx
  | thrown e s' =>
      rw [hrun] at hx
      have hnext := hcleanup s' hx
      rw [cleaning, hrun]
      simp only [Action.bind]
      cases hclean : cleanup s' with
      | done _ s'' =>
          rw [hclean] at hnext
          exact hnext
      | thrown _ s'' =>
          rw [hclean] at hnext
          exact hnext
      | left => trivial
  | left =>
      rw [cleaning, hrun]
      trivial

end Monad

/-- What doing the same for each of a list comes to: a result for each, in order, or the
first exception. -/
inductive InOrder (f : α → Action ε σ β) :
    List α → σ → Conclusion ε σ (List β) → Prop
  | nil (s : σ) : InOrder f [] s (.done [] s)
  | done {a : α} {as : List α} {s s' s'' : σ} {b : β} {bs : List β} (first : f a s = .done b s')
      (rest : InOrder f as s' (.done bs s'')) : InOrder f (a :: as) s (.done (b :: bs) s'')
  | thrown {a : α} {as : List α} {s s' : σ} {e : ε} (first : f a s = .thrown e s') :
      InOrder f (a :: as) s (.thrown e s')
  | thrownLater {a : α} {as : List α} {s s' s'' : σ} {b : β} {e : ε} (first : f a s = .done b s')
      (rest : InOrder f as s' (.thrown e s'')) : InOrder f (a :: as) s (.thrown e s'')

end Action

end FerroRemote

/-
# Devices that answer calls

A device answers a call by the call and by all the calls before it, so that its state is
the log of what it has been asked. A program that asks a device is an action over the log.
-/

import FerroRemote.Math.Action

namespace FerroRemote

universe u v w

/-- A device for the calls `κ`. What it may answer depends on the call. -/
structure Device (κ : Type u) (ρ : κ → Type v) where
  answer : List κ → (c : κ) → ρ c

namespace Action

variable {ε : Type u} {σ : Type v} {α : Type w}

def ofExcept (res : Except ε α) : Action ε σ α := fun s =>
  match res with
  | .ok a => .done a s
  | .error e => .thrown e s

@[simp]
theorem ofExcept_ok (a : α) (s : σ) : (ofExcept (.ok a) : Action ε σ α) s = .done a s := rfl

@[simp]
theorem ofExcept_error (e : ε) (s : σ) :
    (ofExcept (.error e) : Action ε σ α) s = .thrown e s := rfl

end Action

namespace Device

variable {ε : Type w} {κ : Type u} {ρ : κ → Type v} (dev : Device κ ρ)

def ask (c : κ) : Action ε (List κ) (ρ c) := fun log => .done (dev.answer log c) (log ++ [c])

@[simp]
theorem ask_apply (c : κ) (log : List κ) :
    (dev.ask c : Action ε (List κ) (ρ c)) log = .done (dev.answer log c) (log ++ [c]) := rfl

@[simp]
theorem ask_bind {α : Type v} (c : κ) (f : ρ c → Action ε (List κ) α) (log : List κ) :
    (dev.ask c >>= f) log = f (dev.answer log c) (log ++ [c]) := rfl

end Device

end FerroRemote

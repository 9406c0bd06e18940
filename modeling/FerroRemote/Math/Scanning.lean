/-
# Loops that read a text to its end

A loop takes a symbol off the text and may take more of what follows, until the text is
empty or a turn fails. A turn never gives back what it took, so the loop ends, and a property
that every turn hands on from what is left to what it was given holds of the whole run.
-/

import Mathlib.Data.List.Basic
import Mathlib.Tactic.Common

namespace FerroRemote.Scanning

universe u

variable {α ε σ : Type u}

/-- A sequence succeeds when both of its parts do. -/
theorem bind_eq_ok_iff {β : Type u} {x : Except ε α} {f : α → Except ε β} {r : β} :
    x >>= f = .ok r ↔ ∃ a, x = .ok a ∧ f a = .ok r := by
  cases x with
  | error err =>
      apply iff_of_false
      · rintro ⟨⟩
      · rintro ⟨a, ⟨⟩, -⟩
  | ok a =>
      apply Iff.intro
      · exact fun hf => ⟨a, rfl, hf⟩
      · rintro ⟨a', ⟨⟩, hf⟩
        exact hf

/-- One turn: the symbol taken, what follows it, and the state. -/
abbrev Turn (α ε σ : Type u) := α → List α → σ → Except ε (List α × σ)

/-- The loop for at most as many turns as it has fuel -/
def scanFor (turn : Turn α ε σ) : Nat → List α → σ → Except ε σ
  | _, [], s => .ok s
  | 0, _ :: _, s => .ok s
  | fuel + 1, c :: rest, s =>
      match turn c rest s with
      | .error err => .error err
      | .ok (rest', s') => scanFor turn fuel rest' s'

def scan (turn : Turn α ε σ) (text : List α) (s : σ) : Except ε σ :=
  scanFor turn text.length text s

/-- What a turn leaves is no longer than what it was given. -/
def Consumes (turn : Turn α ε σ) : Prop :=
  ∀ c rest s rest' s', turn c rest s = .ok (rest', s') → rest'.length ≤ rest.length

variable {turn : Turn α ε σ}

theorem scanFor_enough (hturn : Consumes turn) {fuel fuel' : Nat} {text : List α} {s : σ}
    (hfuel : text.length ≤ fuel) (hfuel' : text.length ≤ fuel') :
    scanFor turn fuel text s = scanFor turn fuel' text s := by
  induction fuel generalizing fuel' text s with
  | zero =>
      rw [List.eq_nil_of_length_eq_zero (Nat.le_zero.mp hfuel), scanFor, scanFor]
  | succ fuel ih =>
      cases text with
      | nil => rw [scanFor, scanFor]
      | cons c rest =>
          cases fuel' with
          | zero => exact absurd hfuel' (Nat.not_succ_le_zero _)
          | succ fuel' =>
              rw [scanFor, scanFor]
              cases hc : turn c rest s with
              | error err => rfl
              | ok next =>
                  have hle := hturn c rest s next.1 next.2 hc
                  rw [List.length_cons] at hfuel hfuel'
                  exact ih (by omega) (by omega)

@[simp]
theorem scan_nil (turn : Turn α ε σ) (s : σ) : scan turn [] s = .ok s := rfl

/-- **The loop unrolled once.** -/
theorem scan_cons (hturn : Consumes turn) (c : α) (rest : List α) (s : σ) :
    scan turn (c :: rest) s = turn c rest s >>= fun next => scan turn next.1 next.2 := by
  rw [scan, List.length_cons, scanFor]
  cases hc : turn c rest s with
  | error err => rfl
  | ok next => exact scanFor_enough hturn (hturn c rest s next.1 next.2 hc) (Nat.le_refl _)

theorem scan_cons_of_ok (hturn : Consumes turn) {c : α} {rest rest' : List α} {s s' : σ}
    (hc : turn c rest s = .ok (rest', s')) : scan turn (c :: rest) s = scan turn rest' s' := by
  rw [scan_cons hturn, hc]
  rfl

theorem scan_cons_of_error (hturn : Consumes turn) {c : α} {rest : List α} {s : σ} {err : ε}
    (hc : turn c rest s = .error err) : scan turn (c :: rest) s = .error err := by
  rw [scan_cons hturn, hc]
  rfl

/-- **Induction over a run that succeeds**, from its end to its start. -/
theorem scan_induction (hturn : Consumes turn) {final : σ} {P : List α → σ → Prop}
    (hdone : P [] final)
    (hstep : ∀ c rest s rest' s', turn c rest s = .ok (rest', s') →
      scan turn rest' s' = .ok final → P rest' s' → P (c :: rest) s)
    {text : List α} {s : σ} (hscan : scan turn text s = .ok final) : P text s := by
  induction hlength : text.length using Nat.strongRecOn generalizing text s with
  | ind n ih =>
      cases text with
      | nil =>
          cases hscan
          exact hdone
      | cons c rest =>
          cases hc : turn c rest s with
          | error err =>
              rw [scan_cons_of_error hturn hc] at hscan
              cases hscan
          | ok next =>
              rw [scan_cons_of_ok hturn hc] at hscan
              have hle := hturn c rest s next.1 next.2 hc
              rw [List.length_cons] at hlength
              exact hstep c rest s next.1 next.2 hc hscan (ih _ (by omega) hscan rfl)

/-- **Failures.** A failure that no turn has from a state that the turns keep is not the
failure of a run. -/
theorem scan_ne_error (hturn : Consumes turn) {inv : σ → Prop} {err : ε}
    (hkeep : ∀ c rest s rest' s', inv s → turn c rest s = .ok (rest', s') → inv s')
    (hno : ∀ c rest s, inv s → turn c rest s ≠ .error err) {text : List α} {s : σ}
    (hinv : inv s) : scan turn text s ≠ .error err := by
  induction hlength : text.length using Nat.strongRecOn generalizing text s with
  | ind n ih =>
      cases text with
      | nil =>
          rw [scan_nil]
          rintro ⟨⟩
      | cons c rest =>
          cases hc : turn c rest s with
          | error err' =>
              rw [scan_cons_of_error hturn hc]
              rintro ⟨⟩
              exact hno c rest s hinv hc
          | ok next =>
              rw [scan_cons_of_ok hturn hc]
              have hle := hturn c rest s next.1 next.2 hc
              rw [List.length_cons] at hlength
              exact ih _ (by omega) (hkeep c rest s next.1 next.2 hinv hc) rfl

end FerroRemote.Scanning

/-
# Loops that may fail

A loop that makes an output for each input, and ends with the first failure. It succeeds
with just the outputs that the inputs make one by one, and fails exactly when one of them
does.
-/

import Mathlib.Data.List.Forall2

namespace FerroRemote.FallibleLoop

universe u

variable {ε α β : Type u} {f : α → Except ε β}

theorem mapM_eq_ok_iff (xs : List α) (ys : List β) :
    xs.mapM f = .ok ys ↔ List.Forall₂ (fun x y => f x = .ok y) xs ys := by
  induction xs generalizing ys with
  | nil =>
      rw [List.mapM_nil, List.forall₂_nil_left_iff]
      constructor
      · rintro ⟨⟩
        rfl
      · rintro rfl
        rfl
  | cons x xs ih =>
      rw [List.mapM_cons, List.forall₂_cons_left_iff]
      cases hx : f x with
      | error err =>
          apply iff_of_false
          · rintro ⟨⟩
          · rintro ⟨y, rest, ⟨⟩, -⟩
      | ok y =>
          cases hxs : xs.mapM f with
          | error err =>
              apply iff_of_false
              · rintro ⟨⟩
              · rintro ⟨y', rest, -, hrest, -⟩
                rw [(ih rest).mpr hrest] at hxs
                cases hxs
          | ok rest =>
              constructor
              · rintro ⟨⟩
                exact ⟨y, rest, rfl, (ih rest).mp hxs, rfl⟩
              · rintro ⟨y', rest', hy', hrest, rfl⟩
                cases hy'
                rw [(ih rest').mpr hrest] at hxs
                cases hxs
                rfl

theorem mapM_fails_iff (xs : List α) :
    (∃ err, xs.mapM f = .error err) ↔ ∃ x ∈ xs, ∃ err, f x = .error err := by
  induction xs with
  | nil =>
      apply iff_of_false
      · rintro ⟨err, ⟨⟩⟩
      · rintro ⟨x, ⟨⟩, -⟩
  | cons x xs ih =>
      rw [List.mapM_cons, List.exists_mem_cons_iff]
      cases hx : f x with
      | error err => exact iff_of_true ⟨err, rfl⟩ (Or.inl ⟨err, rfl⟩)
      | ok y =>
          have hno : ¬ ∃ err, Except.ok y = (Except.error err : Except ε β) := by
            rintro ⟨err, ⟨⟩⟩
          rw [or_iff_right hno, ← ih]
          cases hxs : xs.mapM f with
          | error err => exact iff_of_true ⟨err, rfl⟩ ⟨err, rfl⟩
          | ok rest =>
              apply iff_of_false
              · rintro ⟨err, ⟨⟩⟩
              · rintro ⟨err, ⟨⟩⟩

end FerroRemote.FallibleLoop

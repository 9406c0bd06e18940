/-
# Passing data on piece by piece

A loop `while( pos != size ) pos += step( data + pos, size - pos )` ends with all
of its data passed on when every step passes on the beginning of what it is
offered, and at least one element of it. The rule is stated for a step that is
only known to do so up to a bound, and a step may itself be such a loop: this is
how loops nest.

The second half is about steps that may also fail or take nothing. What they are
going to answer is a script, and `EndsAt` says at which call a loop over it ends.
-/

import Mathlib.Tactic.Common

namespace FerroRemote

universe u v w

namespace Cursor

variable {α : Type u} {σ : Type v} {ε : Type w}

/-- The loop for `fuel` rounds at most, `pos` elements on. A loop, or a step, that
uses up its fuel has no result. -/
def drain (step : List α → σ → Option (Except ε Nat × σ)) (data : List α) :
    Nat → Nat → σ → Option (Except ε Unit × σ)
  | 0, _, _ => none
  | fuel + 1, pos, s =>
    if pos = data.length then some (.ok (), s)
    else
      match step (data.drop pos) s with
      | none => none
      | some (.error err, s) => some (.error err, s)
      | some (.ok n, s) => drain step data fuel (pos + n) s

/-- Offered up to `bound` elements and not none, a step takes some from the
beginning. `took done s` says that `done` has been taken in all. -/
def TakesFront (step : List α → σ → Option (Except ε Nat × σ)) (took : List α → σ → Prop)
    (bound : Nat) : Prop :=
  ∀ data done s, data ≠ [] → data.length ≤ bound → took done s →
    ∃ n s', step data s = some (.ok n, s') ∧ 0 < n ∧ n ≤ data.length ∧ took (done ++ data.take n) s'

variable {step : List α → σ → Option (Except ε Nat × σ)} {took : List α → σ → Prop} {bound : Nat}

/-- From any place on, the loop ends and has passed on the rest. The induction is
on the fuel, which is used up more slowly than the data. -/
theorem drain_from (htakes : TakesFront step took bound) {data : List α}
    (hbound : data.length ≤ bound) (fuel pos : Nat) (done : List α) (s : σ)
    (hpos : pos ≤ data.length) (hfuel : data.length - pos < fuel) (hdone : took done s) :
    ∃ s', drain step data fuel pos s = some (.ok (), s') ∧ took (done ++ data.drop pos) s' := by
  induction fuel generalizing pos done s with
  | zero => omega
  | succ fuel ih =>
      by_cases hend : pos = data.length
      · subst hend
        have htaken : took (done ++ data.drop data.length) s := by
          rw [List.drop_length, List.append_nil]
          exact hdone
        exact ⟨s, by rw [drain, if_pos rfl], htaken⟩
      · have hlength : (data.drop pos).length = data.length - pos := List.length_drop
        have hrest : data.drop pos ≠ [] := by
          intro hnil
          rw [hnil, List.length_nil] at hlength
          omega
        obtain ⟨n, s', hstep, hsome, hle, htook⟩ :=
          htakes (data.drop pos) done s hrest (by omega) hdone
        obtain ⟨s'', hloop, hall⟩ := ih (pos + n) _ s' (by omega) (by omega) htook
        refine ⟨s'', by rw [drain, if_neg hend, hstep]; exact hloop, ?_⟩
        rw [List.append_assoc, ← List.drop_drop, List.take_append_drop] at hall
        exact hall

/-- The whole loop passes on all of the data. -/
theorem drain_all (htakes : TakesFront step took bound) {data : List α}
    (hbound : data.length ≤ bound) {fuel : Nat} (hfuel : data.length < fuel) (done : List α) (s : σ)
    (hdone : took done s) :
    ∃ s', drain step data fuel 0 s = some (.ok (), s') ∧ took (done ++ data) s' :=
  drain_from htakes hbound fuel 0 done s (Nat.zero_le _) hfuel hdone

/-- How much the first `k` answers of a script take, if nothing stands in the way.
An answer that is a failure takes nothing. -/
def offered (script : Nat → Option Nat) : Nat → Nat
  | 0 => 0
  | k + 1 => offered script k + (script k).getD 0

/-- The loop over `length` elements ends before the call `k`, or in it: all is
passed on, or the answer is a failure. The calls before take something of what is
left, or nothing. -/
structure EndsAt (script : Nat → Option Nat) (length k : Nat) : Prop where
  goesOn : ∀ i < k, (script i).isSome ∧ offered script i < length
  ends : length ≤ offered script k ∨ script k = none

/-- The step answers from the script. `inv k` holds before its call `k`, and
`post k` when the loop ends there, with a failure of that call or without one. -/
structure Follows (step : List α → σ → Option (Except ε Nat × σ)) (data : List α)
    (script : Nat → Option Nat) (inv post : Nat → σ → Prop) : Prop where
  stops : ∀ k s, inv k s → post k s
  fails : ∀ k s, inv k s → offered script k < data.length → script k = none →
    ∃ err s', step (data.drop (offered script k)) s = some (.error err, s') ∧ post k s'
  takes : ∀ k s n, inv k s → offered script k < data.length → script k = some n →
    ∃ s', step (data.drop (offered script k)) s =
      some (.ok (min n (data.length - offered script k)), s') ∧ inv (k + 1) s'

variable {script : Nat → Option Nat} {inv post : Nat → σ → Prop} {data : List α}

theorem offered_succ {k n : Nat} (hk : script k = some n) :
    offered script (k + 1) = offered script k + n := by
  rw [offered, hk, Option.getD_some]

theorem EndsAt.unique {length j k : Nat} (hj : EndsAt script length j)
    (hk : EndsAt script length k) : j = k := by
  have hle : ∀ {j k : Nat}, EndsAt script length j → EndsAt script length k → j ≤ k := by
    intro j k hj hk
    apply Nat.le_of_not_lt
    intro hlt
    obtain ⟨hsome, hless⟩ := hj.goesOn k hlt
    cases hk.ends with
    | inl hall => exact Nat.not_le_of_lt hless hall
    | inr hnone => rw [hnone] at hsome; cases hsome
  exact Nat.le_antisymm (hle hj hk) (hle hk hj)

/-- The place of the loop before its call `k`. -/
theorem min_offered_succ {k n length : Nat} (hless : offered script k < length)
    (hk : script k = some n) :
    offered script k + min n (length - offered script k) = min (offered script (k + 1)) length := by
  rw [offered_succ hk]
  omega

/-- From the call `k` on, a loop that ends does so at the call its script says, with
a failure unless all is passed on. -/
theorem endsAt_of_drain (hfollows : Follows step data script inv post) (fuel k : Nat) (s : σ)
    (hinv : inv k s) (hbefore : ∀ i < k, (script i).isSome ∧ offered script i < data.length)
    {out : Except ε Unit × σ}
    (hout : drain step data fuel (min (offered script k) data.length) s = some out) :
    ∃ j, EndsAt script data.length j ∧ post j out.2 ∧
      (out.1 = .ok () ↔ data.length ≤ offered script j) := by
  induction fuel generalizing k s with
  | zero => cases hout
  | succ fuel ih =>
      by_cases hall : data.length ≤ offered script k
      · rw [drain, if_pos (Nat.min_eq_right hall), Option.some_inj] at hout
        subst hout
        exact ⟨k, ⟨hbefore, .inl hall⟩, hfollows.stops k s hinv, iff_of_true rfl hall⟩
      · have hless : offered script k < data.length := Nat.lt_of_not_le hall
        rw [Nat.min_eq_left (Nat.le_of_lt hless), drain, if_neg (Nat.ne_of_lt hless)] at hout
        cases hk : script k with
        | none =>
            obtain ⟨err, s', hstep, hpost⟩ := hfollows.fails k s hinv hless hk
            simp only [hstep, Option.some_inj] at hout
            subst hout
            refine ⟨k, ⟨hbefore, .inr hk⟩, hpost, iff_of_false ?_ hall⟩
            intro hok
            cases hok
        | some n =>
            obtain ⟨s', hstep, hinv'⟩ := hfollows.takes k s n hinv hless hk
            simp only [hstep, min_offered_succ hless hk] at hout
            apply ih (k + 1) s' hinv' _ hout
            intro i hi
            by_cases hik : i = k
            · subst hik
              exact ⟨by rw [hk]; rfl, hless⟩
            · exact hbefore i (by omega)

theorem drain_of_endsAt (hfollows : Follows step data script inv post) {j : Nat}
    (hends : EndsAt script data.length j) (fuel k : Nat) (s : σ) (hinv : inv k s) (hk : k ≤ j)
    (hfuel : j - k < fuel) :
    ∃ out, drain step data fuel (min (offered script k) data.length) s = some out := by
  induction fuel generalizing k s with
  | zero => omega
  | succ fuel ih =>
      by_cases hall : data.length ≤ offered script k
      · exact ⟨(.ok (), s), by rw [drain, if_pos (Nat.min_eq_right hall)]⟩
      · have hless : offered script k < data.length := Nat.lt_of_not_le hall
        rw [Nat.min_eq_left (Nat.le_of_lt hless), drain, if_neg (Nat.ne_of_lt hless)]
        cases hscript : script k with
        | none =>
            obtain ⟨err, s', hstep, -⟩ := hfollows.fails k s hinv hless hscript
            exact ⟨(.error err, s'), by rw [hstep]⟩
        | some n =>
            obtain ⟨s', hstep, hinv'⟩ := hfollows.takes k s n hinv hless hscript
            have hlt : k ≠ j := by
              intro heq
              subst heq
              cases hends.ends with
              | inl hle => exact hall hle
              | inr hnone => rw [hscript] at hnone; cases hnone
            simp only [hstep, min_offered_succ hless hscript]
            exact ih (k + 1) s' hinv' (by omega) (by omega)

theorem drain_endsAt (hfollows : Follows step data script inv post) (s : σ) (hinv : inv 0 s)
    {fuel : Nat} {out : Except ε Unit × σ} (hout : drain step data fuel 0 s = some out) :
    ∃ j, EndsAt script data.length j ∧ post j out.2 ∧
      (out.1 = .ok () ↔ data.length ≤ offered script j) := by
  have hstart : min (offered script 0) data.length = 0 := Nat.zero_min _
  have hnone : ∀ i < 0, (script i).isSome ∧ offered script i < data.length := by
    intro i hi
    omega
  rw [← hstart] at hout
  exact endsAt_of_drain hfollows fuel 0 s hinv hnone hout

/-- **When a loop ends.** Over a script, it has a result exactly when the script
ends. -/
theorem drain_isSome_iff (hfollows : Follows step data script inv post) (s : σ) (hinv : inv 0 s) :
    (∃ fuel out, drain step data fuel 0 s = some out) ↔
      ∃ j, EndsAt script data.length j := by
  constructor
  · rintro ⟨fuel, out, hout⟩
    obtain ⟨j, hends, -⟩ := drain_endsAt hfollows s hinv hout
    exact ⟨j, hends⟩
  · rintro ⟨j, hends⟩
    refine ⟨j + 1, ?_⟩
    have hstart : min (offered script 0) data.length = 0 := Nat.zero_min _
    rw [← hstart]
    exact drain_of_endsAt hfollows hends (j + 1) 0 s hinv (Nat.zero_le _) (by omega)

end Cursor

end FerroRemote

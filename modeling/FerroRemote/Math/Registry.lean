/-
# Registries of names

A service gives out names, takes them back, and in between finds an object under
each of them. A registry is the account its clients keep: what has been given out
and not taken back. A lookup agrees with it when it finds under every name just
what the registry has there, and no name stands for two objects at once.
-/

import Mathlib.Tactic.Common

namespace FerroRemote

universe uκ uω

/-- Names that are in use, oldest first, each with the object it was given for. -/
structure Registry (κ : Type uκ) (ω : Type uω) where
  entries : List (κ × ω) := []

namespace Registry

variable {κ : Type uκ} {ω : Type uω} [DecidableEq κ]

/-- The objects that `name` was given for. -/
def known (r : Registry κ ω) (name : κ) : List ω :=
  (r.entries.filter fun entry => entry.1 = name).map (·.2)

/-- `name` is given for the object `o`, whether or not it is in use. -/
def grant (r : Registry κ ω) (name : κ) (o : ω) : Registry κ ω :=
  ⟨r.entries ++ [(name, o)]⟩

/-- `name` is taken back. -/
def revoke (r : Registry κ ω) (name : κ) : Registry κ ω :=
  ⟨r.entries.filter fun entry => entry.1 ≠ name⟩

/-- The lookup finds what the registry has, and no name stands for two objects. -/
structure Agrees (r : Registry κ ω) (resolve : κ → List ω) : Prop where
  resolves : ∀ name, resolve name = r.known name
  distinct : ∀ name, (r.known name).length ≤ 1

theorem known_grant (r : Registry κ ω) (name other : κ) (o : ω) :
    (r.grant name o).known other =
      if name = other then r.known other ++ [o] else r.known other := by
  simp only [known, grant, List.filter_append, List.map_append]
  by_cases heq : name = other
  · simp [heq]
  · simp [heq]

theorem known_revoke (r : Registry κ ω) (name other : κ) :
    (r.revoke name).known other = if name = other then [] else r.known other := by
  simp only [known, revoke, List.filter_filter]
  by_cases heq : name = other
  · subst heq
    simp
  · rw [if_neg heq]
    congr 1
    apply List.filter_congr
    intro entry _
    by_cases hentry : entry.1 = other
    · simp [hentry, Ne.symm heq]
    · simp [hentry]

section Agreement

variable {r : Registry κ ω} {resolve resolve' : κ → List ω}

theorem agrees_empty (hnothing : ∀ name, resolve name = []) :
    Agrees (⟨[]⟩ : Registry κ ω) resolve :=
  ⟨hnothing, fun _ => Nat.zero_le 1⟩

/-- A free name is given for an object, and the lookup finds the object. -/
theorem Agrees.grant (hagrees : r.Agrees resolve) {name : κ} {o : ω} (hfree : resolve name = [])
    (hfound : ∀ other, resolve' other = if name = other then [o] else resolve other) :
    (r.grant name o).Agrees resolve' := by
  have hunused : r.known name = [] := (hagrees.resolves name).symm.trans hfree
  constructor
  · intro other
    rw [hfound, known_grant]
    split
    · next heq => rw [← heq, hunused, List.nil_append]
    · exact hagrees.resolves other
  · intro other
    rw [known_grant]
    split
    · next heq =>
        rw [← heq, hunused]
        exact Nat.le_refl 1
    · exact hagrees.distinct other

/-- A name is taken back, and the lookup finds nothing under it any more. -/
theorem Agrees.revoke (hagrees : r.Agrees resolve) {name : κ}
    (hgone : ∀ other, resolve' other = if name = other then [] else resolve other) :
    (r.revoke name).Agrees resolve' := by
  constructor
  · intro other
    rw [hgone, known_revoke]
    split
    · rfl
    · exact hagrees.resolves other
  · intro other
    rw [known_revoke]
    split
    · exact Nat.zero_le 1
    · exact hagrees.distinct other

/-- Agreement after a name was given out shows that the name was free. -/
theorem Agrees.free_of_grant (hagrees : r.Agrees resolve) {name : κ} {o : ω}
    (hafter : (r.grant name o).Agrees resolve') : resolve name = [] := by
  have hone := hafter.distinct name
  rw [known_grant, if_pos rfl, List.length_append, List.length_singleton] at hone
  rw [hagrees.resolves, ← List.length_eq_zero_iff]
  omega

end Agreement

end Registry

end FerroRemote

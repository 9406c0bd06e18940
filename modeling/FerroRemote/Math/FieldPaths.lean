/-
# Reading along paths of fields

Some values are nodes, and a node has a value under each label. A path of labels is read
from a value by following it, and it stops at a value that is not a node. The entries that
a reading comes to decide what it reads, so a change to other entries does not show; nodes
may be shared and may be below themselves, so an entry can be visited by many paths, and
more than once by one.

`place` is the last entry that a path comes to: where the path has to be changed for it to
lead elsewhere.
-/

import Mathlib.Tactic.Common

namespace FerroRemote

universe u v w

/-- Which values are nodes, and what is read where there is nothing. -/
structure Shape (N : Type u) (V : Type v) where
  node : V → Option N
  absent : V
  node_absent : node absent = none

namespace Shape

variable {N : Type u} {V : Type v} {L : Type w} (S : Shape N V)

def reads (field : N → L → V) : V → List L → V
  | v, [] => v
  | v, l :: ls =>
    match S.node v with
    | some n => reads field (field n l) ls
    | none => S.absent

/-- The entries that a reading comes to. -/
def visits (field : N → L → V) : V → List L → List (N × L)
  | _, [] => []
  | v, l :: ls =>
    match S.node v with
    | some n => (n, l) :: visits field (field n l) ls
    | none => []

/-- The last entry that a path comes to, and what is left of the path there. -/
def place (field : N → L → V) : V → List L → Option (N × L × List L)
  | _, [] => none
  | v, l :: ls =>
    match S.node v with
    | some n =>
      match place field (field n l) ls with
      | some further => some further
      | none => some (n, l, ls)
    | none => none

variable {S} {field field' : N → L → V} {v : V} {n : N} {l : L} {ls : List L}

theorem reads_cons (hnode : S.node v = some n) :
    S.reads field v (l :: ls) = S.reads field (field n l) ls := by
  rw [reads, hnode]

theorem reads_cons_none (hnode : S.node v = none) : S.reads field v (l :: ls) = S.absent := by
  rw [reads, hnode]

theorem visits_cons (hnode : S.node v = some n) :
    S.visits field v (l :: ls) = (n, l) :: S.visits field (field n l) ls := by
  rw [visits, hnode]

theorem visits_cons_none (hnode : S.node v = none) : S.visits field v (l :: ls) = [] := by
  rw [visits, hnode]

theorem reads_of_absent (ls : List L) : S.reads field S.absent ls = S.absent := by
  cases ls with
  | nil => rfl
  | cons l ls => exact reads_cons_none S.node_absent

theorem visits_of_absent (ls : List L) : S.visits field S.absent ls = [] := by
  cases ls with
  | nil => rfl
  | cons l ls => exact visits_cons_none S.node_absent

theorem reads_append (v : V) (pre ls : List L) :
    S.reads field v (pre ++ ls) = S.reads field (S.reads field v pre) ls := by
  induction pre generalizing v with
  | nil => rfl
  | cons l pre ih =>
      rw [List.cons_append]
      cases hnode : S.node v with
      | none => rw [reads_cons_none hnode, reads_cons_none hnode, reads_of_absent]
      | some n => rw [reads_cons hnode, reads_cons hnode, ih]

theorem visits_append (v : V) (pre ls : List L) :
    S.visits field v (pre ++ ls) =
      S.visits field v pre ++ S.visits field (S.reads field v pre) ls := by
  induction pre generalizing v with
  | nil => rfl
  | cons l pre ih =>
      rw [List.cons_append]
      cases hnode : S.node v with
      | none =>
          rw [visits_cons_none hnode, visits_cons_none hnode, reads_cons_none hnode,
            visits_of_absent]
          rfl
      | some n => rw [visits_cons hnode, visits_cons hnode, reads_cons hnode, ih, List.cons_append]

/-- **Only the visited entries count.** -/
theorem reads_congr (hagree : ∀ e ∈ S.visits field v ls, field' e.1 e.2 = field e.1 e.2) :
    S.reads field' v ls = S.reads field v ls ∧ S.visits field' v ls = S.visits field v ls := by
  induction ls generalizing v with
  | nil => exact ⟨rfl, rfl⟩
  | cons l ls ih =>
      cases hnode : S.node v with
      | none =>
          rw [reads_cons_none hnode, reads_cons_none hnode, visits_cons_none hnode,
            visits_cons_none hnode]
          exact ⟨rfl, rfl⟩
      | some n =>
          rw [visits_cons hnode] at hagree
          have hfirst : field' n l = field n l := hagree (n, l) List.mem_cons_self
          obtain ⟨hreads, hvisits⟩ := ih fun e he => hagree e (List.mem_cons_of_mem _ he)
          rw [reads_cons hnode, reads_cons hnode, visits_cons hnode, visits_cons hnode, hfirst]
          exact ⟨hreads, congrArg _ hvisits⟩

/-- An entry is visited when the path leads to its node and goes on with its label. -/
theorem mem_visits_iff :
    (n, l) ∈ S.visits field v ls ↔
      ∃ pre rest, ls = pre ++ l :: rest ∧ S.node (S.reads field v pre) = some n := by
  apply Iff.intro
  · intro hmem
    induction ls generalizing v with
    | nil => exact absurd hmem List.not_mem_nil
    | cons k ls ih =>
        cases hnode : S.node v with
        | none =>
            rw [visits_cons_none hnode] at hmem
            exact absurd hmem List.not_mem_nil
        | some m =>
            rw [visits_cons hnode] at hmem
            cases List.mem_cons.mp hmem with
            | inl heq =>
                cases heq
                exact ⟨[], ls, rfl, hnode⟩
            | inr hrest =>
                obtain ⟨pre, rest, hls, hreads⟩ := ih hrest
                refine ⟨k :: pre, rest, congrArg (k :: ·) hls, ?_⟩
                rw [reads_cons hnode]
                exact hreads
  · intro ⟨pre, rest, hls, hnode⟩
    rw [hls, visits_append, visits_cons hnode]
    exact List.mem_append_right _ List.mem_cons_self

theorem node_of_reads (hnode : S.node (S.reads field v ls) = some n) :
    ∃ m, S.node v = some m := by
  cases hv : S.node v with
  | some m => exact ⟨m, rfl⟩
  | none =>
      cases ls with
      | nil =>
          rw [reads, hv] at hnode
          cases hnode
      | cons l ls =>
          rw [reads_cons_none hv, S.node_absent] at hnode
          cases hnode

theorem node_of_append {pre post : List L} (hnode : S.node (S.reads field v (pre ++ post)) = some n) :
    ∃ m, S.node (S.reads field v pre) = some m := by
  rw [reads_append] at hnode
  exact node_of_reads hnode

theorem length_visits_le (v : V) (ls : List L) : (S.visits field v ls).length ≤ ls.length := by
  induction ls generalizing v with
  | nil => exact Nat.le_refl 0
  | cons l ls ih =>
      cases hnode : S.node v with
      | none =>
          rw [visits_cons_none hnode]
          exact Nat.zero_le _
      | some n =>
          rw [visits_cons hnode]
          exact Nat.succ_le_succ (ih _)

/-- A path that visits as many entries as it has labels goes through nodes only. -/
theorem node_of_full (hfull : (S.visits field v ls).length = ls.length) {pre post : List L}
    (hls : ls = pre ++ l :: post) : ∃ m, S.node (S.reads field v pre) = some m := by
  cases hpre : S.node (S.reads field v pre) with
  | some m => exact ⟨m, rfl⟩
  | none =>
      have hle : (S.visits field v pre).length ≤ pre.length := length_visits_le v pre
      rw [hls, visits_append, visits_cons_none hpre, List.append_nil, List.length_append,
        List.length_cons] at hfull
      omega

/-- A path that starts at a node comes to some entry. -/
theorem place_isSome (hnode : S.node v = some n) : (S.place field v (l :: ls)).isSome = true := by
  simp only [place, hnode]
  cases S.place field (field n l) ls <;> rfl

theorem place_cons_further {further : N × L × List L} (hnode : S.node v = some n)
    (hplace : S.place field (field n l) ls = some further) :
    S.place field v (l :: ls) = some further := by
  simp only [place, hnode, hplace]

theorem place_cons_here (hnode : S.node v = some n) (hplace : S.place field (field n l) ls = none) :
    S.place field v (l :: ls) = some (n, l, ls) := by
  simp only [place, hnode, hplace]

theorem place_eq_none_iff : S.place field v ls = none ↔ ls = [] ∨ S.node v = none := by
  cases ls with
  | nil => exact iff_of_true rfl (.inl rfl)
  | cons l ls =>
      cases hnode : S.node v with
      | none =>
          simp only [place, hnode]
          exact iff_of_true trivial (.inr trivial)
      | some n =>
          apply iff_of_false
          · intro hnone
            have hsome : (S.place field v (l :: ls)).isSome = true := place_isSome hnode
            rw [hnone] at hsome
            cases hsome
          · simp

/-- **The place of a path.** Everything before it is read through nodes, and it is the last
entry that is visited: either the path ends there, or no node is there. -/
theorem place_spec {post : List L} (hplace : S.place field v ls = some (n, l, post)) :
    ∃ pre, ls = pre ++ l :: post ∧ S.node (S.reads field v pre) = some n ∧
      S.visits field v ls = S.visits field v pre ++ [(n, l)] ∧
      (post = [] ∨ S.node (field n l) = none) := by
  induction ls generalizing v with
  | nil => cases hplace
  | cons k ls ih =>
      cases hnode : S.node v with
      | none =>
          simp only [place, hnode] at hplace
          cases hplace
      | some m =>
          cases hrest : S.place field (field m k) ls with
          | some further =>
              simp only [place, hnode, hrest] at hplace
              rw [Option.some_inj.mp hplace] at hrest
              obtain ⟨pre, hls, hreads, hvisits, hpost⟩ := ih hrest
              have hthrough : S.reads field v (k :: pre) = S.reads field (field m k) pre :=
                reads_cons hnode
              apply Exists.intro (k :: pre)
              rw [hthrough, visits_cons hnode, visits_cons hnode, hvisits, hls]
              exact ⟨rfl, hreads, rfl, hpost⟩
          | none =>
              simp only [place, hnode, hrest, Option.some_inj, Prod.mk.injEq] at hplace
              obtain ⟨rfl, rfl, rfl⟩ := hplace
              have hstop := place_eq_none_iff.mp hrest
              have hvisits : S.visits field (field m k) ls = [] := by
                cases hstop with
                | inl hempty => rw [hempty, visits]
                | inr hleaf =>
                    cases ls with
                    | nil => rfl
                    | cons l ls => exact visits_cons_none hleaf
              apply Exists.intro []
              rw [visits_cons hnode, hvisits]
              exact ⟨rfl, hnode, rfl, hstop⟩

/-- A path whose proper prefixes all lead to nodes has nothing left at its place. -/
theorem place_of_through (pre : List L) (hnode : S.node (S.reads field v pre) = some n) :
    S.place field v (pre ++ [l]) = some (n, l, []) := by
  induction pre generalizing v with
  | nil =>
      have hnode : S.node v = some n := hnode
      simp only [List.nil_append, place, hnode]
  | cons k pre ih =>
      cases hfirst : S.node v with
      | none =>
          rw [reads_cons_none hfirst, S.node_absent] at hnode
          cases hnode
      | some m =>
          rw [reads_cons hfirst] at hnode
          simp only [List.cons_append, place, hfirst, ih hnode]

end Shape

end FerroRemote

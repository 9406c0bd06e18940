/-
# Copies of results

A `result` holds its value as a trait says, as a value of its own or through a pointer that
may be shared, and its error beside it. What a result should be after it has been copied,
moved, assigned or swapped is an outcome: its error, and its value unless that has been
moved away. The outcomes stand beside the results of a run, and the law says at which
steps the two part.
-/

import Mathlib.Logic.Function.Basic
import FerroRemote.Math.Table
import FerroRemote.Math.Machine
import FerroRemote.Utilities.HexCodec

namespace FerroRemote.Utilities

/-- `detail::value_trait` and `detail::shared_ptr_trait`. -/
inductive ValueTrait
  | plain
  | sharedPtr
  deriving DecidableEq, Repr

/-- What a program's `T` does beyond its values: what is left of one that has been moved
from, and what is constructed of a `result` that is not `const`, from its error and its
value, if there is such a constructor. -/
structure ValueClass (T E : Type) where
  moved : T → T
  ofResult : Option (Option E → Option T → T) := none

namespace ValueTrait

variable {T E : Type} (c : ValueClass T E)

/-- `value_type`. A pointer is a place in the memory, or empty. -/
def ValueType (T : Type) : ValueTrait → Type
  | plain => T
  | sharedPtr => Option Nat

/-- `create`, with the memory. -/
def create : (k : ValueTrait) → T → List T → k.ValueType T × List T
  | plain, v, cells => (v, cells)
  | sharedPtr, v, cells => (some cells.length, cells ++ [v])

/-- `copy`: what is in `v` afterwards. -/
def copy (k : ValueTrait) (_v other : k.ValueType T) : k.ValueType T := other

/-- `value`, unless the pointer is empty. -/
def value : (k : ValueTrait) → k.ValueType T → List T → Option T
  | plain, v, _ => some v
  | sharedPtr, p, cells => p.bind fun a => cells[a]?

def movedFrom : (k : ValueTrait) → k.ValueType T → k.ValueType T
  | plain, v => c.moved v
  | sharedPtr, _ => none

/-- What has been moved to itself. A pointer stays what it is. -/
def selfMoved : (k : ValueTrait) → k.ValueType T → k.ValueType T
  | plain, v => c.moved v
  | sharedPtr, p => p

/-- An assignment to `*r`. -/
def write : (k : ValueTrait) → k.ValueType T → T → List T → k.ValueType T × List T
  | plain, _, v, cells => (v, cells)
  | sharedPtr, none, _, cells => (none, cells)
  | sharedPtr, some a, v, cells => (some a, cells.set a v)

def Shares : (k : ValueTrait) → k.ValueType T → k.ValueType T → Prop
  | plain, _, _ => False
  | sharedPtr, p, p' => p = p'

end ValueTrait

/-- The results of a program, with what their pointers point to. -/
structure Results (k : ValueTrait) (T E : Type) where
  objects : Table (Result (k.ValueType T) E) := ∅
  cells : List T := []

/-- What is done with results: the first one is made, or changed. -/
inductive ResultOp (T E : Type)
  | ok (r : Nat) (v : T)
  | fail (r : Nat) (err : E)
  /-- A `const` result is copied by the copy constructor. For one that is not the template
  is the better match. -/
  | copyConst (r other : Nat)
  | copyLvalue (r other : Nat)
  | moveConstruct (r other : Nat)
  | copyAssign (r other : Nat)
  | moveAssign (r other : Nat)
  | swap (r other : Nat)
  /-- `*r = v` -/
  | modify (r : Nat) (v : T)
  | destroy (r : Nat)

namespace Results

variable {k : ValueTrait} {T E : Type}

def construct (s : Results k T E) (r : Nat) (made : k.ValueType T × List T) (error : Option E) :
    Results k T E where
  objects := s.objects.insert r ⟨made.1, error⟩
  cells := made.2

/-- A step of the program, where it compiles and its results exist. -/
def step [Inhabited T] (c : ValueClass T E) (s : Results k T E) :
    ResultOp T E → Option (Results k T E)
  | .ok r v => if r ∈ s.objects then none else some (s.construct r (k.create v s.cells) none)
  | .fail r err =>
    if r ∈ s.objects then none
    else some (s.construct r (k.create default s.cells) (some err))
  | .copyConst r other =>
    if r ∈ s.objects then none
    else s.objects[other]?.map fun o =>
      let (v, cells) := k.create default s.cells
      s.construct r (k.copy v o.value, cells) none
  | .copyLvalue r other =>
    if r ∈ s.objects then none
    else c.ofResult.bind fun ofResult => s.objects[other]?.map fun o =>
      s.construct r (k.create (ofResult o.error (k.value o.value s.cells)) s.cells) none
  | .moveConstruct r other =>
    if r ∈ s.objects then none
    else s.objects[other]?.map fun o =>
      { s with objects := (s.objects.insert other ⟨k.movedFrom c o.value, none⟩).insert r o }
  | .copyAssign r other => s.objects[r]?.bind fun o => s.objects[other]?.map fun o' =>
      { s with objects := s.objects.insert r ⟨k.copy o.value o'.value, o'.error⟩ }
  | .moveAssign r other => s.objects[r]?.bind fun _ => s.objects[other]?.map fun o =>
      if r = other then { s with objects := s.objects.insert r ⟨k.selfMoved c o.value, o.error⟩ }
      else { s with objects := (s.objects.insert other ⟨k.movedFrom c o.value, none⟩).insert r o }
  | .swap r other => s.objects[r]?.bind fun o => s.objects[other]?.map fun o' =>
      { s with objects := (s.objects.insert r o').insert other o }
  | .modify r v => s.objects[r]?.bind fun o => (k.value o.value s.cells).map fun _ =>
      let (value, cells) := k.write o.value v s.cells
      { objects := s.objects.insert r ⟨value, o.error⟩, cells := cells }
  | .destroy r => if r ∈ s.objects then some { s with objects := s.objects.erase r } else none

end Results

/-- What a result should be. A value that has been moved away is not spoken of. -/
structure Outcome (T E : Type) where
  error : Option E
  value : Option T

section Outcomes

variable {T E : Type} [Inhabited T]

/-- What all results should be after a step. -/
def outcomeStep (k : ValueTrait) (w : Nat → Outcome T E) : ResultOp T E → Nat → Outcome T E
  | .ok r v => Function.update w r ⟨none, some v⟩
  | .fail r err => Function.update w r ⟨some err, some default⟩
  | .copyConst r other => Function.update w r (w other)
  | .copyLvalue r other => Function.update w r (w other)
  | .moveConstruct r other => Function.update (Function.update w other ⟨none, none⟩) r (w other)
  | .copyAssign r other => Function.update w r (w other)
  | .moveAssign r other =>
    if r = other then
      Function.update w r ⟨(w r).error, if k = .plain then none else (w r).value⟩
    else Function.update (Function.update w other ⟨none, none⟩) r (w other)
  | .swap r other => Function.update (Function.update w r (w other)) other (w r)
  | .modify r v => Function.update w r ⟨(w r).error, some v⟩
  | .destroy _ => w

/-- A program and what its results should be. -/
def resultMachine (k : ValueTrait) (c : ValueClass T E) :
    Machine (Results k T E × (Nat → Outcome T E)) (ResultOp T E) where
  init := ({}, fun _ => ⟨none, none⟩)
  step s op := (s.1.step c op).map fun results => (results, outcomeStep k s.2 op)

end Outcomes

/-- A result that is what it should be. -/
structure Tracks (k : ValueTrait) {T E : Type} (cells : List T) (o : Result (k.ValueType T) E)
    (w : Outcome T E) : Prop where
  error : o.error = w.error
  value : ∀ v, w.value = some v → k.value o.value cells = some v

def AllTrack (k : ValueTrait) {T E : Type} (objects : Table (Result (k.ValueType T) E))
    (cells : List T) (w : Nat → Outcome T E) : Prop :=
  ∀ r o, objects[r]? = some o → Tracks k cells o (w r)

/-- Every result is what it should be. -/
def KeepOutcomes (k : ValueTrait) {T E : Type} (s : Results k T E × (Nat → Outcome T E)) : Prop :=
  AllTrack k s.1.objects s.1.cells s.2

/-- Only results without an error are copied by a constructor; one that is not `const` only
if the value made of it is its own; and a value that is shared, and has not been moved away,
is modified only when it stays the same. -/
def Careful (k : ValueTrait) {T E : Type} (c : ValueClass T E)
    (s : Results k T E × (Nat → Outcome T E)) : ResultOp T E → Prop
  | .copyConst _ other => ∀ o, s.1.objects[other]? = some o → o.error = none
  | .copyLvalue _ other => ∀ o ofResult, s.1.objects[other]? = some o →
      c.ofResult = some ofResult →
        o.error = none ∧ ∀ v, (s.2 other).value = some v → ofResult none (some v) = v
  | .modify r v => ∀ r' o o', r ≠ r' → s.1.objects[r]? = some o → s.1.objects[r']? = some o' →
      k.Shares o.value o'.value → (s.2 r').value ≠ none → k.value o.value s.1.cells = some v
  | _ => True

namespace ValueTrait

variable {k : ValueTrait} {T E : Type} {cells : List T}

theorem value_create (k : ValueTrait) (v : T) (cells : List T) :
    k.value (k.create v cells).1 (k.create v cells).2 = some v := by
  cases k with
  | plain => rfl
  | sharedPtr => simp [create, value]

theorem value_create_of_value {h : k.ValueType T} {v : T} (hvalue : k.value h cells = some v)
    (new : T) : k.value h (k.create new cells).2 = some v := by
  cases k with
  | plain => exact hvalue
  | sharedPtr =>
      cases h with
      | none => cases hvalue
      | some a =>
          have hcell : cells[a]? = some v := hvalue
          have hlt : a < cells.length := (List.getElem?_eq_some_iff.mp hcell).1
          change (cells ++ [new])[a]? = some v
          rw [List.getElem?_append_left hlt, hcell]

theorem value_write {h : k.ValueType T} {u : T} (hvalue : k.value h cells = some u) (v : T) :
    k.value (k.write h v cells).1 (k.write h v cells).2 = some v := by
  cases k with
  | plain => rfl
  | sharedPtr =>
      cases h with
      | none => cases hvalue
      | some a =>
          have hcell : cells[a]? = some u := hvalue
          have hlt : a < cells.length := (List.getElem?_eq_some_iff.mp hcell).1
          change (cells.set a v)[a]? = some v
          rw [List.getElem?_set_self hlt]

theorem value_write_of_not_shares {h h' : k.ValueType T} (hshares : ¬ k.Shares h h') (v : T) :
    k.value h' (k.write h v cells).2 = k.value h' cells := by
  cases k with
  | plain => rfl
  | sharedPtr =>
      cases h with
      | none => rfl
      | some a =>
          cases h' with
          | none => rfl
          | some a' =>
              have hne : a ≠ a' := fun heq => hshares (congrArg some heq)
              change (cells.set a v)[a']? = cells[a']?
              rw [List.getElem?_set_ne hne]

theorem value_write_of_shares {h h' : k.ValueType T} (hshares : k.Shares h h') {u : T}
    (hvalue : k.value h cells = some u) (v : T) :
    k.value h' (k.write h v cells).2 = some v := by
  have hwritten := value_write hvalue v
  cases k with
  | plain => exact hshares.elim
  | sharedPtr =>
      cases h with
      | none => cases hvalue
      | some a =>
          cases hshares
          exact hwritten

theorem value_eq_of_shares {h h' : k.ValueType T} (hshares : k.Shares h h') :
    k.value h' cells = k.value h cells := by
  cases k with
  | plain => exact hshares.elim
  | sharedPtr =>
      cases hshares
      rfl

end ValueTrait

section Tracking

variable {k : ValueTrait} {T E : Type} {cells : List T}

theorem AllTrack.insert {objects : Table (Result (k.ValueType T) E)} {w : Nat → Outcome T E}
    (hall : AllTrack k objects cells w) (r : Nat) {o : Result (k.ValueType T) E}
    {wo : Outcome T E} (ho : Tracks k cells o wo) :
    AllTrack k (objects.insert r o) cells (Function.update w r wo) := by
  intro r' o' ho'
  rw [Table.getElem?_insert_eq] at ho'
  by_cases heq : r = r'
  · subst heq
    rw [if_pos rfl, Option.some_inj] at ho'
    subst ho'
    rw [Function.update_self]
    exact ho
  · rw [if_neg heq] at ho'
    rw [Function.update_of_ne (Ne.symm heq)]
    exact hall r' o' ho'

theorem AllTrack.erase {objects : Table (Result (k.ValueType T) E)} {w : Nat → Outcome T E}
    (hall : AllTrack k objects cells w) (r : Nat) : AllTrack k (objects.erase r) cells w := by
  intro r' o' ho'
  exact hall r' o' (Table.getElem?_erase_eq_some_iff.mp ho').2

theorem AllTrack.create {objects : Table (Result (k.ValueType T) E)} {w : Nat → Outcome T E}
    (hall : AllTrack k objects cells w) (new : T) :
    AllTrack k objects (k.create new cells).2 w := by
  intro r o ho
  have htracks := hall r o ho
  exact ⟨htracks.error, fun v hv => ValueTrait.value_create_of_value (htracks.value v hv) new⟩

theorem tracks_of_value {o : Result (k.ValueType T) E} {v : T}
    (hvalue : k.value o.value cells = some v) : Tracks k cells o ⟨o.error, some v⟩ where
  error := rfl
  value := by
    intro v' hv'
    rw [hvalue, ← hv']

theorem tracks_movedFrom (c : ValueClass T E) (h : k.ValueType T) :
    Tracks k cells (⟨k.movedFrom c h, none⟩ : Result (k.ValueType T) E) ⟨none, none⟩ where
  error := rfl
  value := fun _ hv => nomatch hv

theorem tracks_selfMoved (c : ValueClass T E) {o : Result (k.ValueType T) E} {w : Outcome T E}
    (htracks : Tracks k cells o w) :
    Tracks k cells ⟨k.selfMoved c o.value, o.error⟩
      ⟨w.error, if k = .plain then none else w.value⟩ := by
  cases k with
  | plain => exact ⟨htracks.error, fun _ hv => nomatch hv⟩
  | sharedPtr => exact htracks

/-- A write to a value that nobody else holds, or that stays the same. -/
theorem AllTrack.write {objects : Table (Result (k.ValueType T) E)} {w : Nat → Outcome T E}
    (hall : AllTrack k objects cells w) {r : Nat} {o : Result (k.ValueType T) E} {u v : T}
    (ho : objects[r]? = some o) (hvalue : k.value o.value cells = some u)
    (hothers : ∀ r' o', r ≠ r' → objects[r']? = some o' → k.Shares o.value o'.value →
      (w r').value ≠ none → u = v) :
    AllTrack k (objects.insert r ⟨(k.write o.value v cells).1, o.error⟩)
      (k.write o.value v cells).2 (Function.update w r ⟨(w r).error, some v⟩) := by
  have herror := (hall r o ho).error
  intro r' o' ho'
  rw [Table.getElem?_insert_eq] at ho'
  by_cases heq : r = r'
  · subst heq
    rw [if_pos rfl, Option.some_inj] at ho'
    subst ho'
    rw [Function.update_self, ← herror]
    exact tracks_of_value (ValueTrait.value_write hvalue v)
  · rw [if_neg heq] at ho'
    rw [Function.update_of_ne (Ne.symm heq)]
    have htracks := hall r' o' ho'
    refine ⟨htracks.error, ?_⟩
    intro v' hv'
    have hbefore := htracks.value v' hv'
    by_cases hshares : k.Shares o.value o'.value
    · have hspoken : (w r').value ≠ none := Option.ne_none_iff_exists'.mpr ⟨v', hv'⟩
      have huv := hothers r' o' heq ho' hshares hspoken
      rw [ValueTrait.value_write_of_shares hshares hvalue, ← huv, ← hvalue,
        ← ValueTrait.value_eq_of_shares hshares, hbefore]
    · rw [ValueTrait.value_write_of_not_shares hshares, hbefore]

theorem allTrack_step [Inhabited T] {c : ValueClass T E}
    {s : Results k T E × (Nat → Outcome T E)} {op : ResultOp T E} {results : Results k T E}
    (hall : AllTrack k s.1.objects s.1.cells s.2) (hcareful : Careful k c s op)
    (hstep : s.1.step c op = some results) :
    AllTrack k results.objects results.cells (outcomeStep k s.2 op) := by
  obtain ⟨s, w⟩ := s
  cases op with
  | ok r v =>
      rw [Results.step, Option.ite_none_left_eq_some, Option.some_inj] at hstep
      obtain ⟨-, rfl⟩ := hstep
      exact (hall.create v).insert r (tracks_of_value (ValueTrait.value_create k v s.cells))
  | fail r err =>
      rw [Results.step, Option.ite_none_left_eq_some, Option.some_inj] at hstep
      obtain ⟨-, rfl⟩ := hstep
      exact (hall.create default).insert r
        (tracks_of_value (ValueTrait.value_create k default s.cells))
  | copyConst r other =>
      rw [Results.step, Option.ite_none_left_eq_some, Option.map_eq_some_iff] at hstep
      obtain ⟨-, o, ho, rfl⟩ := hstep
      have hcreated := hall.create (default : T)
      have htracks := hcreated other o ho
      have herror : o.error = none := hcareful o ho
      refine hcreated.insert r ⟨?_, htracks.value⟩
      rw [← htracks.error, herror]
  | copyLvalue r other =>
      rw [Results.step, Option.ite_none_left_eq_some, Option.bind_eq_some_iff] at hstep
      obtain ⟨-, f, hf, hstep⟩ := hstep
      rw [Option.map_eq_some_iff] at hstep
      obtain ⟨o, ho, rfl⟩ := hstep
      have htracks := hall other o ho
      obtain ⟨herror, hsame⟩ := hcareful o f ho hf
      have hmade := hall.create (f o.error (k.value o.value s.cells))
      refine hmade.insert r ⟨?_, ?_⟩
      · rw [← htracks.error, herror]
      · intro v hv
        rw [ValueTrait.value_create, htracks.value v hv, herror, hsame v hv]
  | moveConstruct r other =>
      rw [Results.step, Option.ite_none_left_eq_some, Option.map_eq_some_iff] at hstep
      obtain ⟨-, o, ho, rfl⟩ := hstep
      exact (hall.insert other (tracks_movedFrom c o.value)).insert r (hall other o ho)
  | copyAssign r other =>
      rw [Results.step, Option.bind_eq_some_iff] at hstep
      obtain ⟨o, ho, hstep⟩ := hstep
      rw [Option.map_eq_some_iff] at hstep
      obtain ⟨o', ho', rfl⟩ := hstep
      exact hall.insert r (hall other o' ho')
  | moveAssign r other =>
      rw [Results.step, Option.bind_eq_some_iff] at hstep
      obtain ⟨o, ho, hstep⟩ := hstep
      rw [Option.map_eq_some_iff] at hstep
      obtain ⟨o', ho', rfl⟩ := hstep
      rw [outcomeStep]
      by_cases heq : r = other
      · subst heq
        rw [if_pos rfl, if_pos rfl]
        exact hall.insert r (tracks_selfMoved c (hall r o' ho'))
      · rw [if_neg heq, if_neg heq]
        exact (hall.insert other (tracks_movedFrom c o'.value)).insert r (hall other o' ho')
  | swap r other =>
      rw [Results.step, Option.bind_eq_some_iff] at hstep
      obtain ⟨o, ho, hstep⟩ := hstep
      rw [Option.map_eq_some_iff] at hstep
      obtain ⟨o', ho', rfl⟩ := hstep
      exact (hall.insert r (hall other o' ho')).insert other (hall r o ho)
  | modify r v =>
      rw [Results.step, Option.bind_eq_some_iff] at hstep
      obtain ⟨o, ho, hstep⟩ := hstep
      rw [Option.map_eq_some_iff] at hstep
      obtain ⟨u, hvalue, rfl⟩ := hstep
      apply hall.write ho hvalue
      intro r' o' hne ho' hshares hspoken
      exact Option.some_inj.mp (hvalue.symm.trans (hcareful r' o o' hne ho ho' hshares hspoken))
  | destroy r =>
      rw [Results.step, Option.ite_none_right_eq_some, Option.some_inj] at hstep
      obtain ⟨-, rfl⟩ := hstep
      exact hall.erase r

/-- A step after which the results are what they should be was careful. -/
theorem careful_of_keepOutcomes [Inhabited T] {c : ValueClass T E}
    {s : Results k T E × (Nat → Outcome T E)} {op : ResultOp T E} {results : Results k T E}
    (hall : KeepOutcomes k s) (hstep : s.1.step c op = some results)
    (hall' : KeepOutcomes k (results, outcomeStep k s.2 op)) : Careful k c s op := by
  obtain ⟨s, w⟩ := s
  cases op with
  | copyConst r other =>
      intro o ho
      rw [Results.step, Option.ite_none_left_eq_some, Option.map_eq_some_iff] at hstep
      obtain ⟨-, o', ho', rfl⟩ := hstep
      cases ho.symm.trans ho'
      have hmade : Tracks k (k.create (default : T) s.cells).2 ⟨o.value, none⟩
          (Function.update w r (w other) r) := hall' r _ (Table.getElem?_insert_self s.objects r _)
      rw [Function.update_self] at hmade
      exact (hall other o ho).error.trans hmade.error.symm
  | copyLvalue r other =>
      intro o f ho hf
      rw [Results.step, Option.ite_none_left_eq_some, Option.bind_eq_some_iff] at hstep
      obtain ⟨-, f', hf', hstep⟩ := hstep
      cases hf.symm.trans hf'
      rw [Option.map_eq_some_iff] at hstep
      obtain ⟨o', ho', rfl⟩ := hstep
      cases ho.symm.trans ho'
      have htracks := hall other o ho
      let made := k.create (f o.error (k.value o.value s.cells)) s.cells
      have hmade : Tracks k made.2 ⟨made.1, none⟩ (Function.update w r (w other) r) :=
        hall' r _ (Table.getElem?_insert_self s.objects r _)
      rw [Function.update_self] at hmade
      have herror : o.error = none := htracks.error.trans hmade.error.symm
      refine ⟨herror, ?_⟩
      intro v hv
      have hvalue : k.value made.1 made.2 = some v := hmade.value v hv
      rw [ValueTrait.value_create, Option.some_inj, htracks.value v hv, herror] at hvalue
      exact hvalue
  | modify r v =>
      intro r' o o' hne ho ho' hshares hspoken
      rw [Results.step, Option.bind_eq_some_iff] at hstep
      obtain ⟨o₁, ho₁, hstep⟩ := hstep
      cases ho.symm.trans ho₁
      rw [Option.map_eq_some_iff] at hstep
      obtain ⟨u, hvalue, rfl⟩ := hstep
      obtain ⟨v', hv'⟩ := Option.ne_none_iff_exists'.mp hspoken
      have hbefore := (hall r' o' ho').value v' hv'
      have hafter : Tracks k (k.write o.value v s.cells).2 o'
          (Function.update w r ⟨(w r).error, some v⟩ r') :=
        hall' r' o' ((Table.getElem?_insert_of_ne hne _).trans ho')
      rw [Function.update_of_ne (Ne.symm hne)] at hafter
      have hwritten := ValueTrait.value_write_of_shares hshares hvalue v
      have hsame : some v = some v' := hwritten.symm.trans (hafter.value v' hv')
      rw [ValueTrait.value_eq_of_shares hshares, ← hsame] at hbefore
      exact hbefore
  | ok r v => trivial
  | fail r err => trivial
  | moveConstruct r other => trivial
  | copyAssign r other => trivial
  | moveAssign r other => trivial
  | swap r other => trivial
  | destroy r => trivial

end Tracking

/-- **Copies of results.** All results of a run are what they should be exactly when the run
is careful. -/
theorem keepOutcomes_iff_careful (k : ValueTrait) {T E : Type} [Inhabited T]
    (c : ValueClass T E) (ops : List (ResultOp T E)) :
    (resultMachine k c).Along (KeepOutcomes k) ops ↔ (resultMachine k c).Meets (Careful k c) ops := by
  have hinit : KeepOutcomes k (resultMachine k c).init := by
    intro r o ho
    exact absurd ho (Table.getElem?_empty_ne r o)
  apply Machine.along_iff_meets hinit
  · intro s op s' hall hcareful hstep
    obtain ⟨results, hresults, rfl⟩ := Option.map_eq_some_iff.mp hstep
    exact allTrack_step hall hcareful hresults
  · intro s hall
    exact hall
  · intro s op s' hall hstep hall'
    obtain ⟨results, hresults, rfl⟩ := Option.map_eq_some_iff.mp hstep
    exact careful_of_keepOutcomes hall hresults hall'

/-- A copy of a failure is a success. -/
theorem failure_is_copied_as_success :
    ¬ ∀ ops : List (ResultOp Nat Nat),
      (resultMachine .sharedPtr ⟨id, none⟩).Along (KeepOutcomes .sharedPtr) ops := by
  intro hall
  have halong := hall [.fail 0 1, .copyConst 1 0]
  have hfailed := halong.2 _ rfl
  have hcareful := careful_of_keepOutcomes (c := ⟨id, none⟩) hfailed.1 rfl (hfailed.2 _ rfl)
  have herror := hcareful ⟨some 0, some 1⟩ (Table.getElem?_insert_self _ 0 _)
  cases herror

end FerroRemote.Utilities

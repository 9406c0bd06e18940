/-
# Which values come back from the object model

Tables are structurally equal when they have the same keys with equal values at every
level. A value that is converted and pushed again is compared with the original, and so is
a list of values that are added to a new table. Nested tables always come back, since they
are kept by reference; the strings and numbers on the first level may not.
-/

import FerroRemote.Lua.Objects
import Mathlib.Data.List.Induction

namespace FerroRemote.Lua

/-- The same value, or tables with the same values under every key. -/
inductive Same (h : Heap) : Value → Value → Prop
  | refl (v : Value) : Same h v v
  | table {id id' : Nat} (fields : ∀ k, Same h (h.get id k) (h.get id' k)) :
      Same h (.table id) (.table id')

theorem Same.eq_of_not_table {h : Heap} {v w : Value} (hsame : Same h v w)
    (htype : v.type ≠ .table) : w = v := by
  cases hsame with
  | refl => rfl
  | table => exact absurd rfl htype

theorem Same.eq_nil {h : Heap} {v : Value} (hsame : Same h v .nil) : v = .nil := by
  cases hsame
  rfl

/-- A value whose table, if it is one, exists. -/
abbrev ValueOf (h : Heap) : Type := { v : Value // ∀ id, v = .table id → id < h.length }

/-- Of a table, the keys and the values come back; of another value, it does. -/
def Survives (flags : Bool) (h : Heap) : Value → Prop
  | .table id => ∀ k, h.get id k ≠ .nil → Faithful flags k ∧ Faithful flags (h.get id k)
  | v => Faithful flags v

section Copies

/-- The entries, in their order, as they are written to another table. -/
def copied (flags : Bool) (id : Nat) : List (Sigma fun _ : Value => Value) → Heap → Heap
  | [], g => g
  | e :: entries, g => copied flags id entries (g.set id (carried flags e.1) (carried flags e.2))

variable {flags : Bool} {id : Nat} {entries : List (Sigma fun _ : Value => Value)} {g : Heap}

theorem push_pairsOf (hpresent : ∀ e ∈ entries, e.1 ≠ .nil ∧ e.2 ≠ .nil) (len : Nat) :
    (pairsOf flags entries).push id len g = copied flags id entries g := by
  induction entries generalizing g with
  | nil => rfl
  | cons e entries ih =>
      obtain ⟨hkey, hvalue⟩ := hpresent e List.mem_cons_self
      rw [pairsOf, Pairs.push, noneOrNil_element, noneOrNil_element, decide_eq_false hkey,
        decide_eq_false hvalue]
      simp only [push_element]
      exact ih fun e he => hpresent e (List.mem_cons_of_mem _ he)

@[simp]
theorem length_copied : (copied flags id entries g).length = g.length := by
  induction entries generalizing g with
  | nil => rfl
  | cons e entries ih => rw [copied, ih, Heap.length_set]

/-- Keys that no entry is written under are as before, and so are all other tables. -/
theorem copied_other (hid : id < g.length) (hpresent : ∀ e ∈ entries, e.1 ≠ .nil) {id' : Nat}
    {k : Value} (hother : id' = id → ∀ e ∈ entries, carried flags e.1 ≠ k) :
    (copied flags id entries g).get id' k = g.get id' k := by
  induction entries generalizing g with
  | nil => rfl
  | cons e entries ih =>
      have hkey : carried flags e.1 ≠ .nil :=
        carried_eq_nil_iff.not.mpr (hpresent e List.mem_cons_self)
      rw [copied, ih (by rw [Heap.length_set]; exact hid)
        (fun e he => hpresent e (List.mem_cons_of_mem _ he))
        (fun heq e he => hother heq e (List.mem_cons_of_mem _ he)), Heap.get_set hid hkey]
      exact if_neg fun hboth => hother hboth.1 e List.mem_cons_self hboth.2.symm

/-- When the keys come back, every entry is there with its value as it comes back. -/
theorem copied_faithful (hid : id < g.length) (hpresent : ∀ e ∈ entries, e.1 ≠ .nil)
    (hnodup : entries.NodupKeys) (hkeys : ∀ e ∈ entries, carried flags e.1 = e.1)
    {e : Sigma fun _ : Value => Value} (he : e ∈ entries) :
    (copied flags id entries g).get id e.1 = carried flags e.2 := by
  induction entries generalizing g with
  | nil => exact absurd he List.not_mem_nil
  | cons first entries ih =>
      obtain ⟨hnew, hrest⟩ := List.nodupKeys_cons.mp hnodup
      have hpresent' : ∀ e ∈ entries, e.1 ≠ .nil :=
        fun e he => hpresent e (List.mem_cons_of_mem _ he)
      have hkeys' : ∀ e ∈ entries, carried flags e.1 = e.1 :=
        fun e he => hkeys e (List.mem_cons_of_mem _ he)
      have hid' : id < (g.set id (carried flags first.1) (carried flags first.2)).length := by
        rw [Heap.length_set]
        exact hid
      rw [copied]
      cases List.mem_cons.mp he with
      | inr hlater => exact ih hid' hpresent' hrest hkeys' hlater
      | inl heq =>
          have hkey : carried flags first.1 ≠ .nil :=
            carried_eq_nil_iff.not.mpr (hpresent first List.mem_cons_self)
          subst heq
          rw [copied_other hid' hpresent', Heap.get_set hid hkey,
            if_pos ⟨rfl, (hkeys e List.mem_cons_self).symm⟩]
          intro _ e' he' heq'
          rw [hkeys' e' he'] at heq'
          apply hnew
          rw [← heq']
          exact List.mem_map_of_mem he'

theorem LuaTable.get_of_mem (t : LuaTable) {e : Sigma fun _ : Value => Value}
    (he : e ∈ t.entries.entries) : t.get e.1 = e.2 ∧ e.2 ≠ .nil :=
  ⟨(t.get_eq_iff (t.present e he).2).mpr he, (t.present e he).2⟩

end Copies

section Copy

variable {flags : Bool} {t : LuaTable} {id id' : Nat} {f g : Heap}

theorem keys_come_back (hid' : id' < g.length) (hempty : ∀ k, g.get id' k = .nil)
    (hold : ∀ k, f.get id k = t.get k)
    (hnew : ∀ k, f.get id' k = (copied flags id' t.entries.entries g).get id' k)
    (hsame : ∀ k, Same f (f.get id k) (f.get id' k)) :
    ∀ e ∈ t.entries.entries, carried flags e.1 = e.1 := by
  intro e he
  obtain ⟨hget, hvalue⟩ := t.get_of_mem he
  by_contra hcarried
  have hfield := hsame e.1
  rw [hold, hget, hnew, copied_other hid' (fun e he => (t.present e he).1), hempty] at hfield
  · exact hvalue hfield.eq_nil
  · intro _ e' _ heq
    rw [← heq, carried_carried] at hcarried
    exact hcarried rfl

theorem survives_of_same (hid' : id' < g.length) (hempty : ∀ k, g.get id' k = .nil)
    (hold : ∀ k, f.get id k = t.get k)
    (hnew : ∀ k, f.get id' k = (copied flags id' t.entries.entries g).get id' k)
    (hsame : ∀ k, Same f (f.get id k) (f.get id' k)) {k : Value} (hk : t.get k ≠ .nil) :
    Faithful flags k ∧ Faithful flags (t.get k) := by
  have hkeys := keys_come_back hid' hempty hold hnew hsame
  have hentry := (t.get_eq_iff hk).mp rfl
  have hfield := hsame k
  rw [hold, hnew, copied_faithful hid' (fun e he => (t.present e he).1) t.entries.nodupKeys hkeys
    hentry] at hfield
  apply And.intro ((carried_eq_iff flags k).mp (hkeys _ hentry))
  apply (carried_eq_iff flags _).mp
  by_cases hvalue : (t.get k).type = .table
  · obtain ⟨id, hid⟩ := type_eq_table_iff.mp hvalue
    rw [hid]
    rfl
  · exact hfield.eq_of_not_table hvalue

theorem same_of_survives (hid' : id' < g.length) (hempty : ∀ k, g.get id' k = .nil)
    (hsurvives : ∀ k, t.get k ≠ .nil → Faithful flags k ∧ Faithful flags (t.get k)) (k : Value) :
    (copied flags id' t.entries.entries g).get id' k = t.get k := by
  have hkeys : ∀ e ∈ t.entries.entries, carried flags e.1 = e.1 := by
    intro e he
    obtain ⟨hget, hvalue⟩ := t.get_of_mem he
    exact (carried_eq_iff flags _).mpr (hsurvives e.1 (hget ▸ hvalue)).1
  by_cases hk : t.get k = .nil
  · rw [hk, copied_other hid' (fun e he => (t.present e he).1), hempty]
    intro _ e he heq
    obtain ⟨hget, hvalue⟩ := t.get_of_mem he
    rw [hkeys e he] at heq
    rw [heq, hk] at hget
    exact hvalue hget.symm
  · have hentry := (t.get_eq_iff hk).mp rfl
    rw [copied_faithful hid' (fun e he => (t.present e he).1) t.entries.nodupKeys hkeys hentry]
    exact (carried_eq_iff flags _).mpr (hsurvives k hk).2

end Copy

section Pushed

variable {flags : Bool} {h g : Heap}

/-- A table comes back as a new one, with a copy of its entries. -/
theorem push_table (id : Nat) :
    (getObject flags h (.table id)).push g = (.table g.length,
      copied flags g.length (h[id]?.getD .empty).entries.entries g.alloc) := by
  rw [getObject, objectOf, getTableObject, Obj.push,
    push_pairsOf (h[id]?.getD LuaTable.empty).present]

theorem push_other {v : Value} (htype : v.type ≠ .table) :
    (getObject flags h v).push g = (carried flags v, g) := by
  rw [← push_element flags v g]
  cases v with
  | table id => exact absurd rfl htype
  | nil | boolean | lightuserdata | number | string | function | userdata | thread => rfl

theorem push_old (v : Value) :
    g.length ≤ ((getObject flags h v).push g).2.length ∧
      ∀ id k, id < g.length → ((getObject flags h v).push g).2.get id k = g.get id k := by
  by_cases htype : v.type = .table
  · obtain ⟨id, rfl⟩ := type_eq_table_iff.mp htype
    rw [push_table]
    apply And.intro
    · rw [length_copied, Heap.length_alloc]
      exact Nat.le_succ _
    · intro id' k hid'
      have hlt : g.length < g.alloc.length := by
        rw [Heap.length_alloc]
        exact Nat.lt_succ_self _
      rw [copied_other hlt (fun e he => ((h[id]?.getD LuaTable.empty).present e he).1)
        (fun heq => absurd heq (Nat.ne_of_lt hid')), Heap.get_alloc]
  · rw [push_other htype]
    exact ⟨Nat.le_refl _, fun _ _ _ => rfl⟩

/-- **One value.** In tables `f` that have the original and the copy as they are, they are
structurally equal exactly when the value survives. -/
theorem pushed_same_iff {f : Heap} {v : Value} (hv : ∀ id, v = .table id → id < g.length)
    (hold : ∀ id k, v = .table id → f.get id k = h.get id k)
    (hnew : ∀ k, v.type = .table →
      f.get g.length k = ((getObject flags h v).push g).2.get g.length k) :
    Same f v ((getObject flags h v).push g).1 ↔ Survives flags h v := by
  by_cases htype : v.type = .table
  · obtain ⟨id, rfl⟩ := type_eq_table_iff.mp htype
    have hlt : g.length < g.alloc.length := by
      rw [Heap.length_alloc]
      exact Nat.lt_succ_self _
    have hempty : ∀ k, g.alloc.get g.length k = .nil := by
      intro k
      rw [Heap.get_alloc, Heap.get_of_le (Nat.le_refl _)]
    have hold : ∀ k, f.get id k = (h[id]?.getD LuaTable.empty).get k := fun k => hold id k rfl
    rw [push_table] at hnew ⊢
    have hnew : ∀ k, f.get g.length k = (copied flags g.length
        (h[id]?.getD LuaTable.empty).entries.entries g.alloc).get g.length k :=
      fun k => hnew k htype
    apply Iff.intro
    · intro hsame k hk
      apply survives_of_same hlt hempty hold hnew _ hk
      cases hsame with
      | refl => exact absurd (hv _ rfl) (Nat.lt_irrefl _)
      | table fields => exact fields
    · intro hsurvives
      apply Same.table
      intro k
      rw [hold, hnew, same_of_survives hlt hempty hsurvives]
      exact Same.refl _
  · rw [push_other htype]
    have hsurvives : Survives flags h v ↔ Faithful flags v := by
      cases v with
      | table id => exact absurd rfl htype
      | nil | boolean | lightuserdata | number | string | function | userdata | thread => rfl
    rw [hsurvives, ← carried_eq_iff]
    apply Iff.intro
    · exact fun hsame => hsame.eq_of_not_table htype
    · intro heq
      rw [heq]
      exact Same.refl v

end Pushed

/-! ## Values that are added to a new table -/

/-- The pairs of consecutive indices with objects. -/
def pairsFrom : Nat → List Obj → Pairs
  | _, [] => .nil
  | i, o :: os => .cons (.integer i) o (pairsFrom (i + 1) os)

theorem pushBack_pairsFrom (i : Nat) (os : List Obj) (o : Obj) :
    (pairsFrom i os).pushBack (.integer (i + os.length : Nat)) o = pairsFrom i (os ++ [o]) := by
  induction os generalizing i with
  | nil => rfl
  | cons first os ih =>
      rw [pairsFrom, Pairs.pushBack, List.cons_append, pairsFrom, ← ih, List.length_cons,
        Nat.add_right_comm, Nat.add_assoc]

theorem addAll_eq (os : List Obj) : addAll os = .table (pairsFrom 1 os) (os.length + 1) := by
  have hfold : os.foldl (fun t value => Pairs.add t.1 t.2 value) (.nil, 1) =
      (pairsFrom 1 os, os.length + 1) := by
    induction os using List.reverseRecOn with
    | nil => rfl
    | append_singleton os o ih =>
        rw [List.foldl_append, ih, List.foldl_cons, List.foldl_nil, Pairs.add,
          ← pushBack_pairsFrom, List.length_append, Nat.add_comm 1]
        rfl
  rw [addAll, hfold]

def index (i : Nat) : Value := .number (.whole i)

theorem index_ne_nil (i : Nat) : index i ≠ .nil := fun hnil => by cases hnil

theorem index_injective {i j : Nat} (heq : index i = index j) : i = j := by
  rw [index, index, Value.number.injEq, LuaNumber.whole.injEq] at heq
  exact Int.ofNat.inj heq

/-- What pushing values into the table `id` from index `i` on makes of the tables `g`; nils
are pushed from index `len` on. -/
structure Filled (flags : Bool) (h : Heap) (values : List Value) (i id len : Nat)
    (g g' : Heap) : Prop where
  length : g.length ≤ g'.length
  old : ∀ id' k, id' < g.length → id' ≠ id → g'.get id' k = g.get id' k
  others : ∀ k, (∀ j, i ≤ j → j < i + values.length ∨ len ≤ j → k ≠ index j) →
    g'.get id k = g.get id k
  exactly : (∀ v ∈ values, v ≠ .nil) →
    ∀ k, (∀ j, i ≤ j → j < i + values.length → k ≠ index j) → g'.get id k = g.get id k
  same : ∀ n v, values[n]? = some v → v ≠ .nil →
    (Same g' v (g'.get id (index (i + n))) ↔ Survives flags h v)
  spurious : .nil ∈ values → g'.get id (index len) ≠ .nil

section Adding

variable {flags : Bool} {h g g' : Heap} {values : List Value} {v : Value} {i id len : Nat}

theorem noneOrNil_getObject (v : Value) :
    (getObject flags h v).noneOrNil = decide (v = .nil) := by
  cases v with
  | number n => cases flags <;> rfl
  | nil | boolean | lightuserdata | userdata | string | table | function | thread => rfl

/-- A nil is pushed as its index, under a number after all indices. -/
theorem Filled.cons_nil (hid : id < g.length) (hlen : i + values.length < len)
    (hfilled : Filled flags h values (i + 1) id (len + 1)
      (g.set id (index len) (index i)) g') : Filled flags h (.nil :: values) i id len g g' := by
  have hset := Heap.get_set hid (index_ne_nil len) (index i)
  apply Filled.mk
  · have hlength := hfilled.length
    rwa [Heap.length_set] at hlength
  · intro id' k hlt hne
    rw [hfilled.old id' k (by rw [Heap.length_set]; exact hlt) hne, hset,
      if_neg fun hboth => hne hboth.1]
  · intro k hk
    rw [List.length_cons] at hk
    rw [hfilled.others k (fun j hle hrange => hk j (by omega) (by omega)), hset,
      if_neg fun hboth => hk len (by omega) (by omega) hboth.2]
  · exact fun hnone => absurd rfl (hnone .nil List.mem_cons_self)
  · intro n v hn hv
    cases n with
    | zero => exact absurd (Option.some_inj.mp hn).symm hv
    | succ n =>
        have hindex : i + (n + 1) = i + 1 + n := by omega
        rw [hindex]
        exact hfilled.same n v hn hv
  · intro _
    rw [hfilled.others (index len), hset, if_pos ⟨rfl, rfl⟩]
    · exact index_ne_nil i
    · intro j hle hrange heq
      have hj := index_injective heq
      omega

theorem push_length_of_table (hv : v.type = .table) :
    ((getObject flags h v).push g).2.length = g.length + 1 := by
  obtain ⟨id, rfl⟩ := type_eq_table_iff.mp hv
  rw [push_table, length_copied, Heap.length_alloc]

/-- Another value is pushed under its index, and is there at the end. -/
theorem Filled.cons_value (hid : id < g.length)
    (hheap : h.length ≤ id) (hsame : ∀ id' k, id' < h.length → g.get id' k = h.get id' k)
    (hvalue : v ≠ .nil) (hv : ∀ id', v = .table id' → id' < h.length)
    (hfilled : Filled flags h values (i + 1) id len
      (((getObject flags h v).push g).2.set id (index i) ((getObject flags h v).push g).1) g') :
    Filled flags h (v :: values) i id len g g' := by
  obtain ⟨hgrow, hold⟩ := @push_old flags h g v
  have hset := Heap.get_set (Nat.lt_of_lt_of_le hid hgrow) (index_ne_nil i)
    ((getObject flags h v).push g).1
  have hlength := hfilled.length
  rw [Heap.length_set] at hlength
  have hfirst : g'.get id (index i) = ((getObject flags h v).push g).1 := by
    rw [hfilled.others (index i), hset, if_pos ⟨rfl, rfl⟩]
    intro j hle hrange heq
    have hj := index_injective heq
    omega
  have hkept : ∀ id' k, id' < ((getObject flags h v).push g).2.length → id' ≠ id →
      g'.get id' k = ((getObject flags h v).push g).2.get id' k := by
    intro id' k hlt hne
    rw [hfilled.old id' k (by rw [Heap.length_set]; exact hlt) hne, hset,
      if_neg fun hboth => hne hboth.1]
  apply Filled.mk
  · exact hgrow.trans hlength
  · intro id' k hlt hne
    rw [hkept id' k (Nat.lt_of_lt_of_le hlt hgrow) hne, hold id' k hlt]
  · intro k hk
    rw [List.length_cons] at hk
    rw [hfilled.others k (fun j hle hrange => hk j (by omega) (by omega)), hset,
      if_neg fun hboth => hk i (by omega) (by omega) hboth.2, hold id k hid]
  · intro hnone k hk
    rw [List.length_cons] at hk
    rw [hfilled.exactly (fun w hw => hnone w (List.mem_cons_of_mem _ hw)) k
      (fun j hle hlt => hk j (by omega) (by omega)), hset,
      if_neg fun hboth => hk i (by omega) (by omega) hboth.2, hold id k hid]
  · intro n w hn hw
    cases n with
    | zero =>
        have hwv : v = w := Option.some_inj.mp hn
        subst hwv
        rw [Nat.add_zero, hfirst]
        apply pushed_same_iff
        · intro id' heq
          exact Nat.lt_trans (Nat.lt_of_lt_of_le (hv id' heq) hheap) hid
        · intro id' k heq
          have hlt := hv id' heq
          rw [hkept id' k (by omega) (by omega), hold id' k (by omega), hsame id' k hlt]
        · intro k htype
          have hlonger := @push_length_of_table flags h g v htype
          exact hkept g.length k (by omega) (by omega)
    | succ n =>
        have hindex : i + (n + 1) = i + 1 + n := by omega
        rw [hindex]
        exact hfilled.same n w hn hw
  · intro hnil
    cases List.mem_cons.mp hnil with
    | inl heq => exact absurd heq.symm hvalue
    | inr hrest => exact hfilled.spurious hrest

theorem push_filled (hid : id < g.length) (hlen : i + values.length ≤ len)
    (hheap : h.length ≤ id) (hsame : ∀ id' k, id' < h.length → g.get id' k = h.get id' k)
    (hvalues : ∀ v ∈ values, ∀ id', v = .table id' → id' < h.length) :
    Filled flags h values i id len g
      ((pairsFrom i (values.map (getObject flags h))).push id len g) := by
  induction values generalizing i len g with
  | nil =>
      rw [List.map_nil, pairsFrom, Pairs.push]
      apply Filled.mk (Nat.le_refl _) (fun _ _ _ _ => rfl) (fun _ _ => rfl) (fun _ _ _ => rfl)
      · intro n v hn
        cases hn
      · exact fun hnil => absurd hnil List.not_mem_nil
  | cons v values ih =>
      rw [List.length_cons] at hlen
      have hrest : ∀ v ∈ values, ∀ id', v = .table id' → id' < h.length :=
        fun v hv => hvalues v (List.mem_cons_of_mem _ hv)
      rw [List.map_cons, pairsFrom, Pairs.push, noneOrNil_getObject]
      by_cases hnil : v = .nil
      · subst hnil
        apply Filled.cons_nil hid (by omega)
        apply ih
        · rw [Heap.length_set]
          exact hid
        · omega
        · intro id' k hlt
          rw [Heap.get_set hid (index_ne_nil len), if_neg (fun hboth => by omega), hsame id' k hlt]
        · exact hrest
      · obtain ⟨hgrow, hold⟩ := @push_old flags h g v
        rw [decide_eq_false hnil]
        apply Filled.cons_value hid hheap hsame hnil (hvalues v List.mem_cons_self)
        apply ih
        · rw [Heap.length_set]
          exact Nat.lt_of_lt_of_le hid hgrow
        · omega
        · intro id' k hlt
          rw [Heap.get_set (Nat.lt_of_lt_of_le hid hgrow) (index_ne_nil i),
            if_neg (fun hboth => by omega), hold id' k (by omega), hsame id' k hlt]
        · exact hrest

end Adding

/-- The table holds the values under the first indices, and nothing else. -/
def HoldsList (h : Heap) (t : Value) (values : List Value) : Prop :=
  ∃ id, t = .table id ∧ (∀ n v, values[n]? = some v → Same h v (h.get id (index (n + 1)))) ∧
    ∀ k, (∀ n, n < values.length → k ≠ index (n + 1)) → h.get id k = .nil

theorem clone_eq (o : Obj) : o.clone = o := by
  cases o <;> rfl

/-- Values that are added are held exactly when each comes back and none is nil: a nil
would make an entry after the last index. -/
theorem addAll_holds_iff (flags : Bool) (h : Heap) (values : List Value)
    (hvalues : ∀ v ∈ values, ∀ id, v = .table id → id < h.length) :
    HoldsList ((addAll (values.map (getObject flags h))).push h).2
        ((addAll (values.map (getObject flags h))).push h).1 values ↔
      ∀ v ∈ values, v ≠ .nil ∧ Survives flags h v := by
  have hlt : h.length < h.alloc.length := by
    rw [Heap.length_alloc]
    exact Nat.lt_succ_self _
  have hfilled : Filled flags h values 1 h.length (values.length + 1) h.alloc
      ((pairsFrom 1 (values.map (getObject flags h))).push h.length (values.length + 1) h.alloc) :=
    push_filled hlt (by omega) (Nat.le_refl _) (fun id k _ => Heap.get_alloc h id k) hvalues
  rw [addAll_eq, Obj.push, List.length_map]
  apply Iff.intro
  · intro ⟨id, hid, hsame, hnothing⟩
    cases hid
    have hnone : .nil ∉ values := by
      intro hnil
      apply hfilled.spurious hnil
      apply hnothing
      intro n hn heq
      have hindex := index_injective heq
      omega
    intro v hv
    have hvalue : v ≠ .nil := fun heq => hnone (heq ▸ hv)
    obtain ⟨n, hn⟩ := List.getElem?_of_mem hv
    apply And.intro hvalue
    apply (hfilled.same n v hn hvalue).mp
    rw [Nat.add_comm 1 n]
    exact hsame n v hn
  · intro hall
    refine ⟨h.length, rfl, ?_, ?_⟩
    · intro n v hn
      obtain ⟨hvalue, hsurvives⟩ := hall v (List.mem_of_getElem? hn)
      rw [Nat.add_comm n 1]
      exact (hfilled.same n v hn hvalue).mpr hsurvives
    · intro k hk
      rw [hfilled.exactly (fun v hv => (hall v hv).1) k, Heap.get_alloc,
        Heap.get_of_le (Nat.le_refl _)]
      intro j hle hrange heq
      apply hk (j - 1) (by omega)
      rw [heq, Nat.sub_add_cancel hle]

/-! ## Values that are added under keys -/

/-- The pairs of keys and values as objects. -/
def pairsUnder (flags : Bool) (h : Heap) : List (Value × Value) → Pairs
  | [] => .nil
  | e :: entries => .cons (getObject flags h e.1) (getObject flags h e.2) (pairsUnder flags h entries)

theorem pushBack_pairsUnder (flags : Bool) (h : Heap) (entries : List (Value × Value))
    (e : Value × Value) :
    (pairsUnder flags h entries).pushBack (getObject flags h e.1) (getObject flags h e.2) =
      pairsUnder flags h (entries ++ [e]) := by
  induction entries with
  | nil => rfl
  | cons first entries ih => rw [pairsUnder, Pairs.pushBack, ih, List.cons_append, pairsUnder]

/-- Both halves of each entry as objects -/
def objectsOf (flags : Bool) (h : Heap) (entries : List (Value × Value)) : List (Obj × Obj) :=
  entries.map fun e => (getObject flags h e.1, getObject flags h e.2)

theorem objectsOf_append (flags : Bool) (h : Heap) (entries : List (Value × Value))
    (e : Value × Value) : objectsOf flags h (entries ++ [e]) =
      objectsOf flags h entries ++ [(getObject flags h e.1, getObject flags h e.2)] :=
  List.map_append

theorem addEach_eq (flags : Bool) (h : Heap) (entries : List (Value × Value)) :
    addEach (objectsOf flags h entries) = .table (pairsUnder flags h entries) 1 := by
  have hfold : (objectsOf flags h entries).foldl
      (fun t e => Pairs.addPair t.1 t.2 (some e.1) e.2) (.nil, 1) =
        (pairsUnder flags h entries, 1) := by
    induction entries using List.reverseRecOn with
    | nil => rfl
    | append_singleton entries e ih =>
        rw [objectsOf_append, List.foldl_append, ih, ← pushBack_pairsUnder]
        rfl
  rw [addEach, hfold]

/-- What pushing values under their keys into the table `id` makes of the tables `g`. -/
structure Keyed (flags : Bool) (h : Heap) (entries : List (Value × Value)) (id : Nat)
    (g g' : Heap) : Prop where
  length : g.length ≤ g'.length
  old : ∀ id' k, id' < g.length → id' ≠ id → g'.get id' k = g.get id' k
  others : ∀ k, (∀ e ∈ entries, carried flags e.1 ≠ k) → g'.get id k = g.get id k
  same : (∀ e ∈ entries, carried flags e.1 = e.1) → ∀ e ∈ entries,
    (Same g' e.2 (g'.get id e.1) ↔ Survives flags h e.2)

/-- Keys that are neither nil nor tables, each once, with values that are not nil and whose
tables exist -/
structure GoodEntries (h : Heap) (entries : List (Value × Value)) : Prop where
  key : ∀ e ∈ entries, e.1.type ≠ .table ∧ e.1 ≠ .nil
  value : ∀ e ∈ entries, e.2 ≠ .nil ∧ ∀ id, e.2 = .table id → id < h.length
  nodup : (entries.map Prod.fst).Nodup

/-- What a table may be built of, key by key -/
abbrev EntriesOf (h : Heap) : Type := { entries : List (Value × Value) // GoodEntries h entries }

theorem GoodEntries.tail {h : Heap} {e : Value × Value} {entries : List (Value × Value)}
    (hgood : GoodEntries h (e :: entries)) : GoodEntries h entries where
  key e he := hgood.key e (List.mem_cons_of_mem _ he)
  value e he := hgood.value e (List.mem_cons_of_mem _ he)
  nodup := (List.nodup_cons.mp hgood.nodup).2

theorem push_pairsUnder_cons (flags : Bool) (h : Heap) {e : Value × Value}
    (entries : List (Value × Value)) (hkind : e.1.type ≠ .table) (hkey : e.1 ≠ .nil)
    (hvalue : e.2 ≠ .nil) (id len : Nat) (g : Heap) :
    (pairsUnder flags h (e :: entries)).push id len g =
      (pairsUnder flags h entries).push id len
        (((getObject flags h e.2).push g).2.set id (carried flags e.1)
          ((getObject flags h e.2).push g).1) := by
  rw [pairsUnder, Pairs.push, noneOrNil_getObject, noneOrNil_getObject, decide_eq_false hkey,
    decide_eq_false hvalue]
  simp only [push_other hkind]

theorem push_keyed {flags : Bool} {h g : Heap} {entries : List (Value × Value)} {id len : Nat}
    (hgood : GoodEntries h entries) (hid : id < g.length) (hheap : h.length ≤ id)
    (hsame : ∀ id' k, id' < h.length → g.get id' k = h.get id' k) :
    Keyed flags h entries id g ((pairsUnder flags h entries).push id len g) := by
  induction entries generalizing g with
  | nil =>
      exact ⟨Nat.le_refl _, fun _ _ _ _ => rfl, fun _ _ => rfl,
        fun _ e he => absurd he List.not_mem_nil⟩
  | cons e entries ih =>
      rcases hgood.key e List.mem_cons_self with ⟨hkind, hkey⟩
      rcases hgood.value e List.mem_cons_self with ⟨hvalue, htable⟩
      rcases @push_old flags h g e.2 with ⟨hgrow, hold⟩
      have hcarried : carried flags e.1 ≠ .nil := carried_eq_nil_iff.not.mpr hkey
      have hset := Heap.get_set (Nat.lt_of_lt_of_le hid hgrow) hcarried
        ((getObject flags h e.2).push g).1
      rw [push_pairsUnder_cons flags h entries hkind hkey hvalue]
      have hthen : ∀ id' k, id' < h.length →
          (((getObject flags h e.2).push g).2.set id (carried flags e.1)
            ((getObject flags h e.2).push g).1).get id' k = h.get id' k := by
        intro id' k hlt
        have hne : id' ≠ id := Nat.ne_of_lt (Nat.lt_of_lt_of_le hlt hheap)
        rw [hset, if_neg fun hboth => hne hboth.1, hold id' k (by omega), hsame id' k hlt]
      have hrest := ih hgood.tail (by rw [Heap.length_set]; exact Nat.lt_of_lt_of_le hid hgrow)
        hthen
      have hlength := hrest.length
      rw [Heap.length_set] at hlength
      have hkept : ∀ id' k, id' < ((getObject flags h e.2).push g).2.length → id' ≠ id →
          ((pairsUnder flags h entries).push id len
            (((getObject flags h e.2).push g).2.set id (carried flags e.1)
              ((getObject flags h e.2).push g).1)).get id' k =
            ((getObject flags h e.2).push g).2.get id' k := by
        intro id' k hlt hne
        rw [hrest.old id' k (by rw [Heap.length_set]; exact hlt) hne, hset,
          if_neg fun hboth => hne hboth.1]
      refine ⟨hgrow.trans hlength, ?_, ?_, ?_⟩
      · intro id' k hlt hne
        rw [hkept id' k (Nat.lt_of_lt_of_le hlt hgrow) hne, hold id' k hlt]
      · intro k hk
        rw [hrest.others k fun e he => hk e (List.mem_cons_of_mem _ he), hset,
          if_neg fun hboth => hk e List.mem_cons_self hboth.2.symm, hold id k hid]
      · intro hfaithful e' he'
        have hown : ∀ e ∈ entries, carried flags e.1 = e.1 :=
          fun e he => hfaithful e (List.mem_cons_of_mem _ he)
        rcases List.mem_cons.mp he' with rfl | hlater
        · have hnew := (List.nodup_cons.mp hgood.nodup).1
          have hfirst : ∀ e ∈ entries, carried flags e.1 ≠ e'.1 := by
            intro e he heq
            rw [hown e he] at heq
            exact hnew (heq ▸ List.mem_map_of_mem he)
          rw [hrest.others e'.1 hfirst, hset,
            if_pos ⟨rfl, (hfaithful e' List.mem_cons_self).symm⟩]
          apply pushed_same_iff
          · intro id' heq
            exact Nat.lt_trans (Nat.lt_of_lt_of_le (htable id' heq) hheap) hid
          · intro id' k heq
            have hlt := htable id' heq
            rw [hkept id' k (by omega) (by omega), hold id' k (by omega), hsame id' k hlt]
          · intro k htype
            have hlonger := @push_length_of_table flags h g e'.2 htype
            exact hkept g.length k (by omega) (by omega)
        · exact hrest.same hown e' hlater

/-- The table holds the values under their keys, and nothing else. -/
def HoldsEntries (h : Heap) (t : Value) (entries : List (Value × Value)) : Prop :=
  ∃ id, t = .table id ∧ (∀ e ∈ entries, Same h e.2 (h.get id e.1)) ∧
    ∀ k, (∀ e ∈ entries, k ≠ e.1) → h.get id k = .nil

/-- Values that are added under keys of their own are held exactly when every key and every
value comes back. -/
theorem addEach_holds_iff (flags : Bool) (h : Heap) {entries : List (Value × Value)}
    (hgood : GoodEntries h entries) :
    HoldsEntries ((addEach (objectsOf flags h entries)).push h).2
        ((addEach (objectsOf flags h entries)).push h).1 entries ↔
      ∀ e ∈ entries, Faithful flags e.1 ∧ Survives flags h e.2 := by
  have hlt : h.length < h.alloc.length := by
    rw [Heap.length_alloc]
    exact Nat.lt_succ_self _
  have hkeyed := @push_keyed flags h h.alloc entries h.length 1 hgood hlt (Nat.le_refl _)
    (fun id k _ => Heap.get_alloc h id k)
  have hnothing : ∀ k, h.alloc.get h.length k = .nil := by
    intro k
    rw [Heap.get_alloc, Heap.get_of_le (Nat.le_refl _)]
  rw [addEach_eq, Obj.push]
  constructor
  · rintro ⟨id, hid, hheld, -⟩
    cases hid
    have hfaithful : ∀ e ∈ entries, carried flags e.1 = e.1 := by
      intro e he
      by_contra hlost
      have hfield := hheld e he
      rw [hkeyed.others e.1, hnothing] at hfield
      · exact (hgood.value e he).1 hfield.eq_nil
      · intro e' he' heq
        rw [← heq, carried_carried] at hlost
        exact hlost rfl
    intro e he
    exact ⟨(carried_eq_iff flags e.1).mp (hfaithful e he),
      (hkeyed.same hfaithful e he).mp (hheld e he)⟩
  · intro hall
    have hfaithful : ∀ e ∈ entries, carried flags e.1 = e.1 :=
      fun e he => (carried_eq_iff flags e.1).mpr (hall e he).1
    refine ⟨h.length, rfl, ?_, ?_⟩
    · intro e he
      exact (hkeyed.same hfaithful e he).mpr (hall e he).2
    · intro k hk
      rw [hkeyed.others k, hnothing]
      intro e he heq
      exact hk e he (heq.symm.trans (hfaithful e he))

/-- **What the object model brings back.** A converted value that is pushed again, or whose
clone is, equals the original exactly when it survives; a table of added values holds them
exactly when none is nil and each survives, and one of values added under keys of their own
when the keys come back as well. -/
theorem comes_back_iff (flags : Bool) (h : Heap) :
    (∀ v : ValueOf h, Same ((getObject flags h v.1).push h).2 v.1
      ((getObject flags h v.1).push h).1 ↔ Survives flags h v.1) ∧
    (∀ v : ValueOf h, Same ((getObject flags h v.1).clone.push h).2 v.1
      ((getObject flags h v.1).clone.push h).1 ↔ Survives flags h v.1) ∧
    (∀ values : List (ValueOf h),
      HoldsList ((addAll (values.map fun v => getObject flags h v.1)).push h).2
        ((addAll (values.map fun v => getObject flags h v.1)).push h).1 (values.map Subtype.val) ↔
      ∀ v ∈ values, v.1 ≠ .nil ∧ Survives flags h v.1) ∧
    ∀ entries : EntriesOf h,
      HoldsEntries ((addEach (objectsOf flags h entries.1)).push h).2
        ((addEach (objectsOf flags h entries.1)).push h).1 entries.1 ↔
      ∀ e ∈ entries.1, Faithful flags e.1 ∧ Survives flags h e.2 := by
  have hsingle : ∀ v : ValueOf h, Same ((getObject flags h v.1).push h).2 v.1
      ((getObject flags h v.1).push h).1 ↔ Survives flags h v.1 := by
    intro v
    apply pushed_same_iff v.2
    · intro id k heq
      exact (push_old v.1).2 id k (v.2 id heq)
    · exact fun _ _ => rfl
  refine ⟨hsingle, fun v => by rw [clone_eq]; exact hsingle v, ?_,
    fun entries => addEach_holds_iff flags h entries.2⟩
  intro values
  have hadded := addAll_holds_iff flags h (values.map Subtype.val) (by
    intro v hv
    obtain ⟨w, _, rfl⟩ := List.mem_map.mp hv
    exact w.2)
  rw [List.map_map] at hadded
  apply Iff.trans hadded
  apply Iff.intro
  · exact fun hall v hv => hall v.1 (List.mem_map_of_mem hv)
  · intro hall v hv
    obtain ⟨w, hw, rfl⟩ := List.mem_map.mp hv
    exact hall w hw

/-- A string with a zero, an integer of 54 bits, and a nil that is added. -/
theorem lost_values :
    ¬ Same ((getObject false [] (.string ['a', '\x00'])).push []).2 (.string ['a', '\x00'])
        ((getObject false [] (.string ['a', '\x00'])).push []).1 ∧
      ¬ Same ((getObject false [] (index 9007199254740993)).push []).2 (index 9007199254740993)
        ((getObject false [] (index 9007199254740993)).push []).1 ∧
      ¬ HoldsList ((addAll [getObject false [] .nil]).push []).2
        ((addAll [getObject false [] .nil]).push []).1 [.nil] := by
  apply And.intro
  · intro hsame
    exact absurd (hsame.eq_of_not_table (by decide)) (by decide)
  · apply And.intro
    · intro hsame
      exact absurd (hsame.eq_of_not_table (by decide)) (by decide)
    · intro ⟨id, hid, _, hnothing⟩
      cases hid
      apply absurd (hnothing (index 2) _) (by decide)
      intro n hn heq
      have hindex := index_injective heq
      rw [List.length_singleton] at hn
      omega

end FerroRemote.Lua

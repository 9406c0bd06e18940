/-
# Tables without metatables

A table holds finitely many entries, no two with one key and none with nil as its key or
its value; their order is the one that `lua_next` goes through, which Lua leaves open.
Tables are allocated one after the other and known by their numbers. Indexing anything
else is an error, and so is nil as a key.
-/

import FerroRemote.Lua.Library
import Mathlib.Data.List.AList

namespace FerroRemote.Lua

structure LuaTable where
  entries : AList fun _ : Value => Value
  present : ∀ e ∈ entries.entries, e.1 ≠ .nil ∧ e.2 ≠ .nil

namespace LuaTable

/-- `lua_newtable` -/
def empty : LuaTable where
  entries := ∅
  present := fun _ he => absurd he List.not_mem_nil

/-- What a key is bound to, nil when it is not. -/
def get (t : LuaTable) (k : Value) : Value := (t.entries.lookup k).getD .nil

/-- `t[k] = v`. Nil as the value takes the entry away, and nothing is bound to nil. -/
def set (t : LuaTable) (k v : Value) : LuaTable where
  entries := if k = .nil ∨ v = .nil then t.entries.erase k else t.entries.insert k v
  present := by
    intro e he
    split at he
    · exact t.present e ((List.kerase_sublist k t.entries.entries).subset he)
    · next hpresent =>
        rw [AList.entries_insert] at he
        cases List.mem_cons.mp he with
        | inl hnew =>
            rw [hnew]
            exact ⟨fun hkey => hpresent (.inl hkey), fun hvalue => hpresent (.inr hvalue)⟩
        | inr hold => exact t.present e ((List.kerase_sublist k t.entries.entries).subset hold)

theorem get_eq_iff (t : LuaTable) {k v : Value} (hvalue : v ≠ .nil) :
    t.get k = v ↔ ⟨k, v⟩ ∈ t.entries.entries := by
  rw [← AList.mem_lookup_iff, Option.mem_def, get]
  cases t.entries.lookup k with
  | none => exact iff_of_false (fun heq => hvalue heq.symm) (fun hsome => by cases hsome)
  | some w => exact Option.some_inj.symm

theorem get_empty (k : Value) : empty.get k = .nil := rfl

theorem get_set (t : LuaTable) {k : Value} (hkey : k ≠ .nil) (v k' : Value) :
    (t.set k v).get k' = if k' = k then v else t.get k' := by
  have hget : (t.set k v).get k' =
      ((if k = .nil ∨ v = .nil then t.entries.erase k else t.entries.insert k v).lookup k').getD
        .nil := rfl
  rw [hget]
  by_cases hvalue : v = .nil
  · by_cases heq : k' = k
    · rw [if_pos (.inr hvalue), if_pos heq, heq, AList.lookup_erase, hvalue]
      rfl
    · rw [if_pos (.inr hvalue), if_neg heq, AList.lookup_erase_ne heq, get]
  · have hneither : ¬ (k = .nil ∨ v = .nil) := fun hor => hor.elim hkey hvalue
    by_cases heq : k' = k
    · rw [if_neg hneither, if_pos heq, heq, AList.lookup_insert]
      rfl
    · rw [if_neg hneither, if_neg heq, AList.lookup_insert_ne heq, get]

end LuaTable

/-- All tables, by their numbers. -/
abbrev Heap := List LuaTable

namespace Heap

def get (h : Heap) (id : Nat) (k : Value) : Value := (h[id]?.getD .empty).get k

def set (h : Heap) (id : Nat) (k v : Value) : Heap := h.modify id fun t => t.set k v

/-- The next table, which is empty. -/
def alloc (h : Heap) : Heap := h ++ [.empty]

@[simp]
theorem length_set (h : Heap) (id : Nat) (k v : Value) : (h.set id k v).length = h.length :=
  List.length_modify _ _ _

@[simp]
theorem length_alloc (h : Heap) : h.alloc.length = h.length + 1 := by
  rw [alloc, List.length_append, List.length_singleton]

theorem get_of_le {h : Heap} {id : Nat} (hid : h.length ≤ id) (k : Value) :
    h.get id k = .nil := by
  rw [get, List.getElem?_eq_none hid]
  exact LuaTable.get_empty k

theorem get_alloc (h : Heap) (id : Nat) (k : Value) : h.alloc.get id k = h.get id k := by
  by_cases hid : id < h.length
  · rw [get, alloc, List.getElem?_append_left hid, get]
  · rw [get_of_le (Nat.le_of_not_lt hid)]
    by_cases heq : id = h.length
    · rw [get, alloc, heq, List.getElem?_concat_length]
      exact LuaTable.get_empty k
    · apply get_of_le
      rw [length_alloc]
      omega

theorem get_set {h : Heap} {id : Nat} (hid : id < h.length) {k : Value} (hkey : k ≠ .nil)
    (v : Value) (id' : Nat) (k' : Value) :
    (h.set id k v).get id' k' = if id' = id ∧ k' = k then v else h.get id' k' := by
  rw [get, set, List.getElem?_modify]
  by_cases heq : id = id'
  · subst heq
    rw [List.getElem?_eq_getElem hid, get, List.getElem?_eq_getElem hid]
    simp only [Option.map_eq_map, Option.map_some, Option.getD_some, if_true,
      LuaTable.get_set _ hkey, true_and]
  · simp only [if_neg heq, if_neg fun hboth : id' = id ∧ k' = k => heq hboth.1.symm, id_map']
    rfl

end Heap

/-- The library on tables without metatables, with the number of the table of globals. A
protected call is left open. -/
def tableLibrary (globals : Nat) (call : Heap → Value → List Value → Called × Heap) :
    Library Heap where
  globals := .table globals
  index
    | h, .table id, k => some (h.get id k, h)
    | _, _, _ => none
  assign
    | h, .table id, k, v => if k = .nil then none else some (h.set id k v)
    | _, _, _, _ => none
  fresh h := (.table h.length, h.alloc)
  call := call

end FerroRemote.Lua

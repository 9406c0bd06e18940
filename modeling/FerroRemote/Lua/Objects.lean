/-
# Lua values as objects

`get_object` turns a value into an object of the program, and `push` puts an object on the
stack again. A table becomes a list of pairs of objects, in which tables are references,
and is pushed as a new table. Pushing leaves one value, and the tables it has made.
-/

import FerroRemote.Lua.Tables
import FerroRemote.Math.Rounding
import Mathlib.Data.List.TakeWhile

namespace FerroRemote.Lua

mutual
/-- `objects::base` and the classes that `get_object` makes -/
inductive Obj
  | nil
  | boolean (value : Bool)
  | lightUserdata (ptr : Nat)
  | number (num : LuaNumber)
  | integer (num : Int)
  | string (cont : Text)
  | reference (referred : Value)
  | thread (s : Nat)
  | table (list : Pairs) (index : Nat)

/-- `std::vector< pair_sptr >` -/
inductive Pairs
  | nil
  | cons (first second : Obj) (rest : Pairs)
end

/-- `lua_tonumber`: integers become doubles, with 53 significant bits. -/
def LuaNumber.toDouble : LuaNumber → LuaNumber
  | .whole n => .whole (Rounding.roundInt 52 n)
  | .fraction bits => .fraction bits

/-- The switch of `get_object`, with what is done about tables -/
def objectOf (table : Nat → Obj) (flags : Bool) : Value → Obj
  | .boolean b => .boolean b
  | .lightuserdata address => .lightUserdata address
  | .userdata id => .lightUserdata id
  | .number n => if flags then .integer n.toInteger else .number n.toDouble
  | .string bytes => .string bytes
  | .function id => .reference (.function id)
  | .table id => table id
  | .thread id => .thread id
  | .nil => .nil

/-- A key or a value of a table that is converted -/
def element (flags : Bool) : Value → Obj := objectOf (fun id => .reference (.table id)) flags

def pairsOf (flags : Bool) : List (Sigma fun _ : Value => Value) → Pairs
  | [] => .nil
  | e :: entries => .cons (element flags e.1) (element flags e.2) (pairsOf flags entries)

/-- `state::get_table( idx, flags )`, in the order of `lua_next` -/
def getTableObject (flags : Bool) (h : Heap) (id : Nat) : Obj :=
  .table (pairsOf flags (h[id]?.getD .empty).entries.entries) 1

def getObject (flags : Bool) (h : Heap) : Value → Obj := objectOf (getTableObject flags h) flags

def Obj.noneOrNil : Obj → Bool
  | .nil => true
  | _ => false

def Obj.clone : Obj → Obj
  | .nil => .nil
  | .boolean value => .boolean value
  | .lightUserdata ptr => .lightUserdata ptr
  | .number num => .number num
  | .integer num => .integer num
  | .string cont => .string cont
  | .reference referred => .reference referred
  | .thread s => .thread s
  | .table list index => .table list index

/-- What `lua_pushstring` takes of a string: a C string ends at its first zero. -/
def cString (cont : Text) : Text := cont.takeWhile fun c => decide (c ≠ '\x00')

mutual
/-- `push`: the value on the stack and the tables -/
def Obj.push : Obj → Heap → Value × Heap
  | .nil, h => (.nil, h)
  | .boolean value, h => (.boolean value, h)
  | .lightUserdata ptr, h => (.lightuserdata ptr, h)
  | .number num, h => (.number num, h)
  | .integer num, h => (.number (.whole num), h)
  | .string cont, h => (.string (cString cont), h)
  | .reference referred, h => (referred, h)
  | .thread s, h => (.thread s, h)
  | .table list index, h => (.table h.length, list.push h.length index h.alloc)

/-- The loop of `table::push`. A pair with one nil is pushed as its other half under the
next number, a pair with two is left out. -/
def Pairs.push : Pairs → Nat → Nat → Heap → Heap
  | .nil, _, _, h => h
  | .cons first second rest, id, len, h =>
    match first.noneOrNil, second.noneOrNil with
    | false, false =>
      let key := first.push h
      let value := second.push key.2
      rest.push id len (value.2.set id key.1 value.1)
    | false, true =>
      let half := first.push h
      rest.push id (len + 1) (half.2.set id (.number (.whole len)) half.1)
    | true, false =>
      let half := second.push h
      rest.push id (len + 1) (half.2.set id (.number (.whole len)) half.1)
    | true, true => rest.push id len h
end

def Pairs.pushBack : Pairs → Obj → Obj → Pairs
  | .nil, first, second => .cons first second .nil
  | .cons f s rest, first, second => .cons f s (rest.pushBack first second)

/-- `table::add( v )`: a pair of the next index and the value -/
def Pairs.add (list : Pairs) (index : Nat) (value : Obj) : Pairs × Nat :=
  (list.pushBack (.integer index) value, index + 1)

/-- A new table to which objects are added one after the other -/
def addAll (values : List Obj) : Obj :=
  let built := values.foldl (fun t value => Pairs.add t.1 t.2 value) (.nil, 1)
  .table built.1 built.2

/-- `table::add( k, v )`: the next index stands for a key that is null. -/
def Pairs.addPair (list : Pairs) (index : Nat) (key : Option Obj) (value : Obj) : Pairs × Nat :=
  match key with
  | some k => (list.pushBack k value, index)
  | none => list.add index value

/-- A new table to which objects are added under keys of their own -/
def addEach (entries : List (Obj × Obj)) : Obj :=
  let built := entries.foldl (fun t e => Pairs.addPair t.1 t.2 (some e.1) e.2) (.nil, 1)
  .table built.1 built.2

/-- What a value that is not a table to be copied comes back as. -/
def carried (flags : Bool) : Value → Value
  | .userdata id => .lightuserdata id
  | .number n => .number (if flags then .whole n.toInteger else n.toDouble)
  | .string bytes => .string (cString bytes)
  | value => value

/-- Strings without zeros, numbers that are doubles, or, with the flag, 64-bit integers. -/
def Faithful (flags : Bool) : Value → Prop
  | .userdata _ => False
  | .number (.whole n) =>
    if flags then -2 ^ 63 ≤ n ∧ n < 2 ^ 63 else Rounding.Fits 52 n.natAbs
  | .number (.fraction _) => flags = false
  | .string bytes => '\x00' ∉ bytes
  | _ => True

theorem cString_eq_iff (cont : Text) : cString cont = cont ↔ '\x00' ∉ cont := by
  rw [cString, List.takeWhile_eq_self_iff]
  apply Iff.intro
  · intro hall hmem
    exact of_decide_eq_true (hall _ hmem) rfl
  · intro hnot c hmem
    apply decide_eq_true
    intro heq
    exact hnot (heq ▸ hmem)

theorem cString_cString (cont : Text) : cString (cString cont) = cString cont := by
  rw [cString_eq_iff]
  intro hmem
  have hkept := List.mem_takeWhile_imp hmem
  exact of_decide_eq_true hkept rfl

theorem carried_eq_iff (flags : Bool) (v : Value) : carried flags v = v ↔ Faithful flags v := by
  cases v with
  | userdata id => exact iff_of_false (fun heq => by cases heq) not_false
  | string bytes =>
      rw [carried, Value.string.injEq]
      exact cString_eq_iff bytes
  | number n =>
      cases n with
      | fraction bits =>
          cases flags with
          | false => exact iff_of_true rfl rfl
          | true => exact iff_of_false (fun heq => by cases heq) (fun heq => by cases heq)
      | whole n =>
          rw [carried, Value.number.injEq, Faithful]
          cases flags with
          | false =>
              rw [if_neg Bool.false_ne_true, if_neg Bool.false_ne_true, LuaNumber.toDouble,
                LuaNumber.whole.injEq]
              exact Rounding.roundInt_eq_self_iff
          | true =>
              rw [if_pos rfl, if_pos rfl, LuaNumber.toInteger, LuaNumber.whole.injEq]
              split
              · next hrange => exact iff_of_true rfl hrange
              · next hrange =>
                  apply iff_of_false _ hrange
                  intro hzero
                  apply hrange
                  rw [← hzero]
                  decide
  | nil | boolean | lightuserdata | table | function | thread => exact iff_of_true rfl trivial

theorem carried_carried (flags : Bool) (v : Value) :
    carried flags (carried flags v) = carried flags v := by
  cases v with
  | string bytes => exact congrArg Value.string (cString_cString bytes)
  | number n =>
      cases flags with
      | false =>
          cases n with
          | fraction bits => rfl
          | whole n =>
              exact congrArg (fun n => Value.number (.whole n)) (Rounding.roundInt_roundInt 52 n)
      | true =>
          simp only [carried, if_true, Value.number.injEq, LuaNumber.whole.injEq]
          cases n with
          | fraction bits => rfl
          | whole n =>
              simp only [LuaNumber.toInteger]
              split <;> simp_all
  | nil | boolean | lightuserdata | userdata | table | function | thread => rfl

theorem carried_eq_nil_iff {flags : Bool} {v : Value} : carried flags v = .nil ↔ v = .nil := by
  cases v <;> simp [carried]

theorem push_element (flags : Bool) (v : Value) (h : Heap) :
    (element flags v).push h = (carried flags v, h) := by
  cases v with
  | number n => cases flags <;> rfl
  | nil | boolean | lightuserdata | userdata | string | table | function | thread => rfl

theorem noneOrNil_element (flags : Bool) (v : Value) :
    (element flags v).noneOrNil = decide (v = .nil) := by
  cases v with
  | number n => cases flags <;> rfl
  | nil | boolean | lightuserdata | userdata | string | table | function | thread => rfl

end FerroRemote.Lua

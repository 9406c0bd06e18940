/-
# The Lua library as its C interface shows it

Values, the stack that a program and the library share, and the calls of the interface
that the wrapper makes. What the library does to its tables is a parameter: an index or
an assignment may run metamethods, which may do anything to the tables and may fail with
a Lua error. A Lua error leaves the program for the nearest protected call; what follows
from the interface alone is how many values each call takes off the stack and puts on it.
-/

import FerroRemote.Math.Action
import Mathlib.Algebra.Order.Ring.Int

namespace FerroRemote.Lua

/-- Characters of a C string, or bytes of a Lua string. -/
abbrev Text := List Char

/-- `LUA_TNONE` and the types of values -/
inductive LuaType
  | none
  | nil
  | boolean
  | lightuserdata
  | number
  | string
  | table
  | function
  | userdata
  | thread
  deriving DecidableEq, Repr

def LuaType.idToString : LuaType → String
  | .nil => "nil"
  | .boolean => "boolean"
  | .lightuserdata => "lightuserdata"
  | .number => "number"
  | .string => "string"
  | .table => "table"
  | .function => "function"
  | .userdata => "userdata"
  | .thread => "thread"
  | .none => "none"

/-- Numbers up to the equality of Lua, which does not tell a float with an integral value
from that integer. Other floats are kept as their bits. -/
inductive LuaNumber
  | whole (n : Int)
  | fraction (bits : UInt64)
  deriving DecidableEq, Repr

/-- `lua_tointeger` of a number -/
def LuaNumber.toInteger : LuaNumber → Int
  | .whole n => if -2 ^ 63 ≤ n ∧ n < 2 ^ 63 then n else 0
  | .fraction _ => 0

/-- Tables, functions, full userdata and threads are values by identity. -/
inductive Value
  | nil
  | boolean (b : Bool)
  | lightuserdata (address : Nat)
  | number (n : LuaNumber)
  | string (bytes : Text)
  | table (id : Nat)
  | function (id : Nat)
  | userdata (id : Nat)
  | thread (id : Nat)
  deriving DecidableEq, Repr

def Value.type : Value → LuaType
  | .nil => .nil
  | .boolean _ => .boolean
  | .lightuserdata _ => .lightuserdata
  | .number _ => .number
  | .string _ => .string
  | .table _ => .table
  | .function _ => .function
  | .userdata _ => .userdata
  | .thread _ => .thread

/-- How a protected call ends: with results, or with an error value. -/
inductive Called
  | results (values : List Value)
  | failed (message : Value)

/-- What the library does to what the tables hold. `none` is a Lua error. -/
structure Library (H : Type) where
  globals : Value
  index : H → Value → Value → Option (Value × H)
  assign : H → Value → Value → Value → Option H
  fresh : H → Value × H
  call : H → Value → List Value → Called × H

/-- The tables, and the stack with its top first. -/
structure State (H : Type) where
  heap : H
  stack : List Value
  deriving DecidableEq

/-- `lua_gettop` -/
def State.height {H : Type} (s : State H) : Nat := s.stack.length

/-- A program of the wrapper. Its exceptions are `std::runtime_error`s with a text. -/
abbrev Program (H α : Type) := Action String (State H) α

/-- The value at an index of the interface: from the bottom when it is positive, from the
top when it is negative. -/
def slot (stack : List Value) (idx : Int) : Option Value :=
  if 0 < idx then stack.reverse[idx.toNat - 1]? else stack[(-idx).toNat - 1]?

section Interface

variable {H : Type}

/-- `lua_type` -/
def typeAt (idx : Int) : Program H LuaType := fun s =>
  .done (((slot s.stack idx).map Value.type).getD .none) s

/-- `lua_istable( vm_, -1 )` -/
def isTable : Program H Bool := do
  let t ← typeAt (-1)
  return t = .table

/-- `lua_isnoneornil( vm_, -1 )` -/
def noneOrNil : Program H Bool := do
  let t ← typeAt (-1)
  return t = .none ∨ t = .nil

/-- `lua_pop` -/
def pop (n : Nat) : Program H Unit := fun s => .done () { s with stack := s.stack.drop n }

/-- `lua_pushnil`, `lua_pushinteger`, `lua_pushstring` and the others -/
def push (value : Value) : Program H Unit := fun s =>
  .done () { s with stack := value :: s.stack }

/-- `lua_pushvalue` -/
def pushValue (idx : Int) : Program H Unit := fun s =>
  push ((slot s.stack idx).getD .nil) s

variable (lib : Library H)

/-- `lua_newtable` -/
def newTable : Program H Unit := fun s =>
  .done () ⟨(lib.fresh s.heap).2, (lib.fresh s.heap).1 :: s.stack⟩

/-- `t[k]` on the stack -/
def indexed (t k : Value) : Program H Unit := fun s =>
  match lib.index s.heap t k with
  | some (value, heap) => .done () ⟨heap, value :: s.stack⟩
  | none => .left

/-- `lua_getglobal` -/
def getGlobal (name : Text) : Program H Unit := indexed lib lib.globals (.string name)

/-- `lua_getfield` -/
def getfield (idx : Int) (name : Text) : Program H Unit := fun s =>
  indexed lib ((slot s.stack idx).getD .nil) (.string name) s

/-- `lua_setglobal` takes the value off the stack. -/
def setGlobal (name : Text) : Program H Unit := fun s =>
  match lib.assign s.heap lib.globals (.string name) ((slot s.stack (-1)).getD .nil) with
  | some heap => .done () ⟨heap, s.stack.drop 1⟩
  | none => .left

/-- `lua_settable( vm_, -3 )` takes the value and the key above it off the stack. -/
def setTable : Program H Unit := fun s =>
  match lib.assign s.heap ((slot s.stack (-3)).getD .nil) ((slot s.stack (-2)).getD .nil)
      ((slot s.stack (-1)).getD .nil) with
  | some heap => .done () ⟨heap, s.stack.drop 2⟩
  | none => .left

/-- `lua_pcall( L, nargs, LUA_MULTRET, 0 )` takes the function and its arguments, and puts
all results, or one error value. It returns whether the status is `LUA_OK`. -/
def pcall (nargs : Nat) : Program H Bool := fun s =>
  let arguments := (s.stack.take nargs).reverse
  let function := (slot s.stack (-(nargs + 1))).getD .nil
  let rest := s.stack.drop (nargs + 1)
  match lib.call s.heap function arguments with
  | (.results values, heap) => .done true ⟨heap, values.reverse ++ rest⟩
  | (.failed message, heap) => .done false ⟨heap, message :: rest⟩

end Interface

section Laws

variable {H : Type} {lib : Library H} {heap heap' : H} {value t k : Value} {rest : List Value}

@[simp]
theorem slot_top : slot (value :: rest) (-1) = some value := rfl

@[simp]
theorem slot_third {a b : Value} : slot (a :: b :: t :: rest) (-3) = some t := rfl

@[simp]
theorem slot_second {a : Value} : slot (a :: value :: rest) (-2) = some value := rfl

@[simp]
theorem push_apply (s : State H) : push value s = .done () ⟨s.heap, value :: s.stack⟩ := rfl

@[simp]
theorem pop_apply (n : Nat) (s : State H) : pop n s = .done () ⟨s.heap, s.stack.drop n⟩ := rfl

theorem isTable_top :
    isTable ⟨heap, value :: rest⟩ = .done (decide (value.type = .table)) ⟨heap, value :: rest⟩ :=
  rfl

theorem type_ne_none (value : Value) : value.type ≠ .none := by
  cases value <;> exact fun heq => by cases heq

theorem type_eq_nil_iff : value.type = .nil ↔ value = .nil := by
  cases value <;> simp [Value.type]

theorem type_eq_table_iff : value.type = .table ↔ ∃ id, value = .table id := by
  cases value <;> simp [Value.type]

theorem noneOrNil_top :
    noneOrNil ⟨heap, value :: rest⟩ = .done (decide (value = .nil)) ⟨heap, value :: rest⟩ := by
  have hiff : (value.type = .none ∨ value.type = .nil) ↔ value = .nil := by
    rw [or_iff_right (type_ne_none value), type_eq_nil_iff]
  change Conclusion.done (decide (value.type = .none ∨ value.type = .nil)) _ = _
  rw [decide_eq_decide.mpr hiff]

theorem indexed_some {s : State H} (hindex : lib.index s.heap t k = some (value, heap)) :
    indexed lib t k s = .done () ⟨heap, value :: s.stack⟩ := by
  rw [indexed, hindex]

theorem indexed_none {s : State H} (hindex : lib.index s.heap t k = none) :
    indexed lib t k s = .left := by
  rw [indexed, hindex]

theorem getGlobal_some {name : Text} {s : State H}
    (hindex : lib.index s.heap lib.globals (.string name) = some (value, heap')) :
    getGlobal lib name s = .done () ⟨heap', value :: s.stack⟩ :=
  indexed_some hindex

theorem getGlobal_none {name : Text} {s : State H}
    (hindex : lib.index s.heap lib.globals (.string name) = none) :
    getGlobal lib name s = .left :=
  indexed_none hindex

theorem getfield_some {name : Text}
    (hindex : lib.index heap t (.string name) = some (value, heap')) :
    getfield lib (-1) name ⟨heap, t :: rest⟩ = .done () ⟨heap', value :: t :: rest⟩ :=
  indexed_some hindex

theorem getfield_none {name : Text} (hindex : lib.index heap t (.string name) = none) :
    getfield lib (-1) name ⟨heap, t :: rest⟩ = .left :=
  indexed_none hindex

theorem setTable_some
    (hassign : lib.assign heap t k value = some heap') :
    setTable lib ⟨heap, value :: k :: t :: rest⟩ = .done () ⟨heap', t :: rest⟩ := by
  simp only [setTable, slot_top, slot_second, slot_third, Option.getD_some, hassign]
  rfl

theorem setGlobal_some {name : Text}
    (hassign : lib.assign heap lib.globals (.string name) value = some heap') :
    setGlobal lib name ⟨heap, value :: rest⟩ = .done () ⟨heap', rest⟩ := by
  simp only [setGlobal, slot_top, Option.getD_some, hassign]
  rfl

theorem setTable_none (hassign : lib.assign heap t k value = none) :
    setTable lib ⟨heap, value :: k :: t :: rest⟩ = .left := by
  simp only [setTable, slot_top, slot_second, slot_third, Option.getD_some, hassign]

theorem setGlobal_none {name : Text}
    (hassign : lib.assign heap lib.globals (.string name) value = none) :
    setGlobal lib name ⟨heap, value :: rest⟩ = .left := by
  simp only [setGlobal, slot_top, Option.getD_some, hassign]

end Laws

end FerroRemote.Lua

/-
# Reading and writing by paths

The part of the wrapper's `state` that takes paths: components separated by dots, the
first a global variable and each other a field of what the one before denotes. All of
these work on the stack, and take off by hand what they put on it.

A value to be assigned is given as what `push( value )` leaves on the stack.
-/

import FerroRemote.Lua.Library

namespace FerroRemote.Lua

/-- The characters before the first dot. -/
def pathRoot : Text → Nat
  | [] => 0
  | c :: path => if c = '.' then 0 else pathRoot path + 1

def leafFrom : Nat → Nat → Text → Nat
  | _, sp, [] => sp
  | p, sp, c :: path => leafFrom (p + 1) (if c = '.' then p else sp) path

/-- Where the last dot is; the start of the path when there is none, and also when the
only dot is there. -/
def pathLeaf (path : Text) : Nat := leafFrom 0 0 path

def root (path : Text) : Text := path.take (pathRoot path)

/-- What follows the first component, its dot included. -/
def tail (path : Text) : Text := path.drop (pathRoot path)

theorem tail_length_le (path : Text) : (tail path).length ≤ path.length := by
  rw [tail, List.length_drop]
  exact Nat.sub_le _ _

theorem length_afterDot {path : Text} (hpath : tail path ≠ []) :
    ((tail path).drop 1).length < path.length := by
  have hpos := List.length_pos_iff.mpr hpath
  have hle := tail_length_le path
  rw [List.length_drop]
  omega

theorem length_afterDot_of_ne_nil {path : Text} (hpath : path ≠ []) :
    ((tail path).drop 1).length < path.length := by
  have hpos := List.length_pos_iff.mpr hpath
  have hle := tail_length_le path
  rw [List.length_drop]
  omega

/-- `types::id_traits< T >`: what is accepted, what a value is read as, and what reading
leaves in its slot. -/
structure Trait (α : Type) where
  typeIndex : LuaType
  check : LuaType → Bool
  get : Value → α
  leaves : Value → Value
  default : α

/-- `types::id_integer< T >`, with the conversion to `T` -/
def idInteger {α : Type} (cast : Int → α) : Trait α where
  typeIndex := .number
  check t := t = .number ∨ t = .boolean ∨ t = .nil ∨ t = .lightuserdata
  get
    | .number n => cast n.toInteger
    | .boolean b => cast (if b then 1 else 0)
    | .lightuserdata address => cast address
    | _ => cast 0
  leaves value := value
  default := cast 0

/-- `types::id_user_data< void * >` -/
def idUserData : Trait Nat where
  typeIndex := .lightuserdata
  check t := t = .lightuserdata
  get
    | .lightuserdata address => address
    | _ => 0
  leaves value := value
  default := 0

section Functions

variable {H α : Type}

/-- The text that `get< T >` throws. -/
def badType (T : Trait α) (t : LuaType) : String :=
  "bad type '" ++ T.typeIndex.idToString ++ "'. lua type is '" ++ t.idToString ++ "'"

/-- `get< T >( )`, of the value on the top -/
def getTop (T : Trait α) : Program H α := fun s =>
  match s.stack with
  | [] => if T.check .none then .done T.default s else .thrown (badType T .none) s
  | value :: rest =>
    if T.check value.type then .done (T.get value) ⟨s.heap, T.leaves value :: rest⟩
    else .thrown (badType T value.type) s

/-- `get< T >( )`, with the value taken off -/
def takeTop (T : Trait α) : Program H α := do
  let value ← getTop T
  pop 1
  return value

/-- `if( lua_istable( vm_, -1 ) ) ... else ...` -/
def whenTable (onTable otherwise : Program H α) : Program H α := do
  if ← isTable then onTable else otherwise

/-- `if( none_or_nil( ) ) ... else ...` -/
def whenNil (onNil otherwise : Program H α) : Program H α := do
  if ← noneOrNil then onNil else otherwise

variable (lib : Library H)

def getField (key : Text) (idx : Int) (T : Trait α) : Program H α := do
  getfield lib idx key
  let p ← whenNil (pure T.default) ((getTop T).cleaning (pop 1))
  pop 1
  return p

def createOrPush (path : Text) (value : Value) : Program H Unit :=
  if path = [] then push value
  else do
    newTable lib
    push (.string (root path))
    createOrPush ((tail path).drop 1) value
    setTable lib
termination_by path.length
decreasing_by exact length_afterDot_of_ne_nil ‹_›

def setToStack (path : Text) (value : Value) : Program H Unit :=
  if tail path = [] then do
    push (.string (root path))
    push value
    setTable lib
  else do
    getfield lib (-1) (root path)
    whenTable
      (do setToStack ((tail path).drop 1) value
          pop 1)
      (do pop 1
          push (.string (root path))
          createOrPush lib ((tail path).drop 1) value
          setTable lib)
termination_by path.length
decreasing_by exact length_afterDot ‹_›

/-- The branches of `set`: the global on the top makes place for what it is assigned. -/
def replaceTop (path : Text) (value : Value) : Program H Unit :=
  whenTable
    (if tail path = [] then do
      pop 1
      push value
    else setToStack lib ((tail path).drop 1) value)
    (do pop 1
        if tail path = [] then push value else createOrPush lib ((tail path).drop 1) value)

def set (path : Text) (value : Value) : Program H Unit := do
  getGlobal lib (root path)
  replaceTop lib path value
  setGlobal lib (root path)

/-- The loop of `get_table`, with `level` values pushed and the rest of the path. -/
def getTableFrom (level : Nat) : Text → Program H Nat
  | [] => whenTable (pure level) (do pop level; return 0)
  | _ :: path =>
    whenTable
      (do getfield lib (-1) (root path)
          getTableFrom (level + 1) (tail path))
      (do pop level; return 0)
termination_by path => path.length
decreasing_by exact Nat.lt_succ_of_le (tail_length_le path)

def getTable (path : Text) : Program H Nat := do
  getGlobal lib (root path)
  getTableFrom lib 1 (tail path)

/-- A field of the table on the top, with the tables of the path taken off -/
def takeField (level : Nat) (key : Text) (T : Trait α) : Program H α := do
  let value ← getField lib key (-1) T
  pop level
  return value

/-- `get< T >( path )` -/
def get (T : Trait α) (path : Text) : Program H α :=
  if pathLeaf path = 0 then do
    getGlobal lib path
    whenNil (pure T.default) ((takeTop T).cleaning (pop 1))
  else do
    let level ← getTable lib (path.take (pathLeaf path))
    if level = 0 then return T.default
    else (takeField lib level (path.drop (pathLeaf path + 1)) T).cleaning (pop level)

/-- `exists( path )` -/
def pathExists (path : Text) : Program H Bool :=
  if pathLeaf path = 0 then do
    getGlobal lib path
    whenNil (pure false) (do pop 1; return true)
  else do
    let level ← getTable lib (path.take (pathLeaf path))
    if level = 0 then return false
    else do
      getfield lib (-1) (path.drop (pathLeaf path + 1))
      let res ← whenNil (pure false) (do pop 1; return true)
      pop level
      return res

def setValue (path : Text) (idx : Int) : Program H Unit := do
  set lib path (.number (.whole 0))
  if pathLeaf path = 0 then do
    pushValue idx
    setGlobal lib path
  else do
    let level ← getTable lib (path.take (pathLeaf path))
    if level = 0 then return ()
    else do
      getfield lib (-1) (path.drop (pathLeaf path + 1))
      pop 1
      push (.string (path.drop (pathLeaf path + 1)))
      pushValue idx
      setTable lib
      pop level

def pushAll : List Value → Program H Unit
  | [] => pure ()
  | value :: values => do
    push value
    pushAll values

/-- `push_call_impl`, where `caller` says whether the event caller is still there. The
text of a failed call goes to the error stream. -/
def pushCallImpl (caller : Bool) (call : Value) (params : List Value) : Program H Unit :=
  if caller then do
    push call
    pushAll params
    let ok ← pcall lib params.length
    if ok then return () else pop 1
  else return ()

end Functions

end FerroRemote.Lua

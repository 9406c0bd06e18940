/-
# The types and the texts of objects

Every object has a type, which is one of Lua or one of the program, and a text. An
integer is written in decimal; how a stream writes a floating point number or an address
is a parameter.
-/

import FerroRemote.Lua.Objects
import FerroRemote.Math.Numerals

namespace FerroRemote.Lua

/-- The enumeration of `objects::base`. A reference has the type of what it refers to,
and a bit more. -/
inductive TypeId
  | lua (type : LuaType)
  | localIndex
  | pair
  | integer
  | uinteger
  | reference (type : LuaType)
  deriving DecidableEq, Repr

def TypeId.isReference : TypeId → Bool
  | .reference _ => true
  | _ => false

/-- `base::type2string` for the types of Lua -/
def LuaType.type2string : LuaType → String
  | .boolean => "bool"
  | type => type.idToString

/-- What a stream writes for values that are not text. -/
structure Formats where
  number : LuaNumber → Text
  pointer : Nat → Text
  /-- The state and the number of a reference. -/
  reference : Value → Text

/-- What a stream writes for an integer. -/
def integerText (n : Int) : Text := if n < 0 then '-' :: decimal n.natAbs else decimal n.natAbs

/-- `boolean::str` -/
def booleanText (value : Bool) : Text := if value then "true".toList else "false".toList

def Obj.typeId : Obj → TypeId
  | .nil => .lua .nil
  | .boolean _ => .lua .boolean
  | .lightUserdata _ => .lua .lightuserdata
  | .number _ => .lua .number
  | .integer _ => .integer
  | .string _ => .lua .string
  | .reference referred => .reference referred.type
  | .thread _ => .lua .thread
  | .table _ _ => .lua .table

def nilText : Text := "nil".toList

/-- `reference::str`, for the text of the state and the number -/
def referenceText (type : LuaType) (address : Text) : Text :=
  type.type2string.toList ++ '@' :: address

/-- `thread::str` -/
def threadText (address : Text) : Text := "thread@".toList ++ address

/-- `pair::str` -/
def pairText (first second : Text) : Text := first ++ '=' :: second

/-- `table::str` for the texts of its pairs -/
def tableText (texts : List Text) : Text :=
  "\x7b ".toList ++ (", ".toList).intercalate texts ++ " \x7d".toList

mutual
def Obj.str (formats : Formats) : Obj → Text
  | .nil => nilText
  | .boolean value => booleanText value
  | .lightUserdata ptr => formats.pointer ptr
  | .number num => formats.number num
  | .integer num => integerText num
  | .string cont => cont
  | .reference referred => referenceText referred.type (formats.reference referred)
  | .thread s => threadText (formats.pointer s)
  | .table list _ => tableText (list.texts formats)

def Pairs.texts (formats : Formats) : Pairs → List Text
  | .nil => []
  | .cons first second rest =>
    pairText (first.str formats) (second.str formats) :: rest.texts formats
end

end FerroRemote.Lua

/-
# Objects made by hand

A program makes objects of values, pairs and tables, which it adds to as it likes. What is
below an object is a tree as long as nothing is below itself, and the members of the object
are read off that tree: its type, how many it holds, its text, its numbers, its children,
and what `push` does to the stack.

Each class has a `clone` of its own. A pair clones its halves. A table copies its list and
shares what is in it. An unsigned integer makes a signed one.
-/

import FerroRemote.Lua.ObjectTexts

namespace FerroRemote.Lua.Objects

inductive Atom
  | boolean (value : Bool)
  | nil
  | lightUserdata (ptr : Nat)
  | number (num : LuaNumber)
  | integer (num : BitVec 64)
  | uinteger (num : BitVec 64)
  | string (cont : Text)
  | function (func : Nat)
  deriving DecidableEq

/-- `static_cast< lua_Integer >` of a number, `atof`, and how long a `long` is -/
structure NumberRules where
  truncated : LuaNumber → Int
  atof : Text → LuaNumber
  longBits : Nat

namespace Atom

def typeId : Atom → TypeId
  | .boolean _ => .lua .boolean
  | .nil => .lua .nil
  | .lightUserdata _ => .lua .lightuserdata
  | .number _ => .lua .number
  | .integer _ => .integer
  | .uinteger _ => .uinteger
  | .string _ => .lua .string
  | .function _ => .lua .function

def clone : Atom → Atom
  | .boolean value => .boolean value
  | .nil => .nil
  | .lightUserdata ptr => .lightUserdata ptr
  | .number num => .number num
  | .integer num => .integer num
  | .uinteger num => .integer num
  | .string cont => .string cont
  | .function func => .function func

def count : Atom → Nat
  | .string cont => cont.length
  | _ => 0

/-- `function::str`. A stream writes a function as whether it is one. -/
def functionText (func : Nat) : Text := "function@".toList ++ [if func = 0 then '0' else '1']

def str (formats : Formats) : Atom → Text
  | .boolean value => booleanText value
  | .nil => nilText
  | .lightUserdata ptr => formats.pointer ptr
  | .number num => formats.number num
  | .integer num => integerText num.toInt
  | .uinteger num => decimal num.toNat
  | .string cont => cont
  | .function func => functionText func

def num (rules : NumberRules) : Atom → LuaNumber
  | .boolean value => .whole (if value then 1 else 0)
  | .number num => num
  | .integer num => LuaNumber.toDouble (.whole num.toInt)
  | .uinteger num => LuaNumber.toDouble (.whole num.toNat)
  | .string cont => rules.atof (cString cont)
  | _ => .whole 0

def inum (rules : NumberRules) : Atom → Int
  | .boolean value => if value then 1 else 0
  | .number num => rules.truncated num
  | .integer num => num.toInt
  | .uinteger num => num.toInt
  | .string cont => (Numeral.scan (cString cont)).atoi rules.longBits
  | _ => 0

/-- What `push` puts on the stack -/
def pushed : Atom → Value
  | .boolean value => .boolean value
  | .nil => .nil
  | .lightUserdata ptr => .lightuserdata ptr
  | .number num => .number num
  | .integer num => .number (.whole num.toInt)
  | .uinteger num => .number (.whole num.toInt)
  | .string cont => .string (cString cont)
  | .function func => .function func

end Atom

/-- `objects::base`. A pair is as it was made and stands for itself; a table can be added to
and is known by its place. -/
inductive Base
  | atom (value : Atom)
  | pair (first second : Base)
  | table (id : Nat)
  deriving DecidableEq

structure Table where
  list : List (Base × Base) := []
  index : Nat := 1
  deriving DecidableEq

/-- `table::add`. A null key stands for the next index. -/
def Table.add (t : Table) : Option Base → Base → Table
  | some k, v => { t with list := t.list ++ [(k, v)] }
  | none, v =>
    { list := t.list ++ [(.atom (.integer (BitVec.ofNat 64 t.index)), v)], index := t.index + 1 }

abbrev Tables : Type := List Table

def Tables.add (s : Tables) (id : Nat) (key : Option Base) (value : Base) : Tables :=
  s.modify id fun t => t.add key value

def Base.clone : Base → Tables → Base × Tables
  | .atom value, s => (.atom value.clone, s)
  | .pair first second, s =>
    let f := first.clone s
    let g := second.clone f.2
    (.pair f.1 g.1, g.2)
  | .table id, s => (.table s.length, s ++ [s[id]?.getD {}])

mutual
/-- An object with all that is below it -/
inductive Tree
  | atom (value : Atom)
  | pair (first second : Tree)
  | table (list : TreePairs) (index : Nat)

inductive TreePairs
  | nil
  | cons (first second : Tree) (rest : TreePairs)
end

mutual
/-- What an object looks like. It is a tree, so it is not below itself. -/
inductive Shows (s : Tables) : Base → Tree → Prop
  | atom (value : Atom) : Shows s (.atom value) (.atom value)
  | pair {first second : Base} {f g : Tree} (hfirst : Shows s first f) (hsecond : Shows s second g) :
      Shows s (.pair first second) (.pair f g)
  | table {id : Nat} {t : Table} {list : TreePairs} (hthere : s[id]? = some t)
      (hlist : ShowsPairs s t.list list) : Shows s (.table id) (.table list t.index)

inductive ShowsPairs (s : Tables) : List (Base × Base) → TreePairs → Prop
  | nil : ShowsPairs s [] .nil
  | cons {first second : Base} {pairs : List (Base × Base)} {f g : Tree} {rest : TreePairs}
      (hfirst : Shows s first f) (hsecond : Shows s second g) (hrest : ShowsPairs s pairs rest) :
      ShowsPairs s ((first, second) :: pairs) (.cons f g rest)
end

def Tree.typeId : Tree → TypeId
  | .atom value => value.typeId
  | .pair _ _ => .pair
  | .table _ _ => .lua .table

def Tree.noneOrNil (t : Tree) : Bool := t.typeId = .lua .none ∨ t.typeId = .lua .nil

def TreePairs.size : TreePairs → Nat
  | .nil => 0
  | .cons _ _ rest => rest.size + 1

def Tree.count : Tree → Nat
  | .atom value => value.count
  | .pair _ _ => 2
  | .table list _ => list.size

mutual
def Tree.str (formats : Formats) : Tree → Text
  | .atom value => value.str formats
  | .pair first second => pairText (first.str formats) (second.str formats)
  | .table list _ => tableText (list.texts formats)

def TreePairs.texts (formats : Formats) : TreePairs → List Text
  | .nil => []
  | .cons first second rest =>
    pairText (first.str formats) (second.str formats) :: rest.texts formats
end

def Tree.num (rules : NumberRules) : Tree → LuaNumber
  | .atom value => value.num rules
  | _ => .whole 0

def Tree.inum (rules : NumberRules) : Tree → Int
  | .atom value => value.inum rules
  | _ => 0

/-- What the members of an object return -/
structure Facts where
  typeId : TypeId
  count : Nat
  str : Text
  num : LuaNumber
  inum : Int
  deriving DecidableEq

def Tree.facts (formats : Formats) (rules : NumberRules) (t : Tree) : Facts :=
  ⟨t.typeId, t.count, t.str formats, t.num rules, t.inum rules⟩

def TreePairs.at : TreePairs → Nat → Option Tree
  | .nil, _ => none
  | .cons first second _, 0 => some (.pair first second)
  | .cons _ _ rest, index + 1 => rest.at index

def Tree.at : Tree → Nat → Option Tree
  | .atom _, _ => none
  | .pair first _, 0 => some first
  | .pair _ second, 1 => some second
  | .pair _ _, _ => none
  | .table list _, index => list.at index

/-- The node at the end of a way down -/
def Tree.node (t : Tree) : List Nat → Option Tree
  | [] => some t
  | index :: path => (t.at index).bind fun below => below.node path

section Push

variable {H : Type} (lib : Library H)

/-- `pair::push`: the halves that are not nil -/
def pushHalves (first second : Program H Unit) (nilFirst nilSecond : Bool) : Program H Unit := do
  if nilFirst then pure () else first
  if nilSecond then pure () else second

def nilSize (first second : Tree) : Nat := first.noneOrNil.toNat + second.noneOrNil.toNat

mutual
def Tree.push : Tree → Program H Unit
  | .atom value => Lua.push value.pushed
  | .pair first second => pushHalves first.push second.push first.noneOrNil second.noneOrNil
  | .table list index => do
    newTable lib
    list.push index

/-- The loop of `table::push` -/
def TreePairs.push : TreePairs → Nat → Program H Unit
  | .nil, _ => pure ()
  | .cons first second rest, len =>
    match nilSize first second with
    | 1 => do
      Lua.push (.number (.whole len))
      pushHalves first.push second.push first.noneOrNil second.noneOrNil
      setTable lib
      rest.push (len + 1)
    | 0 => do
      pushHalves first.push second.push first.noneOrNil second.noneOrNil
      setTable lib
      rest.push len
    | _ => rest.push len
end

end Push

end FerroRemote.Lua.Objects

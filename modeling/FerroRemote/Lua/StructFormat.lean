/-
# Packing and unpacking by a format

`struct.pack`, `struct.unpack` and `struct.size` read a format in loops of their own. Each
turn takes an option with the number after it, aligns the position to the size of the item,
and goes on by that size. Sizes and positions are those of a 64-bit machine whose own byte
order is little endian. A signed overflow, a shift by more than a word, a conversion of a
number that the type does not have and a read outside the data have no meaning in C; they
are failures of their own here.
-/

import FerroRemote.Lua.Objects
import FerroRemote.Math.ByteOrder
import FerroRemote.Math.Scanning

namespace FerroRemote.Lua.Struct

open FerroRemote.ByteOrder
open FerroRemote.Scanning

inductive Endian
  | big
  | little
  deriving DecidableEq, Repr

structure Header where
  endian : Endian
  align : Nat
  deriving DecidableEq, Repr

/-- `native.endian` -/
def native : Endian := .little

def defaultoptions : Header := ⟨native, 1⟩

def maxIntSize : Nat := 32

/-- `MAXALIGN`, with a `double` that is aligned to eight bytes -/
def maxAlign : Nat := 8

/-- What ends a call: an error of `luaL_argerror`, of `luaL_error`, of the argument checks of
the library or of its memory, or something that C does not define. -/
inductive Failure
  | argument (arg : Nat) (text : String)
  | message (text : String)
  | expected (arg : Nat) (type : LuaType)
  | memory
  | overflow
  | shift
  | conversion
  | outside
  deriving DecidableEq, Repr

/-- What the loop of `getnum` makes of the digits; the sum is made before `'0'` is taken
off. -/
def digits (a : Nat) : Text → Except Failure (Nat × Text)
  | [] => .ok (a, [])
  | c :: rest =>
      if c.isDigit then
        if a * 10 + c.toNat < 2147483648 then digits (a * 10 + c.toNat - '0'.toNat) rest
        else .error .overflow
      else .ok (a, c :: rest)

def getnum (fmt : Text) (df : Nat) : Except Failure (Nat × Text) :=
  match fmt with
  | [] => .ok (df, fmt)
  | c :: _ => if c.isDigit then digits 0 fmt else .ok (df, fmt)

def optsize (opt : Char) (fmt : Text) : Except Failure (Nat × Text) :=
  match opt with
  | 'B' | 'b' => .ok (1, fmt)
  | 'H' | 'h' => .ok (2, fmt)
  | 'L' | 'l' => .ok (8, fmt)
  | 'T' => .ok (8, fmt)
  | 'f' => .ok (4, fmt)
  | 'd' => .ok (8, fmt)
  | 'x' => .ok (1, fmt)
  | 'c' => getnum fmt 1
  | 'i' | 'I' =>
      match getnum fmt 4 with
      | .error err => .error err
      | .ok (sz, fmt) =>
          if maxIntSize < sz then
            .error (.message s!"integral size {sz} is larger than limit of {maxIntSize}")
          else .ok (sz, fmt)
  | _ => .ok (0, fmt)

def gettoalign (len : Nat) (h : Header) (opt : Char) (size : Nat) : Nat :=
  if size = 0 ∨ opt = 'c' then 0
  else
    let size := if h.align < size then h.align else size
    (size - (len &&& (size - 1))) &&& (size - 1)

def isp2 (x : Nat) : Bool := 0 < x ∧ x &&& (x - 1) = 0

def controloptions (opt : Char) (fmt : Text) (h : Header) : Except Failure (Text × Header) :=
  match opt with
  | ' ' => .ok (fmt, h)
  | '>' => .ok (fmt, { h with endian := .big })
  | '<' => .ok (fmt, { h with endian := .little })
  | '!' =>
      match getnum fmt maxAlign with
      | .error err => .error err
      | .ok (a, fmt) =>
          if isp2 a then .ok (fmt, { h with align := a })
          else .error (.message s!"alignment {a} is not a power of 2")
  | _ => .error (.argument 1 s!"invalid format option '{opt}'")

/-- The cases of the switches that are integers -/
def isInteger (opt : Char) : Bool := opt ∈ ['b', 'B', 'h', 'H', 'l', 'L', 'T', 'i', 'I']

/-- Sums of type `size_t` -/
def plus (a b : Nat) : Nat := (a + b) % 2 ^ 64

/-- A `size_t` as a `lua_Integer` -/
def asInteger (n : Nat) : Int := (BitVec.ofNat 64 n).toInt

/-- The integral part of a double that is not whole -/
def truncatedBits (bits : UInt64) : Option Int :=
  let exponent : Nat := bits.toNat / 2 ^ 52 % 2048
  let mantissa : Nat := bits.toNat % 2 ^ 52 + 2 ^ 52
  let magnitude : Nat := mantissa / 2 ^ (1075 - exponent)
  if exponent = 2047 then none
  else some (if bits.toNat < 2 ^ 63 then (magnitude : Int) else -(magnitude : Int))

def truncated : LuaNumber → Option Int
  | .whole n => some n
  | .fraction bits => truncatedBits bits

/-- What the library makes of numbers in texts and of texts of numbers, and the bytes of
floating point numbers in the order of the machine. -/
structure Conversions where
  toNumber : Text → Option LuaNumber
  numberText : LuaNumber → Text
  float : LuaNumber → Text
  ofFloat : Text → LuaNumber
  double : LuaNumber → Text
  ofDouble : Text → LuaNumber
  length_float : ∀ n, (float n).length = 4
  length_double : ∀ n, (double n).length = 8

/-- `luaL_checknumber` -/
def checkNumber (conv : Conversions) (arg : Nat) : Value → Except Failure LuaNumber
  | .number n => .ok n.toDouble
  | .string text =>
      match conv.toNumber text with
      | some n => .ok n.toDouble
      | none => .error (.expected arg .number)
  | _ => .error (.expected arg .number)

/-- `luaL_checklstring` -/
def checkString (conv : Conversions) (arg : Nat) : Value → Except Failure Text
  | .string text => .ok text
  | .number n => .ok (conv.numberText n)
  | _ => .error (.expected arg .string)

/-- A double as a `Uinttype`, through `Inttype` when it is negative -/
def toUinttype (n : LuaNumber) : Except Failure (BitVec 64) :=
  match truncated n with
  | none => .error .conversion
  | some value =>
      if -2 ^ 63 ≤ value ∧ value < 2 ^ 64 then .ok (BitVec.ofInt 64 value)
      else .error .conversion

/-- The loops of `putinteger` -/
def bytesOf (endian : Endian) (size : Nat) (value : BitVec 64) : Text :=
  match endian with
  | .little => (lowFirst size value.toNat).map Char.ofNat
  | .big => (highFirst size value.toNat []).map Char.ofNat

def putinteger (conv : Conversions) (arg : Nat) (value : Value) (endian : Endian) (size : Nat) :
    Except Failure Text := do
  let n ← checkNumber conv arg value
  let value ← toUinttype n
  return bytesOf endian size value

/-- The loops of `getinteger` -/
def wordOf (endian : Endian) (buff : Text) : BitVec 64 :=
  let bytes := buff.map fun c => c.toNat % 256
  match endian with
  | .big => gather bytes
  | .little => gather bytes.reverse

/-- `(lua_Number)l` as the `lua_Integer` that the function returns -/
def unsignedResult (l : BitVec 64) : Except Failure Int :=
  let n := Rounding.roundInt 52 l.toNat
  if n < 2 ^ 63 then .ok n else .error .conversion

def getinteger (buff : Text) (endian : Endian) (issigned : Bool) (size : Nat) :
    Except Failure Int :=
  let l := wordOf endian buff
  if issigned then
    if 0 < size ∧ size ≤ 8 then .ok (extended size l).toInt else .error .shift
  else unsignedResult l

/-- The loop of `correctbytes`, which exchanges the bytes from both ends -/
def exchange (b : Text) (i : Nat) : Nat → Text
  | 0 => b
  | size + 1 =>
      if i < size then
        exchange ((b.set i (b.getD size '\x00')).set size (b.getD i '\x00')) (i + 1) size
      else b

def correctbytes (b : Text) (size : Nat) (endian : Endian) : Text :=
  if endian ≠ native then exchange b 0 size else b

/-- What `b_pack` keeps: the argument to be read next is `arg`. -/
structure Packing where
  h : Header
  arg : Nat
  totalsize : Nat
  buffer : Text

section Calls

variable (conv : Conversions)

/-- The switch of `b_pack`: what it writes, how many arguments it takes, the size that it
leaves, and the format and the header after it. The argument behind the last one is `nil`. -/
structure Item where
  bytes : Text
  args : Nat
  size : Nat
  fmt : Text
  h : Header

def packItem (args : List Value) (opt : Char) (size : Nat) (fmt : Text) (h : Header)
    (arg : Nat) : Except Failure Item :=
  let value := args.getD (arg - 2) .nil
  if isInteger opt then do
    let bytes ← putinteger conv arg value h.endian size
    return ⟨bytes, 1, size, fmt, h⟩
  else if opt = 'x' then .ok ⟨['\x00'], 0, size, fmt, h⟩
  else if opt = 'f' then do
    let n ← checkNumber conv arg value
    return ⟨correctbytes (conv.float n) size h.endian, 1, size, fmt, h⟩
  else if opt = 'd' then do
    let n ← checkNumber conv arg value
    return ⟨correctbytes (conv.double n) size h.endian, 1, size, fmt, h⟩
  else if opt = 'c' ∨ opt = 's' then do
    let s ← checkString conv arg value
    let size := if size = 0 then s.length else size
    if s.length < size then .error (.argument (arg + 1) "string too short")
    else if opt = 's' then .ok ⟨s.take size ++ ['\x00'], 1, size + 1, fmt, h⟩
    else .ok ⟨s.take size, 1, size, fmt, h⟩
  else do
    let (fmt, h) ← controloptions opt fmt h
    return ⟨[], 0, size, fmt, h⟩

def packTurn (args : List Value) : Turn Char Failure Packing := fun opt fmt s => do
  let (size, fmt) ← optsize opt fmt
  let toalign := gettoalign s.totalsize s.h opt size
  let item ← packItem conv args opt size fmt s.h s.arg
  return (item.fmt, {
    h := item.h
    arg := s.arg + item.args
    totalsize := plus (plus s.totalsize toalign) item.size
    buffer := s.buffer ++ List.replicate toalign '\x00' ++ item.bytes })

/-- `struct.pack( fmt, … )` -/
def pack (fmt : Text) (args : List Value) : Except Failure Text := do
  let s ← scan (packTurn conv args) (cString fmt) ⟨defaultoptions, 2, 0, []⟩
  return s.buffer

/-- What `b_unpack` keeps. The stack has its top first. -/
structure Unpacking where
  h : Header
  pos : Nat
  stack : List Value

/-- `size` bytes from a place of the data on -/
def bytesAt (data : Text) (pos size : Nat) : Except Failure Text :=
  if size = 0 ∨ pos + size ≤ data.length then .ok ((data.drop pos).take size)
  else .error .outside

/-- `lua_pushlstring`, which makes no string longer than `LUA_MAXINTEGER` -/
def pushBytes (data : Text) (pos size : Nat) : Except Failure Text :=
  if 2 ^ 63 ≤ size then .error .memory else bytesAt data pos size

/-- `lua_isnumber( L, -1 )` and `lua_tonumber( L, -1 )` -/
def topNumber (stack : List Value) : Option LuaNumber :=
  match stack with
  | .number n :: _ => some n.toDouble
  | .string text :: _ => (conv.toNumber text).map LuaNumber.toDouble
  | _ => none

/-- A double as a `size_t` -/
def toSize (n : LuaNumber) : Except Failure Nat :=
  match truncated n with
  | none => .error .conversion
  | some value => if 0 ≤ value ∧ value < 2 ^ 64 then .ok value.toNat else .error .conversion

def tooShort : Failure := .argument 2 "data string too short"

/-- The switch of `b_unpack`, at the place of the item: the stack, the size that it leaves,
and the format and the header after it -/
structure Taken where
  stack : List Value
  size : Nat
  fmt : Text
  h : Header

def unpackItem (data : Text) (opt : Char) (size : Nat) (fmt : Text) (h : Header) (pos : Nat)
    (stack : List Value) : Except Failure Taken :=
  if isInteger opt then do
    let buff ← bytesAt data pos size
    let res ← getinteger buff h.endian opt.isLower size
    return ⟨.number (.whole res) :: stack, size, fmt, h⟩
  else if opt = 'x' then .ok ⟨stack, size, fmt, h⟩
  else if opt = 'f' then do
    let buff ← bytesAt data pos size
    return ⟨.number (conv.ofFloat (correctbytes buff size h.endian)) :: stack, size, fmt, h⟩
  else if opt = 'd' then do
    let buff ← bytesAt data pos size
    return ⟨.number (conv.ofDouble (correctbytes buff size h.endian)) :: stack, size, fmt, h⟩
  else if opt = 'c' then
    if size = 0 then
      match topNumber conv stack with
      | none => .error (.message "format \x60c0' needs a previous size")
      | some n => do
          let size ← toSize n
          if plus pos size ≤ data.length then do
            let s ← pushBytes data pos size
            return ⟨.string s :: stack.drop 1, size, fmt, h⟩
          else .error tooShort
    else do
      let s ← pushBytes data pos size
      return ⟨.string s :: stack, size, fmt, h⟩
  else if opt = 's' then
    let found := (data.drop pos).takeWhile fun c => c ≠ '\x00'
    if found.length < (data.drop pos).length then
      .ok ⟨.string found :: stack, found.length + 1, fmt, h⟩
    else .error (.message "unfinished string in data")
  else do
    let (fmt, h) ← controloptions opt fmt h
    return ⟨stack, size, fmt, h⟩

def unpackTurn (data : Text) : Turn Char Failure Unpacking := fun opt fmt s => do
  let (size, fmt) ← optsize opt fmt
  let pos := plus s.pos (gettoalign s.pos s.h opt size)
  if plus pos size ≤ data.length then do
    let taken ← unpackItem conv data opt size fmt s.h pos s.stack
    return (taken.fmt, ⟨taken.h, plus pos taken.size, taken.stack⟩)
  else .error tooShort

/-- `struct.unpack( fmt, data, init )`; the results are what stands above two values. -/
def unpack (fmt data : Text) (init : Int) : Except Failure (List Value) := do
  let pos := (BitVec.ofInt 64 (init - 1)).toNat
  let s ← scan (unpackTurn conv data) (cString fmt) ⟨defaultoptions, pos,
    [.string data, .string fmt]⟩
  let stack := .number (.whole (asInteger (plus s.pos 1))) :: s.stack
  return (stack.take (stack.length - 2)).reverse

end Calls

/-- What `b_size` keeps -/
structure Sizing where
  h : Header
  pos : Nat

def sizeTurn : Turn Char Failure Sizing := fun opt fmt s => do
  let (size, fmt) ← optsize opt fmt
  let pos := plus s.pos (gettoalign s.pos s.h opt size)
  if opt = 's' then .error (.argument 1 "option 's' has no fixed size")
  else if opt = 'c' ∧ size = 0 then .error (.argument 1 "option 'c0' has no fixed size")
  else if opt.isAlphanum then .ok (fmt, ⟨s.h, plus pos size⟩)
  else do
    let (fmt, h) ← controloptions opt fmt s.h
    return (fmt, ⟨h, plus pos size⟩)

/-- `struct.size( fmt )` -/
def size (fmt : Text) : Except Failure Int := do
  let s ← scan sizeTurn (cString fmt) ⟨defaultoptions, 0⟩
  return asInteger s.pos

end FerroRemote.Lua.Struct

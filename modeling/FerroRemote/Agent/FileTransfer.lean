/-
# Opening, reading and writing a regular file on the agent

The flags of an open request are translated bit by bit. A descriptor has a
position, which every transfer moves; with `O_APPEND` a write first goes to the
end of the file. A device operation may transfer less than it is asked to: the
`read` handler makes one, and answers what it got; the `write` handler goes on
until the whole block is written.
-/

import FerroRemote.Math.Extent

namespace FerroRemote.Agent

def O_RDONLY : Nat := 0
def O_WRONLY : Nat := 0o1
def O_RDWR : Nat := 0o2
def O_CREAT : Nat := 0o100
def O_EXCL : Nat := 0o200
def O_TRUNC : Nat := 0o1000
def O_APPEND : Nat := 0o2000
def O_NONBLOCK : Nat := 0o4000
def O_ASYNC : Nat := 0o20000
def O_SYNC : Nat := 0o4010000

/-- `values_map` of `flags_to_native`: the value of a flag in the protocol, and
the one of the system. -/
def flagsMap : List (Nat × Nat) :=
  [(0, O_RDONLY), (0o1, O_WRONLY), (0o2, O_RDWR), (0o100, O_CREAT), (0o200, O_EXCL),
    (0o2000, O_APPEND), (0o4000, O_NONBLOCK), (0o20000, O_ASYNC), (0o4010000, O_SYNC),
    (0o1000, O_TRUNC)]

def flagsToNative (value : Nat) : Nat :=
  flagsMap.foldl (fun flags entry => if value &&& entry.1 ≠ 0 then flags ||| entry.2 else flags) 0

/-- A regular file and one descriptor of it. -/
structure DeviceFile where
  content : List UInt8
  /-- The descriptor was opened with `O_APPEND`. -/
  append : Bool
  position : Nat
  deriving DecidableEq, Repr

namespace DeviceFile

/-- `file::create` with the flags of a request. -/
def create (content : List UInt8) (flags : Nat) : DeviceFile where
  content := content
  append := decide (flagsToNative flags &&& O_APPEND ≠ 0)
  position := 0

/-- `lseek( fd, position, SEEK_SET )`. -/
def seek (f : DeviceFile) (position : Nat) : DeviceFile := { f with position := position }

/-- `::read` that transfers up to `n` bytes. -/
def read (f : DeviceFile) (n : Nat) : List UInt8 × DeviceFile :=
  let data := Extent.readAt f.content f.position n
  (data, { f with position := f.position + data.length })

/-- `::write` that transfers all of `data`. -/
def write (f : DeviceFile) (data : List UInt8) : DeviceFile :=
  if data.isEmpty then f
  else
    let position := if f.append then f.content.length else f.position
    { f with
      content := Extent.writeAt 0 f.content position data
      position := position + data.length }

/-- A write at the position itself: `O_APPEND` makes no difference, or nothing
is written. -/
theorem write_of_at_position (f : DeviceFile) (data : List UInt8)
    (hposition : data ≠ [] → f.append = true → f.position = f.content.length) :
    f.write data = { f with
      content := Extent.writeAt 0 f.content f.position data
      position := f.position + data.length } := by
  by_cases hempty : data = []
  · subst hempty
    rfl
  · have hnonempty : data.isEmpty = false := by
      rw [← Bool.not_eq_true, List.isEmpty_iff]
      exact hempty
    have hat : (if f.append then f.content.length else f.position) = f.position := by
      split
      · next happend => exact (hposition hempty happend).symm
      · rfl
    simp only [write, hnonempty, Bool.false_eq_true, if_false, hat]

end DeviceFile

/-- What the handlers take of a block's length. -/
def clampBlock (length : Nat) : Nat := if length > 44000 then 44000 else length

/-- The fields of the answering `file_data_block` that clients look at. -/
structure FileDataBlock where
  length : Nat := 0
  data : List UInt8 := []
  deriving DecidableEq, Repr

end FerroRemote.Agent

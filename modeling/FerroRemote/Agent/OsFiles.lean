/-
# The file classes of the agent over the system's descriptors

`file::create` and `device::create` make objects of four classes. Two of them seek
with `lseek`; the two for devices answer zero to every seek and go to the start
again after every transfer. What the system is going to answer to the calls on a
descriptor is part of the descriptor here, one script for each of the calls: a
transfer of any number of bytes up to the length asked for, or an error.
-/

import FerroRemote.Agent.FileBlocks

namespace FerroRemote.Agent

/-- What `::write` is going to answer. -/
inductive WriteAnswer
  | failed (code : Errno)
  /-- It takes `count` bytes, or all it is offered. With `O_APPEND` it first goes to
  the end of the file. -/
  | took (count : Nat) (fileEnd : Option Int64)
  deriving DecidableEq

namespace WriteAnswer

/-- How much it takes, unless it fails. -/
def count : WriteAnswer → Option Nat
  | failed _ => none
  | took count _ => some count

/-- The position after a call with `length` bytes at `pos`. -/
def landing (answer : WriteAnswer) (length : Nat) (pos : Int64) : Int64 :=
  match answer with
  | failed _ => pos
  | took count fileEnd => fileEnd.getD pos + Int64.ofNat (min count length)

theorem landing_of_failed {answer : WriteAnswer} (hfailed : answer.count = none) (length : Nat)
    (pos : Int64) : answer.landing length pos = pos := by
  cases answer with
  | failed code => rfl
  | took count fileEnd => cases hfailed

end WriteAnswer

/-- An open descriptor: its position, and what is going to be answered. A seek that
does not fail is told where the file ends at that moment. -/
structure Descriptor where
  position : Int64
  seeks : Nat → Except Errno Int64
  reads : Nat → Except Errno (List UInt8)
  writes : Nat → WriteAnswer

namespace Descriptor

/-- Where the `i`-th seek from now would go. -/
def goes (fd : Descriptor) (i : Nat) (offset : Int64) (whence : SeekWhence) :
    Except Errno Int64 :=
  match fd.seeks i with
  | .error code => .error code
  | .ok fileEnd =>
    let target := match whence with
      | .set => offset
      | .cur => fd.position + offset
      | .fromEnd => fileEnd + offset
    if target < 0 then .error EINVAL else .ok target

def lseek (fd : Descriptor) (offset : Int64) (whence : SeekWhence) :
    Except Errno Int64 × Descriptor :=
  let seeks := fun i => fd.seeks (1 + i)
  match fd.goes 0 offset whence with
  | .error code => (.error code, { fd with seeks := seeks })
  | .ok target => (.ok target, { fd with position := target, seeks := seeks })

def read (fd : Descriptor) (length : Nat) : Except Errno (Block length) × Descriptor :=
  let reads := fun i => fd.reads (1 + i)
  match fd.reads 0 with
  | .error code => (.error code, { fd with reads := reads })
  | .ok data =>
    (.ok ⟨data.take length, List.length_take_le length data⟩,
      { fd with position := fd.position + Int64.ofNat (data.take length).length, reads := reads })

def write (fd : Descriptor) (data : List UInt8) : Except Errno Nat × Descriptor :=
  let after := { fd with
    position := (fd.writes 0).landing data.length fd.position
    writes := fun i => fd.writes (1 + i) }
  match fd.writes 0 with
  | .failed code => (.error code, after)
  | .took count _ => (.ok (min count data.length), after)

end Descriptor

def errnoAssert {α : Type} (func : String) (res : Except Errno α) : Except Error α :=
  match res with
  | .error code => .error (.errno func code)
  | .ok a => .ok a

/-- `lseek( fd_, 0, SEEK_SET )` after a transfer. Its own result is not looked at,
but it may leave another `errno` behind. -/
def Descriptor.rewind {α : Type} (res : Except Errno α) (fd : Descriptor) :
    Except Errno α × Descriptor :=
  match res, fd.lseek 0 .set with
  | .error _, (.error code, fd) => (.error code, fd)
  | res, (_, fd) => (res, fd)

def fileImpl : FileIface Descriptor where
  read fd length := ((fd.read length).map (errnoAssert "read") id)
  write fd data := ((fd.write data).map (errnoAssert "write") id)
  seek fd offset whence := ((fd.lseek offset whence).map (errnoAssert "lseek") id)
  tell fd := ((fd.lseek 0 .cur).map (errnoAssert "lseek") id)

/-- `file2_impl`, on the descriptor of a `FILE`. -/
def file2Impl : FileIface Descriptor := fileImpl

def deviceFileImpl : FileIface Descriptor where
  read fd length :=
    let (res, fd) := fd.read length
    (Descriptor.rewind res fd).map (errnoAssert "read") id
  write fd data :=
    let (res, fd) := fd.write data
    (Descriptor.rewind res fd).map (errnoAssert "write") id
  seek fd _ _ := (.ok 0, fd)
  tell fd := (.ok 0, fd)

def device2FileImpl : FileIface Descriptor := deviceFileImpl

/-- The classes that implement `file_iface`. -/
inductive FileClass
  | file
  | file2
  | deviceFile
  | device2File
  deriving DecidableEq, Repr

namespace FileClass

/-- The member functions of a class. -/
def iface : FileClass → FileIface Descriptor
  | file => fileImpl
  | file2 => file2Impl
  | deviceFile => deviceFileImpl
  | device2File => device2FileImpl

/-- Its `seek` and `tell` are those of the system. -/
def seeksOs : FileClass → Bool
  | file | file2 => true
  | deviceFile | device2File => false

end FileClass

/-- An object with a `file_iface`. -/
structure AgentFile where
  cls : FileClass
  fd : Descriptor

/-- The virtual functions of `file_iface`. -/
def agentFiles : FileIface AgentFile where
  read f length := (f.cls.iface.read f.fd length).map id (AgentFile.mk f.cls)
  write f data := (f.cls.iface.write f.fd data).map id (AgentFile.mk f.cls)
  seek f offset whence := (f.cls.iface.seek f.fd offset whence).map id (AgentFile.mk f.cls)
  tell f := (f.cls.iface.tell f.fd).map id (AgentFile.mk f.cls)

namespace Descriptor

theorem lseek_writes (fd : Descriptor) (offset : Int64) (whence : SeekWhence) :
    (fd.lseek offset whence).2.writes = fd.writes := by
  unfold lseek
  cases fd.goes 0 offset whence <;> rfl

theorem lseek_reads (fd : Descriptor) (offset : Int64) (whence : SeekWhence) :
    (fd.lseek offset whence).2.reads = fd.reads := by
  unfold lseek
  cases fd.goes 0 offset whence <;> rfl

theorem lseek_seeks (fd : Descriptor) (offset : Int64) (whence : SeekWhence) :
    (fd.lseek offset whence).2.seeks = fun i => fd.seeks (1 + i) := by
  unfold lseek
  cases fd.goes 0 offset whence <;> rfl

/-- A seek ends where it goes, and a refused one goes nowhere. -/
theorem lseek_position (fd : Descriptor) (offset : Int64) (whence : SeekWhence) :
    (fd.lseek offset whence).1 = fd.goes 0 offset whence ∧
      (fd.lseek offset whence).2.position =
        (fd.goes 0 offset whence).toOption.getD fd.position := by
  unfold lseek
  cases fd.goes 0 offset whence <;> exact ⟨rfl, rfl⟩

theorem goes_cur_zero {fd : Descriptor} {i : Nat} {pos : Int64}
    (hgoes : fd.goes i 0 .cur = .ok pos) : pos = fd.position ∧ ¬ fd.position < 0 := by
  unfold goes at hgoes
  cases hseek : fd.seeks i with
  | error code =>
      rw [hseek] at hgoes
      cases hgoes
  | ok fileEnd =>
      simp only [hseek, Int64.add_zero] at hgoes
      split at hgoes
      · cases hgoes
      · next hpos =>
        cases hgoes
        exact ⟨rfl, hpos⟩

/-- Seeks that count from the same place and are answered alike. -/
theorem goes_congr {fd fd' : Descriptor} {i j : Nat} (hposition : fd'.position = fd.position)
    (hseeks : fd'.seeks i = fd.seeks j) (offset : Int64) (whence : SeekWhence) :
    fd'.goes i offset whence = fd.goes j offset whence := by
  simp only [goes, hposition, hseeks]

theorem write_writes (fd : Descriptor) (data : List UInt8) :
    (fd.write data).2.writes = fun i => fd.writes (1 + i) := by
  unfold write
  cases fd.writes 0 <;> rfl

theorem write_of_failed {fd : Descriptor} (hfailed : (fd.writes 0).count = none)
    (data : List UInt8) : ∃ code, (fd.write data).1 = .error code := by
  unfold write
  cases hanswer : fd.writes 0 with
  | failed code => exact ⟨code, rfl⟩
  | took count fileEnd => rw [hanswer] at hfailed; cases hfailed

theorem write_of_took {fd : Descriptor} {n : Nat} (htook : (fd.writes 0).count = some n)
    (data : List UInt8) : (fd.write data).1 = .ok (min n data.length) := by
  unfold write
  cases hanswer : fd.writes 0 with
  | failed code => rw [hanswer] at htook; cases htook
  | took count fileEnd => rw [hanswer] at htook; cases htook; rfl

theorem write_position (fd : Descriptor) (data : List UInt8) :
    (fd.write data).2.position = (fd.writes 0).landing data.length fd.position := by
  unfold write
  cases fd.writes 0 <;> rfl

theorem write_seeks (fd : Descriptor) (data : List UInt8) :
    (fd.write data).2.seeks = fd.seeks := by
  unfold write
  cases fd.writes 0 <;> rfl

theorem rewind_writes {α : Type} (res : Except Errno α) (fd : Descriptor) :
    (rewind res fd).2.writes = fd.writes := by
  have hwrites := fd.lseek_writes 0 .set
  unfold rewind
  split
  · next heq =>
    rw [heq] at hwrites
    exact hwrites
  · next heq =>
    rw [heq] at hwrites
    exact hwrites

/-- The seek behind a transfer does not change how the transfer ended. -/
theorem rewind_result {α : Type} (res : Except Errno α) (fd : Descriptor) :
    (rewind res fd).1.toOption = res.toOption := by
  unfold rewind
  split <;> rfl

end Descriptor

theorem toOption_errnoAssert {α : Type} (func : String) (res : Except Errno α) :
    (errnoAssert func res).toOption = res.toOption := by
  cases res <;> rfl

namespace FileClass

theorem write_writes (cls : FileClass) (fd : Descriptor) (data : List UInt8) :
    (cls.iface.write fd data).2.writes = fun i => fd.writes (1 + i) := by
  cases cls with
  | file | file2 => exact fd.write_writes data
  | deviceFile | device2File =>
      exact (Descriptor.rewind_writes _ _).trans (fd.write_writes data)

theorem write_result (cls : FileClass) (fd : Descriptor) (data : List UInt8) :
    (cls.iface.write fd data).1.toOption = (fd.write data).1.toOption := by
  cases cls with
  | file | file2 => exact toOption_errnoAssert "write" _
  | deviceFile | device2File =>
      exact (toOption_errnoAssert "write" _).trans (Descriptor.rewind_result _ _)

theorem write_of_seeksOs {cls : FileClass} (hos : cls.seeksOs = true) (fd : Descriptor)
    (data : List UInt8) : (cls.iface.write fd data).2 = (fd.write data).2 := by
  cases cls with
  | file | file2 => rfl
  | deviceFile | device2File => cases hos

theorem read_of_seeksOs {cls : FileClass} (hos : cls.seeksOs = true) (fd : Descriptor)
    (length : Nat) :
    cls.iface.read fd length =
      (errnoAssert "read" (fd.read length).1, (fd.read length).2) := by
  cases cls with
  | file | file2 => rfl
  | deviceFile | device2File => cases hos

theorem seek_of_seeksOs {cls : FileClass} (hos : cls.seeksOs = true) (fd : Descriptor)
    (offset : Int64) (whence : SeekWhence) :
    cls.iface.seek fd offset whence =
      (errnoAssert "lseek" (fd.lseek offset whence).1, (fd.lseek offset whence).2) := by
  cases cls with
  | file | file2 => rfl
  | deviceFile | device2File => cases hos

theorem tell_of_seeksOs {cls : FileClass} (hos : cls.seeksOs = true) (fd : Descriptor) :
    cls.iface.tell fd = (errnoAssert "lseek" (fd.lseek 0 .cur).1, (fd.lseek 0 .cur).2) := by
  cases cls with
  | file | file2 => rfl
  | deviceFile | device2File => cases hos

theorem seek_of_not_seeksOs {cls : FileClass} (hos : cls.seeksOs = false) (fd : Descriptor)
    (offset : Int64) (whence : SeekWhence) : cls.iface.seek fd offset whence = (.ok 0, fd) := by
  cases cls with
  | file | file2 => cases hos
  | deviceFile | device2File => rfl

theorem tell_of_not_seeksOs {cls : FileClass} (hos : cls.seeksOs = false) (fd : Descriptor) :
    cls.iface.tell fd = (.ok 0, fd) := by
  cases cls with
  | file | file2 => cases hos
  | deviceFile | device2File => rfl

theorem seek_scripts (cls : FileClass) (fd : Descriptor) (offset : Int64) (whence : SeekWhence) :
    (cls.iface.seek fd offset whence).2.writes = fd.writes ∧
      (cls.iface.seek fd offset whence).2.reads = fd.reads := by
  cases cls with
  | file | file2 => exact ⟨fd.lseek_writes offset whence, fd.lseek_reads offset whence⟩
  | deviceFile | device2File => exact ⟨rfl, rfl⟩

theorem tell_scripts (cls : FileClass) (fd : Descriptor) :
    (cls.iface.tell fd).2.writes = fd.writes ∧ (cls.iface.tell fd).2.reads = fd.reads := by
  cases cls with
  | file | file2 => exact ⟨fd.lseek_writes 0 .cur, fd.lseek_reads 0 .cur⟩
  | deviceFile | device2File => exact ⟨rfl, rfl⟩

end FileClass

namespace OpenFile

theorem write_agentFiles (f : OpenFile AgentFile) (data : List UInt8) :
    (f.write agentFiles.toByteDevice data).1 = (f.device.cls.iface.write f.device.fd data).1 ∧
      (f.write agentFiles.toByteDevice data).2 = { f with
        device := ⟨f.device.cls, (f.device.cls.iface.write f.device.fd data).2⟩
        accepted := f.accepted ++
          data.take ((f.device.cls.iface.write f.device.fd data).1.toOption.getD 0) } := by
  simp only [write, agentFiles]
  rcases f.device.cls.iface.write f.device.fd data with ⟨err | count, fd⟩
  · simp only [Prod.map, id, Except.toOption, Option.getD_none, List.take_zero, List.append_nil,
      and_self]
  · exact ⟨rfl, rfl⟩

theorem seek_agentFiles (f : OpenFile AgentFile) (offset : Int64) (whence : SeekWhence) :
    f.seek agentFiles offset whence =
      ((f.device.cls.iface.seek f.device.fd offset whence).1, { f with
        device := ⟨f.device.cls, (f.device.cls.iface.seek f.device.fd offset whence).2⟩ }) := rfl

theorem tell_agentFiles (f : OpenFile AgentFile) :
    f.tell agentFiles =
      ((f.device.cls.iface.tell f.device.fd).1, { f with
        device := ⟨f.device.cls, (f.device.cls.iface.tell f.device.fd).2⟩ }) := rfl

theorem seek_of_seeksOs {f : OpenFile AgentFile} (hos : f.device.cls.seeksOs = true)
    (offset : Int64) (whence : SeekWhence) :
    (f.seek agentFiles offset whence).1.toOption =
        (f.device.fd.goes 0 offset whence).toOption ∧
      (f.seek agentFiles offset whence).2 =
        { f with device := ⟨f.device.cls, (f.device.fd.lseek offset whence).2⟩ } := by
  rw [seek_agentFiles, FileClass.seek_of_seeksOs hos, ← (f.device.fd.lseek_position _ _).1]
  exact ⟨toOption_errnoAssert "lseek" _, rfl⟩

theorem tell_of_seeksOs {f : OpenFile AgentFile} (hos : f.device.cls.seeksOs = true) :
    (f.tell agentFiles).1.toOption = (f.device.fd.goes 0 0 .cur).toOption ∧
      (f.tell agentFiles).2 =
        { f with device := ⟨f.device.cls, (f.device.fd.lseek 0 .cur).2⟩ } := by
  rw [tell_agentFiles, FileClass.tell_of_seeksOs hos, ← (f.device.fd.lseek_position _ _).1]
  exact ⟨toOption_errnoAssert "lseek" _, rfl⟩

theorem seekTo_scripts (f : OpenFile AgentFile) (custPos : Option CustomPosition) :
    (f.seekTo agentFiles custPos).2.device.cls = f.device.cls ∧
      (f.seekTo agentFiles custPos).2.device.fd.writes = f.device.fd.writes ∧
      (f.seekTo agentFiles custPos).2.device.fd.reads = f.device.fd.reads := by
  cases custPos with
  | none => exact ⟨rfl, rfl, rfl⟩
  | some target =>
      apply Outcome.andThen_state (P := fun g : OpenFile AgentFile =>
        g.device.cls = f.device.cls ∧ g.device.fd.writes = f.device.fd.writes ∧
          g.device.fd.reads = f.device.fd.reads)
      · exact ⟨rfl, f.device.cls.tell_scripts f.device.fd⟩
      · intro pos f₁ htell
        obtain ⟨hwrites, hreads⟩ := f₁.device.cls.seek_scripts f₁.device.fd target.position
          (valueToEnum target.whence)
        apply Outcome.andThen_state (P := fun g : OpenFile AgentFile =>
          g.device.cls = f.device.cls ∧ g.device.fd.writes = f.device.fd.writes ∧
            g.device.fd.reads = f.device.fd.reads)
        · exact ⟨htell.1, hwrites.trans htell.2.1, hreads.trans htell.2.2⟩
        · intro _ f₂ hseek
          exact hseek

end OpenFile

end FerroRemote.Agent

/-
# A regular file that is slow

The file on the agent is a regular one, with the position of one descriptor. It transfers less
than it is asked to whenever it likes, one byte at least. Here is what one read and one write of
a client come to over such a file, with the blocks of the client, the requests, and the loops of
the agent in between.
-/

import FerroRemote.Client.FileBlocks

namespace FerroRemote.Client

open FerroRemote.Agent

/-- A regular file with the position of its descriptor. The call with a number transfers at
most so many bytes and one more. -/
structure Paced where
  content : List UInt8
  position : Nat
  limits : Nat → Nat
  calls : Nat

namespace Paced

def opened (content : List UInt8) (limits : Nat → Nat) : Paced := ⟨content, 0, limits, 0⟩

def limit (f : Paced) (n : Nat) : Nat := min n (f.limits f.calls + 1)

/-- What a read for `n` bytes gives -/
def next (f : Paced) (n : Nat) : List UInt8 := Extent.readAt f.content f.position (f.limit n)

theorem length_next_le (f : Paced) (n : Nat) : (f.next n).length ≤ n :=
  Nat.le_trans (Extent.length_readAt_le _ _ _) (Nat.min_le_left _ _)

/-- Where `lseek` goes; before the beginning it fails. -/
def seek (f : Paced) (offset : Int64) (whence : SeekWhence) : Except Error Int64 × Paced :=
  let base : Nat := match whence with
    | .set => 0
    | .cur => f.position
    | .fromEnd => f.content.length
  let target : Int := base + offset.toInt
  if target < 0 then (.error (.system EINVAL "lseek"), f)
  else (.ok (Int64.ofInt target), { f with position := target.toNat })

def iface : FileIface Paced where
  read f n := (.ok ⟨f.next n, f.length_next_le n⟩,
    { f with position := f.position + (f.next n).length, calls := f.calls + 1 })
  write f data := (.ok (f.limit data.length), { f with
    content := Extent.writeAt 0 f.content f.position (data.take (f.limit data.length))
    position := f.position + f.limit data.length
    calls := f.calls + 1 })
  seek := seek
  tell f := f.seek 0 .cur

end Paced

variable {files : FileMap Paced} {hdl : Nat} {f : OpenFile Paced}

theorem clampBlock_pos {length : Nat} (hlength : 0 < length) : 0 < clampBlock length := by
  rw [clampBlock]
  split <;> omega

theorem next_eq_nil_iff (g : Paced) {n : Nat} (hn : 0 < n) :
    g.next n = [] ↔ g.content.length ≤ g.position := by
  rw [Paced.next, Extent.readAt, List.take_eq_nil_iff, List.drop_eq_nil_iff, Paced.limit]
  omega

theorem readBlock_paced (f : OpenFile Paced) {length : Nat} (hlength : 0 < length) :
    ∃ f', f'.device = { f.device with
        position := f.device.position + (f.device.next (clampBlock length)).length
        calls := f.device.calls + 1 } ∧
      f.readBlock Paced.iface { hdl := hdl, length := length } =
        (.ok { data := f.device.next (clampBlock length) }, f') := by
  refine ⟨{ f with
    device := { f.device with
      position := f.device.position + (f.device.next (clampBlock length)).length
      calls := f.device.calls + 1 }
    reads := f.reads ++
      [⟨clampBlock length, clampBlock length, f.device.next (clampBlock length)⟩] }, rfl, ?_⟩
  simp only [OpenFile.readBlock, OpenFile.seekTo, Outcome.andThen]
  rw [if_neg (Nat.ne_of_gt (clampBlock_pos hlength))]
  rfl

/-- One read of a client: the next bytes of the file, at the beginning of the buffer -/
theorem read_paced (hf : files[hdl]? = some f) (buf : List UInt8) (hbuf : 0 < buf.length)
    (hnarrow : buf.length < UInt32.size) {data : List UInt8}
    (hdata : f.device.next (clampBlock buf.length) = data) :
    ∃ f', f'.device = { f.device with
        position := f.device.position + data.length
        calls := f.device.calls + 1 } ∧
      FileImpl.read Paced.iface files hdl buf buf.length =
        ((.ok data.length, files.insert hdl f'), data ++ buf.drop data.length) := by
  rcases @readBlock_paced hdl f _ hbuf with ⟨f', hdevice, hread⟩
  rw [hdata] at hdevice hread
  refine ⟨f', hdevice, ?_⟩
  rw [FileImpl.read, FileImpl.readImpl, if_neg (Nat.ne_of_gt hbuf), Nat.mod_eq_of_lt hnarrow]
  simp only [FileMap.read, FileMap.getFile, hf, customPosition, Option.map_none, hread]
  have hle : data.length ≤ buf.length := by
    rw [← hdata]
    exact Nat.le_trans (f.device.length_next_le _) (clampBlock_le _).2
  by_cases hzero : data.length = 0
  · rw [if_pos hzero, hzero, List.eq_nil_of_length_eq_zero hzero]
    rfl
  · rw [if_neg hzero]
    have hcount : (if buf.length > data.length then data.length else buf.length) =
        data.length := by
      split <;> omega
    rw [hcount, List.take_length]
    rfl

/-- `done` has been written from a place on. -/
structure Patched (content : List UInt8) (position : Nat) (done : List UInt8)
    (f : OpenFile Paced) : Prop where
  content : f.device.content = Extent.writeAt 0 content position done
  position : f.device.position = position + done.length

theorem patched_nil (f : OpenFile Paced) : Patched f.device.content f.device.position [] f where
  content := rfl
  position := rfl

theorem Patched.append {content : List UInt8} {position : Nat} {first second : List UInt8}
    {f' : OpenFile Paced} (hfirst : Patched content position first f)
    (hsecond : Patched f.device.content f.device.position second f') :
    Patched content position (first ++ second) f' where
  content := by
    rw [hsecond.content, hfirst.content, hfirst.position, Extent.writeAt_append]
  position := by
    rw [hsecond.position, hfirst.position, List.length_append, Nat.add_assoc]

theorem write_takesPatch (content : List UInt8) (position bound : Nat) :
    Cursor.TakesFront (ε := Error)
      (fun data f => some (OpenFile.write Paced.iface.toByteDevice f data))
      (Patched content position) bound := by
  intro data done f hdata _ hdone
  have hlength : 0 < data.length := List.length_pos_iff.mpr hdata
  have hle : f.device.limit data.length ≤ data.length := Nat.min_le_left _ _
  have hsome : 0 < f.device.limit data.length := by
    rw [Paced.limit]
    omega
  refine ⟨f.device.limit data.length, _, rfl, hsome, hle, hdone.append ⟨rfl, ?_⟩⟩
  rw [List.length_take_of_le hle]

/-- One write of a client: a block of what it is given, and all of that -/
theorem write_paced (hf : files[hdl]? = some f) {data : List UInt8} (hdata : data ≠ [])
    {fuel : Nat} (hfuel : data.length < fuel) :
    ∃ files' f', FileImpl.write Paced.iface files hdl fuel data =
        some (.ok (clampBlock data.length), files') ∧
      files'[hdl]? = some f' ∧
      Patched f.device.content f.device.position (data.take (clampBlock data.length)) f' := by
  have hlength : 0 < data.length := List.length_pos_iff.mpr hdata
  rcases clampBlock_le data.length with ⟨hcap, hle⟩
  have hblock : (data.take (clampBlock data.length)).length = clampBlock data.length :=
    List.length_take_of_le hle
  have hsome : (data.take (clampBlock data.length)).length ≠ 0 := by
    rw [hblock]
    exact Nat.ne_of_gt (clampBlock_pos hlength)
  have hnarrow : clampBlock data.length % UInt32.size = clampBlock data.length :=
    Nat.mod_eq_of_lt (Nat.lt_of_le_of_lt hcap (by decide))
  rcases Cursor.drain_all
    (write_takesPatch f.device.content f.device.position
      (data.take (clampBlock data.length)).length)
    (Nat.le_refl _) (by omega : _ < fuel) [] f (patched_nil f) with ⟨f', hloop, hpatched⟩
  rw [List.nil_append] at hpatched
  refine ⟨files.insert hdl f', f', ?_, Table.getElem?_insert_self _ _ _, hpatched⟩
  simp only [FileImpl.write, FileImpl.writeImpl, Nat.ne_of_gt hlength, if_false, customPosition,
    Option.map_none, FileMap.write, FileMap.getFile, hf, OpenFile.writeBlock, hsome,
    OpenFile.seekTo, hloop, Option.map_some]
  rw [hblock, hnarrow]
  rfl

end FerroRemote.Client

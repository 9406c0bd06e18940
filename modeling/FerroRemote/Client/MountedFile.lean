/-
# A file of the mounted directory

A program that reads and writes a file of the mounted directory calls the FUSE client with an
offset each time. The client seeks when its own offset is another one, and goes on until all is
transferred; each of its calls moves a block, which the agent moves with as many operations of
the device as it takes. A regular file that is this slow is still the file that the program
thinks it has: there is nothing that a read comes short of but the end, and no write is short.
-/

import FerroRemote.Client.FileMirror
import FerroRemote.Client.PacedFile

namespace FerroRemote.Client

open FerroRemote.Agent

/-- `proto_file_impl::seek` -/
def fileSeek {σ : Type} (ops : FileIface σ) (files : FileMap σ) (hdl : Nat) (position : Int64)
    (whence : Nat) : Outcome (FileMap σ) Int64 :=
  match files.getFile hdl with
  | .error err => (.error err, files)
  | .ok f =>
    ((f.seek ops position (valueToEnum whence)).1,
      files.insert hdl (f.seek ops position (valueToEnum whence)).2)

/-- The code of an exception, as it comes to the client -/
def codeOf : Error → Errno
  | .errno _ code => code
  | .system code _ => code

/-- A `file_wrapper`, and the files of the agent -/
structure MountedFile (σ : Type) where
  files : FileMap σ
  /-- `offset_` -/
  offset : Nat

section Calls

variable {σ : Type} (ops : FileIface σ) (hdl : Nat)

/-- What `read_write_impl` calls with `cur` bytes done, and what becomes of its buffer -/
abbrev TransferCall (σ : Type) : Type :=
  (cur : Nat) → FileMap σ → List UInt8 → Option (Outcome (FileMap σ) Nat × List UInt8)

/-- The loop of `read_write_impl` -/
def readWriteLoop (call : TransferCall σ) (len : Nat) :
    (fuel cur : Nat) → MountedFile σ → List UInt8 → Option (Int × MountedFile σ × List UInt8)
  | 0, _, _, _ => none
  | fuel + 1, cur, ptr, buf =>
      if cur < len then
        match call cur ptr.files buf with
        | none => none
        | some ((.error err, files), buf) =>
            some (MirrorState.localResult (codeOf err), { ptr with files := files }, buf)
        | some ((.ok next, files), buf) =>
            if next = 0 then some (MirrorState.toInt cur, { ptr with files := files }, buf)
            else
              readWriteLoop call len fuel (cur + next)
                { files := files, offset := ptr.offset + next } buf
      else some (MirrorState.toInt cur, ptr, buf)

/-- `read_write_impl`, for a handle that is there -/
def readWriteImpl (call : TransferCall σ) (fuel : Nat) (ptr : MountedFile σ) (buf : List UInt8)
    (off : Nat) : Option (Int × MountedFile σ × List UInt8) :=
  if ptr.offset ≠ off then
    match fileSeek ops ptr.files hdl (Int64.ofInt off) 0 with
    | (.error err, files) =>
        some (MirrorState.localResult (codeOf err), { ptr with files := files }, buf)
    | (.ok _, files) =>
        readWriteLoop call buf.length fuel 0 { files := files, offset := off } buf
  else readWriteLoop call buf.length fuel 0 ptr buf

/-- `file_iface::iface::read` into the buffer -/
def readCall (len : Nat) : TransferCall σ := fun cur files buf =>
  let (out, mem) := FileImpl.read ops files hdl (buf.drop cur) (len - cur)
  some (out, buf.take cur ++ mem)

/-- `file_iface::iface::write` out of the buffer -/
def writeCall (fuel : Nat) : TransferCall σ := fun cur files buf =>
  (FileImpl.write ops files hdl fuel (buf.drop cur)).map fun out => (out, buf)

end Calls

/-- An operation of a program, with its buffer, and what it is told: the result, and the bytes
of the buffer that it counts -/
inductive FileOp
  | read (off : Nat) (buf : List UInt8)
  | write (off : Nat) (data : List UInt8)

structure FileReply where
  result : Int
  data : List UInt8
  deriving DecidableEq, Repr

/-- The operation through the FUSE client -/
def MountedFile.perform {σ : Type} (ops : FileIface σ) (hdl fuel : Nat) (ptr : MountedFile σ) :
    FileOp → Option (FileReply × MountedFile σ)
  | .read off buf =>
      (readWriteImpl ops hdl (readCall ops hdl buf.length) fuel ptr buf off).map
        fun (result, ptr, buf) => (⟨result, buf.take result.toNat⟩, ptr)
  | .write off data =>
      (readWriteImpl ops hdl (writeCall ops hdl fuel) fuel ptr data off).map
        fun (result, ptr, _) => (⟨result, []⟩, ptr)

def MountedFile.run {σ : Type} (ops : FileIface σ) (hdl fuel : Nat) :
    MountedFile σ → List FileOp → Option (List FileReply × MountedFile σ)
  | ptr, [] => some ([], ptr)
  | ptr, op :: rest =>
      (ptr.perform ops hdl fuel op).bind fun (reply, ptr) =>
        (MountedFile.run ops hdl fuel ptr rest).map fun (replies, ptr) => (reply :: replies, ptr)

/-- The operation on a plain file -/
def FileOp.perform (content : List UInt8) : FileOp → FileReply × List UInt8
  | .read off buf =>
      let data := Extent.readAt content off buf.length
      (⟨data.length, data⟩, content)
  | .write off data => (⟨data.length, []⟩, Extent.writeAt 0 content off data)

def FileOp.run : List UInt8 → List FileOp → List FileReply × List UInt8
  | content, [] => ([], content)
  | content, op :: rest =>
      let (reply, content) := op.perform content
      let (replies, content) := FileOp.run content rest
      (reply :: replies, content)

/-- The bytes that the operation transfers at most -/
def FileOp.length : FileOp → Nat
  | .read _ buf => buf.length
  | .write _ data => data.length

def FileOp.off : FileOp → Nat
  | .read off _ => off
  | .write off _ => off

/-- The offset fits into an `off_t`, and the length into the `int` that is returned. -/
structure FileOp.Fits (op : FileOp) : Prop where
  off : (op.off : Int) ≤ Int64.maxValue.toInt
  length : (op.length : Int) ≤ Int32.maxValue.toInt

variable {hdl : Nat}

/-- The device has the content, and the client knows where its position is. -/
def MountedFile.Shows (s : MountedFile Paced) (hdl : Nat) (content : List UInt8) : Prop :=
  ∃ f, s.files[hdl]? = some f ∧ f.device.content = content ∧ f.device.position = s.offset

theorem toInt_of_le {n : Nat} (hn : (n : Int) ≤ Int32.maxValue.toInt) :
    MirrorState.toInt n = n := by
  have hmax : Int32.maxValue.toInt = 2147483647 := rfl
  rw [hmax] at hn
  apply Int.bmod_eq_of_le
  · omega
  · rw [UInt32.size]
    omega

theorem seek_set (f : Paced) {offset : Int64} {off : Nat} (hexact : offset.toInt = off) :
    f.seek offset .set = (.ok (Int64.ofInt off), { f with position := off }) := by
  have htarget : ((0 : Nat) : Int) + offset.toInt = off := by
    rw [hexact, Int.natCast_zero, Int.zero_add]
  have hfrom : ¬ (off : Int) < 0 := Int.not_lt.mpr (Int.natCast_nonneg off)
  simp only [Paced.seek, htarget, if_neg hfrom, Int.toNat_natCast]

theorem fileSeek_paced {files : FileMap Paced} {f : OpenFile Paced} (hf : files[hdl]? = some f)
    {off : Nat} (hoff : (off : Int) ≤ Int64.maxValue.toInt) :
    ∃ f', f'.device = { f.device with position := off } ∧
      fileSeek Paced.iface files hdl (Int64.ofInt off) 0 =
        (.ok (Int64.ofInt off), files.insert hdl f') := by
  have hexact : (Int64.ofInt off).toInt = off := by
    rw [Int64.toInt_maxValue] at hoff
    exact Int64.toInt_ofInt_of_le (by omega) (by omega)
  have hseek := seek_set f.device hexact
  refine ⟨{ f with device := { f.device with position := off } }, rfl, ?_⟩
  simp only [fileSeek, FileMap.getFile, hf, OpenFile.seek]
  rw [show valueToEnum 0 = .set from rfl, show Paced.iface.seek = Paced.seek from rfl, hseek]

/-- The loop of a read: what there is, up to the rest of the buffer. The induction is on the
fuel, of which every round with something read has to spare. -/
theorem readLoop_paced {len : Nat} (hlen : (len : Int) ≤ Int32.maxValue.toInt) (fuel cur : Nat)
    (s : MountedFile Paced) (f : OpenFile Paced) (buf : List UInt8)
    (hf : s.files[hdl]? = some f) (hoffset : f.device.position = s.offset)
    (hbuf : buf.length = len) (hcur : cur ≤ len) (hfuel : len - cur < fuel) {data : List UInt8}
    (hdata : Extent.readAt f.device.content f.device.position (len - cur) = data) :
    ∃ s', readWriteLoop (readCall Paced.iface hdl len) len fuel cur s buf =
        some (((cur + data.length : Nat) : Int), s', Extent.writeAt 0 buf cur data) ∧
      s'.Shows hdl f.device.content := by
  induction fuel generalizing cur s f buf data with
  | zero => omega
  | succ fuel ih =>
      have hle : data.length ≤ len - cur := by
        rw [← hdata]
        exact Extent.length_readAt_le _ _ _
      by_cases hmore : cur < len
      · have hrest : (buf.drop cur).length = len - cur := by rw [List.length_drop, hbuf]
        have hmax : Int32.maxValue.toInt = 2147483647 := by decide
        have hsize : UInt32.size = 4294967296 := rfl
        rcases read_paced hf (buf.drop cur) (by omega) (by omega) rfl with ⟨f', hdevice, hread⟩
        rw [hrest] at hdevice hread
        generalize hnext : f.device.next (clampBlock (len - cur)) = next at hdevice hread
        have hcall : readCall Paced.iface hdl len cur s.files buf =
            some ((.ok next.length, s.files.insert hdl f'), Extent.writeAt 0 buf cur next) := by
          rw [Extent.writeAt_of_le 0 (by omega), readCall, hread, List.drop_drop,
            List.append_assoc]
        rw [readWriteLoop, if_pos hmore, hcall]
        by_cases hend : next = []
        · -- at the end of the file
          have hpast : f.device.content.length ≤ f.device.position :=
            (next_eq_nil_iff f.device (clampBlock_pos (Nat.sub_pos_of_lt hmore))).mp
              (hnext.trans hend)
          have hnone : data = [] := by
            rw [← hdata, Extent.readAt, List.drop_eq_nil_of_le hpast, List.take_nil]
          rw [hend, hnone]
          refine ⟨{ s with files := s.files.insert hdl f' }, ?_, f',
            Table.getElem?_insert_self _ _ _, ?_, ?_⟩
          · rw [List.length_nil, Nat.add_zero, ← toInt_of_le (by omega)]
            rfl
          · rw [hdevice]
          · rw [hdevice, hend]
            exact hoffset
        · have hsome : 0 < next.length := List.length_pos_iff.mpr hend
          have hupto : next.length ≤ len - cur := by
            rw [← hnext]
            exact Nat.le_trans (f.device.length_next_le _) (clampBlock_le _).2
          have hfirst : Extent.readAt f.device.content f.device.position next.length = next := by
            rw [← hnext]
            exact Extent.readAt_length _ _ _
          have hcontent : f'.device.content = f.device.content := by rw [hdevice]
          have hposition : f'.device.position = f.device.position + next.length := by rw [hdevice]
          rcases ih (cur + next.length)
            { files := s.files.insert hdl f', offset := s.offset + next.length } f'
            (Extent.writeAt 0 buf cur next) (Table.getElem?_insert_self _ _ _)
            (by rw [hposition, hoffset]) (by rw [Extent.length_writeAt_of_le 0 (by omega), hbuf])
            (by omega) (by omega) rfl with ⟨s', hloop, hshows⟩
          rw [hcontent, hposition] at hloop
          rw [hcontent] at hshows
          refine ⟨s', ?_, hshows⟩
          have hboth : next ++ Extent.readAt f.device.content (f.device.position + next.length)
              (len - (cur + next.length)) = data := by
            rw [← hdata, show len - cur = next.length + (len - (cur + next.length)) by omega,
              Extent.readAt_add, hfirst]
          rw [Extent.writeAt_append, hboth, Nat.add_assoc, ← List.length_append, hboth] at hloop
          rw [← hloop]
          exact if_neg (Nat.ne_of_gt hsome)
      · have hnone : data = [] := List.eq_nil_of_length_eq_zero (by omega)
        refine ⟨s, ?_, f, hf, rfl, hoffset⟩
        rw [readWriteLoop, if_neg hmore, hnone, toInt_of_le (Int.le_trans (by omega) hlen)]
        rfl

/-- The loop of a write: all of the data, from where the first call began -/
theorem writeLoop_paced {data : List UInt8} (hlen : (data.length : Int) ≤ Int32.maxValue.toInt)
    {content : List UInt8} {position once : Nat} (honce : data.length < once) (fuel cur : Nat)
    (s : MountedFile Paced) (f : OpenFile Paced) (hf : s.files[hdl]? = some f)
    (hoffset : f.device.position = s.offset) (hcur : cur ≤ data.length)
    (hfuel : data.length - cur < fuel) (hdone : Patched content position (data.take cur) f) :
    ∃ s', readWriteLoop (writeCall Paced.iface hdl once) data.length fuel cur s data =
        some ((data.length : Int), s', data) ∧
      s'.Shows hdl (Extent.writeAt 0 content position data) := by
  induction fuel generalizing cur s f with
  | zero => omega
  | succ fuel ih =>
      by_cases hmore : cur < data.length
      · have hrest : (data.drop cur).length = data.length - cur := List.length_drop
        have hsome : data.drop cur ≠ [] := by
          intro hnil
          rw [hnil, List.length_nil] at hrest
          omega
        rcases write_paced hf hsome (by omega : _ < once) with
          ⟨files', f', hwrite, hf', hpatched⟩
        rw [hrest] at hwrite hpatched
        have hblock : 0 < clampBlock (data.length - cur) :=
          clampBlock_pos (Nat.sub_pos_of_lt hmore)
        have hle : clampBlock (data.length - cur) ≤ data.length - cur := (clampBlock_le _).2
        generalize clampBlock (data.length - cur) = block at hwrite hpatched hblock hle
        have hnext : Patched content position (data.take (cur + block)) f' := by
          rw [List.take_add]
          exact hdone.append hpatched
        have hfollows : f'.device.position = s.offset + block := by
          rw [hpatched.position, hoffset, List.length_take_of_le (by omega)]
        rcases ih (cur + block) { files := files', offset := s.offset + block } f' hf' hfollows
          (by omega) (by omega) hnext with ⟨s', hloop, hshows⟩
        refine ⟨s', ?_, hshows⟩
        have hcall : writeCall Paced.iface hdl once cur s.files data =
            some ((.ok block, files'), data) := by
          rw [writeCall, hwrite]
          rfl
        rw [readWriteLoop, if_pos hmore, hcall, ← hloop]
        exact if_neg (Nat.ne_of_gt hblock)
      · have hall : data.take cur = data := List.take_of_length_le (by omega)
        rw [hall] at hdone
        refine ⟨s, ?_, f, hf, hdone.content, hoffset⟩
        rw [readWriteLoop, if_neg hmore, toInt_of_le (by omega)]
        rw [show cur = data.length by omega]

/-- Whatever the client's offset was, the loop begins at that of the operation. -/
theorem readWriteImpl_paced {s : MountedFile Paced} {content : List UInt8}
    (hshows : s.Shows hdl content) (call : TransferCall Paced) (fuel : Nat) (buf : List UInt8)
    {off : Nat} (hoff : (off : Int) ≤ Int64.maxValue.toInt) :
    ∃ s' f, readWriteImpl Paced.iface hdl call fuel s buf off =
        readWriteLoop call buf.length fuel 0 s' buf ∧
      s'.files[hdl]? = some f ∧ f.device.content = content ∧ f.device.position = off ∧
      s'.offset = off := by
  rcases hshows with ⟨f, hf, hcontent, hposition⟩
  by_cases hthere : s.offset = off
  · refine ⟨s, f, ?_, hf, hcontent, hposition.trans hthere, hthere⟩
    rw [readWriteImpl, if_neg (not_not_intro hthere)]
  · rcases fileSeek_paced hf hoff with ⟨f', hdevice, hseek⟩
    refine ⟨{ files := s.files.insert hdl f', offset := off }, f', ?_,
      Table.getElem?_insert_self _ _ _, ?_, ?_, rfl⟩
    · rw [readWriteImpl, if_pos hthere, hseek]
    · rw [hdevice]
      exact hcontent
    · rw [hdevice]

/-- One operation through the client is one on the file that the program thinks it has. -/
theorem perform_shows {s : MountedFile Paced} {content : List UInt8}
    (hshows : s.Shows hdl content) {op : FileOp} (hfits : op.Fits) {fuel : Nat}
    (hfuel : op.length < fuel) :
    ∃ s', s.perform Paced.iface hdl fuel op = some ((op.perform content).1, s') ∧
      s'.Shows hdl (op.perform content).2 := by
  cases op with
  | read off buf =>
      have hoff : (off : Int) ≤ Int64.maxValue.toInt := hfits.off
      have hlen : (buf.length : Int) ≤ Int32.maxValue.toInt := hfits.length
      rcases readWriteImpl_paced hshows (readCall Paced.iface hdl buf.length) fuel buf hoff
        with ⟨begun, f, himpl, hf, hcontent, hposition, hoffset⟩
      rcases readLoop_paced hlen fuel 0 begun f buf hf (hposition.trans hoffset.symm) rfl
        (Nat.zero_le _) hfuel rfl with ⟨s', hloop, hshows'⟩
      rw [hcontent, hposition, Nat.sub_zero, Nat.zero_add] at hloop
      rw [hcontent] at hshows'
      refine ⟨s', ?_, hshows'⟩
      have hcounted (data : List UInt8) :
          (Extent.writeAt 0 buf 0 data).take (data.length : Int).toNat = data := by
        rw [Extent.writeAt_of_le 0 (Nat.zero_le _), List.take_zero, List.nil_append,
          Int.toNat_natCast, List.take_left']
        rfl
      rw [MountedFile.perform, himpl, hloop]
      simp only [Option.map_some, hcounted]
      rfl
  | write off data =>
      have hoff : (off : Int) ≤ Int64.maxValue.toInt := hfits.off
      have hlen : (data.length : Int) ≤ Int32.maxValue.toInt := hfits.length
      rcases readWriteImpl_paced hshows (writeCall Paced.iface hdl fuel) fuel data hoff
        with ⟨begun, f, himpl, hf, hcontent, hposition, hoffset⟩
      have hbegun : Patched content off (data.take 0) f := by
        rw [← hcontent, ← hposition]
        exact patched_nil f
      rcases writeLoop_paced hlen hfuel fuel 0 begun f hf (hposition.trans hoffset.symm)
        (Nat.zero_le _) hfuel hbegun with ⟨s', hloop, hshows'⟩
      refine ⟨s', ?_, hshows'⟩
      rw [MountedFile.perform, himpl, hloop]
      rfl

/-- A program cannot tell the mounted file from the file, however little the device on the
agent transfers at a time: each read gets all there is up to its length, each write is whole,
and the file is what the writes have made it. -/
theorem run_shows {s : MountedFile Paced} {content : List UInt8} (hshows : s.Shows hdl content)
    (ops : List FileOp) (hfits : ∀ op ∈ ops, op.Fits) {fuel : Nat}
    (hfuel : ∀ op ∈ ops, op.length < fuel) :
    ∃ s', MountedFile.run Paced.iface hdl fuel s ops =
        some ((FileOp.run content ops).1, s') ∧
      s'.Shows hdl (FileOp.run content ops).2 := by
  induction ops generalizing s content with
  | nil => exact ⟨s, rfl, hshows⟩
  | cons op rest ih =>
      rcases perform_shows hshows (hfits op List.mem_cons_self) (hfuel op List.mem_cons_self)
        with ⟨next, hperform, hnext⟩
      rcases ih hnext (fun op hop => hfits op (List.mem_cons_of_mem _ hop))
        (fun op hop => hfuel op (List.mem_cons_of_mem _ hop)) with ⟨s', hrun, hshows'⟩
      refine ⟨s', ?_, hshows'⟩
      simp only [MountedFile.run, hperform, Option.bind_some, hrun, Option.map_some]
      rfl

/-- A file that is opened, written across its end, and read from before that -/
def shortFile : MountedFile Paced where
  files := (∅ : FileMap Paced).insert 7 { device := Paced.opened [1, 2, 3] fun _ => 1 }
  offset := 0

theorem run_shows_across :
    ∃ s', MountedFile.run Paced.iface 7 8 shortFile
        [.write 2 [8, 9, 10], .read 1 [0, 0, 0, 0, 0, 0]] =
        some ([⟨3, []⟩, ⟨4, [2, 8, 9, 10]⟩], s') ∧
      s'.Shows 7 [1, 2, 8, 9, 10] := by
  have hshows : shortFile.Shows 7 [1, 2, 3] := ⟨_, Table.getElem?_insert_self _ _ _, rfl, rfl⟩
  apply run_shows hshows
  · intro op hop
    rcases List.mem_cons.mp hop with rfl | hop
    · exact ⟨by decide, by decide⟩
    · rw [List.mem_singleton.mp hop]
      exact ⟨by decide, by decide⟩
  · decide

end FerroRemote.Client

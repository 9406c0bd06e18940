/-
# Reading and writing blocks on the agent

The handlers behind the reads and writes of clients, over any device. A device
may give and take less than it is asked to, and may fail at every operation. The
requests name the sizes; the agent cuts them to what it has a buffer for.
-/

import FerroRemote.Math.Cursor
import FerroRemote.Agent.FileTransfer
import FerroRemote.Agent.FsService

namespace FerroRemote.Agent

/-- What a device gives when it is asked for `n` bytes. -/
abbrev Block (n : Nat) : Type := { data : List UInt8 // data.length ≤ n }

/-- The operations on bytes that `file_iface` and `i2c_helper` have, on devices
with states in `σ`. -/
structure ByteDevice (σ : Type) where
  read : σ → (length : Nat) → Except Error (Block length) × σ
  write : σ → List UInt8 → Except Error Nat × σ

inductive SeekWhence
  | set
  | cur
  | fromEnd
  deriving DecidableEq, Repr

def valueToEnum (v : Nat) : SeekWhence :=
  if v = 1 then .cur else if v = 2 then .fromEnd else .set

/-- A `file_iface`. -/
structure FileIface (σ : Type) extends ByteDevice σ where
  seek : σ → Int64 → SeekWhence → Except Error Int64 × σ
  tell : σ → Except Error Int64 × σ

namespace ByteDevice

variable {σ : Type}

/-- The device takes some of what it is offered, whatever its state. -/
def Accepts (ops : ByteDevice σ) : Prop :=
  ∀ s data, data ≠ [] → ∃ n s', ops.write s data = (.ok n, s') ∧ 1 ≤ n ∧ n ≤ data.length

end ByteDevice

/-- A device operation that reads: how many bytes it asks for, the size of the
buffer it offers, and the bytes it gets. -/
structure ReadCall where
  asked : Nat
  buffer : Nat
  got : List UInt8
  deriving DecidableEq, Repr

/-- All that was read, in order. -/
def bytesRead (calls : List ReadCall) : List UInt8 := calls.flatMap (·.got)

/-- An open device. What was read from it and what it took is history. -/
structure OpenFile (σ : Type) where
  device : σ
  reads : List ReadCall := []
  accepted : List UInt8 := []

/-- `file_custom_position`. -/
structure CustomPosition where
  position : Int64
  whence : Nat
  setBack : Bool

/-- The `file_data_block` of a request. -/
structure FileDataRequest where
  hdl : Nat
  data : List UInt8 := []
  length : Nat := 0
  custPos : Option CustomPosition := none

namespace OpenFile

variable {σ : Type}

/-- `read` into a buffer of `buffer` bytes. -/
def read (ops : ByteDevice σ) (f : OpenFile σ) (buffer length : Nat) :
    Outcome (OpenFile σ) (List UInt8) :=
  match ops.read f.device length with
  | (.error err, device) =>
    (.error err, { f with device := device, reads := f.reads ++ [⟨length, buffer, []⟩] })
  | (.ok data, device) =>
    (.ok data.val, { f with device := device, reads := f.reads ++ [⟨length, buffer, data.val⟩] })

def write (ops : ByteDevice σ) (f : OpenFile σ) (data : List UInt8) : Outcome (OpenFile σ) Nat :=
  match ops.write f.device data with
  | (.error err, device) => (.error err, { f with device := device })
  | (.ok n, device) => (.ok n, { f with device := device, accepted := f.accepted ++ data.take n })

variable (ops : FileIface σ)

def seek (f : OpenFile σ) (offset : Int64) (whence : SeekWhence) : Outcome (OpenFile σ) Int64 :=
  ((ops.seek f.device offset whence).1, { f with device := (ops.seek f.device offset whence).2 })

def tell (f : OpenFile σ) : Outcome (OpenFile σ) Int64 :=
  ((ops.tell f.device).1, { f with device := (ops.tell f.device).2 })

/-- Going to the position of a request that has one of its own, with the position
before. -/
def seekTo (f : OpenFile σ) (custPos : Option CustomPosition) : Outcome (OpenFile σ) UInt64 :=
  match custPos with
  | none => (.ok 0, f)
  | some target =>
    (f.tell ops).andThen fun pos f =>
      (f.seek ops target.position (valueToEnum target.whence)).andThen fun _ f =>
        (.ok pos.toUInt64, f)

/-- Going back, when the request wants it. -/
def seekBack (f : OpenFile σ) (custPos : Option CustomPosition) (pos : UInt64) :
    Outcome (OpenFile σ) Unit :=
  if custPos.any (·.setBack) then (f.seek ops pos.toInt64 .set).andThen fun _ f => (.ok (), f)
  else (.ok (), f)

/-- `proto_file_impl::read` on the file it has found. -/
def readBlock (f : OpenFile σ) (request : FileDataRequest) : Outcome (OpenFile σ) FileDataBlock :=
  (f.seekTo ops request.custPos).andThen fun pos f =>
    let maxBlock := clampBlock request.length
    -- this leaves without going back
    if maxBlock = 0 then (.ok {}, f)
    else
      (f.read ops.toByteDevice maxBlock maxBlock).andThen fun data f =>
        (f.seekBack ops request.custPos pos).andThen fun _ f => (.ok { data := data }, f)

/-- `proto_file_impl::write` on the file it has found. -/
def writeBlock (fuel : Nat) (f : OpenFile σ) (request : FileDataRequest) :
    Option (Outcome (OpenFile σ) FileDataBlock) :=
  if request.data.length = 0 then some (.ok { length := 0 }, f)
  else
    match f.seekTo ops request.custPos with
    | (.error err, f) => some (.error err, f)
    | (.ok position, f) =>
      (Cursor.drain (fun data f => some (f.write ops.toByteDevice data)) request.data fuel 0 f).map
        fun out => Outcome.andThen out fun _ f =>
          (f.seekBack ops request.custPos position).andThen fun _ f =>
            (.ok { length := request.data.length % UInt32.size }, f)

/-- The position a `read_file` starts at, if it names one. -/
def seekFrom (f : OpenFile σ) (pos : Option (UInt64 × Nat)) : Outcome (OpenFile σ) Unit :=
  match pos with
  | none => (.ok (), f)
  | some (position, whence) =>
    (f.seek ops position.toInt64 (valueToEnum whence)).andThen fun _ f => (.ok (), f)

end OpenFile

/-- The open files of an instance of the file service, or the devices of one of
the i2c service. -/
abbrev FileMap (σ : Type) := Table (OpenFile σ)

namespace FileMap

variable {σ : Type} (ops : FileIface σ)

def getFile (files : FileMap σ) (id : Nat) : Except Error (OpenFile σ) :=
  match files[id]? with
  | none => .error (.system EBADF "Bad file number.")
  | some f => .ok f

def read (files : FileMap σ) (request : FileDataRequest) :
    Outcome (FileMap σ) FileDataBlock :=
  match files.getFile request.hdl with
  | .error err => (.error err, files)
  | .ok f =>
    ((f.readBlock ops request).1, files.insert request.hdl (f.readBlock ops request).2)

def write (fuel : Nat) (files : FileMap σ) (request : FileDataRequest) :
    Option (Outcome (FileMap σ) FileDataBlock) :=
  match files.getFile request.hdl with
  | .error err => some (.error err, files)
  | .ok f =>
    (f.writeBlock ops fuel request).map fun (res, f) => (res, files.insert request.hdl f)

def i2cByIndex (devices : FileMap σ) (id : Nat) : Except Error (OpenFile σ) :=
  match devices[id]? with
  | none => .error (.system EINVAL "Bad I2C handle.")
  | some dev => .ok dev

/-- `i2c_inst_impl::read`. -/
def i2cRead (ops : ByteDevice σ) (devices : FileMap σ) (hdl length : Nat) :
    Outcome (FileMap σ) (List UInt8) :=
  match devices.i2cByIndex hdl with
  | .error err => (.error err, devices)
  | .ok dev =>
    let maxBlock := clampBlock length
    if length = 0 then (.ok [], devices)
    else ((dev.read ops maxBlock maxBlock).1, devices.insert hdl (dev.read ops maxBlock maxBlock).2)

end FileMap

/-- A `read_file_req`. -/
structure ReadFileRequest (P : Type) where
  /-- `dst`. -/
  path : P
  hdl : Option Nat
  len : Nat
  /-- `from`: a position and where it counts from. -/
  pos : Option (UInt64 × Nat)

/-- `proto_fs_impl::read_file`, with what it reads from the file it opens for it;
`create` is `file::create`. -/
def FsInstance.readFile {P σ : Type} (paths : PathOps P) (ops : FileIface σ)
    (create : P → Nat → Except Error σ) (fs : FsInstance P) (s : AgentState)
    (request : ReadFileRequest P) : Except Error (List UInt8) × List ReadCall × AgentState :=
  let len := clampBlock request.len
  if len = 0 then (.ok [], [], s)
  else
    match fs.pathFromRequest paths s request.path request.hdl with
    | (.error err, s) => (.error err, [], s)
    | (.ok (p, _), s) =>
      match create p O_RDONLY with
      | .error err => (.error err, [], s)
      | .ok device =>
        let (res, f) := (({ device := device } : OpenFile σ).seekFrom ops request.pos).andThen
          fun _ f => f.read ops.toByteDevice len len
        (res, f.reads, s)

/-- No read is for more than 44000 bytes, or for more than its buffer holds. -/
def BoundedCalls (calls : List ReadCall) : Prop :=
  ∀ call ∈ calls, call.asked ≤ 44000 ∧ call.asked ≤ call.buffer

theorem boundedCalls_nil : BoundedCalls [] := List.forall_mem_nil _

theorem clampBlock_le (length : Nat) : clampBlock length ≤ 44000 ∧ clampBlock length ≤ length := by
  unfold clampBlock
  split <;> omega

theorem boundedCalls_clampBlock (length : Nat) (got : List UInt8) :
    BoundedCalls [⟨clampBlock length, clampBlock length, got⟩] := by
  intro call hcall
  rw [List.mem_singleton] at hcall
  subst hcall
  exact ⟨(clampBlock_le length).1, Nat.le_refl _⟩

theorem bytesRead_singleton (asked buffer : Nat) (got : List UInt8) :
    bytesRead [⟨asked, buffer, got⟩] = got := List.append_nil got

namespace OpenFile

variable {σ : Type}

/-- Nothing was read or taken on the way from the one to the other. -/
def SameHistory (f f' : OpenFile σ) : Prop := f'.reads = f.reads ∧ f'.accepted = f.accepted

theorem sameHistory_seekTo (ops : FileIface σ) (f : OpenFile σ) (custPos : Option CustomPosition) :
    f.SameHistory (f.seekTo ops custPos).2 := by
  cases custPos with
  | none => exact ⟨rfl, rfl⟩
  | some target =>
      apply Outcome.andThen_state (P := f.SameHistory)
      · exact ⟨rfl, rfl⟩
      · intro pos f₁ htell
        apply Outcome.andThen_state (P := f.SameHistory)
        · exact htell
        · intro _ f₂ hseek
          exact hseek

theorem sameHistory_seekBack (ops : FileIface σ) (f : OpenFile σ) (custPos : Option CustomPosition)
    (pos : UInt64) : f.SameHistory (f.seekBack ops custPos pos).2 := by
  unfold seekBack
  split
  · apply Outcome.andThen_state (P := f.SameHistory)
    · exact ⟨rfl, rfl⟩
    · intro _ f₁ hseek
      exact hseek
  · exact ⟨rfl, rfl⟩

theorem sameHistory_seekFrom (ops : FileIface σ) (f : OpenFile σ) (pos : Option (UInt64 × Nat)) :
    f.SameHistory (f.seekFrom ops pos).2 := by
  cases pos with
  | none => exact ⟨rfl, rfl⟩
  | some target =>
      apply Outcome.andThen_state (P := f.SameHistory)
      · exact ⟨rfl, rfl⟩
      · intro _ f₁ hseek
        exact hseek

/-- A read of a block the agent has cut is one bounded call, and gives what the
device gave, which is not more than was asked for. -/
theorem read_calls (ops : ByteDevice σ) (f : OpenFile σ) (length : Nat) :
    ∃ calls, (f.read ops (clampBlock length) (clampBlock length)).2.reads = f.reads ++ calls ∧
      BoundedCalls calls ∧
      ∀ data, (f.read ops (clampBlock length) (clampBlock length)).1 = .ok data →
        data = bytesRead calls ∧ data.length ≤ length := by
  rcases hread : ops.read f.device (clampBlock length) with ⟨err | data, device⟩
  · refine ⟨_, by rw [read, hread], boundedCalls_clampBlock length [], ?_⟩
    intro data hdata
    rw [read, hread] at hdata
    cases hdata
  · refine ⟨_, by rw [read, hread], boundedCalls_clampBlock length data.val, ?_⟩
    intro data' hdata
    rw [read, hread] at hdata
    cases hdata
    rw [bytesRead_singleton]
    exact ⟨rfl, Nat.le_trans data.property (clampBlock_le length).2⟩

theorem readBlock_calls (ops : FileIface σ) (f : OpenFile σ) (request : FileDataRequest) :
    ∃ calls, (f.readBlock ops request).2.reads = f.reads ++ calls ∧ BoundedCalls calls ∧
      ∀ res, (f.readBlock ops request).1 = .ok res →
        res.data = bytesRead calls ∧ res.data.length ≤ request.length := by
  have hsought := (sameHistory_seekTo ops f request.custPos).1
  unfold readBlock
  generalize f.seekTo ops request.custPos = sought at hsought ⊢
  cases hto : sought.1 with
  | error err =>
      rw [Outcome.andThen_error hto]
      refine ⟨[], by rw [hsought, List.append_nil], boundedCalls_nil, ?_⟩
      intro res hres
      cases hres
  | ok pos =>
      rw [Outcome.andThen_ok hto]
      generalize sought.2 = f₁ at hsought ⊢
      by_cases hzero : clampBlock request.length = 0
      · simp only [hzero, if_true]
        refine ⟨[], by rw [hsought, List.append_nil], boundedCalls_nil, ?_⟩
        intro res hres
        cases hres
        exact ⟨rfl, Nat.zero_le _⟩
      · simp only [hzero, if_false]
        obtain ⟨calls, hreads, hbounded, hdata⟩ := f₁.read_calls ops.toByteDevice request.length
        rw [hsought] at hreads
        generalize f₁.read ops.toByteDevice (clampBlock request.length)
          (clampBlock request.length) = out at hreads hdata ⊢
        refine ⟨calls, ?_, hbounded, ?_⟩
        · apply Outcome.andThen_state (P := fun g : OpenFile σ => g.reads = f.reads ++ calls) hreads
          intro data f₂ hf₂
          apply Outcome.andThen_state (P := fun g : OpenFile σ => g.reads = f.reads ++ calls)
          · exact (f₂.sameHistory_seekBack ops request.custPos pos).1.trans hf₂
          · intro _ f₃ hf₃
            exact hf₃
        · intro res hres
          cases hout : out.1 with
          | error err =>
              rw [Outcome.andThen_error hout] at hres
              cases hres
          | ok data =>
              rw [Outcome.andThen_ok hout] at hres
              cases hback : (out.2.seekBack ops request.custPos pos).1 with
              | error err =>
                  rw [Outcome.andThen_error hback] at hres
                  cases hres
              | ok _ =>
                  rw [Outcome.andThen_ok hback] at hres
                  cases hres
                  exact hdata data hout

/-- The device takes a part of what it is offered, and at least one byte of it. -/
theorem write_takesFront {ops : ByteDevice σ} (haccepts : ops.Accepts) (bound : Nat) :
    Cursor.TakesFront (ε := Error) (fun data f => some (OpenFile.write ops f data))
      (fun done f => f.accepted = done) bound := by
  intro data done f hdata _ hdone
  obtain ⟨n, device, hwrite, hsome, hle⟩ := haccepts f.device data hdata
  have hstep : OpenFile.write ops f data =
      (.ok n, { f with device := device, accepted := f.accepted ++ data.take n }) := by
    simp only [write, hwrite]
  exact ⟨n, _, congrArg some hstep, hsome, hle, congrArg (· ++ data.take n) hdone⟩

theorem writeBlock_all {ops : FileIface σ} (haccepts : ops.Accepts) (f : OpenFile σ) {fuel : Nat}
    (hdl : Nat) {data : List UInt8} (hdata : data ≠ []) (hfuel : data.length < fuel) :
    ∃ f', f.writeBlock ops fuel { hdl := hdl, data := data } =
        some (.ok { length := data.length % UInt32.size }, f') ∧
      f'.accepted = f.accepted ++ data := by
  obtain ⟨f', hloop, haccepted⟩ := Cursor.drain_all (write_takesFront haccepts data.length)
    (Nat.le_refl _) hfuel f.accepted f rfl
  have hlength : data.length ≠ 0 := fun hzero => hdata (List.eq_nil_of_length_eq_zero hzero)
  refine ⟨f', ?_, haccepted⟩
  simp only [writeBlock, hlength, if_false, seekTo, hloop, Option.map_some]
  rfl

end OpenFile

namespace FileMap

variable {σ : Type}

/-- All that was read from the device behind a handle. -/
def readsOf (files : FileMap σ) (hdl : Nat) : List ReadCall :=
  files[hdl]?.elim [] (·.reads)

/-- What was read from devices on the way: `calls`, from the one behind `hdl`. -/
def Reads (files files' : FileMap σ) (hdl : Nat) (calls : List ReadCall) : Prop :=
  files'.readsOf hdl = files.readsOf hdl ++ calls ∧
    ∀ other, other ≠ hdl → files'[other]? = files[other]?

theorem reads_nil (files : FileMap σ) (hdl : Nat) : files.Reads files hdl [] :=
  ⟨(List.append_nil _).symm, fun _ _ => rfl⟩

theorem reads_insert {files : FileMap σ} {hdl : Nat} {f f' : OpenFile σ} {calls : List ReadCall}
    (hf : files[hdl]? = some f) (hreads : f'.reads = f.reads ++ calls) :
    files.Reads (files.insert hdl f') hdl calls := by
  constructor
  · simpa [readsOf, hf] using hreads
  · intro other hne
    rw [Table.getElem?_insert_of_ne (Ne.symm hne)]

theorem read_calls (ops : FileIface σ) (files : FileMap σ) (request : FileDataRequest) :
    ∃ calls, files.Reads (files.read ops request).2 request.hdl calls ∧ BoundedCalls calls ∧
      ∀ res, (files.read ops request).1 = .ok res →
        res.data = bytesRead calls ∧ res.data.length ≤ request.length := by
  cases hf : files[request.hdl]? with
  | none =>
      simp only [read, getFile, hf]
      refine ⟨[], files.reads_nil request.hdl, boundedCalls_nil, ?_⟩
      intro res hres
      cases hres
  | some f =>
      simp only [read, getFile, hf]
      obtain ⟨calls, hreads, hbounded, hres⟩ := f.readBlock_calls ops request
      exact ⟨calls, reads_insert hf hreads, hbounded, hres⟩

theorem i2cRead_calls (ops : ByteDevice σ) (devices : FileMap σ) (hdl length : Nat) :
    ∃ calls, devices.Reads (devices.i2cRead ops hdl length).2 hdl calls ∧ BoundedCalls calls ∧
      ∀ data, (devices.i2cRead ops hdl length).1 = .ok data →
        data = bytesRead calls ∧ data.length ≤ length := by
  cases hdev : devices[hdl]? with
  | none =>
      simp only [i2cRead, i2cByIndex, hdev]
      refine ⟨[], devices.reads_nil hdl, boundedCalls_nil, ?_⟩
      intro data hdata
      cases hdata
  | some dev =>
      simp only [i2cRead, i2cByIndex, hdev]
      by_cases hzero : length = 0
      · simp only [hzero, if_true]
        refine ⟨[], devices.reads_nil hdl, boundedCalls_nil, ?_⟩
        intro data hdata
        cases hdata
        exact ⟨rfl, Nat.le_refl _⟩
      · simp only [hzero, if_false]
        obtain ⟨calls, hreads, hbounded, hdata⟩ := dev.read_calls ops length
        exact ⟨calls, reads_insert hdev hreads, hbounded, hdata⟩

/-- What `proto_file_impl::write` does to its file when its device accepts. -/
theorem write_all {ops : FileIface σ} (haccepts : ops.Accepts) {files : FileMap σ} {hdl : Nat}
    {f : OpenFile σ} (hf : files[hdl]? = some f) {data : List UInt8} (hdata : data ≠ [])
    {fuel : Nat} (hfuel : data.length < fuel) :
    ∃ files' f', files.write ops fuel { hdl := hdl, data := data } =
        some (.ok { length := data.length % UInt32.size }, files') ∧
      files'[hdl]? = some f' ∧ f'.accepted = f.accepted ++ data := by
  obtain ⟨f', hwrite, haccepted⟩ := f.writeBlock_all haccepts hdl hdata hfuel
  refine ⟨files.insert hdl f', f', ?_, ?_, haccepted⟩
  · simp only [write, getFile, hf, hwrite, Option.map_some]
  · rw [Table.getElem?_insert_self]

end FileMap

theorem readFile_calls {P σ : Type} (paths : PathOps P) (ops : FileIface σ)
    (create : P → Nat → Except Error σ) (fs : FsInstance P) (s : AgentState)
    (request : ReadFileRequest P) :
    BoundedCalls (fs.readFile paths ops create s request).2.1 ∧
      ∀ data, (fs.readFile paths ops create s request).1 = .ok data →
        data = bytesRead (fs.readFile paths ops create s request).2.1 ∧
          data.length ≤ request.len := by
  unfold FsInstance.readFile
  by_cases hzero : clampBlock request.len = 0
  · simp only [hzero, if_true]
    refine ⟨boundedCalls_nil, ?_⟩
    intro data hdata
    cases hdata
    exact ⟨rfl, Nat.zero_le _⟩
  · simp only [hzero, if_false]
    split
    · refine ⟨boundedCalls_nil, ?_⟩
      intro data hdata
      cases hdata
    · split
      · refine ⟨boundedCalls_nil, ?_⟩
        intro data hdata
        cases hdata
      · next device hcreate =>
        have hsought := (OpenFile.sameHistory_seekFrom ops { device := device } request.pos).1
        generalize ({ device := device } : OpenFile σ).seekFrom ops request.pos = sought at hsought ⊢
        cases hres : sought.1 with
        | error err =>
            rw [Outcome.andThen_error hres]
            refine ⟨hsought ▸ boundedCalls_nil, ?_⟩
            intro data hdata
            cases hdata
        | ok _ =>
            rw [Outcome.andThen_ok hres]
            obtain ⟨calls, hreads, hbounded, hdata⟩ :=
              sought.2.read_calls ops.toByteDevice request.len
            rw [hsought, List.nil_append] at hreads
            rw [hreads]
            exact ⟨hbounded, hdata⟩

end FerroRemote.Agent

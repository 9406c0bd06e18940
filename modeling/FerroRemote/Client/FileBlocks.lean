/-
# Reading into buffers and writing out of them

The client side of block transfers. A client reads into memory that it was given,
and trusts the answer for how much of it is written; that it never writes beyond
the buffer is the agent's doing as well as its own. A client that writes is told
how much was written, and loops until all of it is.
-/

import FerroRemote.Agent.FileBlocks

namespace FerroRemote.Client

open FerroRemote.Agent

/-- `memcpy` of all of `src` to the beginning of a piece of memory. -/
def memcpy (mem src : List UInt8) : List UInt8 := src ++ mem.drop src.length

/-- The `file_custom_position` of a request that starts at `pos`. -/
def customPosition (custPos : Option (UInt64 × Bool)) : Option CustomPosition :=
  custPos.map fun (pos, seekBack) => { position := pos.toInt64, whence := 0, setBack := seekBack }

namespace FileImpl

variable {σ : Type} (ops : FileIface σ) (files : FileMap σ) (hdl : Nat)

/-- `file_impl::read_impl`: the outcome, and the memory from the buffer on. -/
def readImpl (mem : List UInt8) (length : Nat) (custPos : Option (UInt64 × Bool)) :
    Outcome (FileMap σ) Nat × List UInt8 :=
  if length = 0 then ((.ok 0, files), mem)
  else
    match files.read ops
      { hdl := hdl, length := length % UInt32.size, custPos := customPosition custPos } with
    | (.error err, files) => ((.error err, files), mem)
    | (.ok res, files) =>
      if res.data.length = 0 then ((.ok 0, files), mem)
      else
        let length := if length > res.data.length then res.data.length else length
        ((.ok length, files), memcpy mem (res.data.take length))

def writeImpl (fuel : Nat) (data : List UInt8) (custPos : Option (UInt64 × Bool)) :
    Option (Outcome (FileMap σ) Nat) :=
  if data.length = 0 then some (.ok 0, files)
  else
    (files.write ops fuel
      { hdl := hdl, data := data.take (clampBlock data.length)
        custPos := customPosition custPos }).map fun out =>
      Outcome.andThen out fun res files => (.ok res.length, files)

def read (mem : List UInt8) (length : Nat) : Outcome (FileMap σ) Nat × List UInt8 :=
  readImpl ops files hdl mem length none

def readFrom (mem : List UInt8) (length : Nat) (pos : UInt64) (seekBack : Bool) :
    Outcome (FileMap σ) Nat × List UInt8 :=
  readImpl ops files hdl mem length (some (pos, seekBack))

def write (fuel : Nat) (data : List UInt8) : Option (Outcome (FileMap σ) Nat) :=
  writeImpl ops files hdl fuel data none

end FileImpl

/-- `i2s_impl::read`. -/
def i2cRead {σ : Type} (ops : ByteDevice σ) (devices : FileMap σ) (hdl : Nat) (mem : List UInt8)
    (length : Nat) : Outcome (FileMap σ) Nat × List UInt8 :=
  match devices.i2cRead ops hdl (length % UInt32.size) with
  | (.error err, devices) => ((.error err, devices), mem)
  | (.ok data, devices) => ((.ok data.length, devices), memcpy mem data)

/-- How a `read_file` ends, with the memory from the buffer on and what the agent
has read for it. -/
structure FileRead where
  result : Except Error Nat
  mem : List UInt8
  calls : List ReadCall
  agent : AgentState

def readFile {P σ : Type} (paths : PathOps P) (ops : FileIface σ) (create : P → Nat → Except Error σ)
    (fs : FsInstance P) (s : AgentState) (hdl : Nat) (path : P) (mem : List UInt8) (max : Nat)
    (pos : UInt64) : FileRead :=
  match fs.readFile paths ops create s
    { path := path, hdl := some hdl, len := max % UInt32.size, pos := some (pos, 0) } with
  | (.error err, calls, s) => ⟨.error err, mem, calls, s⟩
  | (.ok data, calls, s) => ⟨.ok data.length, memcpy mem data, calls, s⟩

/-- A read into the buffer `buf`, with `beyond` behind it: what it wrote is what
the device gave, it fits, and its length is the result. A read that fails writes
nothing. -/
structure BoundedRead (buf beyond : List UInt8) (calls : List ReadCall) (res : Except Error Nat)
    (mem : List UInt8) : Prop where
  asked : BoundedCalls calls
  read : ∀ k, res = .ok k →
    k ≤ buf.length ∧ k = (bytesRead calls).length ∧ mem = bytesRead calls ++ buf.drop k ++ beyond
  failed : ∀ err, res = .error err → mem = buf ++ beyond

variable (buf beyond : List UInt8) {calls : List ReadCall}

theorem boundedRead_error (hbounded : BoundedCalls calls) (err : Error) :
    BoundedRead buf beyond calls (.error err) (buf ++ beyond) where
  asked := hbounded
  read := by
    intro k hk
    cases hk
  failed := fun _ _ => rfl

theorem boundedRead_memcpy (hbounded : BoundedCalls calls)
    (hfits : (bytesRead calls).length ≤ buf.length) :
    BoundedRead buf beyond calls (.ok (bytesRead calls).length)
      (memcpy (buf ++ beyond) (bytesRead calls)) where
  asked := hbounded
  read := by
    intro k hk
    cases hk
    refine ⟨hfits, rfl, ?_⟩
    rw [memcpy, List.drop_append_of_le_length hfits, List.append_assoc]
  failed := by
    intro err herr
    cases herr

theorem boundedRead_zero (hbounded : BoundedCalls calls) (hnone : bytesRead calls = []) :
    BoundedRead buf beyond calls (.ok 0) (buf ++ beyond) := by
  have hread := boundedRead_memcpy buf beyond hbounded
    (by rw [hnone]; exact Nat.zero_le _)
  rw [hnone] at hread
  exact hread

/-- The agent's bound is the request's, and the request's is the buffer's: a length
that does not fit into 32 bits is cut. -/
theorem le_of_le_mod {k n : Nat} (hk : k ≤ n % UInt32.size) : k ≤ n :=
  Nat.le_trans hk (Nat.mod_le _ _)

theorem boundedRead_readImpl {σ : Type} (ops : FileIface σ) (files : FileMap σ) (hdl : Nat)
    (buf beyond : List UInt8) (custPos : Option (UInt64 × Bool)) :
    ∃ calls out, FileImpl.readImpl ops files hdl (buf ++ beyond) buf.length custPos = out ∧
      files.Reads out.1.2 hdl calls ∧ BoundedRead buf beyond calls out.1.1 out.2 := by
  unfold FileImpl.readImpl
  by_cases hzero : buf.length = 0
  · simp only [hzero, if_true]
    exact ⟨[], _, rfl, files.reads_nil hdl, boundedRead_zero buf beyond boundedCalls_nil rfl⟩
  · simp only [hzero, if_false]
    obtain ⟨calls, hreads, hbounded, hres⟩ := files.read_calls ops
      { hdl := hdl, length := buf.length % UInt32.size, custPos := customPosition custPos }
    refine ⟨calls, _, rfl, ?_⟩
    generalize files.read ops
      { hdl := hdl, length := buf.length % UInt32.size, custPos := customPosition custPos } = out
      at hreads hres ⊢
    obtain ⟨err | res, files'⟩ := out
    · exact ⟨hreads, boundedRead_error buf beyond hbounded err⟩
    · obtain ⟨hdata, hle⟩ := hres res rfl
      have hfits : res.data.length ≤ buf.length := le_of_le_mod hle
      have hlength : (if buf.length > res.data.length then res.data.length else buf.length) =
          res.data.length := by
        split <;> omega
      by_cases hnone : res.data.length = 0
      · simp only [hnone, if_true]
        rw [hdata] at hnone
        exact ⟨hreads, boundedRead_zero buf beyond hbounded (List.eq_nil_of_length_eq_zero hnone)⟩
      · simp only [hnone, if_false, hlength, List.take_length]
        rw [hdata] at hfits ⊢
        exact ⟨hreads, boundedRead_memcpy buf beyond hbounded hfits⟩

theorem boundedRead_i2cRead {σ : Type} (ops : ByteDevice σ) (devices : FileMap σ) (hdl : Nat)
    (buf beyond : List UInt8) :
    ∃ calls out, i2cRead ops devices hdl (buf ++ beyond) buf.length = out ∧
      devices.Reads out.1.2 hdl calls ∧ BoundedRead buf beyond calls out.1.1 out.2 := by
  obtain ⟨calls, hreads, hbounded, hdata⟩ :=
    devices.i2cRead_calls ops hdl (buf.length % UInt32.size)
  refine ⟨calls, _, rfl, ?_⟩
  unfold i2cRead
  generalize devices.i2cRead ops hdl (buf.length % UInt32.size) = out at hreads hdata ⊢
  obtain ⟨err | data, devices'⟩ := out
  · exact ⟨hreads, boundedRead_error buf beyond hbounded err⟩
  · obtain ⟨heq, hle⟩ := hdata data rfl
    subst heq
    exact ⟨hreads, boundedRead_memcpy buf beyond hbounded (le_of_le_mod hle)⟩

theorem boundedRead_readFile {P σ : Type} (paths : PathOps P) (ops : FileIface σ)
    (create : P → Nat → Except Error σ) (fs : FsInstance P) (s : AgentState) (hdl : Nat) (path : P)
    (pos : UInt64) (buf beyond : List UInt8) :
    ∃ out, readFile paths ops create fs s hdl path (buf ++ beyond) buf.length pos = out ∧
      BoundedRead buf beyond out.calls out.result out.mem := by
  obtain ⟨hbounded, hdata⟩ := readFile_calls paths ops create fs s
    { path := path, hdl := some hdl, len := buf.length % UInt32.size, pos := some (pos, 0) }
  refine ⟨_, rfl, ?_⟩
  unfold readFile
  generalize fs.readFile paths ops create s
    { path := path, hdl := some hdl, len := buf.length % UInt32.size, pos := some (pos, 0) } = out
    at hbounded hdata ⊢
  obtain ⟨err | data, calls, s'⟩ := out
  · exact boundedRead_error buf beyond hbounded err
  · obtain ⟨heq, hle⟩ := hdata data rfl
    change data = bytesRead calls at heq
    subst heq
    exact boundedRead_memcpy buf beyond hbounded (le_of_le_mod hle)

/-- The three ways of reading into a buffer of any size. The argument goes across
both sides: the clients of `read_file` and of i2c copy what they are answered. -/
theorem reads_bounded {P σ τ : Type} (paths : PathOps P) (ops : FileIface σ) (i2c : ByteDevice τ)
    (create : P → Nat → Except Error σ) (fs : FsInstance P) (s : AgentState) (files : FileMap σ)
    (devices : FileMap τ) (hdl : Nat) (buf beyond : List UInt8) :
    (∀ path pos, ∃ out,
      readFile paths ops create fs s hdl path (buf ++ beyond) buf.length pos = out ∧
        BoundedRead buf beyond out.calls out.result out.mem) ∧
    (∃ calls out, FileImpl.read ops files hdl (buf ++ beyond) buf.length = out ∧
      files.Reads out.1.2 hdl calls ∧ BoundedRead buf beyond calls out.1.1 out.2) ∧
    (∀ pos seekBack, ∃ calls out,
      FileImpl.readFrom ops files hdl (buf ++ beyond) buf.length pos seekBack = out ∧
        files.Reads out.1.2 hdl calls ∧ BoundedRead buf beyond calls out.1.1 out.2) ∧
    (∃ calls out, i2cRead i2c devices hdl (buf ++ beyond) buf.length = out ∧
      devices.Reads out.1.2 hdl calls ∧ BoundedRead buf beyond calls out.1.1 out.2) := by
  refine ⟨?_, ?_, ?_, ?_⟩
  · intro path pos
    exact boundedRead_readFile paths ops create fs s hdl path pos buf beyond
  · exact boundedRead_readImpl ops files hdl buf beyond none
  · intro pos seekBack
    exact boundedRead_readImpl ops files hdl buf beyond (some (pos, seekBack))
  · exact boundedRead_i2cRead i2c devices hdl buf beyond

section Loops

variable {σ : Type} (ops : FileIface σ) (fuel : Nat) (files : FileMap σ) (hdl : Nat)

/-- The loop of `write_file`, on the file it has opened. -/
def writeFile (text : List UInt8) : Option (Outcome (FileMap σ) Unit) :=
  Cursor.drain (fun data files => FileImpl.write ops files hdl fuel data) text fuel 0 files

def lcallFsFileWrite (data : List UInt8) : Option (Outcome (FileMap σ) Nat) :=
  (writeFile ops fuel files hdl data).map fun out =>
    Outcome.andThen out fun _ files => (.ok data.length, files)

/-- The loops of `upload_file`, on the file it has opened: `bufs` is what
`readsome` gets from the local one each time, and `total` counts. -/
def uploadFile (total : Nat) : List (List UInt8) → FileMap σ → Option (Outcome (FileMap σ) Nat)
  | [], files => some (.ok total, files)
  | buf :: bufs, files =>
    if buf.length = 0 then some (.ok total, files)
    else
      match writeFile ops fuel files hdl buf with
      | none => none
      | some (.error err, files) => some (.error err, files)
      | some (.ok (), files) => uploadFile (total + buf.length) bufs files

end Loops

/-- What `upload_file` sees of the local file: all up to the first time that
`readsome` gets nothing. -/
def readLocal : List (List UInt8) → List UInt8
  | [] => []
  | buf :: bufs => if buf.length = 0 then [] else buf ++ readLocal bufs

section Accepting

variable {σ : Type} {ops : FileIface σ} (haccepts : ops.Accepts) {hdl : Nat}
include haccepts

/-- A client's `write` takes the front of what it is given: the agent writes the
whole block, and says so. -/
theorem fileWrite_takesFront (fuel bound : Nat) (hfuel : bound < fuel) :
    Cursor.TakesFront (fun data files => FileImpl.write ops files hdl fuel data)
      (fun done files => ∃ f, files[hdl]? = some f ∧ f.accepted = done) bound := by
  intro data done files hdata hbound hdone
  obtain ⟨f, hf, haccepted⟩ := hdone
  have hlength : data.length ≠ 0 := fun hzero => hdata (List.eq_nil_of_length_eq_zero hzero)
  obtain ⟨hcap, hle⟩ := clampBlock_le data.length
  have hsome : 0 < clampBlock data.length := by
    unfold clampBlock
    split <;> omega
  have hblock : (data.take (clampBlock data.length)).length = clampBlock data.length :=
    List.length_take_of_le hle
  have hnonempty : data.take (clampBlock data.length) ≠ [] := by
    intro hnil
    rw [hnil, List.length_nil] at hblock
    omega
  obtain ⟨files', f', hwrite, hf', haccepted'⟩ := FileMap.write_all haccepts hf hnonempty
    (by omega : _ < fuel)
  have hnarrow : clampBlock data.length % UInt32.size = clampBlock data.length :=
    Nat.mod_eq_of_lt (Nat.lt_of_le_of_lt hcap (by decide))
  rw [hblock, hnarrow] at hwrite
  refine ⟨clampBlock data.length, files', ?_, hsome, hle, f', hf', ?_⟩
  · simp only [FileImpl.write, FileImpl.writeImpl, hlength, if_false, customPosition,
      Option.map_none, hwrite, Option.map_some]
    rfl
  · rw [haccepted', haccepted]

variable {files : FileMap σ} {f : OpenFile σ} (hf : files[hdl]? = some f)
include hf

theorem writeFile_all {text : List UInt8} {fuel : Nat} (hfuel : text.length < fuel) :
    ∃ files' f', writeFile ops fuel files hdl text = some (.ok (), files') ∧
      files'[hdl]? = some f' ∧ f'.accepted = f.accepted ++ text := by
  obtain ⟨files', hloop, f', hf', haccepted⟩ :=
    Cursor.drain_all (fileWrite_takesFront haccepts fuel text.length hfuel) (Nat.le_refl _) hfuel
      f.accepted files ⟨f, hf, rfl⟩
  exact ⟨files', f', hloop, hf', haccepted⟩

end Accepting

theorem uploadFile_all {σ : Type} {ops : FileIface σ} (haccepts : ops.Accepts) {hdl fuel : Nat}
    (bufs : List (List UInt8)) (hfuel : ∀ buf ∈ bufs, buf.length < fuel) (total : Nat)
    {files : FileMap σ} {f : OpenFile σ} (hf : files[hdl]? = some f) :
    ∃ files' f', uploadFile ops fuel hdl total bufs files =
        some (.ok (total + (readLocal bufs).length), files') ∧
      files'[hdl]? = some f' ∧ f'.accepted = f.accepted ++ readLocal bufs := by
  induction bufs generalizing total files f with
  | nil => exact ⟨files, f, rfl, hf, (List.append_nil _).symm⟩
  | cons buf bufs ih =>
      by_cases hzero : buf.length = 0
      · simp only [uploadFile, readLocal, hzero, if_true, List.length_nil, Nat.add_zero,
          List.append_nil]
        exact ⟨files, f, rfl, hf, rfl⟩
      · obtain ⟨files₁, f₁, hwrite, hf₁, haccepted₁⟩ := writeFile_all haccepts hf
          (hfuel buf List.mem_cons_self)
        obtain ⟨files₂, f₂, hupload, hf₂, haccepted₂⟩ :=
          ih (fun buf hbuf => hfuel buf (List.mem_cons_of_mem _ hbuf)) (total + buf.length) hf₁
        simp only [uploadFile, readLocal, hzero, if_false, hwrite]
        refine ⟨files₂, f₂, ?_, hf₂, ?_⟩
        · rw [hupload, List.length_append, Nat.add_assoc]
        · rw [haccepted₂, haccepted₁, List.append_assoc]

/-- When the device takes at least one byte of everything it is offered, the loops
end, and it has taken every byte once and in order. -/
theorem uploads_whole {σ : Type} {ops : FileIface σ} (haccepts : ops.Accepts) {files : FileMap σ}
    {hdl : Nat} {f : OpenFile σ} (hf : files[hdl]? = some f) :
    (∀ (data : List UInt8) (fuel : Nat), data.length < fuel →
      ∃ files' f', writeFile ops fuel files hdl data = some (.ok (), files') ∧
        files'[hdl]? = some f' ∧ f'.accepted = f.accepted ++ data) ∧
    (∀ (data : List UInt8) (fuel : Nat), data.length < fuel →
      ∃ files' f', lcallFsFileWrite ops fuel files hdl data = some (.ok data.length, files') ∧
        files'[hdl]? = some f' ∧ f'.accepted = f.accepted ++ data) ∧
    (∀ (bufs : List (List UInt8)) (fuel : Nat), (∀ buf ∈ bufs, buf.length < fuel) →
      ∃ files' f', uploadFile ops fuel hdl 0 bufs files =
          some (.ok (readLocal bufs).length, files') ∧
        files'[hdl]? = some f' ∧ f'.accepted = f.accepted ++ readLocal bufs) := by
  refine ⟨?_, ?_, ?_⟩
  · intro data fuel hfuel
    exact writeFile_all haccepts hf hfuel
  · intro data fuel hfuel
    obtain ⟨files', f', hwrite, hf', haccepted⟩ := writeFile_all haccepts hf hfuel
    refine ⟨files', f', ?_, hf', haccepted⟩
    rw [lcallFsFileWrite, hwrite]
    rfl
  · intro bufs fuel hfuel
    have hupload := uploadFile_all haccepts bufs hfuel 0 hf
    rw [Nat.zero_add] at hupload
    exact hupload

/-- A write takes up to three bytes, which the state counts. -/
def threeBytes : FileIface Nat where
  read s _ := (.ok ⟨[], Nat.zero_le _⟩, s)
  write s data := (.ok (min 3 data.length), s + min 3 data.length)
  seek s _ _ := (.ok 0, s)
  tell s := (.ok 0, s)

theorem threeBytes_accepts : threeBytes.Accepts := by
  intro s data hdata
  have hlength : 0 < data.length := List.length_pos_iff.mpr hdata
  exact ⟨min 3 data.length, _, rfl, by omega, Nat.min_le_right _ _⟩

/-- A file on that device, behind handle 101. -/
def oneFile : FileMap Nat := (∅ : FileMap Nat).insert 101 { device := 0 }

/-- Text that needs three writes of the device. -/
theorem uploads_text :
    ∃ files' f', writeFile threeBytes 8 oneFile 101 [102, 101, 114, 114, 111, 33, 10] =
        some (.ok (), files') ∧
      files'[101]? = some f' ∧ f'.accepted = [102, 101, 114, 114, 111, 33, 10] := by
  have hf : oneFile[101]? = some { device := 0 } := by
    simp [oneFile]
  exact (uploads_whole threeBytes_accepts hf).1 _ 8 (by decide)

end FerroRemote.Client

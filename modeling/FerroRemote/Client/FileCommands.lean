/-
# Copying files to the agent and back

The commands that push a local file and pull a remote one are loops over the reads and
writes of a client, each of which is a request to the agent, which transfers a block with one
read or with a loop of writes. Here the file on the agent is a regular one that may transfer
less than it is asked to, one byte at least. A pulled file is the remote one. A pushed file is
written over what was there: the agent is not asked to cut it off, so what the old file had
beyond the new one stays.
-/

import FerroRemote.Client.PacedFile

namespace FerroRemote.Client

open FerroRemote.Agent

/-- The loop of `download_file`, on the file it has opened: `out` is what it has written to the
local file, and `buf` its buffer. -/
def downloadFile {σ : Type} (ops : FileIface σ) (hdl : Nat) :
    (fuel : Nat) → (buf out : List UInt8) → (total : Nat) → (files : FileMap σ) →
      Option (Outcome (FileMap σ) Nat × List UInt8)
  | 0, _, _, _, _ => none
  | fuel + 1, buf, out, total, files =>
      match FileImpl.read ops files hdl buf buf.length with
      | ((.error err, files), _) => some ((.error err, files), out)
      | ((.ok r, files), buf) =>
          if r = 0 then some ((.ok total, files), out)
          else downloadFile ops hdl fuel buf (out ++ buf.take r) (total + r) files

/-- The `buf` of `download_file` -/
def downloadBuffer : List UInt8 := List.replicate 4096 0

variable {files : FileMap Paced} {hdl : Nat} {f : OpenFile Paced}

/-- From any place of the file on, the loop writes the rest of it. The induction is on the
fuel, of which each turn but the last uses one for at least one byte. -/
theorem downloadFile_rest (fuel : Nat) (buf out : List UInt8) (total : Nat)
    (hf : files[hdl]? = some f) (hbuf : buf.length = 4096)
    (hfuel : f.device.content.length - f.device.position < fuel) :
    ∃ files', downloadFile Paced.iface hdl fuel buf out total files =
      some ((.ok (total + (f.device.content.drop f.device.position).length), files'),
        out ++ f.device.content.drop f.device.position) := by
  induction fuel generalizing buf out total files f with
  | zero => exact absurd hfuel (Nat.not_lt_zero _)
  | succ fuel ih =>
      have hnarrow : buf.length < UInt32.size := by
        rw [hbuf]
        decide
      have hpos : 0 < buf.length := by omega
      have hle : (f.device.next (clampBlock buf.length)).length ≤ buf.length :=
        Nat.le_trans (f.device.length_next_le _) (clampBlock_le _).2
      have hrest : f.device.next (clampBlock buf.length) ++ f.device.content.drop
          (f.device.position + (f.device.next (clampBlock buf.length)).length) =
            f.device.content.drop f.device.position := Extent.readAt_append_drop _ _ _
      have hempty := next_eq_nil_iff f.device (clampBlock_pos hpos)
      generalize hnext : f.device.next (clampBlock buf.length) = data at hle hrest hempty
      rcases read_paced hf buf hpos hnarrow hnext with ⟨f', hdevice, hread⟩
      have hturn : downloadFile Paced.iface hdl (fuel + 1) buf out total files =
          if data.length = 0 then some ((.ok total, files.insert hdl f'), out)
          else
            downloadFile Paced.iface hdl fuel (data ++ buf.drop data.length)
              (out ++ (data ++ buf.drop data.length).take data.length) (total + data.length)
              (files.insert hdl f') := by
        rw [downloadFile, hread]
      by_cases hnone : data = []
      · rw [hturn, if_pos (List.length_eq_zero_iff.mpr hnone),
          List.drop_of_length_le (hempty.mp hnone), List.length_nil, Nat.add_zero, List.append_nil]
        exact ⟨_, rfl⟩
      · have hsome : data.length ≠ 0 := fun hzero => hnone (List.eq_nil_of_length_eq_zero hzero)
        rw [hturn, if_neg hsome, List.take_left]
        have hmore : ¬ f.device.content.length ≤ f.device.position :=
          fun hend => hnone (hempty.mpr hend)
        have hcontent : f'.device.content.drop f'.device.position =
            f.device.content.drop (f.device.position + data.length) := by
          rw [hdevice]
        have hlong : (data ++ buf.drop data.length).length = 4096 := by
          rw [List.length_append, List.length_drop]
          omega
        have hless : f'.device.content.length - f'.device.position < fuel := by
          rw [hdevice]
          dsimp only
          omega
        have hf' : (files.insert hdl f')[hdl]? = some f' := Table.getElem?_insert_self _ _ _
        rcases ih _ (out ++ data) (total + data.length) hf' hlong hless with ⟨files', hrun⟩
        refine ⟨files', ?_⟩
        rw [hrun, hcontent, List.append_assoc, hrest, Nat.add_assoc, ← List.length_append, hrest]

theorem fileWrite_takesPatch (hdl : Nat) (content : List UInt8) (position fuel bound : Nat)
    (hfuel : bound < fuel) :
    Cursor.TakesFront (fun data files => FileImpl.write Paced.iface files hdl fuel data)
      (fun done files => ∃ f, files[hdl]? = some f ∧ Patched content position done f) bound := by
  intro data done files hdata hbound hdone
  rcases hdone with ⟨f, hf, hpatched⟩
  rcases write_paced hf hdata (Nat.lt_of_le_of_lt hbound hfuel) with
    ⟨files', f', hwrite, hf', hpatched'⟩
  have hlength : 0 < data.length := List.length_pos_iff.mpr hdata
  exact ⟨_, files', hwrite, clampBlock_pos hlength, (clampBlock_le _).2, f', hf',
    hpatched.append hpatched'⟩

theorem uploadFile_patched {content : List UInt8} {position : Nat} {done : List UInt8} {fuel : Nat}
    (bufs : List (List UInt8)) (hfuel : ∀ buf ∈ bufs, buf.length < fuel) (total : Nat)
    (hf : files[hdl]? = some f) (hdone : Patched content position done f) :
    ∃ files' f', uploadFile Paced.iface fuel hdl total bufs files =
        some (.ok (total + (readLocal bufs).length), files') ∧
      files'[hdl]? = some f' ∧ Patched content position (done ++ readLocal bufs) f' := by
  induction bufs generalizing total files f done with
  | nil => exact ⟨files, f, rfl, hf, (List.append_nil done).symm ▸ hdone⟩
  | cons buf bufs ih =>
      by_cases hzero : buf.length = 0
      · simp only [uploadFile, readLocal, hzero, if_true, List.length_nil, Nat.add_zero,
          List.append_nil]
        exact ⟨files, f, rfl, hf, hdone⟩
      · rcases Cursor.drain_all
          (fileWrite_takesPatch hdl content position fuel buf.length (hfuel buf List.mem_cons_self))
          (Nat.le_refl _) (hfuel buf List.mem_cons_self) done files ⟨f, hf, hdone⟩ with
          ⟨files₁, hloop, f₁, hf₁, hdone₁⟩
        rcases ih (fun buf hbuf => hfuel buf (List.mem_cons_of_mem _ hbuf)) (total + buf.length)
          hf₁ hdone₁ with ⟨files₂, f₂, hupload, hf₂, hdone₂⟩
        rw [List.append_assoc] at hdone₂
        simp only [uploadFile, readLocal, hzero, if_false, writeFile, hloop]
        refine ⟨files₂, f₂, ?_, hf₂, hdone₂⟩
        rw [hupload, List.length_append, Nat.add_assoc]

/-- The open files with one more, at its beginning -/
def opening (files : FileMap Paced) (hdl : Nat) (content : List UInt8) (limits : Nat → Nat) :
    FileMap Paced :=
  files.insert hdl { device := Paced.opened content limits }

/-- What is in the file behind a handle -/
def contentOf (files : FileMap Paced) (hdl : Nat) : Option (List UInt8) :=
  files[hdl]?.map (·.device.content)

theorem writeAt_beginning (old piece : List UInt8) :
    Extent.writeAt 0 old 0 piece = piece ++ old.drop piece.length := by
  cases piece with
  | nil => rfl
  | cons byte piece =>
      rw [Extent.writeAt, List.isEmpty_cons, if_neg Bool.false_ne_true, List.take_zero,
        List.nil_append, Nat.zero_add]

theorem downloadFile_opening (files : FileMap Paced) (hdl : Nat) (content : List UInt8)
    (limits : Nat → Nat) {fuel : Nat} (hfuel : content.length < fuel) :
    ∃ files', downloadFile Paced.iface hdl fuel downloadBuffer [] 0
        (opening files hdl content limits) = some ((.ok content.length, files'), content) := by
  rcases downloadFile_rest fuel downloadBuffer [] 0 (Table.getElem?_insert_self files hdl
    { device := Paced.opened content limits }) List.length_replicate hfuel with ⟨files', hpull⟩
  refine ⟨files', ?_⟩
  rw [Nat.zero_add, List.nil_append] at hpull
  exact hpull

theorem uploadFile_opening (files : FileMap Paced) (hdl : Nat) (old : List UInt8)
    (limits : Nat → Nat) (bufs : List (List UInt8)) {fuel : Nat}
    (hfuel : ∀ buf ∈ bufs, buf.length < fuel) :
    ∃ files', uploadFile Paced.iface fuel hdl 0 bufs (opening files hdl old limits) =
        some (.ok (readLocal bufs).length, files') ∧
      contentOf files' hdl = some (readLocal bufs ++ old.drop (readLocal bufs).length) := by
  rcases uploadFile_patched bufs hfuel 0 (Table.getElem?_insert_self files hdl _)
    (patched_nil { device := Paced.opened old limits }) with ⟨files', f', hpush, hf', hpatched⟩
  rw [Nat.zero_add] at hpush
  refine ⟨files', hpush, ?_⟩
  rw [contentOf, hf', Option.map_some, hpatched.content, List.nil_append]
  exact congrArg some (writeAt_beginning old _)

/-- **Pushing and pulling.** However little the agent transfers at a time, a push ends, and what
is pulled afterwards is the pushed file with what the old one had beyond it: it is the pushed
file exactly when the old one was not longer. -/
theorem pull_push (old : List UInt8) (bufs : List (List UInt8)) (limits limits' : Nat → Nat)
    (files files' : FileMap Paced) (hdl hdl' : Nat) {fuel : Nat}
    (hfuel : ∀ buf ∈ bufs, buf.length < fuel) :
    ∃ pushed remote pulled out,
      uploadFile Paced.iface fuel hdl 0 bufs (opening files hdl old limits) =
        some (.ok (readLocal bufs).length, pushed) ∧
      contentOf pushed hdl = some remote ∧
      downloadFile Paced.iface hdl' (remote.length + 1) downloadBuffer [] 0
        (opening files' hdl' remote limits') = some ((.ok out.length, pulled), out) ∧
      out = readLocal bufs ++ old.drop (readLocal bufs).length ∧
      (out = readLocal bufs ↔ old.length ≤ (readLocal bufs).length) := by
  rcases uploadFile_opening files hdl old limits bufs hfuel with ⟨pushed, hpush, hremote⟩
  rcases downloadFile_opening files' hdl' (readLocal bufs ++ old.drop (readLocal bufs).length)
    limits' (Nat.lt_succ_self _) with ⟨pulled, hpull⟩
  refine ⟨pushed, _, pulled, _, hpush, hremote, hpull, rfl, ?_⟩
  rw [List.append_right_eq_self, List.drop_eq_nil_iff]

/-- A file of three bytes, pushed in two pieces over one of four -/
theorem pull_push_shorter :
    ∃ pushed remote pulled out,
      uploadFile Paced.iface 3 101 0 [[97, 98], [99], []]
          (opening ∅ 101 [119, 120, 121, 122] fun _ => 0) =
        some (.ok 3, pushed) ∧
      contentOf pushed 101 = some remote ∧
      downloadFile Paced.iface 102 (remote.length + 1) downloadBuffer [] 0
        (opening ∅ 102 remote fun n => n) = some ((.ok out.length, pulled), out) ∧
      out = [97, 98, 99, 122] ∧ (out = [97, 98, 99] ↔ 4 ≤ 3) :=
  pull_push [119, 120, 121, 122] [[97, 98], [99], []] (fun _ => 0) (fun n => n) ∅ ∅ 101 102
    (by decide)

end FerroRemote.Client

/-
# The write loop of the agent

`proto_file_impl::write` calls `write` of its file until the whole block is taken.
Nothing bounds the number of calls: a device that answers zero is asked again. The
loop ends exactly when the answers add up to the block, or one of them is an error.
-/

import FerroRemote.Agent.OsFiles
import Mathlib.Algebra.Order.Ring.Nat

namespace FerroRemote.Agent

namespace Descriptor

/-- What `::write` is going to take. -/
def takes (fd : Descriptor) (i : Nat) : Option Nat := (fd.writes i).count

/-- The seeks to the position of a request: asking where the file is, then going
there. -/
def entry (fd : Descriptor) (target : CustomPosition) : Except Errno Int64 :=
  match fd.goes 0 0 .cur with
  | .error code => .error code
  | .ok _ => fd.goes 1 target.position (valueToEnum target.whence)

end Descriptor

/-- One of the seeks to the position of a request is refused. -/
def AgentFile.SeekRefused (f : AgentFile) (custPos : Option CustomPosition) : Prop :=
  f.cls.seeksOs = true ∧ ∃ target, custPos = some target ∧ (f.fd.entry target).toOption = none

/-- The position before the call `k` of a loop over `length` bytes. -/
def Descriptor.landing (fd : Descriptor) (length : Nat) : Nat → Int64
  | 0 => fd.position
  | k + 1 =>
    (fd.writes k).landing (length - Cursor.offered fd.takes k) (fd.landing length k)

namespace OpenFile

/-- What a loop that started with `f` has done where it ends, at its call `k`. The
position is that of the system's classes. -/
structure Ended (f : OpenFile AgentFile) (data : List UInt8) (k : Nat)
    (f' : OpenFile AgentFile) : Prop where
  cls : f'.device.cls = f.device.cls
  accepted : f'.accepted = f.accepted ++ data.take (Cursor.offered f.device.fd.takes k)
  seeks : f.device.cls.seeksOs = true → f'.device.fd.seeks = f.device.fd.seeks
  position : f.device.cls.seeksOs = true →
    f'.device.fd.position = f.device.fd.landing data.length k

/-- What it has done before its call `k`. -/
structure Written (f : OpenFile AgentFile) (data : List UInt8) (k : Nat)
    (f' : OpenFile AgentFile) : Prop extends f.Ended data k f' where
  writes : f'.device.fd.writes = fun i => f.device.fd.writes (k + i)

theorem written_zero (f : OpenFile AgentFile) (data : List UInt8) : f.Written data 0 f where
  cls := rfl
  accepted := by rw [Cursor.offered, List.take_zero, List.append_nil]
  seeks := fun _ => rfl
  position := fun _ => rfl
  writes := by simp only [Nat.zero_add]

variable {f f' : OpenFile AgentFile} {data : List UInt8} {k : Nat}

/-- The answer to the call `k` is the one of the script. -/
theorem Written.first (hwritten : f.Written data k f') :
    f'.device.fd.writes 0 = f.device.fd.writes k := congrFun hwritten.writes 0

/-- A call that takes nothing ends the loop where it was. -/
theorem Written.fails (hwritten : f.Written data k f') (hnone : f.device.fd.takes k = none) :
    ∃ err, (f'.write agentFiles.toByteDevice
        (data.drop (Cursor.offered f.device.fd.takes k))).1 = .error err ∧
      f.Ended data k (f'.write agentFiles.toByteDevice
        (data.drop (Cursor.offered f.device.fd.takes k))).2 := by
  generalize data.drop (Cursor.offered f.device.fd.takes k) = rest
  obtain ⟨hres, hstate⟩ := f'.write_agentFiles rest
  have hfirst : (f'.device.fd.writes 0).count = none := by
    rw [hwritten.first]
    exact hnone
  obtain ⟨code, hcode⟩ := Descriptor.write_of_failed hfirst rest
  have hresult := f'.device.cls.write_result f'.device.fd rest
  rw [hcode] at hresult
  rw [hres, hstate, hresult]
  cases hwrite : (f'.device.cls.iface.write f'.device.fd rest).1 with
  | ok count => rw [hwrite] at hresult; cases hresult
  | error err =>
      refine ⟨err, rfl, hwritten.cls, ?_, ?_, ?_⟩
      · exact (congrArg (f'.accepted ++ ·) List.take_zero).trans
          ((List.append_nil _).trans hwritten.accepted)
      · intro hos
        rw [FileClass.write_of_seeksOs (hwritten.cls ▸ hos), Descriptor.write_seeks]
        exact hwritten.seeks hos
      · intro hos
        rw [FileClass.write_of_seeksOs (hwritten.cls ▸ hos), Descriptor.write_position,
          WriteAnswer.landing_of_failed hfirst]
        exact hwritten.position hos

/-- A call that takes something, or is told that nothing is taken. -/
theorem Written.takes (hwritten : f.Written data k f') {n : Nat}
    (hn : f.device.fd.takes k = some n) :
    (f'.write agentFiles.toByteDevice (data.drop (Cursor.offered f.device.fd.takes k))).1 =
        .ok (min n (data.length - Cursor.offered f.device.fd.takes k)) ∧
      f.Written data (k + 1) (f'.write agentFiles.toByteDevice
        (data.drop (Cursor.offered f.device.fd.takes k))).2 := by
  have hlength : (data.drop (Cursor.offered f.device.fd.takes k)).length =
      data.length - Cursor.offered f.device.fd.takes k := List.length_drop
  have htake : data.take (Cursor.offered f.device.fd.takes (k + 1)) =
      data.take (Cursor.offered f.device.fd.takes k) ++
        (data.drop (Cursor.offered f.device.fd.takes k)).take
          (min n (data.drop (Cursor.offered f.device.fd.takes k)).length) := by
    rw [Cursor.offered_succ hn, List.take_add, ← List.take_eq_take_min]
  generalize hrest : data.drop (Cursor.offered f.device.fd.takes k) = rest at hlength htake ⊢
  obtain ⟨hres, hstate⟩ := f'.write_agentFiles rest
  have hfirst : (f'.device.fd.writes 0).count = some n := by
    rw [hwritten.first]
    exact hn
  have hresult := f'.device.cls.write_result f'.device.fd rest
  rw [Descriptor.write_of_took hfirst rest] at hresult
  rw [hres, hstate, hresult, ← hlength]
  cases hwrite : (f'.device.cls.iface.write f'.device.fd rest).1 with
  | error err => rw [hwrite] at hresult; cases hresult
  | ok count =>
      rw [hwrite] at hresult
      cases hresult
      refine ⟨rfl, ⟨hwritten.cls, ?_, ?_, ?_⟩, ?_⟩
      · rw [htake, ← List.append_assoc, ← hwritten.accepted]
        rfl
      · intro hos
        rw [FileClass.write_of_seeksOs (hwritten.cls ▸ hos), Descriptor.write_seeks]
        exact hwritten.seeks hos
      · intro hos
        rw [FileClass.write_of_seeksOs (hwritten.cls ▸ hos), Descriptor.write_position,
          hwritten.first, hwritten.position hos, hlength]
        rfl
      · rw [FileClass.write_writes, hwritten.writes]
        funext i
        rw [Nat.add_assoc]

theorem write_follows (f : OpenFile AgentFile) (data : List UInt8) :
    Cursor.Follows (fun data f => some (f.write agentFiles.toByteDevice data)) data
      f.device.fd.takes (f.Written data) (f.Ended data) where
  stops := fun _ _ hwritten => hwritten.toEnded
  fails := by
    intro k f' hwritten _ hnone
    obtain ⟨err, hres, hended⟩ := hwritten.fails hnone
    exact ⟨err, _, congrArg some (Prod.ext hres rfl), hended⟩
  takes := by
    intro k f' n hwritten _ hn
    obtain ⟨hres, hnext⟩ := hwritten.takes hn
    exact ⟨_, congrArg some (Prod.ext hres rfl), hnext⟩

/-- Asking a descriptor of the system where it is. -/
theorem tell_position {f : OpenFile AgentFile} (hos : f.device.cls.seeksOs = true) :
    (f.tell agentFiles).2.device.fd.position = f.device.fd.position := by
  rw [(tell_of_seeksOs hos).2, (f.device.fd.lseek_position 0 .cur).2]
  cases hgoes : f.device.fd.goes 0 0 .cur with
  | error code => rfl
  | ok pos => exact (Descriptor.goes_cur_zero hgoes).1

theorem seek_andThen {α : Type} {g : OpenFile AgentFile} (hos : g.device.cls.seeksOs = true)
    (offset : Int64) (whence : SeekWhence) (back : α) :
    let out := (g.seek agentFiles offset whence).andThen fun _ f => (.ok back, f)
    out.1.toOption = (g.device.fd.goes 0 offset whence).toOption.map (fun _ => back) ∧
      out.2.device.fd.position =
        (g.device.fd.goes 0 offset whence).toOption.getD g.device.fd.position ∧
      out.2.device.fd.seeks = fun i => g.device.fd.seeks (1 + i) := by
  obtain ⟨hseek, hstate⟩ := seek_of_seeksOs hos offset whence
  have hposition := (g.device.fd.lseek_position offset whence).2
  have hseeks := g.device.fd.lseek_seeks offset whence
  rw [← hseek]
  rw [← hseek] at hposition
  cases hres : (g.seek agentFiles offset whence).1 with
  | error err =>
      rw [hres] at hposition
      rw [Outcome.andThen_error hres, hstate]
      exact ⟨rfl, hposition, hseeks⟩
  | ok pos =>
      rw [hres] at hposition
      rw [Outcome.andThen_ok hres, hstate]
      exact ⟨rfl, hposition, hseeks⟩

theorem seekTo_of_seeksOs {f : OpenFile AgentFile} (hos : f.device.cls.seeksOs = true)
    (target : CustomPosition) :
    (f.seekTo agentFiles (some target)).1.toOption =
        (f.device.fd.entry target).toOption.map (fun _ => f.device.fd.position.toUInt64) ∧
      (f.seekTo agentFiles (some target)).2.device.fd.position =
        (f.device.fd.entry target).toOption.getD f.device.fd.position ∧
      ((f.device.fd.entry target).toOption.isSome →
        (f.seekTo agentFiles (some target)).2.device.fd.seeks =
          fun i => f.device.fd.seeks (2 + i)) := by
  obtain ⟨htell, hstate⟩ := tell_of_seeksOs hos
  have hposition := f.tell_position hos
  have hseeks : (f.tell agentFiles).2.device.fd.seeks = fun i => f.device.fd.seeks (1 + i) := by
    rw [hstate]
    exact f.device.fd.lseek_seeks 0 .cur
  have hcls : (f.tell agentFiles).2.device.cls.seeksOs = true := by
    rw [hstate]
    exact hos
  have hthere : (f.tell agentFiles).2.device.fd.goes 0 target.position (valueToEnum target.whence) =
      f.device.fd.goes 1 target.position (valueToEnum target.whence) :=
    Descriptor.goes_congr hposition (congrFun hseeks 0) _ _
  simp only [seekTo]
  generalize hg : (f.tell agentFiles).2 = g at hposition hseeks hcls hthere
  cases hres : (f.tell agentFiles).1 with
  | error err =>
      rw [hres] at htell
      cases hgoes : f.device.fd.goes 0 0 .cur with
      | ok pos => rw [hgoes] at htell; cases htell
      | error code =>
          have hentry : f.device.fd.entry target = .error code := by
            simp only [Descriptor.entry, hgoes]
          rw [Outcome.andThen_error hres, hentry, hg]
          exact ⟨rfl, hposition, fun hsome => by cases hsome⟩
  | ok pos =>
      rw [hres] at htell
      cases hgoes : f.device.fd.goes 0 0 .cur with
      | error code => rw [hgoes] at htell; cases htell
      | ok pos' =>
          rw [hgoes] at htell
          cases htell
          have hentry : f.device.fd.entry target =
              g.device.fd.goes 0 target.position (valueToEnum target.whence) := by
            simp only [Descriptor.entry, hgoes, hthere]
          rw [Outcome.andThen_ok hres, (Descriptor.goes_cur_zero hgoes).1, hentry, hg]
          obtain ⟨hback, hthere, hleft⟩ := seek_andThen hcls target.position
            (valueToEnum target.whence) f.device.fd.position.toUInt64
          refine ⟨hback, by rw [hthere, hposition], fun _ => ?_⟩
          rw [hleft, hseeks]
          funext i
          exact congrArg f.device.fd.seeks (by omega)

theorem seekTo_of_not_seeksOs {f : OpenFile AgentFile} (hos : f.device.cls.seeksOs = false)
    (custPos : Option CustomPosition) : (f.seekTo agentFiles custPos).1 = .ok 0 := by
  cases custPos with
  | none => rfl
  | some target =>
      have htell : f.tell agentFiles = (.ok 0, f) := by
        rw [tell_agentFiles, FileClass.tell_of_not_seeksOs hos]
      have hseek : f.seek agentFiles target.position (valueToEnum target.whence) = (.ok 0, f) := by
        rw [seek_agentFiles, FileClass.seek_of_not_seeksOs hos]
      simp only [seekTo, htell, hseek, Outcome.andThen]
      rfl

theorem seekTo_takes {f f₁ : OpenFile AgentFile} {custPos : Option CustomPosition}
    {res : Except Error UInt64} (hseek : f.seekTo agentFiles custPos = (res, f₁)) :
    f₁.device.fd.takes = f.device.fd.takes := by
  have hwrites := (f.seekTo_scripts custPos).2.1
  rw [hseek] at hwrites
  funext i
  exact congrArg (fun writes => (writes i).count) hwrites

theorem seekTo_refused_iff (f : OpenFile AgentFile) (custPos : Option CustomPosition) :
    (f.seekTo agentFiles custPos).1.toOption = none ↔ f.device.SeekRefused custPos := by
  unfold AgentFile.SeekRefused
  cases hos : f.device.cls.seeksOs with
  | false =>
      rw [seekTo_of_not_seeksOs hos custPos]
      simp [Except.toOption]
  | true =>
      cases custPos with
      | none => simp [seekTo, Except.toOption]
      | some target => simp [(seekTo_of_seeksOs hos target).1]

/-- A request that gets to its position and is not empty. -/
theorem writeBlock_of_seekTo {f f₁ : OpenFile AgentFile} {request : FileDataRequest} {pos : UInt64}
    (hdata : request.data ≠ []) (hseek : f.seekTo agentFiles request.custPos = (.ok pos, f₁))
    (fuel : Nat) :
    f.writeBlock agentFiles fuel request =
      (Cursor.drain (fun data f => some (f.write agentFiles.toByteDevice data)) request.data
          fuel 0 f₁).map fun out => Outcome.andThen out fun _ f =>
        (f.seekBack agentFiles request.custPos pos).andThen fun _ f =>
          (.ok { length := request.data.length % UInt32.size }, f) := by
  have hlength : request.data.length ≠ 0 :=
    fun hzero => hdata (List.eq_nil_of_length_eq_zero hzero)
  simp only [writeBlock, hlength, if_false, hseek]

/-- The request comes to an end, and is answered with success only when the device
has taken the whole data and the answer says so. -/
def WritesWhole (f : OpenFile AgentFile) (request : FileDataRequest) : Prop :=
  ∃ fuel res f', f.writeBlock agentFiles fuel request = some (res, f') ∧
    ∀ block, res = .ok block →
      block.length = request.data.length ∧ f'.accepted = f.accepted ++ request.data

end OpenFile

/-- What `::write` is going to answer brings a loop over `length` bytes to an end:
the answers add up to it, or there is an error among them before they do. -/
def Descriptor.BringsToEnd (fd : Descriptor) (length : Nat) : Prop :=
  ∃ k, Cursor.EndsAt fd.takes length k

namespace OpenFile

/-- The loop of a write that got to its position, and what is made of its result. -/
theorem writeBlock_loop {f f₁ : OpenFile AgentFile} {request : FileDataRequest} {pos : UInt64}
    (hdata : request.data ≠ []) (hseek : f.seekTo agentFiles request.custPos = (.ok pos, f₁))
    {fuel : Nat} {answer : Except Error FileDataBlock × OpenFile AgentFile}
    (hout : f.writeBlock agentFiles fuel request = some answer) :
    ∃ (out : Except Error Unit × OpenFile AgentFile) (k : Nat),
      Cursor.EndsAt f.device.fd.takes request.data.length k ∧ f₁.Ended request.data k out.2 ∧
        (out.1 = .ok () ↔ request.data.length ≤ Cursor.offered f.device.fd.takes k) ∧
        (Outcome.andThen out fun _ f =>
          (f.seekBack agentFiles request.custPos pos).andThen fun _ f =>
            (.ok { length := request.data.length % UInt32.size }, f)) = answer := by
  rw [writeBlock_of_seekTo hdata hseek, Option.map_eq_some_iff] at hout
  obtain ⟨out, hloop, hout⟩ := hout
  obtain ⟨k, hends, hended, hok⟩ :=
    Cursor.drain_endsAt (f₁.write_follows request.data) f₁ (f₁.written_zero request.data) hloop
  rw [seekTo_takes hseek] at hends hok
  exact ⟨out, k, hends, hended, hok, hout⟩

theorem writeBlock_answer {f f₁ : OpenFile AgentFile} {request : FileDataRequest} {pos : UInt64}
    (hdata : request.data ≠ []) (hfits : request.data.length < UInt32.size)
    (hseek : f.seekTo agentFiles request.custPos = (.ok pos, f₁)) {fuel : Nat}
    {res : Except Error FileDataBlock} {f' : OpenFile AgentFile}
    (hout : f.writeBlock agentFiles fuel request = some (res, f')) :
    f.device.fd.BringsToEnd request.data.length ∧ ∀ block, res = .ok block →
      block.length = request.data.length ∧ f'.accepted = f.accepted ++ request.data := by
  have htakes := seekTo_takes hseek
  have haccepted := (sameHistory_seekTo agentFiles f request.custPos).2
  rw [hseek] at haccepted
  obtain ⟨out, k, hends, hended, hok, hout⟩ := writeBlock_loop hdata hseek hout
  refine ⟨⟨k, hends⟩, fun block hblock => ?_⟩
  subst hblock
  cases hres : out.1 with
  | error err =>
      rw [Outcome.andThen_error hres] at hout
      cases hout
  | ok _ =>
      rw [Outcome.andThen_ok hres] at hout
      have hall : request.data.length ≤ Cursor.offered f.device.fd.takes k := hok.mp hres
      have hback := (sameHistory_seekBack agentFiles out.2 request.custPos pos).2
      have htaken : out.2.accepted = f.accepted ++ request.data := by
        rw [hended.accepted, haccepted, htakes, List.take_of_length_le hall]
      cases hseekBack : (out.2.seekBack agentFiles request.custPos pos).1 with
      | error err =>
          rw [Outcome.andThen_error hseekBack] at hout
          cases hout
      | ok _ =>
          rw [Outcome.andThen_ok hseekBack] at hout
          cases hout
          exact ⟨Nat.mod_eq_of_lt hfits, hback.trans htaken⟩

/-- A device that brings the loop to an end brings the request to an end. -/
theorem writeBlock_ends {f f₁ : OpenFile AgentFile} {request : FileDataRequest} {pos : UInt64}
    (hdata : request.data ≠ []) (hseek : f.seekTo agentFiles request.custPos = (.ok pos, f₁))
    (hends : f.device.fd.BringsToEnd request.data.length) :
    ∃ fuel out, f.writeBlock agentFiles fuel request = some out := by
  have htakes := seekTo_takes hseek
  have hends₁ : ∃ k, Cursor.EndsAt f₁.device.fd.takes request.data.length k := htakes ▸ hends
  obtain ⟨fuel, out, hloop⟩ := (Cursor.drain_isSome_iff (f₁.write_follows request.data) f₁
    (f₁.written_zero request.data)).mpr hends₁
  refine ⟨fuel, ?_⟩
  rw [writeBlock_of_seekTo hdata hseek, hloop]
  exact ⟨_, rfl⟩

theorem writesWhole_iff (f : OpenFile AgentFile) (request : FileDataRequest)
    (hfits : request.data.length < UInt32.size) :
    f.WritesWhole request ↔ request.data = [] ∨ f.device.SeekRefused request.custPos ∨
      f.device.fd.BringsToEnd request.data.length := by
  by_cases hdata : request.data = []
  · apply iff_of_true _ (.inl hdata)
    refine ⟨0, .ok { length := 0 }, f, by simp [writeBlock, hdata], ?_⟩
    intro block hblock
    cases hblock
    rw [hdata, List.append_nil]
    exact ⟨rfl, rfl⟩
  · have hlength : request.data.length ≠ 0 :=
      fun hzero => hdata (List.eq_nil_of_length_eq_zero hzero)
    have hrefused := f.seekTo_refused_iff request.custPos
    rcases hseek : f.seekTo agentFiles request.custPos with ⟨err | pos, f₁⟩
    · rw [hseek] at hrefused
      apply iff_of_true _ (.inr (.inl (hrefused.mp rfl)))
      refine ⟨0, .error err, f₁, by simp [writeBlock, hlength, hseek], ?_⟩
      intro block hblock
      cases hblock
    · rw [hseek] at hrefused
      have hgoes : ¬ f.device.SeekRefused request.custPos := by
        intro hrefuses
        cases hrefused.mpr hrefuses
      rw [or_iff_right hdata, or_iff_right hgoes]
      constructor
      · rintro ⟨fuel, res, f', hout, -⟩
        exact (writeBlock_answer hdata hfits hseek hout).1
      · intro hends
        obtain ⟨fuel, ⟨res, f'⟩, hout⟩ := writeBlock_ends hdata hseek hends
        exact ⟨fuel, res, f', hout, (writeBlock_answer hdata hfits hseek hout).2⟩

end OpenFile

/-- The request of a client: a field of a message has less than 2 GiB. -/
abbrev WriteRequest : Type := { request : FileDataRequest // request.data.length < 2 ^ 31 }

/-- The write request of a client, in the agent: it comes to an end, and is answered
with success only when the device of its file has taken the whole data, in order,
and the answer says so. -/
def FileMap.WritesWhole (files : FileMap AgentFile) (request : WriteRequest) : Prop :=
  ∃ fuel res files', files.write agentFiles fuel request.val = some (res, files') ∧
    ∀ block, res = .ok block → ∃ f f',
      files[request.val.hdl]? = some f ∧ files'[request.val.hdl]? = some f' ∧
        block.length = request.val.data.length ∧ f'.accepted = f.accepted ++ request.val.data

theorem FileMap.writesWhole_iff_of_file {files : FileMap AgentFile} {request : WriteRequest}
    {f : OpenFile AgentFile} (hfile : files[request.val.hdl]? = some f) :
    files.WritesWhole request ↔ f.WritesWhole request.val := by
  unfold FileMap.WritesWhole FileMap.write FileMap.getFile
  rw [hfile]
  constructor
  · rintro ⟨fuel, res, files', hout, hblock⟩
    obtain ⟨⟨res, f'⟩, hwrite, hout⟩ := Option.map_eq_some_iff.mp hout
    cases hout
    refine ⟨fuel, res, f', hwrite, fun block hres => ?_⟩
    obtain ⟨f₁, f₂, hf₁, hf₂, hsame⟩ := hblock block hres
    cases hf₁
    rw [Table.getElem?_insert_self] at hf₂
    cases hf₂
    exact hsame
  · rintro ⟨fuel, res, f', hwrite, hblock⟩
    refine ⟨fuel, res, files.insert request.val.hdl f', by simp only [hwrite, Option.map_some], ?_⟩
    intro block hres
    refine ⟨f, f', rfl, ?_, hblock block hres⟩
    rw [Table.getElem?_insert_self]

/-- **The write loop.** For every file class, every request and everything the system
may answer: the loop does what it should exactly when the file is not there, nothing
is to be written, a seek before it is refused, or the answers of the device bring it
to an end. It hangs on a device that takes nothing more and does not fail. -/
theorem writesWhole_iff_bringsToEnd (files : FileMap AgentFile) (request : WriteRequest) :
    files.WritesWhole request ↔ ∀ f, files[request.val.hdl]? = some f →
      request.val.data = [] ∨ f.device.SeekRefused request.val.custPos ∨
        f.device.fd.BringsToEnd request.val.data.length := by
  have hfits : request.val.data.length < UInt32.size :=
    Nat.lt_trans request.property (by decide)
  cases hfile : files[request.val.hdl]? with
  | none =>
      apply iff_of_true
      · refine ⟨0, .error (.system EBADF "Bad file number."), files, ?_, ?_⟩
        · simp only [FileMap.write, FileMap.getFile, hfile]
        intro block hblock
        cases hblock
      · intro f hf
        cases hf
  | some f =>
      rw [FileMap.writesWhole_iff_of_file hfile, f.writesWhole_iff request.val hfits]
      constructor
      · intro hcond f' hf'
        cases hf'
        exact hcond
      · intro hcond
        exact hcond f rfl

/-- A file that takes no byte and reports no error. -/
def silentFile : OpenFile AgentFile where
  device := ⟨.file, { position := 0, seeks := fun _ => .ok 0, reads := fun _ => .ok [],
                      writes := fun _ => .took 0 none }⟩

theorem offered_silentFile (k : Nat) : Cursor.offered silentFile.device.fd.takes k = 0 := by
  induction k with
  | zero => rfl
  | succ k ih => exact ih

/-- The files of a client that has opened it. -/
def silentFiles : FileMap AgentFile := (∅ : FileMap AgentFile).insert 1 silentFile

/-- The request for one byte never comes back. -/
theorem silent_device_hangs :
    ¬ silentFiles.WritesWhole ⟨{ hdl := 1, data := [7] }, by decide⟩ := by
  have hfile : silentFiles[1]? = some silentFile := by
    rw [silentFiles, Table.getElem?_insert_self]
  rw [FileMap.writesWhole_iff_of_file hfile, silentFile.writesWhole_iff _ (by decide)]
  rintro (hempty | ⟨-, target, hnone, -⟩ | ⟨k, hends⟩)
  · cases hempty
  · cases hnone
  · cases hends.ends with
    | inl hall => rw [offered_silentFile] at hall; exact absurd hall (by decide)
    | inr hfails => cases hfails

end FerroRemote.Agent

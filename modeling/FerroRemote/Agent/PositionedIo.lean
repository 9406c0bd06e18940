/-
# Reading and writing at a position, and going back

A request may name a position and ask to go back afterwards. The handlers save the
position, go to the one of the request, transfer, and go back; but every way out in
between leaves the descriptor where it then is.
-/

import FerroRemote.Agent.WriteLoop

namespace FerroRemote.Agent

namespace Descriptor

/-- The seek behind the transfer is granted: it is the third one of a request. -/
def GrantsBack (fd : Descriptor) : Prop := (fd.seeks 2).toOption.isSome = true

/-- A read of `length` bytes at `target` leaves the descriptor where it was. -/
def ReadKeeps (fd : Descriptor) (target : CustomPosition) (length : Nat) : Prop :=
  ∀ q, fd.entry target = .ok q →
    if length = 0 then q = fd.position
    else match fd.reads 0 with
      | .error _ => q = fd.position
      | .ok data => fd.GrantsBack ∨
        q + Int64.ofNat (data.take (clampBlock length)).length = fd.position

/-- A write of `length` bytes at `target` leaves the descriptor where it was. -/
def WriteKeeps (fd : Descriptor) (target : CustomPosition) (length : Nat) : Prop :=
  length = 0 ∨ ∀ q, fd.entry target = .ok q → ∀ k, Cursor.EndsAt fd.takes length k →
    (length ≤ Cursor.offered fd.takes k ∧ fd.GrantsBack) ∨
      ({ fd with position := q } : Descriptor).landing length k = fd.position

/-- Where a loop leaves the descriptor depends on where it starts and on the
answers. -/
theorem landing_congr {fd fd' : Descriptor} (hposition : fd'.position = fd.position)
    (hwrites : fd'.writes = fd.writes) (length k : Nat) :
    fd'.landing length k = fd.landing length k := by
  have htakes : fd'.takes = fd.takes := by
    funext i
    exact congrArg (fun writes => (writes i).count) hwrites
  induction k with
  | zero => exact hposition
  | succ k ih => rw [landing, landing, ih, htakes, hwrites]

theorem goes_back {fd fd' : Descriptor} {i : Nat} {pos : Int64} (hpos : ¬ pos < 0)
    (hseeks : fd'.seeks 0 = fd.seeks i) :
    (fd'.goes 0 pos .set).toOption = (fd.seeks i).toOption.map fun _ => pos := by
  unfold goes
  rw [hseeks]
  cases fd.seeks i with
  | error code => rfl
  | ok fileEnd => simp only [hpos, if_false]; rfl

/-- A request that gets to its position was at one before. -/
theorem not_neg_of_entry {fd : Descriptor} {target : CustomPosition} {q : Int64}
    (hentry : fd.entry target = .ok q) : ¬ fd.position < 0 := by
  unfold entry at hentry
  cases hcur : fd.goes 0 0 .cur with
  | error code => rw [hcur] at hentry; cases hentry
  | ok pos => exact (goes_cur_zero hcur).2

theorem read_position (fd : Descriptor) (length : Nat) :
    (fd.read length).1.toOption.map (·.val) = (fd.reads 0).toOption.map (·.take length) ∧
      (fd.read length).2.position = fd.position + Int64.ofNat
        (((fd.reads 0).toOption.getD []).take length).length ∧
      (fd.read length).2.seeks = fd.seeks := by
  unfold read
  cases fd.reads 0 with
  | error code => exact ⟨rfl, by simp [Except.toOption], rfl⟩
  | ok data => exact ⟨rfl, rfl, rfl⟩

end Descriptor

namespace OpenFile

variable {f : OpenFile AgentFile} {target : CustomPosition}

/-- A request to go to its position: it is refused and stays, or it gets there. -/
theorem seekTo_cases (hos : f.device.cls.seeksOs = true) (target : CustomPosition) :
    (∃ err f₁, f.seekTo agentFiles (some target) = (.error err, f₁) ∧
        f₁.device.fd.position = f.device.fd.position ∧
        ∀ q, f.device.fd.entry target ≠ .ok q) ∨
      ∃ f₁, f.seekTo agentFiles (some target) = (.ok f.device.fd.position.toUInt64, f₁) ∧
        f.device.fd.entry target = .ok f₁.device.fd.position ∧
        f₁.device.fd.seeks = fun i => f.device.fd.seeks (2 + i) := by
  obtain ⟨hres, hposition, hseeks⟩ := seekTo_of_seeksOs hos target
  cases hentry : f.device.fd.entry target with
  | error code =>
      rw [hentry] at hres hposition
      rcases hout : f.seekTo agentFiles (some target) with ⟨err | pos, f₁⟩
      · rw [hout] at hposition
        exact .inl ⟨err, f₁, rfl, hposition, fun q hq => nomatch hq⟩
      · rw [hout] at hres
        cases hres
  | ok q =>
      rw [hentry] at hres hposition hseeks
      rcases hout : f.seekTo agentFiles (some target) with ⟨err | pos, f₁⟩
      · rw [hout] at hres
        cases hres
      · rw [hout] at hres hposition hseeks
        cases hres
        exact .inr ⟨f₁, rfl, congrArg Except.ok hposition.symm, hseeks rfl⟩

theorem seekBack_position {fd : Descriptor} (hos : f.device.cls.seeksOs = true)
    (hback : target.setBack = true) (hpos : ¬ fd.position < 0)
    (hseeks : f.device.fd.seeks 0 = fd.seeks 2) :
    (f.seekBack agentFiles (some target) fd.position.toUInt64).2.device.fd.position =
        fd.position ↔
      fd.GrantsBack ∨ f.device.fd.position = fd.position := by
  obtain ⟨-, hposition, -⟩ := seek_andThen hos fd.position .set ()
  have hgoes := Descriptor.goes_back hpos hseeks
  have hasked : (some target : Option CustomPosition).any (·.setBack) = true := hback
  rw [seekBack, if_pos hasked, Int64.toInt64_toUInt64, hposition, hgoes, Descriptor.GrantsBack]
  cases fd.seeks 2 with
  | error code => simp [Except.toOption]
  | ok fileEnd => simp [Except.toOption]

theorem read_of_seeksOs (hos : f.device.cls.seeksOs = true) (buffer length : Nat) :
    (f.read agentFiles.toByteDevice buffer length).1.toOption =
        (f.device.fd.reads 0).toOption.map (·.take length) ∧
      (f.read agentFiles.toByteDevice buffer length).2.device =
        ⟨f.device.cls, (f.device.fd.read length).2⟩ := by
  have hres := (f.device.fd.read_position length).1
  have hread := FileClass.read_of_seeksOs hos f.device.fd length
  simp only [read, agentFiles, hread]
  generalize f.device.fd.read length = out at hres ⊢
  rcases out with ⟨code | data, fd⟩
  · exact ⟨hres, rfl⟩
  · exact ⟨hres, rfl⟩

theorem andThen_answer {S α β : Type} (out : Outcome S α) (answer : β) :
    (out.andThen fun _ s => (.ok answer, s)).2 = out.2 := by
  rcases out with ⟨err | a, s⟩
  · rfl
  · rfl

theorem readBlock_keeps_iff (hos : f.device.cls.seeksOs = true) {request : FileDataRequest}
    (hcust : request.custPos = some target) (hback : target.setBack = true) :
    (f.readBlock agentFiles request).2.device.fd.position = f.device.fd.position ↔
      f.device.fd.ReadKeeps target request.length := by
  have hscripts := f.seekTo_scripts (some target)
  rcases seekTo_cases hos target with ⟨err, f₁, hseek, hstays, hnone⟩ | ⟨f₁, hseek, hentry, hseeks⟩
  · rw [readBlock, hcust, hseek]
    exact iff_of_true hstays fun q hq => absurd hq (hnone q)
  · rw [hseek] at hscripts
    obtain ⟨hcls, -, hreads⟩ := hscripts
    have hos₁ : f₁.device.cls.seeksOs = true := hcls ▸ hos
    have hclamp : clampBlock request.length = 0 ↔ request.length = 0 := by
      unfold clampBlock
      split <;> omega
    have hblock : f.readBlock agentFiles request =
        if request.length = 0 then (.ok {}, f₁)
        else (f₁.read agentFiles.toByteDevice (clampBlock request.length)
            (clampBlock request.length)).andThen fun data f₂ =>
          (f₂.seekBack agentFiles (some target) f.device.fd.position.toUInt64).andThen fun _ f =>
            (.ok { data := data }, f) := by
      simp only [readBlock, hcust, hseek, hclamp]
      rfl
    simp only [hblock, Descriptor.ReadKeeps, hentry, Except.ok.injEq, forall_eq']
    by_cases hzero : request.length = 0
    · rw [if_pos hzero, if_pos hzero]
    · rw [if_neg hzero, if_neg hzero]
      obtain ⟨hres, hdevice⟩ := read_of_seeksOs hos₁ (clampBlock request.length)
        (clampBlock request.length)
      obtain ⟨-, hposition, hlater⟩ := f₁.device.fd.read_position (clampBlock request.length)
      rw [hreads] at hres hposition
      rcases hread : f₁.read agentFiles.toByteDevice (clampBlock request.length)
        (clampBlock request.length) with ⟨err | data, f₂⟩
      · rw [hread] at hres hdevice
        cases hanswer : f.device.fd.reads 0 with
        | ok data => rw [hanswer] at hres; cases hres
        | error code =>
            rw [hanswer] at hposition
            rw [Outcome.andThen_error rfl, hdevice, hposition]
            simp [Except.toOption]
      · rw [hread] at hres hdevice
        cases hanswer : f.device.fd.reads 0 with
        | error code => rw [hanswer] at hres; cases hres
        | ok answer =>
            rw [hanswer] at hposition
            have hos₂ : f₂.device.cls.seeksOs = true := by rw [hdevice]; exact hos₁
            have hseeks₂ : f₂.device.fd.seeks 0 = f.device.fd.seeks 2 := by
              rw [hdevice, hlater, hseeks]
            rw [Outcome.andThen_ok rfl, andThen_answer,
              seekBack_position hos₂ hback (Descriptor.not_neg_of_entry hentry) hseeks₂, hdevice,
              hposition]
            rfl

theorem writeBlock_position (hos : f.device.cls.seeksOs = true) {request : FileDataRequest}
    (hdata : request.data ≠ []) (hcust : request.custPos = some target)
    (hback : target.setBack = true) {f₁ : OpenFile AgentFile}
    (hseek : f.seekTo agentFiles (some target) = (.ok f.device.fd.position.toUInt64, f₁))
    (hentry : f.device.fd.entry target = .ok f₁.device.fd.position)
    (hseeks : f₁.device.fd.seeks = fun i => f.device.fd.seeks (2 + i)) {fuel : Nat}
    {res : Except Error FileDataBlock} {f' : OpenFile AgentFile}
    (hout : f.writeBlock agentFiles fuel request = some (res, f')) :
    ∃ k, Cursor.EndsAt f.device.fd.takes request.data.length k ∧
      (f'.device.fd.position = f.device.fd.position ↔
        (request.data.length ≤ Cursor.offered f.device.fd.takes k ∧ f.device.fd.GrantsBack) ∨
          f₁.device.fd.landing request.data.length k = f.device.fd.position) := by
  have hos₁ : f₁.device.cls.seeksOs = true := by
    have hcls := (f.seekTo_scripts (some target)).1
    rw [hseek] at hcls
    exact hcls ▸ hos
  rw [← hcust] at hseek
  obtain ⟨out, k, hends, hended, hok, hout⟩ := writeBlock_loop hdata hseek hout
  refine ⟨k, hends, ?_⟩
  have hstate : _ = f' := congrArg Prod.snd hout
  cases hres : out.1 with
  | error err =>
      have hrest : ¬ request.data.length ≤ Cursor.offered f.device.fd.takes k := by
        intro hall
        rw [hok.mpr hall] at hres
        cases hres
      rw [Outcome.andThen_error hres] at hstate
      rw [← hstate, hended.position hos₁, or_iff_right (fun hall => hrest hall.1)]
  | ok _ =>
      have hos₂ : out.2.device.cls.seeksOs = true := by rw [hended.cls]; exact hos₁
      have hseeks₂ : out.2.device.fd.seeks 0 = f.device.fd.seeks 2 := by
        rw [hended.seeks hos₁, hseeks]
      rw [Outcome.andThen_ok hres, andThen_answer, hcust] at hstate
      rw [← hstate, seekBack_position hos₂ hback (Descriptor.not_neg_of_entry hentry) hseeks₂,
        hended.position hos₁, and_iff_right (hok.mp hres)]

theorem writeBlock_keeps_iff (hos : f.device.cls.seeksOs = true) {request : FileDataRequest}
    (hcust : request.custPos = some target) (hback : target.setBack = true) :
    (∀ fuel res f', f.writeBlock agentFiles fuel request = some (res, f') →
        f'.device.fd.position = f.device.fd.position) ↔
      f.device.fd.WriteKeeps target request.data.length := by
  by_cases hdata : request.data = []
  · apply iff_of_true _ (.inl (by rw [hdata, List.length_nil]))
    intro fuel res f' hout
    simp only [writeBlock, hdata, List.length_nil, if_true, Option.some.injEq, Prod.mk.injEq] at hout
    rw [← hout.2]
  · have hlength : request.data.length ≠ 0 :=
      fun hzero => hdata (List.eq_nil_of_length_eq_zero hzero)
    rw [Descriptor.WriteKeeps, or_iff_right hlength]
    rcases seekTo_cases hos target with
      ⟨err, f₁, hseek, hstays, hnone⟩ | ⟨f₁, hseek, hentry, hseeks⟩
    · apply iff_of_true
      · intro fuel res f' hout
        simp only [writeBlock, hlength, if_false, hcust, hseek, Option.some.injEq,
          Prod.mk.injEq] at hout
        rw [← hout.2, hstays]
      · intro q hq
        exact absurd hq (hnone q)
    · have hlanding : ∀ k, f₁.device.fd.landing request.data.length k =
          ({ f.device.fd with position := f₁.device.fd.position } : Descriptor).landing
            request.data.length k := by
        intro k
        have hwrites := (f.seekTo_scripts (some target)).2.1
        have hposition : f₁.device.fd.position =
            ({ f.device.fd with position := f₁.device.fd.position } : Descriptor).position := rfl
        rw [hseek] at hwrites
        exact Descriptor.landing_congr hposition hwrites _ k
      simp only [hentry, Except.ok.injEq, forall_eq', ← hlanding]
      have hseek' := hseek
      rw [← hcust] at hseek'
      constructor
      · intro hkeeps k hends
        obtain ⟨fuel, ⟨res, f'⟩, hout⟩ := writeBlock_ends hdata hseek' ⟨k, hends⟩
        obtain ⟨j, hends', hiff⟩ :=
          writeBlock_position hos hdata hcust hback hseek hentry hseeks hout
        rw [hends.unique hends']
        exact hiff.mp (hkeeps fuel res f' hout)
      · intro hkeeps fuel res f' hout
        obtain ⟨k, hends, hiff⟩ :=
          writeBlock_position hos hdata hcust hback hseek hentry hseeks hout
        exact hiff.mpr (hkeeps k hends)

end OpenFile

def FileMap.positionOf (files : FileMap AgentFile) (hdl : Nat) : Option Int64 :=
  files[hdl]?.map (·.device.fd.position)

/-- **Positioned reads and writes.** On a file with the system's seeks, a request
with a position of its own that asks to go back leaves the descriptor where it was
exactly under `ReadKeeps` for a read and `WriteKeeps` for a write: it goes back only
after a transfer that did not fail and was not empty. -/
theorem position_kept_iff (files : FileMap AgentFile) (request : FileDataRequest)
    (f : OpenFile AgentFile) (target : CustomPosition) (hfile : files[request.hdl]? = some f)
    (hos : f.device.cls.seeksOs = true) (hcust : request.custPos = some target)
    (hback : target.setBack = true) :
    ((files.read agentFiles request).2.positionOf request.hdl = files.positionOf request.hdl ↔
        f.device.fd.ReadKeeps target request.length) ∧
      ((∀ fuel res files', files.write agentFiles fuel request = some (res, files') →
          files'.positionOf request.hdl = files.positionOf request.hdl) ↔
        f.device.fd.WriteKeeps target request.data.length) := by
  constructor
  · rw [← OpenFile.readBlock_keeps_iff hos hcust hback]
    simp only [FileMap.read, FileMap.getFile, hfile, FileMap.positionOf,
      Table.getElem?_insert_eq, if_true, Option.map_some, Option.some.injEq]
  · rw [← OpenFile.writeBlock_keeps_iff hos hcust hback]
    simp only [FileMap.write, FileMap.getFile, hfile, FileMap.positionOf, Option.map_some]
    constructor
    · intro hkeeps fuel res f' hout
      have hposition := hkeeps fuel res (files.insert request.hdl f') (by rw [hout]; rfl)
      rw [Table.getElem?_insert_self] at hposition
      exact Option.some.inj hposition
    · intro hkeeps fuel res files' hout
      obtain ⟨⟨res, f'⟩, hwrite, hout⟩ := Option.map_eq_some_iff.mp hout
      cases hout
      rw [Table.getElem?_insert_self]
      exact congrArg some (hkeeps fuel res f' hwrite)

/-- It gives two bytes and grants every seek. -/
def fileAtFive : OpenFile AgentFile where
  device := ⟨.file, { position := 5, seeks := fun _ => .ok 9, reads := fun _ => .ok [1, 2],
                      writes := fun _ => .took 1 none }⟩

def filesAtFive : FileMap AgentFile := (∅ : FileMap AgentFile).insert 1 fileAtFive

/-- A request at position three that asks to go back. -/
def atThree : CustomPosition := { position := 3, whence := 0, setBack := true }

/-- A read of nothing does not go back. -/
theorem position_moved_by_empty_read :
    (filesAtFive.read agentFiles { hdl := 1, length := 0, custPos := some atThree }).2.positionOf
      1 ≠ filesAtFive.positionOf 1 := by decide +kernel

/-- A read that gets something does. -/
theorem position_kept_by_read :
    (filesAtFive.read agentFiles { hdl := 1, length := 4, custPos := some atThree }).2.positionOf
      1 = filesAtFive.positionOf 1 := by
  apply (position_kept_iff filesAtFive { hdl := 1, length := 4, custPos := some atThree }
    fileAtFive atThree _ rfl rfl rfl).1.mpr
  · intro q _
    exact .inl rfl
  · rw [filesAtFive, Table.getElem?_insert_self]

end FerroRemote.Agent

/-
# Ownership along runs

Each operation of the agent keeps the invariant `Sound` when it destroys no
entry of the reactor's table for an open descriptor, and destroying such an
entry writes a `close` of the reactor's into the history. Together the two
halves characterise the runs in which ownership holds.
-/

import Mathlib.Data.List.Nodup
import FerroRemote.Agent.Ownership

namespace FerroRemote.Agent

namespace AgentState

/-- A reactor operation left the descriptors and the history alone. -/
def Quiet (r r' : PollReactor) : Prop := r'.kernel.fds = r.kernel.fds ∧ r'.kernel.log = r.kernel.log

theorem Sound.quiet {locals : List FileObject} {s : AgentState} (hs : Sound locals s)
    {r : PollReactor} (hquiet : Quiet s.react r) : Sound locals { s with react := r } :=
  hs.congr hquiet.1 hquiet.2 rfl rfl rfl fun _ => rfl

theorem quiet_addFd {r : PollReactor} {fd : Fd} {events : Nat} {cb : Reaction}
    {fault : Option Errno} (haccepts : r.AcceptsFd fd events fault) :
    Quiet r (r.addFd fd events cb fault).2 := by
  rcases r.addFd_cases fd events cb fault with ⟨h, -, -⟩ | ⟨code, -, hrefused, -⟩ | ⟨code, -, h⟩
  · rw [h]
    exact ⟨rfl, rfl⟩
  · exact absurd haccepts hrefused
  · rw [h]
    exact ⟨rfl, rfl⟩

theorem quiet_delFd {r : PollReactor} {fd : Fd} (hfree : fd ∉ r.react) : Quiet r (r.delFd fd) := by
  rw [PollReactor.delFd_of_not_mem hfree]
  exact ⟨rfl, rfl⟩

theorem Sound.addFile {s : AgentState} {f : FileObject} (hs : Sound [f] s) {inst : Nat}
    (hinst : inst ∈ s.files) : Sound [] (s.addFile inst f).2 := by
  have hcount : Sound [f] s.nextIndex.2 := hs.congr rfl rfl rfl rfl rfl fun _ => rfl
  have hold : ∀ hdl : Nat, (s.nextIndex.2.filesOf inst)[hdl]? = (s.filesOf inst)[hdl]? :=
    fun _ => rfl
  cases hclash : (s.filesOf inst)[s.nextIndex.1]? with
  | none =>
      have hfree : (s.nextIndex.2.filesOf inst)[s.nextIndex.1]? = none := hclash
      have hplaced := hcount.placeFile hinst hfree
      simpa [AgentState.addFile, hold, hclash] using hplaced
  | some old =>
      -- the number is in use: the new file takes the old one's place
      have hused : (s.nextIndex.2.filesOf inst)[s.nextIndex.1]? = some old := hclash
      have htaken := (hcount.takeFile hused).perm (List.Perm.swap f old [])
      have hinst' : inst ∈ (s.nextIndex.2.setFiles inst
          ((s.nextIndex.2.filesOf inst).erase s.nextIndex.1)).files := Std.ExtTreeMap.mem_insert_self
      have hfree : ((s.nextIndex.2.setFiles inst
          ((s.nextIndex.2.filesOf inst).erase s.nextIndex.1)).filesOf inst)[s.nextIndex.1]? = none := by
        rw [filesOf_setFiles, if_pos rfl, Table.getElem?_erase_self]
      have hplaced := htaken.placeFile hinst' hfree
      rw [filesOf_setFiles, if_pos rfl, Table.insert_erase_self, setFiles_setFiles] at hplaced
      simpa [AgentState.addFile, hold, hclash] using hplaced.destroyFile

theorem Sound.fileOpen {s : AgentState} (hs : Sound [] s) {inst : Nat} (hinst : inst ∈ s.files)
    {res : Except Error Fd} (hunused : s.react.kernel.Unused res) : Sound [] (s.fileOpen inst res).2 := by
  cases res with
  | error err => exact hs
  | ok fd => exact (hs.newFile (hunused fd rfl)).addFile hinst

theorem Sound.fileRegister {s : AgentState} (hs : Sound [] s) {inst hdl : Nat}
    {fault : Option Errno} (hspares : s.Spares (.fileRegister inst hdl fault)) :
    Sound [] (s.fileRegister inst hdl fault).2 := by
  cases hf : (s.filesOf inst)[hdl]? with
  | none => simpa [AgentState.fileRegister, getFile, hf] using hs
  | some f =>
      have hcount : Sound [] s.nextOpId.2 := hs.congr rfl rfl rfl rfl rfl fun _ => rfl
      rw [fileRegister_of_some hf]
      exact hcount.quiet (quiet_addFd (hspares f hf))

theorem Sound.fileUnregister {s : AgentState} (hs : Sound [] s) {inst hdl : Nat}
    (hspares : s.Spares (.fileUnregister inst hdl)) : Sound [] (s.fileUnregister inst hdl).2 := by
  cases hf : (s.filesOf inst)[hdl]? with
  | none => simpa [AgentState.fileUnregister, getFile, hf] using hs
  | some f =>
      rw [AgentState.fileUnregister, getFile_of_some hf]
      exact hs.quiet (quiet_delFd (hspares f hf))

theorem Sound.fileClose {s : AgentState} (hs : Sound [] s) {inst hdl : Nat}
    (hspares : s.Spares (.fileClose inst hdl)) : Sound [] (s.fileClose inst hdl) := by
  cases hf : (s.filesOf inst)[hdl]? with
  | none => simpa [AgentState.fileClose, hf] using hs
  | some f =>
      have hdel := hs.quiet (quiet_delFd (hspares f hf))
      have hf' : (filesOf { s with react := s.react.delFd f.fd } inst)[hdl]? = some f := hf
      rw [fileClose_of_some hf]
      exact (hdel.takeFile hf').destroyFile

theorem Sound.delFds {s : AgentState} (hs : Sound [] s) (fs : List FileObject)
    (hfree : ∀ f ∈ fs, f.fd ∉ s.react.react) :
    Sound [] (fs.foldl (fun s f => { s with react := s.react.delFd f.fd }) s) := by
  induction fs generalizing s with
  | nil => exact hs
  | cons f fs ih =>
      refine ih (hs.quiet (quiet_delFd (hfree f List.mem_cons_self))) fun g hg hmem => ?_
      rw [PollReactor.delFd_react] at hmem
      exact hfree g (List.mem_cons_of_mem _ hg) (Std.ExtTreeMap.mem_erase.mp hmem).2

/-- When an instance goes, its files go to the stack of its destructor. -/
theorem Sound.takeAll {s : AgentState} (hs : Sound [] s) (inst : Nat) :
    Sound ((s.filesOf inst).toList.map (·.2)) { s with files := s.files.erase inst } := by
  have hfilesOf : ∀ inst' : Nat, filesOf { s with files := s.files.erase inst } inst' =
      if inst = inst' then ∅ else s.filesOf inst' := by
    intro inst'
    simp only [filesOf, Table.getElem?_erase_eq]
    split <;> rfl
  have hkept : ∀ {inst' hdl : Nat} {g : FileObject},
      (filesOf { s with files := s.files.erase inst } inst')[hdl]? = some g →
        inst ≠ inst' ∧ (s.filesOf inst')[hdl]? = some g := by
    intro inst' hdl g hg
    rw [hfilesOf] at hg
    split at hg
    · cases hg
    · next hne => exact ⟨hne, hg⟩
  have hstack : ∀ f : FileObject, f ∈ (s.filesOf inst).toList.map (·.2) ↔
      ∃ hdl : Nat, (s.filesOf inst)[hdl]? = some f := by
    intro f
    rw [List.mem_map]
    constructor
    · intro hmem
      obtain ⟨⟨hdl, g⟩, hentry, rfl⟩ := hmem
      exact ⟨hdl, Std.ExtTreeMap.mem_toList_iff_getElem?_eq_some.mp hentry⟩
    · intro hexists
      obtain ⟨hdl, hf⟩ := hexists
      exact ⟨(hdl, f), Std.ExtTreeMap.mem_toList_iff_getElem?_eq_some.mpr hf, rfl⟩
  refine ⟨hs.ledger, ?_, hs.unborn, hs.unopened, ?_, ?_, ?_, hs.handleOpened, ?_, hs.bornPins,
    hs.bornHelpers⟩
  · intro owner fd
    rw [show fds { s with files := s.files.erase inst } = s.fds from rfl, ← hs.holds_iff owner fd]
    cases owner with
    | file id =>
        simp only [Holds, hstack, List.not_mem_nil, or_false]
        constructor
        · intro hholds
          rcases hholds with ⟨inst', hdl, hg⟩ | ⟨hdl, hf⟩
          · exact ⟨inst', hdl, (hkept hg).2⟩
          · exact ⟨inst, hdl, hf⟩
        · intro hholds
          obtain ⟨inst', hdl, hg⟩ := hholds
          by_cases heq : inst = inst'
          · exact .inr ⟨hdl, heq ▸ hg⟩
          · exact .inl ⟨inst', hdl, by rw [hfilesOf, if_neg heq]; exact hg⟩
    | helper h => rfl
  · intro inst₁ inst₂ hdl₁ hdl₂ f₁ f₂ h₁ h₂ heq
    exact hs.fileKey (hkept h₁).2 (hkept h₂).2 heq
  · -- one instance cannot list a file under two handles
    rw [List.map_map]
    refine List.Nodup.map_on ?_ (Table.nodup_toList _)
    intro a ha b hb heq
    have hfa := Std.ExtTreeMap.mem_toList_iff_getElem?_eq_some.mp ha
    have hfb := Std.ExtTreeMap.mem_toList_iff_getElem?_eq_some.mp hb
    have hkey := (hs.fileKey hfa hfb heq).2
    rw [hkey, hfb] at hfa
    exact Prod.ext hkey (Option.some.inj hfa).symm
  · intro f g inst' hdl hmem hg heq
    obtain ⟨hdl', hf⟩ := (hstack f).mp hmem
    exact (hkept hg).1 (hs.fileKey hf (hkept hg).2 heq).1
  · intro inst' hmem
    exact hs.bornFiles inst' (Std.ExtTreeMap.mem_erase.mp hmem).2

theorem Sound.fileDisconnect {s : AgentState} (hs : Sound [] s) {inst : Nat}
    (hspares : s.Spares (.fileDisconnect inst)) : Sound [] (s.fileDisconnect inst) := by
  have hfree : ∀ f ∈ (s.filesOf inst).toList.map (·.2), f.fd ∉ s.react.react := by
    intro f hmem
    obtain ⟨⟨hdl, g⟩, hentry, rfl⟩ := List.mem_map.mp hmem
    exact hspares hdl g (Std.ExtTreeMap.mem_toList_iff_getElem?_eq_some.mp hentry)
  have hdeleted := hs.delFds _ hfree
  have hfiles : (s.destroyAll inst).files = s.files := by
    have hfold : ∀ (fs : List FileObject) (s : AgentState),
        (fs.foldl (fun s f => { s with react := s.react.delFd f.fd }) s).files = s.files := by
      intro fs
      induction fs with
      | nil => exact fun s => rfl
      | cons f fs ih => exact fun s => ih _
    exact hfold _ s
  have htaken := hdeleted.takeAll inst
  have hsame : (s.destroyAll inst).filesOf inst = s.filesOf inst := by
    rw [filesOf, filesOf, hfiles]
  rw [AgentState.fileDisconnect, ← hsame]
  exact htaken.destroyFiles

theorem Sound.connectFiles {s : AgentState} (hs : Sound [] s) : Sound [] s.connectFiles := by
  have hold : s.files[s.born]? = none := by
    rw [← Table.not_mem_iff]
    exact fun hmem => Nat.lt_irrefl _ (hs.bornFiles _ hmem)
  have hfilesOf : ∀ inst : Nat, s.connectFiles.filesOf inst = s.filesOf inst := by
    intro inst
    simp only [AgentState.connectFiles, filesOf, Table.getElem?_insert_eq]
    split
    · next heq => rw [← heq, hold]; rfl
    · rfl
  refine ⟨hs.ledger, ?_, fun owner hle => hs.unborn owner (Nat.le_of_succ_le hle), hs.unopened, ?_,
    hs.localsNodup, ?_, hs.handleOpened, ?_,
    fun inst hmem => Nat.lt_succ_of_lt (hs.bornPins inst hmem),
    fun h hmem => Nat.lt_succ_of_lt (hs.bornHelpers h hmem)⟩
  · intro owner fd
    rw [show s.connectFiles.fds = s.fds from rfl, ← hs.holds_iff owner fd]
    cases owner with
    | file id => simp only [Holds, hfilesOf]
    | helper h => rfl
  · intro inst inst' hdl hdl' f g
    rw [hfilesOf, hfilesOf]
    exact hs.fileKey
  · intro f g inst hdl hmem
    cases hmem
  · exact Table.forall_lt_insert ∅ hs.bornFiles

theorem valueFdOf_update {s : AgentState} {g : Nat} {impl impl' : GpioHelper}
    (himpl : s.helpers[g]? = some impl) (hfd : impl'.valueFd = impl.valueFd) (h : Nat) :
    (s.helpers.insert g impl')[h]?.map (·.valueFd) = s.valueFdOf h := by
  rw [Table.getElem?_insert_eq, valueFdOf]
  split
  · next heq => rw [← heq, himpl, Option.map_some, Option.map_some, hfd]
  · rfl

theorem Sound.fileOwner {locals : List FileObject} {s : AgentState} (hs : Sound locals s)
    {inst hdl : Nat} {f : FileObject} (hf : (s.filesOf inst)[hdl]? = some f) :
    s.fds[f.fd]? = some (.file f.id) :=
  (hs.holds_iff (.file f.id) f.fd).mp (.inl ⟨inst, hdl, hf⟩)

theorem Sound.helperOwner {locals : List FileObject} {s : AgentState} (hs : Sound locals s)
    {g : Nat} {impl : GpioHelper} {fd : Fd} (himpl : s.helpers[g]? = some impl)
    (hfd : impl.valueFd = some fd) : s.fds[fd]? = some (.helper g) := by
  apply (hs.holds_iff (.helper g) fd).mp
  rw [Holds, valueFdOf, himpl, ← hfd]
  rfl

theorem Sound.handleHelper {locals : List FileObject} {s : AgentState} (hs : Sound locals s)
    {inst hdl g : Nat} (hg : (s.pinsOf inst)[hdl]? = some g) :
    ∃ impl fd, s.helpers[g]? = some impl ∧ impl.valueFd = some fd := by
  obtain ⟨fd, hfd⟩ := hs.handleOpened hg
  rw [valueFdOf, Option.map_eq_some_iff] at hfd
  obtain ⟨impl, himpl, hvalue⟩ := hfd
  exact ⟨impl, fd, himpl, hvalue⟩

theorem Sound.release {s : AgentState} (hs : Sound [] s) (h : Nat) : Sound [] (s.release h) := by
  rw [AgentState.release]
  split
  · exact hs
  · next hfree =>
      cases himpl : s.helpers[h]? with
      | none => exact hs
      | some impl => exact hs.destroyHelper himpl (not_handle_of_not_referenced hfree)

theorem Sound.openPin {s : AgentState} (hs : Sound [] s) (pin : Nat) :
    Sound [] (s.openPin pin).2 := by
  rcases s.openPin_cases pin with ⟨h, -, heq⟩ | heq
  · rw [heq]
    exact hs
  · rw [heq]
    exact hs.newHelper rfl rfl rfl rfl pin rfl

theorem openPin_fds (s : AgentState) (pin : Nat) : (s.openPin pin).2.fds = s.fds := by
  rcases s.openPin_cases pin with ⟨h, -, heq⟩ | heq <;> rw [heq]

/-- `value_fd` of a helper: what it returns is the helper's own descriptor. -/
theorem Sound.openValueFd {s : AgentState} (hs : Sound [] s) (g : Nat) {res : Except Errno Fd}
    (hunused : s.react.kernel.Unused res) :
    Sound [] (s.onHelper g fun r impl => impl.openValueFd g r res).2 ∧
      ∀ fd, (s.onHelper g fun r impl => impl.openValueFd g r res).1 = .ok fd →
        (s.onHelper g fun r impl => impl.openValueFd g r res).2.valueFdOf g = some (some fd) := by
  cases himpl : s.helpers[g]? with
  | none => simpa [onHelper, himpl] using hs
  | some impl =>
      cases hfd : impl.valueFd with
      | some fd =>
          rw [onHelper_openValueFd himpl hfd]
          refine ⟨hs, fun fd' heq => ?_⟩
          cases heq
          rw [valueFdOf, himpl, ← hfd]
          rfl
      | none =>
          cases res with
          | error code =>
              simpa [onHelper, himpl, GpioHelper.openValueFd, hfd, Table.insert_of_getElem? himpl]
                using hs
          | ok fd =>
              have hopened := hs.openHelper (hunused fd rfl) himpl hfd
              simp only [onHelper, himpl, GpioHelper.openValueFd, hfd]
              refine ⟨hopened, fun fd' heq => ?_⟩
              cases heq
              simp [valueFdOf]

/-! ## The gpio service -/

theorem Sound.setPins {s : AgentState} (hs : Sound [] s) {inst : Nat} (hinst : inst ∈ s.pins)
    {t : Table Nat} (hopened : ∀ {hdl g : Nat}, t[hdl]? = some g →
      ∃ fd, s.valueFdOf g = some (some fd)) : Sound [] (s.setPins inst t) := by
  refine hs.setHandles ?_ ?_
  · exact Table.forall_mem_insert t (hs.bornPins inst hinst) hs.bornPins
  · intro inst' hdl g hg
    have hlookup := s.pinsOf_setPins inst inst' t
    rw [pinsOf, AgentState.setPins] at hlookup
    rw [hlookup] at hg
    split at hg
    · exact hopened hg
    · exact hs.handleOpened hg

theorem Sound.connectPins {s : AgentState} (hs : Sound [] s) : Sound [] s.connectPins := by
  have hborn : Sound [] { s with born := s.born + 1 } :=
    ⟨hs.ledger, hs.holds_iff, fun owner hle => hs.unborn owner (Nat.le_of_succ_le hle), hs.unopened,
      hs.fileKey, hs.localsNodup, hs.localsApart, hs.handleOpened,
      fun inst hmem => Nat.lt_succ_of_lt (hs.bornFiles inst hmem),
      fun inst hmem => Nat.lt_succ_of_lt (hs.bornPins inst hmem),
      fun h hmem => Nat.lt_succ_of_lt (hs.bornHelpers h hmem)⟩
  refine hborn.setHandles ?_ ?_
  · exact Table.forall_lt_insert ∅ hs.bornPins
  · intro inst hdl g hg
    rw [Table.getElem?_insert_eq] at hg
    split at hg
    · simp at hg
    · exact hborn.handleOpened hg

theorem Sound.finishOpen {s : AgentState} (hs : Sound [] s) {inst : Nat} (hinst : inst ∈ s.pins)
    (ng newid : Nat) (setup : Option Error) {res : Except Errno Fd}
    (hunused : s.react.kernel.Unused res) :
    Sound [] (s.finishOpen ng inst newid setup res).2 := by
  cases setup with
  | some err => exact hs
  | none =>
      have hopen := hs.openValueFd ng hunused
      simp only [AgentState.finishOpen]
      split
      · next heq =>
          have hstate := congrArg Prod.snd heq
          exact hstate ▸ hopen.1
      · next s' heq =>
          have hstate : _ = s' := congrArg Prod.snd heq
          obtain ⟨hkept, hvalue⟩ := hopen
          have hfd := hvalue _ (congrArg Prod.fst heq)
          rw [hstate] at hkept hfd
          have hpins : s'.pins = s.pins := by rw [← hstate, (s.onHelper_tables _ _).pins]
          refine hkept.setPins (by rw [hpins]; exact hinst) ?_
          intro hdl g hg
          rw [Table.getElem?_insertIfNew_eq] at hg
          split at hg
          · cases hg
            exact ⟨_, hfd⟩
          · exact hkept.handleOpened hg

theorem Sound.gpioOpen {s : AgentState} (hs : Sound [] s) {inst : Nat} (hinst : inst ∈ s.pins)
    (pin : Nat) (setup : Option Error) {res : Except Errno Fd}
    (hunused : s.react.kernel.Unused res) : Sound [] (s.gpioOpen inst pin setup res).2 := by
  have hcount : Sound [] s.nextIndex.2 := hs.congr rfl rfl rfl rfl rfl fun _ => rfl
  have hpins := (s.nextIndex_tables.trans (s.nextIndex.2.openPin_tables pin)).pins
  have hunused' : (s.nextIndex.2.openPin pin).2.react.kernel.Unused res := by
    intro fd heq
    rw [← fds, openPin_fds]
    exact hunused fd heq
  have hfinished := (hcount.openPin pin).finishOpen (by rw [hpins]; exact hinst)
    (s.nextIndex.2.openPin pin).1 s.nextIndex.1 setup hunused'
  exact hfinished.release _

theorem Sound.gpioRegister {s : AgentState} (hs : Sound [] s) {inst hdl : Nat}
    {res : Except Errno Fd} {fault : Option Errno}
    (hspares : s.Spares (.gpioRegister inst hdl res fault)) :
    Sound [] (s.gpioRegister inst hdl res fault).2 := by
  cases hg : (s.pinsOf inst)[hdl]? with
  | none => simpa [AgentState.gpioRegister, gpioByIndex, hg] using hs
  | some g =>
      obtain ⟨impl, fd, himpl, hfd⟩ := hs.handleHelper hg
      have hquiet : Quiet s.react (if impl.connections.isEmpty then
          (s.react.addFd fd GpioHelper.reactorEvents (.pinEvent g) fault).2 else s.react) := by
        split
        · next hempty => exact quiet_addFd (hspares g impl fd hg himpl hfd hempty)
        · exact ⟨rfl, rfl⟩
      simp only [AgentState.gpioRegister, gpioByIndex, hg, registerForChange_of_opened himpl hfd,
        onHelper_of_some himpl, GpioHelper.addReactorAction_of_opened hfd]
      exact hs.congr hquiet.1 hquiet.2 rfl rfl rfl (valueFdOf_update himpl rfl)

theorem Sound.withoutAction {s : AgentState} (hs : Sound [] s) {g hdl : Nat} {impl : GpioHelper}
    {fd : Fd} (himpl : s.helpers[g]? = some impl)
    (hfree : (impl.connections.erase hdl).isEmpty = true → fd ∉ s.react.react) :
    Sound [] (s.withoutAction g hdl impl fd) := by
  have hquiet : Quiet s.react (if (impl.connections.erase hdl).isEmpty then s.react.delFd fd
      else s.react) := by
    split
    · next hempty => exact quiet_delFd (hfree hempty)
    · exact ⟨rfl, rfl⟩
  exact hs.congr hquiet.1 hquiet.2 rfl rfl rfl (valueFdOf_update himpl rfl)

theorem Sound.gpioUnregister {s : AgentState} (hs : Sound [] s) {inst hdl : Nat}
    {res : Except Errno Fd} (hspares : s.Spares (.gpioUnregister inst hdl res)) :
    Sound [] (s.gpioUnregister inst hdl res).2 := by
  cases hg : (s.pinsOf inst)[hdl]? with
  | none => simpa [AgentState.gpioUnregister, gpioByIndex, hg] using hs
  | some g =>
      obtain ⟨impl, fd, himpl, hfd⟩ := hs.handleHelper hg
      simp only [AgentState.gpioUnregister, gpioByIndex, hg, unregisterChange_of_opened himpl hfd]
      exact hs.withoutAction himpl (hspares g impl fd hg himpl hfd)

theorem Sound.closePin {s : AgentState} (hs : Sound [] s) (pin : Nat) :
    Sound [] (s.closePin pin) := by
  unfold AgentState.closePin
  split
  · exact hs
  · split
    · exact hs
    · exact hs.congr rfl rfl rfl rfl rfl fun _ => rfl

theorem Sound.gpioClose {s : AgentState} (hs : Sound [] s) {inst hdl : Nat}
    (hinst : inst ∈ s.pins) (hspares : s.Spares (.gpioClose inst hdl)) :
    Sound [] (s.gpioClose inst hdl) := by
  cases hg : (s.pinsOf inst)[hdl]? with
  | none => simpa [AgentState.gpioClose, hg] using hs
  | some g =>
      obtain ⟨impl, fd, himpl, hfd⟩ := hs.handleHelper hg
      have hdeleted := hs.withoutAction himpl (hspares g impl fd hg himpl hfd)
      simp only [AgentState.gpioClose, hg, delActionIfOpened_of_opened himpl hfd]
      have hinst' : inst ∈ (s.withoutAction g hdl impl fd).pins := hinst
      refine ((hdeleted.setPins hinst' ?_).closePin hdl).release g
      intro hdl' g' hg'
      rw [Table.getElem?_erase_eq_some_iff] at hg'
      exact hdeleted.handleOpened hg'.2

/-- One handle of a disconnecting instance: the invariant and the condition on
the whole instance are both kept. -/
theorem Sound.delActionIfOpened {s : AgentState} (hs : Sound [] s) {inst hdl g : Nat}
    (hspares : s.Spares (.gpioDisconnect inst)) (hg : (s.pinsOf inst)[hdl]? = some g) :
    Sound [] (s.delActionIfOpened g hdl) ∧
      (s.delActionIfOpened g hdl).Spares (.gpioDisconnect inst) ∧
      (s.delActionIfOpened g hdl).pins = s.pins := by
  obtain ⟨impl, fd, himpl, hfd⟩ := hs.handleHelper hg
  have hfree : (impl.connections.erase hdl).isEmpty = true → fd ∉ s.react.react := by
    intro hempty hmem
    obtain ⟨id, hid, hother⟩ := hspares hdl g impl fd hg himpl hfd hmem
    have hne : hdl ≠ id := by
      rintro rfl
      exact hother hg
    have hgone := (Table.not_mem_iff _ _).mpr ((Table.isEmpty_iff_forall _).mp hempty id)
    exact hgone ((Table.mem_erase_iff _ _ _).mpr ⟨hne, hid⟩)
  rw [delActionIfOpened_of_opened himpl hfd]
  refine ⟨hs.withoutAction himpl hfree, ?_, rfl⟩
  intro hdl' g' impl' fd' hg' himpl' hfd' hmem
  have hbefore : fd' ∈ s.react.react := by
    rw [AgentState.withoutAction] at hmem
    split at hmem
    · rw [PollReactor.delFd_react] at hmem
      exact (Std.ExtTreeMap.mem_erase.mp hmem).2
    · exact hmem
  rw [withoutAction_helpers] at himpl'
  split at himpl'
  · next heq =>
      subst heq
      cases himpl'
      obtain ⟨id, hid, hother⟩ := hspares hdl' g impl fd' hg' himpl hfd' hbefore
      refine ⟨id, (Table.mem_erase_iff _ _ _).mpr ⟨?_, hid⟩, hother⟩
      rintro rfl
      exact hother hg
  · exact hspares hdl' g' impl' fd' hg' himpl' hfd' hbefore

theorem Sound.gpioDisconnect {s : AgentState} (hs : Sound [] s) {inst : Nat}
    (hspares : s.Spares (.gpioDisconnect inst)) : Sound [] (s.gpioDisconnect inst) := by
  have hactions : ∀ (entries : List (Nat × Nat)) (s : AgentState), Sound [] s →
      s.Spares (.gpioDisconnect inst) →
      (∀ entry ∈ entries, (s.pinsOf inst)[entry.1]? = some entry.2) →
      Sound [] (entries.foldl (fun s entry => s.delActionIfOpened entry.2 entry.1) s) := by
    intro entries
    induction entries with
    | nil => exact fun s hs _ _ => hs
    | cons entry entries ih =>
        intro s hs hspares hin
        obtain ⟨hkept, hspares', hpins⟩ :=
          hs.delActionIfOpened hspares (hin entry List.mem_cons_self)
        refine ih _ hkept hspares' fun e he => ?_
        rw [pinsOf, hpins]
        exact hin e (List.mem_cons_of_mem _ he)
  have hreleases : ∀ (entries : List (Nat × Nat)) (s : AgentState), Sound [] s →
      Sound [] (entries.foldl (fun s entry => s.release entry.2) s) := by
    intro entries
    induction entries with
    | nil => exact fun s hs => hs
    | cons entry entries ih => exact fun s hs => ih _ (hs.release _)
  have hdeleted := hactions (s.pinsOf inst).toList s hs hspares fun entry hentry =>
    Std.ExtTreeMap.mem_toList_iff_getElem?_eq_some.mp hentry
  refine hreleases _ _ (hdeleted.setHandles ?_ ?_)
  · exact fun inst' hmem => hdeleted.bornPins inst' (Std.ExtTreeMap.mem_erase.mp hmem).2
  · intro inst' hdl g hg
    rw [Table.getElem?_erase_eq] at hg
    split at hg
    · simp at hg
    · exact hdeleted.handleOpened hg

/-- The reactor drops an entry for a number that is no longer open. -/
theorem Sound.delUnused {s : AgentState} (hs : Sound [] s) {fd : Fd} (hunused : fd ∉ s.fds) :
    Sound [] { s with react := s.react.delFd fd } := by
  by_cases hmem : fd ∈ s.react.react
  · rw [PollReactor.delFd_of_mem hmem]
    have hnone : s.fds[fd]? = none := (Table.not_mem_iff _ _).mp hunused
    have hledger : (s.react.kernel.delFdFromEpoll fd).Ledger := hs.ledger.congr rfl rfl
    exact hs.transfer (hledger.closeUnused .reactor hnone) (Table.erase_of_getElem? hnone)
      (fun owner => Kernel.opens_close _ _ _ _) rfl rfl rfl fun _ => rfl
  · exact hs.quiet (quiet_delFd hmem)

theorem Sound.makeCallback {s : AgentState} (hs : Sound [] s) {fd : Fd} {ev : Event}
    (hspares : s.Spares (.event fd ev)) : Sound [] (s.makeCallback fd ev) := by
  cases hcb : s.react.react[fd]? with
  | none =>
      simp only [AgentState.makeCallback, hcb]
      exact hs.quiet ⟨rfl, rfl⟩
  | some cb =>
      obtain ⟨tasks, hstate⟩ := s.runReaction_state cb ev
      have hposted : Sound [] (s.runReaction cb ev).2 := by
        rw [hstate]
        exact hs.congr rfl rfl rfl rfl rfl fun _ => rfl
      simp only [AgentState.makeCallback, hcb, PollReactor.afterCallback]
      split
      · exact hposted
      · next hfalse =>
          refine hposted.delUnused fun hopen => hfalse (hspares cb hcb ?_)
          rw [hstate] at hopen
          exact hopen

theorem Sound.runTask {s s' : AgentState} (hs : Sound [] s) {answers : Nat → Bool}
    (hrun : s.runTask answers = some s') : Sound [] s' := by
  unfold AgentState.runTask at hrun
  split at hrun
  · cases hrun
  · split at hrun
    · cases hrun
      exact hs.congr rfl rfl rfl rfl rfl fun _ => rfl
    · next impl himpl =>
        cases hrun
        exact hs.congr rfl rfl rfl rfl rfl (valueFdOf_update himpl rfl)

/-- One step that spares the entries of open descriptors keeps the invariant. -/
theorem sound_step {s s' : AgentState} {a : Action} (hs : Sound [] s) (hspares : s.Spares a)
    (hstep : s.step a = some s') : Sound [] s' := by
  cases a with
  | connectFiles =>
      cases hstep
      exact hs.connectFiles
  | connectPins =>
      cases hstep
      exact hs.connectPins
  | fileOpen inst res =>
      obtain ⟨⟨hinst, hunused⟩, rfl⟩ := Machine.of_enabled hstep
      exact hs.fileOpen hinst hunused
  | fileRegister inst hdl fault =>
      obtain ⟨-, rfl⟩ := Machine.of_enabled hstep
      exact hs.fileRegister hspares
  | fileUnregister inst hdl =>
      obtain ⟨-, rfl⟩ := Machine.of_enabled hstep
      exact hs.fileUnregister hspares
  | fileClose inst hdl =>
      obtain ⟨-, rfl⟩ := Machine.of_enabled hstep
      exact hs.fileClose hspares
  | fileDisconnect inst =>
      obtain ⟨-, rfl⟩ := Machine.of_enabled hstep
      exact hs.fileDisconnect hspares
  | gpioOpen inst pin setup res =>
      obtain ⟨⟨hinst, hunused⟩, rfl⟩ := Machine.of_enabled hstep
      exact hs.gpioOpen hinst pin setup hunused
  | gpioRegister inst hdl res fault =>
      obtain ⟨-, rfl⟩ := Machine.of_enabled hstep
      exact hs.gpioRegister hspares
  | gpioUnregister inst hdl res =>
      obtain ⟨-, rfl⟩ := Machine.of_enabled hstep
      exact hs.gpioUnregister hspares
  | gpioClose inst hdl =>
      obtain ⟨hinst, rfl⟩ := Machine.of_enabled hstep
      exact hs.gpioClose hinst hspares
  | gpioDisconnect inst =>
      obtain ⟨-, rfl⟩ := Machine.of_enabled hstep
      exact hs.gpioDisconnect hspares
  | event fd ev =>
      cases hstep
      exact hs.makeCallback hspares
  | runTask answers => exact hs.runTask hstep

/-- The reactor closed a number that belonged to an object. -/
def Dropped (s : AgentState) : Prop :=
  ∃ fd owner, .closed .reactor fd (some owner) ∈ s.log

theorem Dropped.not_ownership {s : AgentState} (h : s.Dropped) : ¬ s.Ownership := by
  intro howns
  obtain ⟨fd, owner, hmem⟩ := h
  cases howns.closedByOpener _ _ _ hmem

theorem Dropped.mono {s s' : AgentState} (h : s.Dropped) (hlog : s.log ⊆ s'.log) : s'.Dropped := by
  obtain ⟨fd, owner, hmem⟩ := h
  exact ⟨fd, owner, hlog hmem⟩

theorem dropped_of_delFd {s : AgentState} {fd : Fd} {owner : Owner} (hmem : fd ∈ s.react.react)
    (howner : s.fds[fd]? = some owner) : Dropped { s with react := s.react.delFd fd } := by
  refine ⟨fd, owner, ?_⟩
  rw [PollReactor.delFd_of_mem hmem, log, Kernel.close_log, Kernel.delFdFromEpoll_fds, howner]
  exact List.mem_cons_self

theorem dropped_of_refused {s : AgentState} {fd : Fd} {owner : Owner} {events : Nat}
    {fault : Option Errno} (hrefused : ¬ s.react.AcceptsFd fd events fault)
    (howner : s.fds[fd]? = some owner) (cb : Reaction) :
    Dropped { s with react := (s.react.addFd fd events cb fault).2 } := by
  refine ⟨fd, owner, ?_⟩
  rw [PollReactor.addFd_of_refused hrefused, log, PollReactor.dropReaction, Kernel.close_log, howner]
  exact List.mem_cons_self

theorem log_subset_destroyFiles (fs : List FileObject) (s : AgentState) :
    s.log ⊆ (fs.foldl (fun s f => s.destroyFile f) s).log := by
  induction fs generalizing s with
  | nil => exact List.Subset.refl _
  | cons f fs ih => exact List.Subset.trans (List.subset_cons_self _ _) (ih (s.destroyFile f))

theorem log_subset_delFds (fs : List FileObject) (s : AgentState) :
    s.log ⊆ (fs.foldl (fun s f => { s with react := s.react.delFd f.fd }) s).log := by
  induction fs generalizing s with
  | nil => exact List.Subset.refl _
  | cons f fs ih =>
      exact List.Subset.trans (s.react.log_subset_delFd f.fd)
        (ih { s with react := s.react.delFd f.fd })

theorem log_subset_release (s : AgentState) (h : Nat) : s.log ⊆ (s.release h).log := by
  unfold release
  split
  · exact List.Subset.refl _
  · split
    · exact List.Subset.refl _
    · simp only [log, GpioHelper.destroy]
      split
      · exact List.Subset.refl _
      · exact List.subset_cons_self _ _

theorem log_subset_withoutAction (s : AgentState) (g hdl : Nat) (impl : GpioHelper) (fd : Fd) :
    s.log ⊆ (s.withoutAction g hdl impl fd).log := by
  simp only [log, withoutAction]
  split
  · exact s.react.log_subset_delFd fd
  · exact List.Subset.refl _

theorem delActionIfOpened_cases (s : AgentState) (g hdl : Nat) :
    s.delActionIfOpened g hdl = s ∨
      ∃ impl fd, s.helpers[g]? = some impl ∧ impl.valueFd = some fd ∧
        s.delActionIfOpened g hdl = s.withoutAction g hdl impl fd := by
  by_cases hopened : s.valueOpened g = true
  · right
    cases himpl : s.helpers[g]? with
    | none => simp [valueOpened, himpl] at hopened
    | some impl =>
        cases hfd : impl.valueFd with
        | none => simp [valueOpened, himpl, hfd] at hopened
        | some fd => exact ⟨impl, fd, rfl, hfd, delActionIfOpened_of_opened himpl hfd hdl⟩
  · left
    rw [delActionIfOpened, if_neg hopened]

theorem log_subset_delActions (entries : List (Nat × Nat)) (s : AgentState) :
    s.log ⊆ (entries.foldl (fun s entry => s.delActionIfOpened entry.2 entry.1) s).log := by
  induction entries generalizing s with
  | nil => exact List.Subset.refl _
  | cons entry entries ih =>
      refine List.Subset.trans ?_ (ih (s.delActionIfOpened entry.2 entry.1))
      rcases s.delActionIfOpened_cases entry.2 entry.1 with heq | ⟨impl, fd, -, -, heq⟩
      · rw [heq]
        exact List.Subset.refl _
      · rw [heq]
        exact s.log_subset_withoutAction _ _ _ _

theorem log_subset_releases (entries : List (Nat × Nat)) (s : AgentState) :
    s.log ⊆ (entries.foldl (fun s entry => s.release entry.2) s).log := by
  induction entries generalizing s with
  | nil => exact List.Subset.refl _
  | cons entry entries ih =>
      exact List.Subset.trans (s.log_subset_release entry.2) (ih (s.release entry.2))

theorem log_closePin (s : AgentState) (pin : Nat) : (s.closePin pin).log = s.log := by
  unfold closePin
  split
  · rfl
  · split <;> rfl

/-- Deleting the last connection of a registered helper drops its entry. -/
theorem dropped_of_withoutAction {s : AgentState} {g hdl : Nat} {impl : GpioHelper} {fd : Fd}
    {owner : Owner} (hlast : (impl.connections.erase hdl).isEmpty = true)
    (hmem : fd ∈ s.react.react) (howner : s.fds[fd]? = some owner) :
    (s.withoutAction g hdl impl fd).Dropped := by
  have hdropped := dropped_of_delFd hmem howner
  simpa [withoutAction, hlast, Dropped] using hdropped

/-- When files are deleted one after the other, an entry of one of them is
dropped. -/
theorem dropped_of_delFds {fs : List FileObject} {s : AgentState} {f : FileObject} {owner : Owner}
    (hf : f ∈ fs) (hmem : f.fd ∈ s.react.react) (howner : s.fds[f.fd]? = some owner) :
    Dropped (fs.foldl (fun s f => { s with react := s.react.delFd f.fd }) s) := by
  induction fs generalizing s with
  | nil => cases hf
  | cons g fs ih =>
      by_cases heq : g.fd = f.fd
      · have hdropped := dropped_of_delFd hmem howner
        rw [← heq] at hdropped
        exact hdropped.mono (log_subset_delFds fs _)
      · have hkept := PollReactor.delFd_other (r := s.react) heq
        rcases List.mem_cons.mp hf with rfl | hf
        · exact absurd rfl heq
        · exact ih hf ((Table.mem_congr hkept.1).mpr hmem) (hkept.2.1.trans howner)

/-- When every connection of a registered helper belongs to a handle of the
disconnecting instance, its entry is dropped: at the latest when the last of
these handles is reached. -/
theorem dropped_of_delActions {entries : List (Nat × Nat)} {s : AgentState} {g : Nat}
    {impl : GpioHelper} {fd : Fd} {owner : Owner} (hsome : ∃ hdl, (hdl, g) ∈ entries)
    (himpl : s.helpers[g]? = some impl) (hfd : impl.valueFd = some fd)
    (hall : ∀ id ∈ impl.connections, (id, g) ∈ entries) (hmem : fd ∈ s.react.react)
    (howner : s.fds[fd]? = some owner) :
    Dropped (entries.foldl (fun s entry => s.delActionIfOpened entry.2 entry.1) s) := by
  induction entries generalizing s impl with
  | nil =>
      obtain ⟨hdl, hin⟩ := hsome
      cases hin
  | cons entry entries ih =>
      obtain ⟨hdl, g'⟩ := entry
      show Dropped (entries.foldl _ (s.delActionIfOpened g' hdl))
      have hkept : ∀ {t : AgentState}, t.react = s.react →
          fd ∈ t.react.react ∧ t.fds[fd]? = some owner := by
        intro t hreact
        rw [fds, hreact]
        exact ⟨hmem, howner⟩
      by_cases hg : g' = g
      · subst hg
        rw [delActionIfOpened_of_opened himpl hfd]
        by_cases hlast : (impl.connections.erase hdl).isEmpty = true
        · exact (dropped_of_withoutAction hlast hmem howner).mono (log_subset_delActions _ _)
        · -- some connection is left, and its handle is still to come
          have hrest : ∀ id ∈ impl.connections.erase hdl, (id, g') ∈ entries := by
            intro id hid
            obtain ⟨hne, hid⟩ := (Table.mem_erase_iff _ _ _).mp hid
            rcases List.mem_cons.mp (hall id hid) with heq | hin
            · cases heq
              exact absurd rfl hne
            · exact hin
          have hleft : ∃ hdl', (hdl', g') ∈ entries := by
            obtain ⟨id, v, hid⟩ :=
              (Table.isEmpty_eq_false_iff_exists _).mp (Bool.eq_false_iff.mpr hlast)
            exact ⟨id, hrest id ((Table.mem_iff_exists _ _).mpr ⟨v, hid⟩)⟩
          have hhelper : (s.withoutAction g' hdl impl fd).helpers[g']? =
              some (impl.delConnection hdl) := by rw [withoutAction_helpers, if_pos rfl]
          obtain ⟨hmem', howner'⟩ := hkept (withoutAction_react hlast)
          exact ih hleft hhelper hfd hrest hmem' howner'
      · have hlater : ∀ {id : Nat}, (id, g) ∈ (hdl, g') :: entries → (id, g) ∈ entries := by
          intro id hin
          rcases List.mem_cons.mp hin with heq | hin
          · cases heq
            exact absurd rfl hg
          · exact hin
        have hleft : ∃ hdl', (hdl', g) ∈ entries := hsome.imp fun _ => hlater
        have hrest : ∀ id ∈ impl.connections, (id, g) ∈ entries := fun id hid =>
          hlater (hall id hid)
        rcases s.delActionIfOpened_cases g' hdl with heq | ⟨impl', fd', himpl', hfd', heq⟩
        · rw [heq]
          exact ih hleft himpl hfd hrest hmem howner
        · rw [heq]
          have hhelper : (s.withoutAction g' hdl impl' fd').helpers[g]? = some impl := by
            rw [withoutAction_helpers, if_neg hg, himpl]
          by_cases hlast : (impl'.connections.erase hdl).isEmpty = true
          · by_cases hsame : fd' = fd
            · subst hsame
              exact (dropped_of_withoutAction hlast hmem howner).mono (log_subset_delActions _ _)
            · have hother := PollReactor.delFd_other (r := s.react) hsame
              have hreact : (s.withoutAction g' hdl impl' fd').react = s.react.delFd fd' :=
                withoutAction_react_last hlast
              refine ih hleft hhelper hfd hrest ?_ ?_
              · rw [hreact]
                exact (Table.mem_congr hother.1).mpr hmem
              · rw [fds, hreact]
                exact hother.2.1.trans howner
          · obtain ⟨hmem', howner'⟩ := hkept (withoutAction_react hlast)
            exact ih hleft hhelper hfd hrest hmem' howner'

/-- **Dropping an entry shows.** A step that keeps ownership destroyed no entry
of an open descriptor. -/
theorem spares_of_ownership {s s' : AgentState} {a : Action} (hs : Sound [] s)
    (hstep : s.step a = some s') (howns : s'.Ownership) : s.Spares a := by
  by_contra hforbidden
  refine Dropped.not_ownership ?_ howns
  cases a with
  | connectFiles | connectPins | fileOpen | gpioOpen | runTask => exact absurd trivial hforbidden
  | fileRegister inst hdl fault =>
      obtain ⟨-, rfl⟩ := Machine.of_enabled hstep
      simp only [Spares, not_forall] at hforbidden
      obtain ⟨f, hf, hrefused⟩ := hforbidden
      rw [fileRegister_of_some hf]
      exact dropped_of_refused (s := s.nextOpId.2) hrefused (hs.fileOwner hf) _
  | fileUnregister inst hdl =>
      obtain ⟨-, rfl⟩ := Machine.of_enabled hstep
      simp only [Spares, not_forall, not_not] at hforbidden
      obtain ⟨f, hf, hmem⟩ := hforbidden
      rw [AgentState.fileUnregister, getFile_of_some hf]
      exact dropped_of_delFd hmem (hs.fileOwner hf)
  | fileClose inst hdl =>
      obtain ⟨-, rfl⟩ := Machine.of_enabled hstep
      simp only [Spares, not_forall, not_not] at hforbidden
      obtain ⟨f, hf, hmem⟩ := hforbidden
      apply (dropped_of_delFd hmem (hs.fileOwner hf)).mono
      rw [fileClose_of_some hf]
      exact List.subset_cons_self _ _
  | fileDisconnect inst =>
      obtain ⟨-, rfl⟩ := Machine.of_enabled hstep
      simp only [Spares, not_forall, not_not] at hforbidden
      obtain ⟨hdl, f, hf, hmem⟩ := hforbidden
      have hin : f ∈ (s.filesOf inst).toList.map (·.2) :=
        List.mem_map.mpr ⟨(hdl, f), Std.ExtTreeMap.mem_toList_iff_getElem?_eq_some.mpr hf, rfl⟩
      have hdropped := dropped_of_delFds hin hmem (hs.fileOwner hf)
      have hgrows : (s.destroyAll inst).log ⊆ (s.fileDisconnect inst).log := by
        rw [AgentState.fileDisconnect]
        exact log_subset_destroyFiles _ { s.destroyAll inst with
          files := (s.destroyAll inst).files.erase inst }
      exact hdropped.mono hgrows
  | gpioRegister inst hdl res fault =>
      obtain ⟨-, rfl⟩ := Machine.of_enabled hstep
      simp only [Spares, not_forall] at hforbidden
      obtain ⟨g, impl, fd, hg, himpl, hfd, hempty, hrefused⟩ := hforbidden
      have howner := hs.helperOwner himpl hfd
      have hdropped := dropped_of_refused hrefused howner (.pinEvent g)
      simp only [AgentState.gpioRegister, gpioByIndex, hg, registerForChange_of_opened himpl hfd,
        onHelper_of_some himpl, GpioHelper.addReactorAction_of_opened hfd, hempty, if_true]
      exact hdropped
  | gpioUnregister inst hdl res =>
      obtain ⟨-, rfl⟩ := Machine.of_enabled hstep
      simp only [Spares, not_forall, not_not] at hforbidden
      obtain ⟨g, impl, fd, hg, himpl, hfd, hlast, hmem⟩ := hforbidden
      have howner := hs.helperOwner himpl hfd
      simp only [AgentState.gpioUnregister, gpioByIndex, hg, unregisterChange_of_opened himpl hfd]
      exact dropped_of_withoutAction hlast hmem howner
  | gpioClose inst hdl =>
      obtain ⟨-, rfl⟩ := Machine.of_enabled hstep
      simp only [Spares, not_forall, not_not] at hforbidden
      obtain ⟨g, impl, fd, hg, himpl, hfd, hlast, hmem⟩ := hforbidden
      have howner := hs.helperOwner himpl hfd
      have hdropped : (s.withoutAction g hdl impl fd).Dropped :=
        dropped_of_withoutAction hlast hmem howner
      simp only [AgentState.gpioClose, hg, delActionIfOpened_of_opened himpl hfd]
      refine hdropped.mono (List.Subset.trans ?_ (log_subset_release _ g))
      rw [log_closePin]
      exact List.Subset.refl _
  | gpioDisconnect inst =>
      obtain ⟨-, rfl⟩ := Machine.of_enabled hstep
      simp only [Spares, not_forall, not_exists, not_and, not_not] at hforbidden
      obtain ⟨hdl, g, impl, fd, hg, himpl, hfd, hmem, hall⟩ := hforbidden
      have howner := hs.helperOwner himpl hfd
      have hin : ∀ {id : Nat}, (s.pinsOf inst)[id]? = some g → (id, g) ∈ (s.pinsOf inst).toList :=
        fun hid => Std.ExtTreeMap.mem_toList_iff_getElem?_eq_some.mpr hid
      have hdropped := dropped_of_delActions ⟨hdl, hin hg⟩ himpl hfd
        (fun id hid => hin (hall id hid)) hmem howner
      let deleted :=
        (s.pinsOf inst).toList.foldl (fun s entry => s.delActionIfOpened entry.2 entry.1) s
      have hgrows : deleted.log ⊆ (s.gpioDisconnect inst).log := by
        rw [AgentState.gpioDisconnect]
        exact log_subset_releases _ { deleted with pins := deleted.pins.erase inst }
      exact hdropped.mono hgrows
  | event fd ev =>
      cases hstep
      simp only [Spares, not_forall] at hforbidden
      obtain ⟨cb, hcb, hopen, hfalse⟩ := hforbidden
      obtain ⟨owner, howner⟩ := (Table.mem_iff_exists _ _).mp hopen
      obtain ⟨tasks, hstate⟩ := s.runReaction_state cb ev
      simp only [AgentState.makeCallback, hcb, PollReactor.afterCallback, if_neg hfalse, hstate]
      exact dropped_of_delFd (s := { s with queue := s.queue ++ tasks })
        ((Table.mem_iff_exists _ _).mpr ⟨cb, hcb⟩) howner

end AgentState

/-- **Descriptor ownership, exactly.** A run keeps ownership in every state it
passes through if and only if none of its steps destroys the reactor's entry of
an open descriptor. -/
theorem ownership_iff_spares (as : List Action) :
    machine.Along AgentState.Ownership as ↔ machine.Meets AgentState.Spares as :=
  Machine.along_iff_meets AgentState.sound_init
    (fun _ _ _ hs hspares hstep => AgentState.sound_step hs hspares hstep)
    (fun _ hs => hs.ownership)
    (fun _ _ _ hs hstep howns => AgentState.spares_of_ownership hs hstep howns) as

/-- A file that is opened, registered and unregistered again has lost its
descriptor to the reactor. -/
theorem ownership_lost_by_unregister :
    ¬ machine.Along AgentState.Ownership
      [.connectFiles, .fileOpen 0 (.ok 3), .fileRegister 0 101 none, .fileUnregister 0 101] := by
  refine Machine.not_along_of_run rfl ?_
  refine AgentState.Dropped.not_ownership ⟨3, .file 1, ?_⟩
  decide

end FerroRemote.Agent

/-
# Who closes a descriptor

Files and gpio helpers open descriptors and close them in their destructors. The
reactor's table wraps the same numbers in closing keepers, so an entry that is
dropped closes a descriptor that its object still holds. The statement settled
here is exact: a run keeps descriptor ownership in every state if and only if no
step of it drops the reactor's entry of an open descriptor.

The invariant `Sound` ties the ledger of the descriptor table to the objects
that exist. File objects on the stack of a destructor, no longer in any table
and not yet destroyed, are listed apart in `locals`.
-/

import FerroRemote.Agent.DescriptorLedger
import FerroRemote.Agent.System

namespace FerroRemote.Agent

/-- The identity of an owning object. -/
def Owner.id : Owner → Nat
  | .file id => id
  | .helper id => id

namespace AgentState

/-- The value descriptor of a helper, if the helper exists. -/
def valueFdOf (s : AgentState) (h : Nat) : Option (Option Fd) :=
  s.helpers[h]?.map (·.valueFd)

/-- An object that exists and the descriptor it opened. -/
def Holds (s : AgentState) (locals : List FileObject) : Owner → Fd → Prop
  | .file id, fd =>
    (∃ inst hdl : Nat, (s.filesOf inst)[hdl]? = some ⟨id, fd⟩) ∨ ⟨id, fd⟩ ∈ locals
  | .helper h, fd => s.valueFdOf h = some (some fd)

def Alive (s : AgentState) : Owner → Prop
  | .file id => ∃ (inst hdl : Nat) (f : FileObject), (s.filesOf inst)[hdl]? = some f ∧ f.id = id
  | .helper h => h ∈ s.helpers

/-- Descriptor ownership in one state of the agent. -/
structure Ownership (s : AgentState) : Prop where
  /-- No number that belongs to an object is ever closed by anyone else. -/
  closedByOpener : s.react.kernel.ClosedByOpener
  /-- What an object opened is not closed while the object exists, and closed
  exactly once when it is gone. -/
  closedOnce : ∀ {owner : Owner} {fd : Fd}, .opened owner fd ∈ s.log →
    (s.Alive owner → s.react.kernel.closes owner = 0) ∧
      (¬ s.Alive owner → s.react.kernel.closes owner = 1)
  /-- The descriptor of an object that exists is open and still its own. -/
  stillOpen : ∀ {owner : Owner} {fd : Fd}, s.Holds [] owner fd → s.fds[fd]? = some owner

/-- The step destroys no entry of the reactor's table for an open descriptor. -/
def Spares (s : AgentState) : Action → Prop
  | .fileRegister inst hdl fault =>
    ∀ f : FileObject, (s.filesOf inst)[hdl]? = some f →
      s.react.AcceptsFd f.fd fileEvents fault
  | .fileUnregister inst hdl | .fileClose inst hdl =>
    ∀ f : FileObject, (s.filesOf inst)[hdl]? = some f → f.fd ∉ s.react.react
  | .fileDisconnect inst =>
    ∀ (hdl : Nat) (f : FileObject), (s.filesOf inst)[hdl]? = some f → f.fd ∉ s.react.react
  | .gpioRegister inst hdl _ fault =>
    ∀ (g : Nat) (impl : GpioHelper) (fd : Fd), (s.pinsOf inst)[hdl]? = some g →
      s.helpers[g]? = some impl → impl.valueFd = some fd → impl.connections.isEmpty = true →
      s.react.AcceptsFd fd GpioHelper.reactorEvents fault
  | .gpioUnregister inst hdl _ | .gpioClose inst hdl =>
    ∀ (g : Nat) (impl : GpioHelper) (fd : Fd), (s.pinsOf inst)[hdl]? = some g →
      s.helpers[g]? = some impl → impl.valueFd = some fd →
      (impl.connections.erase hdl).isEmpty = true → fd ∉ s.react.react
  | .gpioDisconnect inst =>
    ∀ (hdl g : Nat) (impl : GpioHelper) (fd : Fd), (s.pinsOf inst)[hdl]? = some g →
      s.helpers[g]? = some impl → impl.valueFd = some fd → fd ∈ s.react.react →
      ∃ id ∈ impl.connections, (s.pinsOf inst)[id]? ≠ some g
  | .event fd ev =>
    ∀ cb : Reaction, s.react.react[fd]? = some cb → fd ∈ s.fds → (s.runReaction cb ev).1 = true
  | _ => True

/-! ## The invariant -/

/-- Open descriptors, history and existing objects agree. -/
structure Sound (locals : List FileObject) (s : AgentState) : Prop where
  ledger : s.react.kernel.Ledger
  holds_iff : ∀ (owner : Owner) (fd : Fd), s.Holds locals owner fd ↔ s.fds[fd]? = some owner
  /-- An identity that is not in use has opened nothing. -/
  unborn : ∀ owner : Owner, s.born ≤ owner.id → s.react.kernel.opens owner = 0
  /-- Nor has a helper whose `value_fd_` is `-1`. -/
  unopened : ∀ h : Nat, s.valueFdOf h = some none → s.react.kernel.opens (.helper h) = 0
  /-- Every file is referred to by one handle. -/
  fileKey : ∀ {inst inst' hdl hdl' : Nat} {f g : FileObject},
    (s.filesOf inst)[hdl]? = some f → (s.filesOf inst')[hdl']? = some g → f.id = g.id →
      inst = inst' ∧ hdl = hdl'
  localsNodup : (locals.map (·.id)).Nodup
  localsApart : ∀ {f g : FileObject} {inst hdl : Nat},
    f ∈ locals → (s.filesOf inst)[hdl]? = some g → f.id ≠ g.id
  /-- Every handle's helper exists and has opened its descriptor. -/
  handleOpened : ∀ {inst hdl g : Nat}, (s.pinsOf inst)[hdl]? = some g →
    ∃ fd, s.valueFdOf g = some (some fd)
  bornFiles : ∀ inst ∈ s.files, inst < s.born
  bornPins : ∀ inst ∈ s.pins, inst < s.born
  bornHelpers : ∀ h ∈ s.helpers, h < s.born

theorem sound_init : Sound [] {} where
  ledger := Kernel.ledger_empty
  holds_iff owner fd := by cases owner <;> simp [Holds, filesOf, valueFdOf, fds]
  unborn owner _ := by simp [Kernel.opens]
  unopened h _ := by simp [Kernel.opens]
  fileKey := by simp [filesOf]
  localsNodup := by simp
  localsApart := by simp
  handleOpened := by simp [pinsOf]
  bornFiles := by simp
  bornPins := by simp
  bornHelpers := by simp

theorem mem_helpers_iff (s : AgentState) (h : Nat) :
    h ∈ s.helpers ↔ ∃ value, s.valueFdOf h = some value := by
  rw [Table.mem_iff_exists]
  simp [valueFdOf]

theorem Sound.ownership {s : AgentState} (hs : Sound [] s) : s.Ownership where
  closedByOpener := hs.ledger.closedByOpener
  stillOpen {owner fd} hholds := (hs.holds_iff owner fd).mp hholds
  closedOnce {owner fd} hopened := by
    have hopens : 0 < s.react.kernel.opens owner :=
      List.countP_pos_iff.mpr ⟨_, hopened, by simp⟩
    have hcount : (∀ fd : Fd, s.fds[fd]? ≠ some owner) → s.react.kernel.closes owner = 1 := by
      intro hno
      have hclosed := hs.ledger.closed_once hno
      omega
    constructor
    · intro halive
      by_contra hcloses
      have hno : ∀ fd : Fd, s.fds[fd]? ≠ some owner := fun fd hfd =>
        hcloses (hs.ledger.open_once hfd).2
      cases owner with
      | file id =>
          obtain ⟨inst, hdl, f, hf, rfl⟩ := halive
          exact hno f.fd ((hs.holds_iff _ _).mp (.inl ⟨inst, hdl, hf⟩))
      | helper h =>
          obtain ⟨value, hvalue⟩ := (s.mem_helpers_iff h).mp halive
          cases value with
          | none =>
              have hzero := hs.unopened h hvalue
              omega
          | some fd => exact hno fd ((hs.holds_iff _ _).mp hvalue)
    · intro hdead
      refine hcount fun fd hfd => hdead ?_
      have hholds := (hs.holds_iff owner fd).mpr hfd
      cases owner with
      | file id =>
          rcases hholds with ⟨inst, hdl, hf⟩ | hlocal
          · exact ⟨inst, hdl, _, hf, rfl⟩
          · cases hlocal
      | helper h => exact (s.mem_helpers_iff h).mpr ⟨_, hholds⟩

/-- The invariant reads the descriptors, the history and the tables; of a helper
it reads the value descriptor only. -/
theorem Sound.transfer {locals : List FileObject} {s s' : AgentState} (hs : Sound locals s)
    (hledger : s'.react.kernel.Ledger) (hfds : s'.fds = s.fds)
    (hopens : ∀ owner, s'.react.kernel.opens owner = s.react.kernel.opens owner)
    (hfiles : s'.files = s.files) (hpins : s'.pins = s.pins) (hborn : s'.born = s.born)
    (hvalue : ∀ h, s'.valueFdOf h = s.valueFdOf h) : Sound locals s' := by
  have hfilesOf : ∀ inst, s'.filesOf inst = s.filesOf inst := fun inst => by
    rw [filesOf, filesOf, hfiles]
  have hpinsOf : ∀ inst, s'.pinsOf inst = s.pinsOf inst := fun inst => by
    rw [pinsOf, pinsOf, hpins]
  refine ⟨hledger, ?_, ?_, ?_, ?_, hs.localsNodup, ?_, ?_, ?_, ?_, ?_⟩
  · intro owner fd
    rw [hfds, ← hs.holds_iff owner fd]
    cases owner with
    | file id => simp only [Holds, hfilesOf]
    | helper h => simp only [Holds, hvalue]
  · intro owner
    rw [hborn, hopens]
    exact hs.unborn owner
  · intro h
    rw [hvalue, hopens]
    exact hs.unopened h
  · intro inst inst' hdl hdl' f g
    rw [hfilesOf, hfilesOf]
    exact hs.fileKey
  · intro f g inst hdl
    rw [hfilesOf]
    exact hs.localsApart
  · intro inst hdl g
    rw [hpinsOf, hvalue]
    exact hs.handleOpened
  · rw [hfiles, hborn]
    exact hs.bornFiles
  · rw [hpins, hborn]
    exact hs.bornPins
  · intro h hmem
    rw [hborn]
    refine hs.bornHelpers h ?_
    rw [mem_helpers_iff] at hmem ⊢
    simpa only [hvalue] using hmem

theorem Sound.congr {locals : List FileObject} {s s' : AgentState} (hs : Sound locals s)
    (hfds : s'.fds = s.fds) (hlog : s'.log = s.log) (hfiles : s'.files = s.files)
    (hpins : s'.pins = s.pins) (hborn : s'.born = s.born)
    (hvalue : ∀ h, s'.valueFdOf h = s.valueFdOf h) : Sound locals s' :=
  hs.transfer (hs.ledger.congr hfds hlog) hfds
    (fun owner => congrArg (List.countP (FdEvent.IsOpenBy owner)) hlog) hfiles hpins hborn hvalue

/-- Only the last table stored for an instance counts. -/
theorem setFiles_setFiles (s : AgentState) (inst : Nat) (t t' : Table FileObject) :
    (s.setFiles inst t).setFiles inst t' = s.setFiles inst t' := by
  simp only [setFiles, Table.insert_insert_self]

theorem mem_files_of_getElem? {s : AgentState} {inst hdl : Nat} {f : FileObject}
    (hf : (s.filesOf inst)[hdl]? = some f) : inst ∈ s.files := by
  rw [Table.mem_iff_exists]
  cases hinst : s.files[inst]? with
  | none => simp [filesOf, hinst] at hf
  | some t => exact ⟨t, rfl⟩

theorem Sound.perm {locals locals' : List FileObject} {s : AgentState}
    (hs : Sound locals s) (hperm : locals.Perm locals') : Sound locals' s where
  ledger := hs.ledger
  holds_iff owner fd := by
    rw [← hs.holds_iff owner fd]
    cases owner with
    | file id => simp only [Holds, hperm.mem_iff]
    | helper h => rfl
  unborn := hs.unborn
  unopened := hs.unopened
  fileKey := hs.fileKey
  localsNodup := (hperm.map _).nodup_iff.mp hs.localsNodup
  localsApart hf := hs.localsApart (hperm.mem_iff.mpr hf)
  handleOpened := hs.handleOpened
  bornFiles := hs.bornFiles
  bornPins := hs.bornPins
  bornHelpers := hs.bornHelpers

/-- A file on the stack is destroyed: it closes its own descriptor. -/
theorem Sound.destroyFile {locals : List FileObject} {s : AgentState} {f : FileObject}
    (hs : Sound (f :: locals) s) : Sound locals (s.destroyFile f) := by
  have howner : s.fds[f.fd]? = some (.file f.id) :=
    (hs.holds_iff _ _).mp (.inr List.mem_cons_self)
  have hnodup : f.id ∉ locals.map (·.id) ∧ (locals.map (·.id)).Nodup :=
    List.nodup_cons.mp hs.localsNodup
  refine ⟨hs.ledger.close howner, ?_, ?_, ?_, hs.fileKey, hnodup.2,
    fun hmem => hs.localsApart (List.mem_cons_of_mem _ hmem), hs.handleOpened, hs.bornFiles,
    hs.bornPins, hs.bornHelpers⟩
  · intro owner fd
    have hlookup : (s.destroyFile f).fds[fd]? = if f.fd = fd then none else s.fds[fd]? := by
      simp only [AgentState.destroyFile, fds, Kernel.close_fds, Table.getElem?_erase_eq]
    rw [hlookup]
    constructor
    · intro hholds
      have hbefore : s.Holds (f :: locals) owner fd := by
        cases owner with
        | file id => exact hholds.imp_right fun hmem => List.mem_cons_of_mem _ hmem
        | helper h => exact hholds
      have hfd := (hs.holds_iff owner fd).mp hbefore
      have hne : f.fd ≠ fd := by
        rintro rfl
        cases howner.symm.trans hfd
        rcases hholds with ⟨inst, hdl, hg⟩ | hmem
        · exact hs.localsApart List.mem_cons_self hg rfl
        · exact hnodup.1 (List.mem_map_of_mem (f := FileObject.id) hmem)
      rw [if_neg hne]
      exact hfd
    · intro hfd
      split at hfd
      · cases hfd
      · next hne =>
          have hbefore := (hs.holds_iff owner fd).mpr hfd
          cases owner with
          | file id =>
              rcases hbefore with hheld | hmem
              · exact .inl hheld
              · rcases List.mem_cons.mp hmem with heq | hmem
                · exact absurd (congrArg FileObject.fd heq).symm hne
                · exact .inr hmem
          | helper h => exact hbefore
  · intro owner hborn
    exact (Kernel.opens_close _ _ _ _).trans (hs.unborn owner hborn)
  · intro h hvalue
    exact (Kernel.opens_close _ _ _ _).trans (hs.unopened h hvalue)

theorem Sound.destroyFiles {locals : List FileObject} {s : AgentState}
    (hs : Sound locals s) : Sound [] (locals.foldl (fun s f => s.destroyFile f) s) := by
  induction locals generalizing s with
  | nil => exact hs
  | cons f locals ih => exact ih hs.destroyFile

theorem Sound.takeFile {locals : List FileObject} {s : AgentState} {inst hdl : Nat}
    {f : FileObject} (hs : Sound locals s) (hf : (s.filesOf inst)[hdl]? = some f) :
    Sound (f :: locals) (s.setFiles inst ((s.filesOf inst).erase hdl)) := by
  have hinst := mem_files_of_getElem? hf
  have hlookup := s.filesOf_eraseFile inst hdl
  have hkept : ∀ {inst' hdl' : Nat} {g : FileObject},
      ((s.setFiles inst ((s.filesOf inst).erase hdl)).filesOf inst')[hdl']? = some g →
        (s.filesOf inst')[hdl']? = some g ∧ f.id ≠ g.id := by
    intro inst' hdl' g hg
    rw [hlookup] at hg
    split at hg
    · cases hg
    · next hkey => exact ⟨hg, fun heq => hkey (hs.fileKey hf hg heq)⟩
  refine ⟨hs.ledger, ?_, hs.unborn, hs.unopened, ?_, ?_, ?_, hs.handleOpened, ?_, hs.bornPins,
    hs.bornHelpers⟩
  · intro owner fd
    refine Iff.trans ?_ (hs.holds_iff owner fd)
    cases owner with
    | file id =>
        constructor
        · rintro (⟨inst', hdl', hg⟩ | hmem)
          · exact .inl ⟨inst', hdl', (hkept hg).1⟩
          · rcases List.mem_cons.mp hmem with heq | hmem
            · exact .inl ⟨inst, hdl, heq ▸ hf⟩
            · exact .inr hmem
        · rintro (⟨inst', hdl', hg⟩ | hmem)
          · by_cases hkey : inst = inst' ∧ hdl = hdl'
            · obtain ⟨rfl, rfl⟩ := hkey
              cases hf.symm.trans hg
              exact .inr List.mem_cons_self
            · exact .inl ⟨inst', hdl', by rw [hlookup, if_neg hkey]; exact hg⟩
          · exact .inr (List.mem_cons_of_mem _ hmem)
    | helper h => exact Iff.rfl
  · intro inst₁ inst₂ hdl₁ hdl₂ f₁ f₂ h₁ h₂ heq
    exact hs.fileKey (hkept h₁).1 (hkept h₂).1 heq
  · refine List.nodup_cons.mpr ⟨fun hmem => ?_, hs.localsNodup⟩
    obtain ⟨g, hg, heq⟩ := List.mem_map.mp hmem
    exact hs.localsApart hg hf heq
  · intro f₁ f₂ inst' hdl' hmem h₂
    rcases List.mem_cons.mp hmem with rfl | hmem
    · exact (hkept h₂).2
    · exact hs.localsApart hmem (hkept h₂).1
  · exact Table.forall_mem_insert _ (hs.bornFiles inst hinst) hs.bornFiles

/-- A file on the stack is stored under a handle that is not in use. -/
theorem Sound.placeFile {locals : List FileObject} {s : AgentState} {inst hdl : Nat}
    {f : FileObject} (hs : Sound (f :: locals) s) (hinst : inst ∈ s.files)
    (hfree : (s.filesOf inst)[hdl]? = none) :
    Sound locals (s.setFiles inst ((s.filesOf inst).insert hdl f)) := by
  have hlookup := s.filesOf_insertFile inst hdl f
  have hnodup : f.id ∉ locals.map (·.id) ∧ (locals.map (·.id)).Nodup :=
    List.nodup_cons.mp hs.localsNodup
  have hnew : ∀ {inst' hdl' : Nat} {g : FileObject},
      (s.filesOf inst')[hdl']? = some g → f.id ≠ g.id := fun hg =>
    hs.localsApart List.mem_cons_self hg
  refine ⟨hs.ledger, ?_, hs.unborn, hs.unopened, ?_, hnodup.2, ?_, hs.handleOpened, ?_,
    hs.bornPins, hs.bornHelpers⟩
  · intro owner fd
    refine Iff.trans ?_ (hs.holds_iff owner fd)
    cases owner with
    | file id =>
        constructor
        · rintro (⟨inst', hdl', hg⟩ | hmem)
          · rw [hlookup] at hg
            split at hg
            · cases hg
              exact .inr List.mem_cons_self
            · exact .inl ⟨inst', hdl', hg⟩
          · exact .inr (List.mem_cons_of_mem _ hmem)
        · rintro (⟨inst', hdl', hg⟩ | hmem)
          · refine .inl ⟨inst', hdl', ?_⟩
            rw [hlookup, if_neg]
            · exact hg
            · rintro ⟨rfl, rfl⟩
              rw [hfree] at hg
              cases hg
          · rcases List.mem_cons.mp hmem with heq | hmem
            · exact .inl ⟨inst, hdl, by rw [hlookup, if_pos ⟨rfl, rfl⟩, heq]⟩
            · exact .inr hmem
    | helper h => exact Iff.rfl
  · intro inst₁ inst₂ hdl₁ hdl₂ f₁ f₂ h₁ h₂ heq
    rw [hlookup] at h₁ h₂
    split at h₁ <;> split at h₂
    · next hk₁ hk₂ => exact ⟨hk₁.1.symm.trans hk₂.1, hk₁.2.symm.trans hk₂.2⟩
    · cases h₁
      exact absurd heq (hnew h₂)
    · cases h₂
      exact absurd heq.symm (hnew h₁)
    · exact hs.fileKey h₁ h₂ heq
  · intro g₁ g₂ inst' hdl' hmem h₂
    rw [hlookup] at h₂
    split at h₂
    · cases h₂
      exact fun heq => hnodup.1 (List.mem_map.mpr ⟨g₁, hmem, heq⟩)
    · exact hs.localsApart (List.mem_cons_of_mem _ hmem) h₂
  · exact Table.forall_mem_insert _ (hs.bornFiles inst hinst) hs.bornFiles

theorem Sound.not_open_of_unborn {locals : List FileObject} {s : AgentState}
    (hs : Sound locals s) {owner : Owner} (hborn : s.born ≤ owner.id) (fd : Fd) :
    s.fds[fd]? ≠ some owner :=
  hs.ledger.not_open_of_opens_eq_zero (hs.unborn owner hborn) fd

/-- A file that has just opened an unused number is on the stack. -/
theorem Sound.newFile {locals : List FileObject} {s : AgentState} (hs : Sound locals s)
    {fd : Fd} (hunused : fd ∉ s.fds) :
    Sound (⟨s.born, fd⟩ :: locals) { s with
      born := s.born + 1
      react := { s.react with kernel := s.react.kernel.openFd (.file s.born) fd } } := by
  have hfresh : ∀ {f : FileObject}, s.Holds locals (.file f.id) f.fd → s.born ≠ f.id := by
    intro f hholds heq
    have hopen := (hs.holds_iff _ _).mp hholds
    exact hs.not_open_of_unborn (show s.born ≤ (Owner.file f.id).id from Nat.le_of_eq heq) _ hopen
  refine ⟨hs.ledger.openFd hunused (hs.unborn (.file s.born) (Nat.le_refl _)), ?_, ?_, ?_,
    hs.fileKey, ?_, ?_, hs.handleOpened, fun inst hmem => Nat.lt_succ_of_lt (hs.bornFiles inst hmem),
    fun inst hmem => Nat.lt_succ_of_lt (hs.bornPins inst hmem),
    fun h hmem => Nat.lt_succ_of_lt (hs.bornHelpers h hmem)⟩
  · intro owner a
    simp only [fds, Kernel.openFd_fds, Table.getElem?_insert_eq]
    constructor
    · intro hholds
      have hcase : (owner = .file s.born ∧ a = fd) ∨ s.Holds locals owner a := by
        cases owner with
        | file id =>
            rcases hholds with hheld | hmem
            · exact .inr (.inl hheld)
            · rcases List.mem_cons.mp hmem with heq | hmem
              · cases heq
                exact .inl ⟨rfl, rfl⟩
              · exact .inr (.inr hmem)
        | helper h => exact .inr hholds
      rcases hcase with ⟨rfl, rfl⟩ | hbefore
      · rw [if_pos rfl]
      · have hopen := (hs.holds_iff owner a).mp hbefore
        have hne : fd ≠ a := by
          rintro rfl
          rw [fds, (Table.not_mem_iff _ _).mp hunused] at hopen
          cases hopen
        rw [if_neg hne]
        exact hopen
    · intro hopen
      split at hopen
      · next heq =>
          cases hopen
          exact .inr (by rw [heq]; exact List.mem_cons_self)
      · have hbefore := (hs.holds_iff owner a).mpr hopen
        cases owner with
        | file id => exact hbefore.imp_right fun hmem => List.mem_cons_of_mem _ hmem
        | helper h => exact hbefore
  · intro owner hborn
    have hne : Owner.file s.born ≠ owner := by
      rintro rfl
      exact Nat.not_succ_le_self _ hborn
    have hzero := hs.unborn owner (Nat.le_of_succ_le hborn)
    simp only [Kernel.opens_openFd, if_neg hne, hzero]
  · intro h hvalue
    have hzero := hs.unopened h hvalue
    simp only [Kernel.opens_openFd, hzero, reduceCtorEq, if_false]
  · refine List.nodup_cons.mpr ⟨fun hmem => ?_, hs.localsNodup⟩
    obtain ⟨f, hf, heq⟩ := List.mem_map.mp hmem
    exact hfresh (f := f) (.inr hf) heq.symm
  · intro f g inst hdl hmem hg
    rcases List.mem_cons.mp hmem with rfl | hmem
    · exact hfresh (f := g) (.inl ⟨inst, hdl, hg⟩)
    · exact hs.localsApart hmem hg

theorem Sound.newHelper {locals : List FileObject} {s s' : AgentState} (hs : Sound locals s)
    (hreact : s'.react = s.react) (hfiles : s'.files = s.files) (hpins : s'.pins = s.pins)
    (hborn : s'.born = s.born + 1) (pin : Nat)
    (hhelpers : s'.helpers = s.helpers.insert s.born { pin := pin }) : Sound locals s' := by
  have hvalue : ∀ h : Nat, s'.valueFdOf h = if s.born = h then some none else s.valueFdOf h := by
    intro h
    simp only [valueFdOf, hhelpers, Table.getElem?_insert_eq]
    split <;> rfl
  have hold : s.valueFdOf s.born = none := by
    by_contra hsome
    obtain ⟨value, hsome⟩ := Option.ne_none_iff_exists'.mp hsome
    exact Nat.lt_irrefl _ (hs.bornHelpers _ ((s.mem_helpers_iff _).mpr ⟨value, hsome⟩))
  have hfilesOf : ∀ inst, s'.filesOf inst = s.filesOf inst := fun inst => by
    rw [filesOf, filesOf, hfiles]
  refine ⟨by rw [hreact]; exact hs.ledger, ?_, ?_, ?_, ?_, hs.localsNodup, ?_, ?_, ?_, ?_, ?_⟩
  · intro owner fd
    rw [fds, hreact, ← hs.holds_iff owner fd]
    cases owner with
    | file id => simp only [Holds, hfilesOf]
    | helper h =>
        simp only [Holds, hvalue]
        split
        · next heq => simp [← heq, hold]
        · rfl
  · intro owner hle
    rw [hborn] at hle
    rw [hreact]
    exact hs.unborn owner (Nat.le_of_succ_le hle)
  · intro h hnone
    rw [hreact]
    rw [hvalue] at hnone
    split at hnone
    · next heq => exact hs.unborn (.helper h) (Nat.le_of_eq heq)
    · exact hs.unopened h hnone
  · intro inst inst' hdl hdl' f g
    rw [hfilesOf, hfilesOf]
    exact hs.fileKey
  · intro f g inst hdl
    rw [hfilesOf]
    exact hs.localsApart
  · intro inst hdl g hg
    rw [pinsOf, hpins] at hg
    obtain ⟨fd, hfd⟩ := hs.handleOpened hg
    have hne : s.born ≠ g := by
      rintro rfl
      rw [hold] at hfd
      cases hfd
    exact ⟨fd, by rw [hvalue, if_neg hne]; exact hfd⟩
  · rw [hfiles, hborn]
    exact fun inst hmem => Nat.lt_succ_of_lt (hs.bornFiles inst hmem)
  · rw [hpins, hborn]
    exact fun inst hmem => Nat.lt_succ_of_lt (hs.bornPins inst hmem)
  · rw [hhelpers, hborn]
    exact Table.forall_lt_insert _ hs.bornHelpers

theorem Sound.openHelper {locals : List FileObject} {s : AgentState} (hs : Sound locals s)
    {h : Nat} {impl : GpioHelper} {fd : Fd} (hunused : fd ∉ s.fds)
    (himpl : s.helpers[h]? = some impl) (hnone : impl.valueFd = none) :
    Sound locals { s with
      react := { s.react with kernel := s.react.kernel.openFd (.helper h) fd }
      helpers := s.helpers.insert h { impl with valueFd := some fd } } := by
  have hbefore : s.valueFdOf h = some none := by rw [valueFdOf, himpl, ← hnone]; rfl
  have hmem : h ∈ s.helpers := (s.mem_helpers_iff h).mpr ⟨_, hbefore⟩
  have hzero := hs.unopened h hbefore
  refine ⟨hs.ledger.openFd hunused hzero, ?_, ?_, ?_, hs.fileKey, hs.localsNodup,
    hs.localsApart, ?_, hs.bornFiles, hs.bornPins, ?_⟩
  · intro owner a
    simp only [fds, Kernel.openFd_fds, Table.getElem?_insert_eq]
    have hiff := hs.holds_iff owner a
    have hclosed : fd = a → s.fds[a]? ≠ some owner := by
      rintro rfl hopen
      rw [(Table.not_mem_iff _ _).mp hunused] at hopen
      cases hopen
    cases owner with
    | file id =>
        refine hiff.trans ?_
        split
        · next heq => simp [hclosed heq]
        · rfl
    | helper k =>
        simp only [Holds, valueFdOf, Table.getElem?_insert_eq] at hiff ⊢
        by_cases hk : h = k
        · subst hk
          have hnever := hs.ledger.not_open_of_opens_eq_zero hzero a
          simp only [if_true, Option.map_some, Option.some.injEq]
          split
          · next heq => simp [heq]
          · next hne => simp [hne, hnever]
        · simp only [hk, if_false, hiff]
          split
          · next heq => simp [hclosed heq, hk]
          · rfl
  · intro owner hborn
    have hne : Owner.helper h ≠ owner := by
      rintro rfl
      exact Nat.lt_irrefl _ (Nat.lt_of_lt_of_le (hs.bornHelpers h hmem) hborn)
    simp only [Kernel.opens_openFd, if_neg hne, hs.unborn owner hborn]
  · intro k hk
    simp only [valueFdOf, Table.getElem?_insert_eq] at hk
    split at hk
    · cases hk
    · next hne =>
        have hold := hs.unopened k hk
        simp only [Kernel.opens_openFd, hold, Owner.helper.injEq, hne, if_false]
  · intro inst hdl g hg
    obtain ⟨a, ha⟩ := hs.handleOpened hg
    simp only [valueFdOf, Table.getElem?_insert_eq]
    split
    · exact ⟨fd, rfl⟩
    · exact ⟨a, ha⟩
  · exact Table.forall_mem_insert _ (hs.bornHelpers h hmem) hs.bornHelpers

/-- A helper that no handle refers to is destroyed: it closes its own
descriptor, if it has one. -/
theorem Sound.destroyHelper {locals : List FileObject} {s : AgentState} (hs : Sound locals s)
    {h : Nat} {impl : GpioHelper} (himpl : s.helpers[h]? = some impl)
    (hfree : ∀ inst hdl : Nat, (s.pinsOf inst)[hdl]? ≠ some h) :
    Sound locals { s with react := impl.destroy h s.react, helpers := s.helpers.erase h } := by
  have hvalue : s.valueFdOf h = some impl.valueFd := by rw [valueFdOf, himpl]; rfl
  have hgone : ∀ k : Nat, (s.helpers.erase h)[k]?.map (·.valueFd) =
      if h = k then none else s.valueFdOf k := by
    intro k
    rw [Table.getElem?_erase_eq, valueFdOf]
    split <;> rfl
  have hopened : ∀ {inst hdl g : Nat}, (s.pinsOf inst)[hdl]? = some g →
      ∃ fd, (s.helpers.erase h)[g]?.map (·.valueFd) = some (some fd) := by
    intro inst hdl g hg
    obtain ⟨a, ha⟩ := hs.handleOpened hg
    have hne : h ≠ g := by
      rintro rfl
      exact hfree inst hdl hg
    exact ⟨a, by rw [hgone, if_neg hne]; exact ha⟩
  have hbornHelpers : ∀ k ∈ s.helpers.erase h, k < s.born := fun k hk =>
    hs.bornHelpers k (Std.ExtTreeMap.mem_erase.mp hk).2
  cases hfd : impl.valueFd with
  | none =>
      have hsame : impl.destroy h s.react = s.react := by simp [GpioHelper.destroy, hfd]
      rw [hsame]
      rw [hfd] at hvalue
      have hzero := hs.unopened h hvalue
      refine ⟨hs.ledger, ?_, hs.unborn, ?_, hs.fileKey, hs.localsNodup, hs.localsApart, hopened,
        hs.bornFiles, hs.bornPins, hbornHelpers⟩
      · intro owner a
        cases owner with
        | file id => exact hs.holds_iff (.file id) a
        | helper k =>
            rw [← hs.holds_iff (.helper k) a, Holds, Holds, valueFdOf, hgone]
            split
            · next heq => simp [← heq, hvalue]
            · rfl
      · intro k hk
        rw [valueFdOf, hgone] at hk
        split at hk
        · cases hk
        · exact hs.unopened k hk
  | some fd =>
      rw [hfd] at hvalue
      have howner : s.fds[fd]? = some (.helper h) := (hs.holds_iff (.helper h) fd).mp hvalue
      have hclose : impl.destroy h s.react =
          { s.react with kernel := s.react.kernel.close (.object (.helper h)) fd } := by
        simp [GpioHelper.destroy, hfd]
      rw [hclose]
      refine ⟨hs.ledger.close howner, ?_, fun owner hborn => ?_, ?_, hs.fileKey, hs.localsNodup,
        hs.localsApart, hopened, hs.bornFiles, hs.bornPins, hbornHelpers⟩
      · intro owner a
        have hiff := hs.holds_iff owner a
        simp only [fds, Kernel.close_fds, Table.getElem?_erase_eq]
        cases owner with
        | file id =>
            refine hiff.trans ?_
            split
            · next heq =>
                rw [← heq, howner]
                simp
            · rfl
        | helper k =>
            rw [Holds, valueFdOf, hgone]
            rw [Holds] at hiff
            by_cases hk : h = k
            · subst hk
              rw [hvalue] at hiff
              simp only [if_true, reduceCtorEq, false_iff]
              split
              · simp
              · next hne => exact fun hopen => hne (by simpa using hiff.mpr hopen)
            · rw [if_neg hk, hiff]
              split
              · next heq =>
                  rw [← heq, howner]
                  simp [hk]
              · rfl
      · exact (Kernel.opens_close _ _ _ _).trans (hs.unborn owner hborn)
      · intro k hk
        rw [valueFdOf, hgone] at hk
        split at hk
        · cases hk
        · exact (Kernel.opens_close _ _ _ _).trans (hs.unopened k hk)

/-- Handle tables may change freely as long as every handle's helper exists and
has opened its descriptor. -/
theorem Sound.setHandles {locals : List FileObject} {s : AgentState} (hs : Sound locals s)
    {t : Table (Table Nat)} (hborn : ∀ inst ∈ t, inst < s.born)
    (hopened : ∀ {inst hdl g : Nat}, ((t[inst]?.getD ∅) : Table Nat)[hdl]? = some g →
      ∃ fd, s.valueFdOf g = some (some fd)) : Sound locals { s with pins := t } :=
  ⟨hs.ledger, hs.holds_iff, hs.unborn, hs.unopened, hs.fileKey, hs.localsNodup, hs.localsApart,
    hopened, hs.bornFiles, hborn, hs.bornHelpers⟩

end AgentState

end FerroRemote.Agent

/-
# Iterators and their clones

A client asks for iterators and for clones of them, and goes on with each on its own.
The model keeps, for everything asked for, the entries it should still show, beside
what the client really has: an object it can call, a bare address that no call
accepts, or nothing. The same machine describes the objects of the client library and
those of the scripting module, which differ in what a clone is given out as.
-/

import FerroRemote.Client.DirectoryIterator
import FerroRemote.Math.Machine

namespace FerroRemote.Client

open FerroRemote.Agent

/-- Through what the iterators are used. -/
inductive Front
  | core
  | lua
  deriving DecidableEq, Repr

/-- What the client has in its hands. -/
inductive Hold
  /-- A `dir_iter_impl`, or a userdata with the metatable of iterators. -/
  | object
  /-- A light userdata: `get_iter_object` does not take it for an iterator. -/
  | address
  /-- The call has thrown, or returned nil. -/
  | nothing
  deriving DecidableEq, Repr

/-- What a clone is given out as: `lcall_fs_iter_clone` pushes the handle itself, where
`lcall_fs_iter_begin` pushes an object. -/
def Front.cloned : Front → Hold
  | .core => .object
  | .lua => .address

/-- Something the client has asked for, and the entries it should still show. -/
structure Holder (P : Type) where
  expected : List P
  hold : Hold

/-- `clone_impl`: the request is sent as it was made, without a handle. -/
def DirIterImpl.clone {P : Type} [Inhabited P] (tree : FileTree P) (_it : DirIterImpl P)
    (d : DirState P) : Except Error (DirIterImpl P) × DirState P :=
  let hdl := 0
  ((d.iterClone tree hdl).1.map .ofInfo, (d.iterClone tree hdl).2)

/-- The agent's side, the client's objects, and what the client has asked for. The
module's `iterators_`, or the heap, gives every object a place of its own. -/
structure CloneState (P : Type) where
  d : DirState P
  objects : Table (DirIterImpl P) := ∅
  holders : Table (Holder P) := ∅

/-- What a client does with iterators. A new one goes to a place that is free. -/
inductive CloneAction (P : Type)
  | begin (n : Nat) (path : P) (hdl : Nat)
  | next (n : Nat)
  | get (n : Nat)
  | clone (n m : Nat)
  | destroy (n : Nat)
  /-- Another service of the agent draws a number. -/
  | nextOpId

namespace CloneState

variable {P : Type} [Inhabited P] (front : Front) (ops : PathOps P) (tree : FileTree P)

/-- The object behind what the client has: `get_fs_iter` of `get_iter_object`. -/
def get (s : CloneState P) (n : Nat) : Option (DirIterImpl P) :=
  match s.holders[n]? with
  | some ⟨_, .object⟩ => s.objects[n]?
  | _ => none

def Free (s : CloneState P) (n : Nat) : Prop := s.holders[n]? = none ∧ s.objects[n]? = none

instance (s : CloneState P) (n : Nat) : Decidable (s.Free n) :=
  decidable_of_iff (s.holders[n]?.isNone ∧ s.objects[n]?.isNone) (by simp [Free])

/-- The entries of the directory that a request means. -/
def listed (d : DirState P) (path : P) (hdl : Nat) : List P :=
  match (d.fs.pathFromRequest ops d.agent path (some hdl)).1 with
  | .error _ => []
  | .ok (p, _) => (tree.listing p).toOption.getD []

def begin (s : CloneState P) (n : Nat) (path : P) (hdl : Nat) : CloneState P :=
  match beginIterate ops tree s.d path hdl with
  | (.error _, d) => { s with d := d }
  | (.ok it, d) =>
    { d := d
      objects := s.objects.insert n it
      holders := s.holders.insert n ⟨listed ops tree s.d path hdl, .object⟩ }

def next (s : CloneState P) (n : Nat) (h : Holder P) : CloneState P :=
  let holders := s.holders.insert n { h with expected := h.expected.tail }
  match s.get n with
  | none => { s with holders := holders }
  | some it =>
    match it.next tree s.d with
    | (.error _, d) => { s with d := d, holders := holders }
    | (.ok it, d) => { d := d, objects := s.objects.insert n it, holders := holders }

def clone (s : CloneState P) (m n : Nat) (h : Holder P) : CloneState P :=
  match s.get n with
  | none => { s with holders := s.holders.insert m { h with hold := .nothing } }
  | some it =>
    match it.clone tree s.d with
    | (.error _, d) => { s with d := d, holders := s.holders.insert m { h with hold := .nothing } }
    | (.ok copy, d) =>
      { d := d
        objects := s.objects.insert m copy
        holders := s.holders.insert m { h with hold := front.cloned } }

/-- `~dir_iter_impl`; what is no object is only forgotten. -/
def destroy (s : CloneState P) (n : Nat) : CloneState P :=
  match s.get n with
  | none => { s with holders := s.holders.erase n }
  | some it =>
    { d := s.d.close it.hdl, objects := s.objects.erase n, holders := s.holders.erase n }

def step (s : CloneState P) : CloneAction P → Option (CloneState P)
  | .begin n path hdl => if s.Free n then some (s.begin ops tree n path hdl) else none
  | .next n => s.holders[n]?.map (s.next tree n)
  | .get n => s.holders[n]?.map fun _ => s
  | .clone n m => if s.Free m then s.holders[n]?.map (s.clone front tree m n) else none
  | .destroy n => s.holders[n]?.map fun _ => s.destroy n
  | .nextOpId => some { s with d := { s.d with agent := s.d.agent.nextOpId.2 } }

end CloneState

namespace CloneState

variable {P : Type} {s s' : CloneState P}

theorem get_congr {n : Nat} (hholder : s'.holders[n]? = s.holders[n]?)
    (hobject : s'.objects[n]? = s.objects[n]?) : s'.get n = s.get n := by
  simp only [get, hholder, hobject]

theorem get_of_holder {n : Nat} {entries : List P} (hholder : s.holders[n]? = some ⟨entries, .object⟩) :
    s.get n = s.objects[n]? := by
  simp only [get, hholder]

theorem holder_of_get {n : Nat} {it : DirIterImpl P} (hget : s.get n = some it) :
    ∃ entries, s.holders[n]? = some ⟨entries, .object⟩ ∧ s.objects[n]? = some it := by
  unfold get at hget
  split at hget
  · next entries hholder => exact ⟨entries, hholder, hget⟩
  · cases hget

theorem get_of_free {n : Nat} (hfree : s.Free n) : s.get n = none := by
  simp only [get, hfree.1]

/-- What a place that is left alone holds after another one has been emptied. -/
theorem get_erase {n m : Nat} (hne : m ≠ n) (hholders : s'.holders = s.holders.erase n)
    (hobjects : s'.objects = s.objects.erase n) : s'.get m = s.get m := by
  apply get_congr
  · rw [hholders, Table.getElem?_erase_of_ne (Ne.symm hne)]
  · rw [hobjects, Table.getElem?_erase_of_ne (Ne.symm hne)]

theorem get_erase_self {n : Nat} (hholders : s'.holders = s.holders.erase n) : s'.get n = none := by
  simp only [get, hholders, Table.getElem?_erase_eq, if_true]

theorem get_insert {n m : Nat} {h : Holder P} {it : DirIterImpl P} (hne : m ≠ n)
    (hholders : s'.holders = s.holders.insert n h) (hobjects : s'.objects = s.objects.insert n it) :
    s'.get m = s.get m := by
  apply get_congr
  · rw [hholders, Table.getElem?_insert_of_ne (Ne.symm hne)]
  · rw [hobjects, Table.getElem?_insert_of_ne (Ne.symm hne)]

theorem get_insert_self {n : Nat} {entries : List P} {it : DirIterImpl P}
    (hholders : s'.holders = s.holders.insert n ⟨entries, .object⟩)
    (hobjects : s'.objects = s.objects.insert n it) : s'.get n = some it := by
  have hholder : s'.holders[n]? = some ⟨entries, .object⟩ := by
    rw [hholders, Table.getElem?_insert_self]
  rw [get_of_holder hholder, hobjects, Table.getElem?_insert_self]

end CloneState

/-- An instance without iterators, whatever paths it has opened and wherever the counter
stands. -/
def dirIterators {P : Type} [Inhabited P] (front : Front) (ops : PathOps P) (tree : FileTree P)
    (paths : Table (OpenedPath P)) (opId : Nat) : Machine (CloneState P) (CloneAction P) where
  init := { d := { agent := { opId := opId }, fs := { path := paths } } }
  step := CloneState.step front ops tree

namespace CloneState

variable {P : Type} (ops : PathOps P) (tree : FileTree P)

/-- Everything the client has asked for is an iterator of its own. -/
structure Independent (s : CloneState P) : Prop where
  /-- It can be called, shows the entry it should show, and has left on the agent what
  it should have left. -/
  usable : ∀ (n : Nat) (h : Holder P), s.holders[n]? = some h →
    ∃ it, s.get n = some it ∧ it.Shows tree h.expected ∧ s.d.At it.hdl h.expected
  /-- Its handle is not another's. -/
  apart : ∀ (n m : Nat) (it it' : DirIterImpl P), s.get n = some it → s.get m = some it' →
    it.hdl = it'.hdl → n = m
  /-- The agent has no other iterators. -/
  nothingLeft : ∀ (hdl : Nat) (iter : DirIterator P), s.d.fs.iters[hdl]? = some iter →
    ∃ n it, s.get n = some it ∧ it.hdl = hdl

/-- No clones, no number is used twice, and what is asked about directories is answered: the
number of a new iterator is no iterator's, unless the begin throws with the iterator in the
table, which then has to be another one; an iterator's step is answered; and the number of an
iterator that is destroyed is no path's. -/
def Unshared (s : CloneState P) : CloneAction P → Prop
  | .begin _ path hdl => ∀ (p : P) (h : Nat) (entries : List P),
      (s.d.fs.pathFromRequest ops s.d.agent path (some hdl)).1 = .ok (p, h) →
        tree.listing p = .ok entries →
          (tree.Described entries ↔ s.d.fs.iters[s.d.iterHdl ops path (some hdl)]? = none)
  | .next n => ∀ (it : DirIterImpl P) (iter : DirIterator P) (p : P) (rest : List P),
      s.get n = some it → s.d.fs.iters[it.hdl]? = some iter →
        s.d.entriesLeft iter = p :: rest → tree.Advances iter.dir rest
  | .clone _ _ => False
  | .destroy n => ∀ it, s.get n = some it → s.d.fs.path[it.hdl]? = none
  | .get _ | .nextOpId => True

/-- Independent iterators that go through streams of their own. -/
structure Separate (s : CloneState P) : Prop extends s.Independent tree where
  unmixed : s.d.Unmixed

/-! ## Steps -/

variable {tree} {s s' : CloneState P}

/-- One iterator is placed or moved: what it shows is right, the others are as they were,
and the agent has no iterators beside. -/
theorem Independent.place (hs : s.Independent tree) {n : Nat} {it : DirIterImpl P}
    {entries : List P} (hholders : s'.holders = s.holders.insert n ⟨entries, .object⟩)
    (hobjects : s'.objects = s.objects.insert n it) (hshows : it.Shows tree entries)
    (hat : s'.d.At it.hdl entries)
    (hothers : ∀ hdl rest, hdl ≠ it.hdl → s.d.At hdl rest → s'.d.At hdl rest)
    (hapart : ∀ m it', m ≠ n → s.get m = some it' → it'.hdl ≠ it.hdl)
    (hiters : ∀ hdl iter, s'.d.fs.iters[hdl]? = some iter → hdl ≠ it.hdl →
      ∃ iter', s.d.fs.iters[hdl]? = some iter')
    (hsame : ∀ it', s.get n = some it' → it'.hdl = it.hdl) : s'.Independent tree := by
  have hget : s'.get n = some it := get_insert_self hholders hobjects
  have hrest : ∀ m, m ≠ n → s'.get m = s.get m := fun m hne => get_insert hne hholders hobjects
  refine ⟨?_, ?_, ?_⟩
  · intro m h hh
    rw [hholders, Table.getElem?_insert_eq] at hh
    by_cases heq : n = m
    · subst heq
      rw [if_pos rfl, Option.some_inj] at hh
      subst hh
      exact ⟨it, hget, hshows, hat⟩
    · rw [if_neg heq] at hh
      obtain ⟨it', hget', hshows', hat'⟩ := hs.usable m h hh
      exact ⟨it', (hrest m (Ne.symm heq)).trans hget', hshows',
        hothers it'.hdl h.expected (hapart m it' (Ne.symm heq) hget') hat'⟩
  · intro a b it₁ it₂ h₁ h₂ heq
    by_cases ha : a = n
    · by_cases hb : b = n
      · exact ha.trans hb.symm
      · rw [ha, hget, Option.some_inj] at h₁
        rw [hrest b hb] at h₂
        exact absurd (h₁ ▸ heq.symm) (hapart b it₂ hb h₂)
    · by_cases hb : b = n
      · rw [hb, hget, Option.some_inj] at h₂
        rw [hrest a ha] at h₁
        exact absurd (h₂ ▸ heq) (hapart a it₁ ha h₁)
      · rw [hrest a ha] at h₁
        rw [hrest b hb] at h₂
        exact hs.apart a b it₁ it₂ h₁ h₂ heq
  · intro hdl iter hiter
    by_cases heq : hdl = it.hdl
    · exact ⟨n, it, hget, heq.symm⟩
    · obtain ⟨iter', hiter'⟩ := hiters hdl iter hiter heq
      obtain ⟨m, it', hget', hhdl⟩ := hs.nothingLeft hdl iter' hiter'
      have hne : m ≠ n := by
        intro hm
        subst hm
        exact heq (hhdl.symm.trans (hsame it' hget'))
      exact ⟨m, it', (hrest m hne).trans hget', hhdl⟩

/-- The handle of an iterator the client has is in the agent's table. -/
theorem Independent.handle_mem (hs : s.Independent tree) {n : Nat} {it : DirIterImpl P}
    (hget : s.get n = some it) : ∃ iter, s.d.fs.iters[it.hdl]? = some iter := by
  obtain ⟨entries, hholder, -⟩ := holder_of_get hget
  obtain ⟨it', hget', -, iter, hiter, -⟩ := hs.usable n _ hholder
  rw [hget, Option.some_inj] at hget'
  exact ⟨iter, hget' ▸ hiter⟩

theorem Separate.destroy (hs : s.Separate tree) {n : Nat} {h : Holder P}
    (hholder : s.holders[n]? = some h) (hpath : s.Unshared ops tree (.destroy n)) :
    (s.destroy n).Separate tree := by
  obtain ⟨it, hget, -, -⟩ := hs.usable n h hholder
  have hclose : s.d.fs.fsClose it.hdl = { s.d.fs with iters := s.d.fs.iters.erase it.hdl } := by
    rw [FsInstance.fsClose, hpath it hget]
  have hiters : ∀ hdl (iter : DirIterator P), (s.d.fs.iters.erase it.hdl)[hdl]? = some iter →
      s.d.fs.iters[hdl]? = some iter ∧ it.hdl ≠ hdl := by
    intro hdl iter hiter
    exact (Table.getElem?_erase_eq_some_iff.mp hiter).symm
  simp only [CloneState.destroy, hget, DirState.close, hclose]
  refine ⟨⟨?_, ?_, ?_⟩, ?_⟩
  · intro m h' hh'
    obtain ⟨hnm, hh'⟩ := Table.getElem?_erase_eq_some_iff.mp hh'
    obtain ⟨it', hget', hshows', iter', hiter', hleft'⟩ := hs.usable m h' hh'
    have hne : it.hdl ≠ it'.hdl := fun hhdl => hnm (hs.apart n m it it' hget hget' hhdl)
    have hkept : (s.d.fs.iters.erase it.hdl)[it'.hdl]? = some iter' :=
      Table.getElem?_erase_eq_some_iff.mpr ⟨hne, hiter'⟩
    exact ⟨it', (get_erase (Ne.symm hnm) rfl rfl).trans hget', hshows', iter', hkept, hleft'⟩
  · intro a b it₁ it₂ h₁ h₂
    have ha : a ≠ n := by
      intro heq
      rw [heq, get_erase_self rfl] at h₁
      cases h₁
    have hb : b ≠ n := by
      intro heq
      rw [heq, get_erase_self rfl] at h₂
      cases h₂
    rw [get_erase ha rfl rfl] at h₁
    rw [get_erase hb rfl rfl] at h₂
    exact hs.apart a b it₁ it₂ h₁ h₂
  · intro hdl iter hiter
    obtain ⟨hiter, hne⟩ := hiters hdl iter hiter
    obtain ⟨m, it', hget', hhdl⟩ := hs.nothingLeft hdl iter hiter
    have hm : m ≠ n := by
      intro heq
      rw [heq, hget, Option.some_inj] at hget'
      exact hne (hget' ▸ hhdl)
    exact ⟨m, it', (get_erase hm rfl rfl).trans hget', hhdl⟩
  · exact hs.unmixed.mono (fun hdl iter hiter => (hiters hdl iter hiter).1) (Nat.le_refl _)

/-- An iterator that has a path's number stays when it is closed. -/
theorem not_independent_destroy (hs : s.Separate tree) {n : Nat} {it : DirIterImpl P}
    {f : OpenedPath P} (hget : s.get n = some it) (hpath : s.d.fs.path[it.hdl]? = some f) :
    ¬ (s.destroy n).Independent tree := by
  intro hs'
  obtain ⟨iter, hiter⟩ := hs.toIndependent.handle_mem hget
  have hclose : (s.destroy n).d.fs.iters[it.hdl]? = some iter := by
    simp only [CloneState.destroy, hget, DirState.close, FsInstance.fsClose, hpath]
    exact hiter
  obtain ⟨m, it', hget', hhdl⟩ := hs'.nothingLeft it.hdl iter hclose
  have hholders : (s.destroy n).holders = s.holders.erase n := by
    simp only [CloneState.destroy, hget]
  have hobjects : (s.destroy n).objects = s.objects.erase n := by
    simp only [CloneState.destroy, hget]
  have hm : m ≠ n := by
    intro heq
    rw [heq, get_erase_self hholders] at hget'
    cases hget'
  rw [get_erase hm hholders hobjects] at hget'
  exact hm (hs.apart m n it' it hget' hget hhdl)

/-- A new iterator with a handle that is in the table shares it. -/
theorem not_independent_of_taken (hs : s.Independent tree) {n : Nat} {it : DirIterImpl P}
    {iter : DirIterator P} (hn : s.Free n) (hget : s'.get n = some it)
    (hrest : ∀ m, m ≠ n → s'.get m = s.get m) (hiter : s.d.fs.iters[it.hdl]? = some iter) :
    ¬ s'.Independent tree := by
  intro hs'
  obtain ⟨m, it', hget', hhdl⟩ := hs.nothingLeft it.hdl iter hiter
  have hm : m ≠ n := by
    intro heq
    rw [heq, get_of_free hn] at hget'
    cases hget'
  exact hm (hs'.apart m n it' it ((hrest m hm).trans hget') hget hhdl)

theorem not_independent_of_hold {m : Nat} {entries : List P} {hold : Hold}
    (hholder : s.holders[m]? = some ⟨entries, hold⟩) (hhold : hold ≠ .object) :
    ¬ s.Independent tree := by
  intro hs
  obtain ⟨it, hget, -⟩ := hs.usable m _ hholder
  obtain ⟨entries', hholder', -⟩ := holder_of_get hget
  rw [hholder, Option.some_inj] at hholder'
  exact hhold (congrArg Holder.hold hholder')

variable [Inhabited P]

variable (tree) in
/-- The outcomes of a begin: a number is drawn at most, or it goes well, or it throws with
the iterator stored. -/
theorem beginIterate_cases (d : DirState P) (path : P) (hdl : Nat) :
    (∃ err agent, beginIterate ops tree d path hdl = (.error err, { d with agent := agent }) ∧
      agent.born = d.agent.born ∧
      ∀ (p : P) (h : Nat) (entries : List P),
        (d.fs.pathFromRequest ops d.agent path (some hdl)).1 = .ok (p, h) →
          tree.listing p ≠ .ok entries) ∨
    ∃ p h entries, (d.fs.pathFromRequest ops d.agent path (some hdl)).1 = .ok (p, h) ∧
      tree.listing p = .ok entries ∧ listed ops tree d path hdl = entries ∧
      ((tree.Described entries ∧ ∃ it d', beginIterate ops tree d path hdl = (.ok it, d') ∧
          Begun tree d d' (d.iterHdl ops path (some hdl)) it p entries) ∨
        (¬ tree.Described entries ∧
          ∃ err d', beginIterate ops tree d path hdl = (.error err, d') ∧
            Stored d d' (d.iterHdl ops path (some hdl)) p entries)) := by
  have hborn := FsInstance.pathFromRequest_born ops path (some hdl) d.fs d.agent
  rcases hresolved : d.fs.pathFromRequest ops d.agent path (some hdl) with ⟨err | ⟨p, h⟩, agent⟩
  · rw [hresolved] at hborn
    refine .inl ⟨err, agent, ?_, hborn, ?_⟩
    · simp only [beginIterate, DirState.iterBegin, hresolved]
      rfl
    · intro p h entries hok
      cases hok
  · rw [hresolved] at hborn
    cases hlisting : tree.listing p with
    | error err =>
        refine .inl ⟨err, agent, ?_, hborn, ?_⟩
        · simp only [beginIterate, DirState.iterBegin, hresolved, hlisting]
          rfl
        · intro p' h' entries hok hlisted
          cases hok
          rw [hlisting] at hlisted
          cases hlisted
    | ok entries =>
        refine .inr ⟨p, h, entries, rfl, hlisting, ?_, ?_⟩
        · simp only [listed, hresolved, hlisting]
          rfl
        · by_cases hdescribed : tree.Described entries
          · exact .inl ⟨hdescribed, beginIterate_of_described hresolved hlisting hdescribed⟩
          · exact .inr ⟨hdescribed, beginIterate_of_not_described hresolved hlisting hdescribed⟩

omit [Inhabited P] in
/-- What the iterators there are have left is not touched by a stream that is new. -/
theorem at_of_stored {d d' : DirState P} {k : Nat} {p : P} {entries : List P} (hdated : d.Dated)
    (hstored : Stored d d' k p entries) {hdl : Nat} {rest : List P}
    (hiters : d'.fs.iters[hdl]? = d.fs.iters[hdl]?) (hat : d.At hdl rest) : d'.At hdl rest := by
  apply hat.insert_left hiters hstored.left
  intro iter hiter heq
  exact absurd (heq ▸ hdated hdl iter hiter) (Nat.lt_irrefl _)

theorem Separate.begin (hs : s.Separate tree) {n : Nat} (hn : s.Free n) {path : P} {hdl : Nat}
    (hfree : s.Unshared ops tree (.begin n path hdl)) :
    (s.begin ops tree n path hdl).Separate tree := by
  rcases beginIterate_cases ops tree s.d path hdl with ⟨err, agent, hbegin, hborn, -⟩ |
    ⟨p, h, entries, hresolved, hlisting, hlisted, ⟨hdescribed, it, d', hbegin, hbegun⟩ |
      ⟨hnot, err, d', hbegin, hstored⟩⟩
  · simp only [CloneState.begin, hbegin]
    refine ⟨⟨hs.usable, hs.apart, hs.nothingLeft⟩, ?_⟩
    exact hs.unmixed.mono (fun _ _ hiter => hiter) (Nat.le_of_eq hborn.symm)
  · have hnew := (hfree p h entries hresolved hlisting).mp hdescribed
    generalize s.d.iterHdl ops path (some hdl) = k at hbegun hnew
    have hiters : ∀ hdl', d'.fs.iters[hdl']? =
        if k = hdl' then some ⟨s.d.agent.born, p⟩ else s.d.fs.iters[hdl']? := by
      intro hdl'
      rw [hbegun.iters, Table.getElem?_insertIfNew_eq]
      simp only [hnew, and_true]
    simp only [CloneState.begin, hbegin, hlisted]
    refine ⟨?_, hs.unmixed.add hiters hbegun.born⟩
    apply hs.toIndependent.place rfl rfl hbegun.shows
    · rcases hbegun.fresh hnew with ⟨hiter, hleft⟩
      exact ⟨_, hbegun.drawn ▸ hiter, hleft⟩
    · intro hdl' rest hne hat
      rw [hbegun.drawn] at hne
      exact at_of_stored hs.unmixed.old hbegun.toStored
        ((hiters hdl').trans (if_neg (Ne.symm hne))) hat
    · intro m it' _ hget heq
      obtain ⟨iter, hiter⟩ := hs.toIndependent.handle_mem hget
      rw [heq, hbegun.drawn, hnew] at hiter
      cases hiter
    · intro hdl' iter hiter hne
      rw [hbegun.drawn] at hne
      rw [hiters, if_neg (Ne.symm hne)] at hiter
      exact ⟨iter, hiter⟩
    · intro it' hget
      rw [get_of_free hn] at hget
      cases hget
  · cases htaken : s.d.fs.iters[s.d.iterHdl ops path (some hdl)]? with
    | none => exact absurd ((hfree p h entries hresolved hlisting).mpr htaken) hnot
    | some other =>
        have hsame : d'.fs.iters = s.d.fs.iters := by
          rw [hstored.iters, Table.insertIfNew_of_getElem? htaken]
        simp only [CloneState.begin, hbegin]
        refine ⟨⟨?_, hs.apart, ?_⟩, ?_⟩
        · intro m h' hh'
          rcases hs.usable m h' hh' with ⟨it, hget, hshows, hat⟩
          exact ⟨it, hget, hshows,
            at_of_stored hs.unmixed.old hstored (by rw [hsame]) hat⟩
        · intro hdl' iter hiter
          exact hs.nothingLeft hdl' iter (hsame ▸ hiter)
        · exact hs.unmixed.mono (fun _ _ hiter => hsame ▸ hiter)
            (Nat.le_of_lt (hstored.born ▸ Nat.lt_succ_self _))

/-- A step of an iterator moves no other one: their streams are different. -/
theorem Separate.next (hs : s.Separate tree) {n : Nat} {h : Holder P}
    (hholder : s.holders[n]? = some h) (hanswered : s.Unshared ops tree (.next n)) :
    (s.next tree n h).Separate tree := by
  obtain ⟨it, hget, hshows, hat⟩ := hs.usable n h hholder
  obtain ⟨entries, hhold, hobject⟩ := holder_of_get hget
  rw [hholder, Option.some_inj] at hhold
  subst hhold
  cases entries with
  | nil =>
      have hsame : s.holders.insert n (⟨[], .object⟩ : Holder P) = s.holders :=
        Table.insert_of_getElem? hholder
      simp only [CloneState.next, hget, next_of_at_nil hat, List.tail_nil, hsame]
      exact hs
  | cons p entries =>
      obtain ⟨iter, hiter, hleft⟩ := hat
      rcases next_of_advances hiter hleft (hanswered it iter p entries hget hiter hleft) with
        ⟨it', hnext, hhdl, hshows'⟩
      simp only [CloneState.next, hget, hnext, List.tail_cons]
      refine ⟨?_, hs.unmixed.mono (fun _ _ hiter' => hiter') (Nat.le_refl _)⟩
      apply hs.toIndependent.place rfl rfl hshows'
      · exact hhdl ▸ DirState.at_insert_left_self hiter entries
      · intro hdl rest hne hat
        have hown : ∀ iter', s.d.fs.iters[hdl]? = some iter' → iter'.id ≠ iter.id := by
          intro iter' hiter' heq
          rw [hhdl] at hne
          exact hne (hs.unmixed.streams hdl it.hdl iter' iter hiter' hiter heq)
        exact hat.insert_left rfl rfl hown
      · intro m other hne hget' heq
        exact hne (hs.apart m n other it hget' hget (heq.trans hhdl))
      · intro hdl iter' hiter' _
        exact ⟨iter', hiter'⟩
      · intro other hget'
        rw [hget, Option.some_inj] at hget'
        rw [← hget', hhdl]

variable {ops} {front : Front}

theorem separate_step (s : CloneState P) (a : CloneAction P) (s' : CloneState P)
    (hs : s.Separate tree) (hunshared : s.Unshared ops tree a)
    (hstep : s.step front ops tree a = some s') : s'.Separate tree := by
  cases a with
  | begin n path hdl =>
      obtain ⟨hn, heq⟩ := Machine.of_enabled hstep
      exact heq ▸ hs.begin ops hn hunshared
  | next n =>
      obtain ⟨h, hholder, heq⟩ := Option.map_eq_some_iff.mp hstep
      exact heq ▸ hs.next ops hholder hunshared
  | get n =>
      obtain ⟨h, -, heq⟩ := Option.map_eq_some_iff.mp hstep
      exact heq ▸ hs
  | clone n m => exact hunshared.elim
  | destroy n =>
      obtain ⟨h, hholder, heq⟩ := Option.map_eq_some_iff.mp hstep
      exact heq ▸ hs.destroy ops hholder hunshared
  | nextOpId =>
      cases hstep
      exact ⟨⟨hs.usable, hs.apart, hs.nothingLeft⟩,
        hs.unmixed.mono (fun _ _ hiter => hiter) (Nat.le_refl _)⟩

theorem dated_step (s : CloneState P) (a : CloneAction P) (s' : CloneState P) (hs : s.d.Dated)
    (hstep : s.step front ops tree a = some s') : s'.d.Dated := by
  cases a with
  | begin n path hdl =>
      rcases Machine.of_enabled hstep with ⟨-, rfl⟩
      have hbegun : (beginIterate ops tree s.d path hdl).2.Dated := hs.iterBegin tree path _
      unfold CloneState.begin
      split <;> next hbegin => rwa [hbegin] at hbegun
  | next n =>
      rcases Option.map_eq_some_iff.mp hstep with ⟨h, -, rfl⟩
      unfold CloneState.next
      cases s.get n with
      | none => exact hs
      | some it =>
          have hnext : (it.next tree s.d).2.Dated := hs.iterNext tree it.hdl
          dsimp only
          split <;> next hmoved => rwa [hmoved] at hnext
  | get n =>
      rcases Option.map_eq_some_iff.mp hstep with ⟨h, -, rfl⟩
      exact hs
  | clone n m =>
      rw [step, Option.ite_none_right_eq_some] at hstep
      rcases Option.map_eq_some_iff.mp hstep.2 with ⟨h, -, rfl⟩
      unfold CloneState.clone
      cases s.get n with
      | none => exact hs
      | some it =>
          have hcopied : (it.clone tree s.d).2.Dated := hs.iterClone tree 0
          dsimp only
          split <;> next hcopy => rwa [hcopy] at hcopied
  | destroy n =>
      rcases Option.map_eq_some_iff.mp hstep with ⟨h, -, rfl⟩
      unfold CloneState.destroy
      cases s.get n with
      | none => exact hs
      | some it => exact hs.close it.hdl
  | nextOpId =>
      cases hstep
      exact hs

/-- After a begin that draws an iterator's number there are two with this number. -/
theorem not_independent_begin (hs : s.Separate tree) {n : Nat} (hn : s.Free n) {path p : P}
    {hdl : Nat} {entries : List P} {it : DirIterImpl P} {d' : DirState P} {iter : DirIterator P}
    (hbegin : beginIterate ops tree s.d path hdl = (.ok it, d'))
    (hbegun : Begun tree s.d d' (s.d.iterHdl ops path (some hdl)) it p entries)
    (hiter : s.d.fs.iters[s.d.iterHdl ops path (some hdl)]? = some iter) :
    ¬ (s.begin ops tree n path hdl).Independent tree := by
  rw [← hbegun.drawn] at hiter
  simp only [CloneState.begin, hbegin]
  exact not_independent_of_taken hs.toIndependent hn (get_insert_self rfl rfl)
    (fun m hne => get_insert hne rfl rfl) hiter

/-- A begin that has thrown leaves an iterator that nobody knows of. -/
theorem not_independent_thrown (hs : s.Separate tree) {n : Nat} {path p : P} {hdl : Nat}
    {entries : List P} {err : Error} {d' : DirState P}
    (hbegin : beginIterate ops tree s.d path hdl = (.error err, d'))
    (hstored : Stored s.d d' (s.d.iterHdl ops path (some hdl)) p entries)
    (hfree : s.d.fs.iters[s.d.iterHdl ops path (some hdl)]? = none) :
    ¬ (s.begin ops tree n path hdl).Independent tree := by
  intro hs'
  have hiter : d'.fs.iters[s.d.iterHdl ops path (some hdl)]? = some ⟨s.d.agent.born, p⟩ := by
    rw [hstored.iters, Table.getElem?_insertIfNew_eq, if_pos ⟨rfl, hfree⟩]
  simp only [CloneState.begin, hbegin] at hs'
  rcases hs'.nothingLeft _ _ hiter with ⟨m, it, hget, hhdl⟩
  rcases hs.toIndependent.handle_mem hget with ⟨iter, hmem⟩
  rw [hhdl, hfree] at hmem
  cases hmem

/-- After a step that has thrown the client does not show what comes. -/
theorem not_independent_next (hs : s.Separate tree) {n : Nat} {h : Holder P}
    (hholder : s.holders[n]? = some h) {it : DirIterImpl P} {iter : DirIterator P} {p : P}
    {rest : List P} (hget : s.get n = some it) (hiter : s.d.fs.iters[it.hdl]? = some iter)
    (hleft : s.d.entriesLeft iter = p :: rest) (hnot : ¬ tree.Advances iter.dir rest) :
    ¬ (s.next tree n h).Independent tree := by
  rcases hs.usable n h hholder with ⟨it', hget', hshows, iter', hiter', hexpected⟩
  rw [hget, Option.some_inj] at hget'
  subst hget'
  rw [hiter, Option.some_inj] at hiter'
  subst hiter'
  rw [hleft] at hexpected
  rw [← hexpected] at hshows
  rcases next_of_not_advances hiter hleft hnot with ⟨err, rest', hnext, hrest'⟩
  simp only [CloneState.next, hget, hnext, ← hexpected, List.tail_cons]
  intro hs'
  rcases hs'.usable n { h with expected := rest } (Table.getElem?_insert_self _ _ _) with
    ⟨it', hget', hshows', iter', hiter', hexpected'⟩
  rcases holder_of_get hget' with ⟨entries, -, hobject'⟩
  rcases holder_of_get hget with ⟨entries', -, hobject⟩
  have hsame : it = it' := Option.some_inj.mp (hobject.symm.trans hobject')
  subst hsame
  have hsame : iter = iter' := Option.some_inj.mp (hiter.symm.trans hiter')
  subst hsame
  have heq : rest' = rest := (DirState.entriesLeft_moved s.d iter rest').symm.trans hexpected'
  subst heq
  cases rest' with
  | nil => exact absurd (hshows.1.symm.trans hshows') Bool.false_ne_true
  | cons q rest' =>
      rcases hrest' with hnil | hthrows
      · exact List.cons_ne_nil _ _ hnil
      · exact hthrows ⟨_, hshows'.2.2⟩

/-- No clone is an iterator of its own: there is none, or it has the handle that the agent
knows already, or the script cannot use it. -/
theorem not_independent_clone (hs : s.Separate tree) {n m : Nat} (h : Holder P) (hm : s.Free m) :
    ¬ (s.clone front tree m n h).Independent tree := by
  have hnothing : Hold.nothing ≠ .object := by decide
  cases hget : s.get n with
  | none =>
      simp only [CloneState.clone, hget]
      exact not_independent_of_hold (by rw [Table.getElem?_insert_self]) hnothing
  | some it =>
      cases hiter : s.d.fs.iters[0]? with
      | none =>
          simp only [CloneState.clone, hget, DirIterImpl.clone, DirState.iterClone, hiter, Except.map]
          exact not_independent_of_hold (by rw [Table.getElem?_insert_self]) hnothing
      | some iter =>
          cases hinfo : DirState.fillIterInfo tree (s.d.entriesLeft iter) 0 with
          | error err =>
              simp only [CloneState.clone, hget, DirIterImpl.clone, DirState.iterClone, hiter, hinfo,
                Except.map]
              exact not_independent_of_hold (by rw [Table.getElem?_insert_self]) hnothing
          | ok info =>
              simp only [CloneState.clone, hget, DirIterImpl.clone, DirState.iterClone, hiter, hinfo,
                Except.map]
              cases front with
              | core =>
                  have hhdl : info.hdl = 0 := DirState.hdl_of_fillIterInfo tree hinfo
                  have hcopy : (DirIterImpl.ofInfo info).hdl = 0 := hhdl
                  exact not_independent_of_taken hs.toIndependent hm (get_insert_self rfl rfl)
                    (fun k hne => get_insert hne rfl rfl) (hcopy ▸ hiter)
              | lua => exact not_independent_of_hold (by rw [Table.getElem?_insert_self]) (by decide)

theorem unshared_of_independent {a : CloneAction P} (hs : s.Separate tree)
    (hstep : s.step front ops tree a = some s') (hs' : s'.Independent tree) :
    s.Unshared ops tree a := by
  cases a with
  | begin n path hdl =>
      obtain ⟨hn, heq⟩ := Machine.of_enabled hstep
      subst heq
      intro p h entries hresolved hlisting
      rcases beginIterate_cases ops tree s.d path hdl with ⟨err, agent, -, -, hfails⟩ |
        ⟨p', h', entries', hresolved', hlisting', -, hcases⟩
      · exact absurd hlisting (hfails p h entries hresolved)
      · rw [hresolved] at hresolved'
        cases hresolved'
        rw [hlisting] at hlisting'
        cases hlisting'
        rcases hcases with ⟨hdescribed, it, d', hbegin, hbegun⟩ | ⟨hnot, err, d', hbegin, hstored⟩
        · refine iff_of_true hdescribed ?_
          cases hiter : s.d.fs.iters[s.d.iterHdl ops path (some hdl)]? with
          | none => rfl
          | some iter => exact absurd hs' (not_independent_begin hs hn hbegin hbegun hiter)
        · refine iff_of_false hnot ?_
          intro hfree
          exact not_independent_thrown hs hbegin hstored hfree hs'
  | next n =>
      obtain ⟨h, hholder, heq⟩ := Option.map_eq_some_iff.mp hstep
      subst heq
      intro it iter p rest hget hiter hleft
      by_contra hnot
      exact not_independent_next hs hholder hget hiter hleft hnot hs'
  | clone n m =>
      rw [step, Option.ite_none_right_eq_some] at hstep
      obtain ⟨hm, hstep⟩ := hstep
      obtain ⟨h, -, heq⟩ := Option.map_eq_some_iff.mp hstep
      subst heq
      exact not_independent_clone hs h hm hs'
  | destroy n =>
      obtain ⟨h, -, heq⟩ := Option.map_eq_some_iff.mp hstep
      subst heq
      intro it hget
      cases hpath : s.d.fs.path[it.hdl]? with
      | none => rfl
      | some f => exact absurd hs' (not_independent_destroy hs hget hpath)
  | get | nextOpId => trivial

end CloneState

/-- The state of any run is one a loop over a directory may start from. -/
theorem dated_along {P : Type} [Inhabited P] (front : Front) (ops : PathOps P) (tree : FileTree P)
    (paths : Table (OpenedPath P)) (opId : Nat) (as : List (CloneAction P)) :
    (dirIterators front ops tree paths opId).Along (fun s => s.d.Dated) as := by
  have hinit : (dirIterators front ops tree paths opId).init.d.Dated :=
    fun hdl iter hiter => absurd hiter (Table.getElem?_empty_ne hdl iter)
  exact Machine.along_of_steps hinit CloneState.dated_step (fun s hs => hs) as

/-- **Clones, exactly.** Along a run everything the client has asked for is a usable
iterator of its own, and the agent has no other, if and only if the client asks for no
clone, no number is used twice, and the agent can answer about each entry. -/
theorem independent_iff_unshared {P : Type} [Inhabited P] (front : Front) (ops : PathOps P)
    (tree : FileTree P) (paths : Table (OpenedPath P)) (opId : Nat) (as : List (CloneAction P)) :
    (dirIterators front ops tree paths opId).Along (CloneState.Independent tree) as ↔
      (dirIterators front ops tree paths opId).Meets (CloneState.Unshared ops tree) as := by
  have hinit : CloneState.Separate tree (dirIterators front ops tree paths opId).init := by
    refine ⟨⟨?_, ?_, ?_⟩, ?_, ?_⟩
    · exact fun n h hh => absurd hh (Table.getElem?_empty_ne n h)
    · intro n m it it' hget
      obtain ⟨entries, hholder, -⟩ := CloneState.holder_of_get hget
      exact absurd hholder (Table.getElem?_empty_ne n _)
    · exact fun hdl iter hiter => absurd hiter (Table.getElem?_empty_ne hdl iter)
    · exact fun hdl iter hiter => absurd hiter (Table.getElem?_empty_ne hdl iter)
    · exact fun hdl _ iter _ hiter => absurd hiter (Table.getElem?_empty_ne hdl iter)
  apply Machine.along_iff_meets hinit
  · exact CloneState.separate_step
  · intro s hs
    exact hs.toIndependent
  · intro s a s' hs hstep hs'
    exact CloneState.unshared_of_independent hs hstep hs'

/-- The clone of an iterator is refused, through the library and through the scripting
module. -/
theorem clone_refused :
    ¬ (dirIterators .core namePaths smallTree ∅ 100).Along (CloneState.Independent smallTree)
        [.begin 1 ["/"] 0, .clone 1 2] ∧
      ¬ (dirIterators .lua namePaths smallTree ∅ 100).Along (CloneState.Independent smallTree)
        [.begin 1 ["/"] 0, .clone 1 2] := by
  constructor
  · apply Machine.not_along_of_run rfl
    intro hs
    obtain ⟨it, hget, -⟩ := hs.usable 2 ⟨[["/", "file"], ["/", "dir"]], .nothing⟩ rfl
    cases hget
  · apply Machine.not_along_of_run rfl
    intro hs
    obtain ⟨it, hget, -⟩ := hs.usable 2 ⟨[["/", "file"], ["/", "dir"]], .nothing⟩ rfl
    cases hget

end FerroRemote.Client

/-
# Iterating over directories on the agent

An iterator of the file system library goes through a directory stream, and copies
of an iterator share theirs: moving one moves the stream. The service keeps
iterators under handles, and answers a handle with the entry the iterator is at, or
with a flag when there is none left. What it asks the library about the entry may
throw, when the iterator has been stored or moved already; nothing is taken back
then.
-/

import FerroRemote.Agent.FsService

namespace FerroRemote.Agent

def ENODATA : Errno := 61

/-- What the file system library answers about a path, exceptions included. -/
structure PathStatus where
  isExist : Except Error Bool
  isDirectory : Except Error Bool
  isSymlink : Except Error Bool
  isRegular : Except Error Bool
  isEmpty : Except Error Bool

structure ElementInfo where
  isExist : Bool := false
  isDirectory : Bool := false
  isEmpty : Bool := false
  isRegular : Bool := false
  isSymlink : Bool := false
  deriving DecidableEq, Repr

def fillInfo (status : PathStatus) : Except Error ElementInfo := do
  if ← status.isExist then
    let isDir ← status.isDirectory
    let isSymlink ← status.isSymlink
    -- what `is_empty` throws is caught, and nothing else
    let isEmpty := if isDir then status.isEmpty.toOption.getD true else true
    let isRegular ← status.isRegular
    return ⟨true, isDir, isEmpty, isRegular, isSymlink⟩
  else return {}

structure IteratorInfo (P : Type) where
  hdl : Nat
  /-- Absent at the end. -/
  path : Option P := none
  isEnd : Bool
  info : ElementInfo := {}

/-- An instance of the service with the streams its iterators go through. The
identity of an iterator is its stream's. -/
structure DirState (P : Type) where
  agent : AgentState := {}
  fs : FsInstance P := {}
  /-- What each stream has left, the entry it is at first. -/
  left : Table (List P) := ∅

/-- The directories, as their streams yield them, and what is found at each path. -/
structure FileTree (P : Type) where
  listing : P → Except Error (List P)
  status : P → PathStatus
  /-- What `++` throws in a directory where it should leave these entries. The
  iterator is at its end then. -/
  broken : P → List P → Option Error := fun _ _ => none

namespace FileTree

variable {P : Type} (tree : FileTree P)

/-- Whatever is at the first of the entries can be asked about. -/
def Described : List P → Prop
  | [] => True
  | p :: _ => ∃ info, fillInfo (tree.status p) = .ok info

/-- The step that leaves these entries is answered. -/
def Advances (dir : P) (rest : List P) : Prop :=
  tree.broken dir rest = none ∧ tree.Described rest

/-- All steps through these entries are answered. -/
def Serves (dir : P) : List P → Prop
  | [] => True
  | _ :: rest => tree.Advances dir rest ∧ Serves dir rest

end FileTree

namespace DirState

variable {P : Type} (ops : PathOps P) (tree : FileTree P)

def entriesLeft (d : DirState P) (iter : DirIterator P) : List P := d.left[iter.id]?.getD []

/-- `fill_iter_info`, for an iterator with `entries` left. -/
def fillIterInfo (entries : List P) (hdl : Nat) : Except Error (IteratorInfo P) :=
  match entries with
  | [] => .ok { hdl := hdl, isEnd := true }
  | p :: _ => (fillInfo (tree.status p)).map fun info =>
    { hdl := hdl, path := some p, isEnd := false, info := info }

def iterBegin (d : DirState P) (path : P) (hdl : Option Nat) :
    Except Error (IteratorInfo P) × DirState P :=
  match d.fs.pathFromRequest ops d.agent path hdl with
  | (.error err, agent) => (.error err, { d with agent := agent })
  | (.ok (p, _), agent) =>
    match tree.listing p with
    | .error err => (.error err, { d with agent := agent })
    | .ok entries =>
      let (iterHdl, agent) := agent.nextIndex
      -- the iterator is stored before the answer is filled in
      (fillIterInfo tree entries iterHdl,
        { agent := { agent with born := agent.born + 1 }
          fs := { d.fs with iters := d.fs.iters.insertIfNew iterHdl ⟨agent.born, p⟩ }
          left := d.left.insert agent.born entries })

def iterNext (d : DirState P) (hdl : Nat) : Except Error (IteratorInfo P) × DirState P :=
  match d.fs.iters[hdl]? with
  | none => (.error (.system EINVAL "Bad iterator handle"), d)
  | some iter =>
    match d.entriesLeft iter with
    | [] => (.error (.system ENODATA "End iterator."), d)
    | _ :: rest =>
      match tree.broken iter.dir rest with
      | some err => (.error err, { d with left := d.left.insert iter.id [] })
      | none => (fillIterInfo tree rest hdl, { d with left := d.left.insert iter.id rest })

/-- `iter_clone`: the copy goes through the same stream, and the answer is about the
original. -/
def iterClone (d : DirState P) (hdl : Nat) : Except Error (IteratorInfo P) × DirState P :=
  match d.fs.iters[hdl]? with
  | none => (.error (.system EINVAL "Bad iterator handle"), d)
  | some iter =>
    let (newHdl, agent) := d.agent.nextIndex
    match fillIterInfo tree (d.entriesLeft iter) hdl with
    | .error err => (.error err, { d with agent := agent })
    | .ok info =>
      (.ok info,
        { d with
          agent := agent
          fs := { d.fs with iters := d.fs.iters.insertIfNew newHdl iter } })

def close (d : DirState P) (hdl : Nat) : DirState P := { d with fs := d.fs.fsClose hdl }

/-- The number that `iter_begin` draws for the iterator, after the path's. -/
def iterHdl (d : DirState P) (path : P) (hdl : Option Nat) : Nat :=
  (d.fs.pathFromRequest ops d.agent path hdl).2.nextIndex.1

/-- The iterator behind a handle is at the first of `entries`, and they are all it has
left. -/
def At (d : DirState P) (hdl : Nat) (entries : List P) : Prop :=
  ∃ iter, d.fs.iters[hdl]? = some iter ∧ d.entriesLeft iter = entries

def Dated (d : DirState P) : Prop :=
  ∀ (hdl : Nat) (iter : DirIterator P), d.fs.iters[hdl]? = some iter → iter.id < d.agent.born

/-- Every iterator goes through a stream of its own, and streams that come are new. -/
structure Unmixed (d : DirState P) : Prop where
  old : d.Dated
  streams : ∀ (hdl hdl' : Nat) (iter iter' : DirIterator P), d.fs.iters[hdl]? = some iter →
    d.fs.iters[hdl']? = some iter' → iter.id = iter'.id → hdl = hdl'

variable {ops} {d : DirState P}

theorem fillIterInfo_of_described {entries : List P} (hdescribed : tree.Described entries)
    (hdl : Nat) : ∃ info, fillIterInfo tree entries hdl = .ok info := by
  cases entries with
  | nil => exact ⟨_, rfl⟩
  | cons p entries =>
      rcases hdescribed with ⟨info, hinfo⟩
      exact ⟨_, by rw [fillIterInfo, hinfo, Except.map]⟩

theorem fillIterInfo_of_not_described {entries : List P} (hnot : ¬ tree.Described entries)
    (hdl : Nat) : ∃ err, fillIterInfo tree entries hdl = .error err := by
  cases entries with
  | nil => exact absurd trivial hnot
  | cons p entries =>
      cases hinfo : fillInfo (tree.status p) with
      | ok info => exact absurd ⟨info, hinfo⟩ hnot
      | error err => exact ⟨err, by rw [fillIterInfo, hinfo, Except.map]⟩

theorem hdl_of_fillIterInfo {entries : List P} {hdl : Nat} {info : IteratorInfo P}
    (hinfo : fillIterInfo tree entries hdl = .ok info) : info.hdl = hdl := by
  cases entries with
  | nil =>
      cases hinfo
      rfl
  | cons p entries =>
      rw [fillIterInfo] at hinfo
      cases hstatus : fillInfo (tree.status p) with
      | error err =>
          rw [hstatus] at hinfo
          cases hinfo
      | ok status =>
          rw [hstatus] at hinfo
          cases hinfo
          rfl

def thrown {α : Type} : Except Error α → Option Error
  | .ok _ => none
  | .error err => some err

/-- What becomes of the instance is what the service does with some exceptions of the
library. -/
theorem iterBegin_eq (path : P) (hdl : Option Nat) :
    ∃ made info answered, d.fs.iterBegin ops d.agent path hdl made info =
      (answered, thrown (d.iterBegin ops tree path hdl).1,
        (d.iterBegin ops tree path hdl).2.agent, (d.iterBegin ops tree path hdl).2.fs) := by
  rcases hresolved : d.fs.pathFromRequest ops d.agent path hdl with ⟨err | ⟨p, h⟩, agent⟩
  · exact ⟨none, none, none, by simp only [FsInstance.iterBegin, iterBegin, hresolved]; rfl⟩
  · cases hlisting : tree.listing p with
    | error err =>
        refine ⟨some err, none, none, ?_⟩
        simp only [FsInstance.iterBegin, iterBegin, hresolved, hlisting]
        rfl
    | ok entries =>
        refine ⟨none, thrown (fillIterInfo tree entries agent.nextIndex.1),
          some agent.nextIndex.1, ?_⟩
        simp only [FsInstance.iterBegin, iterBegin, hresolved, hlisting]

/-- One step takes the first entry away, from its stream only. -/
theorem iterNext_of_advances {hdl : Nat} {iter : DirIterator P} {p : P} {rest : List P}
    (hiter : d.fs.iters[hdl]? = some iter) (hleft : d.entriesLeft iter = p :: rest)
    (hadvances : tree.Advances iter.dir rest) :
    d.iterNext tree hdl =
      (fillIterInfo tree rest hdl, { d with left := d.left.insert iter.id rest }) := by
  simp only [iterNext, hiter, hleft, hadvances.1]

/-- A step that throws has moved the stream: to its end, or to where nothing can be said
about the entry. -/
theorem iterNext_of_not_advances {hdl : Nat} {iter : DirIterator P} {p : P} {rest : List P}
    (hiter : d.fs.iters[hdl]? = some iter) (hleft : d.entriesLeft iter = p :: rest)
    (hnot : ¬ tree.Advances iter.dir rest) :
    ∃ err rest', d.iterNext tree hdl =
        (.error err, { d with left := d.left.insert iter.id rest' }) ∧
      (rest' = [] ∨ ¬ tree.Described rest') := by
  simp only [iterNext, hiter, hleft]
  cases hbroken : tree.broken iter.dir rest with
  | some err => exact ⟨err, [], rfl, .inl rfl⟩
  | none =>
      have hdescribed : ¬ tree.Described rest := fun h => hnot ⟨hbroken, h⟩
      rcases fillIterInfo_of_not_described tree hdescribed hdl with ⟨err, hthrown⟩
      exact ⟨err, rest, by rw [hthrown], .inr hdescribed⟩

theorem entriesLeft_moved (d : DirState P) (iter : DirIterator P) (entries : List P) :
    entriesLeft { d with left := d.left.insert iter.id entries } iter = entries := by
  rw [entriesLeft, Table.getElem?_insert_self]
  rfl

theorem at_insert_left_self {hdl : Nat} {iter : DirIterator P}
    (hiter : d.fs.iters[hdl]? = some iter) (entries : List P) :
    At { d with left := d.left.insert iter.id entries } hdl entries :=
  ⟨iter, hiter, entriesLeft_moved d iter entries⟩

/-- At the end a step is refused, and changes nothing. -/
theorem iterNext_of_at_nil {hdl : Nat} (hat : d.At hdl []) :
    d.iterNext tree hdl = (.error (.system ENODATA "End iterator."), d) := by
  rcases hat with ⟨iter, hiter, hleft⟩
  simp only [iterNext, hiter, hleft]

/-- What another stream has left, when one has been put in place. -/
theorem At.insert_left {d' : DirState P} {hdl id : Nat} {rest entries : List P}
    (hat : d.At hdl rest) (hiters : d'.fs.iters[hdl]? = d.fs.iters[hdl]?)
    (hleft : d'.left = d.left.insert id entries)
    (hne : ∀ iter, d.fs.iters[hdl]? = some iter → iter.id ≠ id) : d'.At hdl rest := by
  rcases hat with ⟨iter, hiter, hrest⟩
  refine ⟨iter, hiters.trans hiter, ?_⟩
  rw [entriesLeft, hleft, Table.getElem?_insert_of_ne (Ne.symm (hne iter hiter))]
  exact hrest

/-- Every iterator is one that was there, or has a stream that is older than those to come. -/
theorem Dated.step {d' : DirState P} (hd : d.Dated) (hborn : d.agent.born ≤ d'.agent.born)
    (hiters : ∀ (hdl : Nat) (iter : DirIterator P), d'.fs.iters[hdl]? = some iter →
      iter.id < d'.agent.born ∨ ∃ hdl' : Nat, d.fs.iters[hdl']? = some iter) : d'.Dated := by
  intro hdl iter hiter
  rcases hiters hdl iter hiter with hold | ⟨hdl', hiter'⟩
  · exact hold
  · exact Nat.lt_of_lt_of_le (hd hdl' iter hiter') hborn

theorem Dated.iterBegin (hd : d.Dated) (path : P) (hdl : Option Nat) :
    (d.iterBegin ops tree path hdl).2.Dated := by
  have hborn := FsInstance.pathFromRequest_born ops path hdl d.fs d.agent
  rcases hresolved : d.fs.pathFromRequest ops d.agent path hdl with ⟨err | ⟨p, h⟩, agent⟩
  · rw [hresolved] at hborn
    simp only [DirState.iterBegin, hresolved]
    exact hd.step (Nat.le_of_eq hborn.symm) fun hdl iter hiter => .inr ⟨hdl, hiter⟩
  · rw [hresolved] at hborn
    change agent.born = d.agent.born at hborn
    cases hlisting : tree.listing p with
    | error err =>
        simp only [DirState.iterBegin, hresolved, hlisting]
        exact hd.step (Nat.le_of_eq hborn.symm) fun hdl iter hiter => .inr ⟨hdl, hiter⟩
    | ok entries =>
        simp only [DirState.iterBegin, hresolved, hlisting]
        apply hd.step (hborn ▸ Nat.le_succ agent.born)
        intro hdl iter hiter
        rw [Table.getElem?_insertIfNew_eq] at hiter
        split at hiter
        · cases hiter
          exact .inl (Nat.lt_succ_self agent.born)
        · exact .inr ⟨hdl, hiter⟩

theorem Dated.iterNext (hd : d.Dated) (hdl : Nat) : (d.iterNext tree hdl).2.Dated := by
  unfold DirState.iterNext
  split
  · exact hd
  · split
    · exact hd
    · split <;> exact hd

theorem Dated.iterClone (hd : d.Dated) (hdl : Nat) : (d.iterClone tree hdl).2.Dated := by
  unfold DirState.iterClone
  split
  · exact hd
  · next iter hiter =>
    dsimp only
    split
    · exact hd
    · refine hd.step (Nat.le_refl d.agent.born) ?_
      intro hdl' iter' hiter'
      rw [Table.getElem?_insertIfNew_eq] at hiter'
      split at hiter'
      · cases hiter'
        exact .inr ⟨hdl, hiter⟩
      · exact .inr ⟨hdl', hiter'⟩

theorem Dated.close (hd : d.Dated) (hdl : Nat) : (d.close hdl).Dated := by
  refine hd.step (Nat.le_refl d.agent.born) ?_
  intro hdl' iter hiter
  simp only [DirState.close, FsInstance.fsClose] at hiter
  split at hiter
  · exact .inr ⟨hdl', hiter⟩
  · exact .inr ⟨hdl', (Table.getElem?_erase_eq_some_iff.mp hiter).2⟩

theorem Unmixed.mono {d' : DirState P} (hd : d.Unmixed)
    (hiters : ∀ (hdl : Nat) (iter : DirIterator P), d'.fs.iters[hdl]? = some iter →
      d.fs.iters[hdl]? = some iter)
    (hborn : d.agent.born ≤ d'.agent.born) : d'.Unmixed where
  old := by
    intro hdl iter hiter
    exact Nat.lt_of_lt_of_le (hd.old hdl iter (hiters hdl iter hiter)) hborn
  streams := by
    intro hdl hdl' iter iter' hiter hiter' heq
    exact hd.streams hdl hdl' iter iter' (hiters hdl iter hiter) (hiters hdl' iter' hiter') heq

theorem Unmixed.add {d' : DirState P} (hd : d.Unmixed) {k : Nat} {p : P}
    (hiters : ∀ hdl, d'.fs.iters[hdl]? =
      if k = hdl then some ⟨d.agent.born, p⟩ else d.fs.iters[hdl]?)
    (hborn : d'.agent.born = d.agent.born + 1) : d'.Unmixed where
  old := by
    intro hdl iter hiter
    rw [hborn]
    rw [hiters] at hiter
    split at hiter
    · cases hiter
      exact Nat.lt_succ_self _
    · exact Nat.lt_succ_of_lt (hd.old hdl iter hiter)
  streams := by
    intro hdl hdl' iter iter' hiter hiter' heq
    rw [hiters] at hiter hiter'
    by_cases hk : k = hdl
    · by_cases hk' : k = hdl'
      · exact hk.symm.trans hk'
      · rw [if_pos hk, Option.some_inj] at hiter
        rw [if_neg hk'] at hiter'
        have hlt := hd.old hdl' iter' hiter'
        rw [← heq, ← hiter] at hlt
        exact absurd hlt (Nat.lt_irrefl _)
    · rw [if_neg hk] at hiter
      by_cases hk' : k = hdl'
      · rw [if_pos hk', Option.some_inj] at hiter'
        have hlt := hd.old hdl iter hiter
        rw [heq, ← hiter'] at hlt
        exact absurd hlt (Nat.lt_irrefl _)
      · rw [if_neg hk'] at hiter'
        exact hd.streams hdl hdl' iter iter' hiter hiter' heq

end DirState

end FerroRemote.Agent

/-
# The file system service of the agent

An instance of the service keeps opened paths and directory iterators in two
tables, and hands out the handles of both from the one counter of the reactor.
`close` takes either kind: it looks among the paths first.

Paths are those of the file system library, whose operations are parameters;
paths and iterators carry the identity of the object that was made.
-/

import FerroRemote.Agent.Services

namespace FerroRemote.Agent

/-- What the service uses of `bfs::path`. -/
structure PathOps (P : Type) where
  isAbsolute : P → Bool
  /-- `operator /=`. -/
  append : P → P → P
  normalize : P → P

/-- Paths as lists of names, the root first if they are absolute. -/
def namePaths : PathOps (List String) where
  isAbsolute path := path.head? == some "/"
  append path more := path ++ more
  normalize path := path

/-- An entry of `path_`. -/
structure OpenedPath (P : Type) where
  id : Nat
  path : P

/-- An entry of `iters_`: the directory it goes through. -/
structure DirIterator (P : Type) where
  id : Nat
  dir : P

/-- A `proto_fs_impl`. -/
structure FsInstance (P : Type) where
  /-- `path_`. -/
  path : Table (OpenedPath P) := ∅
  /-- `iters_`. -/
  iters : Table (DirIterator P) := ∅

namespace FsInstance

variable {P : Type} (ops : PathOps P)

/-- A request without a handle, or for an absolute path, is not about a path that
was opened before. -/
def newInstance (path : P) (hdl : Option Nat) : Bool :=
  hdl.isNone || ops.isAbsolute path

/-- `path_from_request`: the path meant, and the handle that goes with it. -/
def pathFromRequest (fs : FsInstance P) (s : AgentState) (path : P) (hdl : Option Nat) :
    Except Error (P × Nat) × AgentState :=
  if newInstance ops path hdl then
    let (hdl, s) := s.nextIndex
    (.ok (ops.normalize path, hdl), s)
  else
    let hdl := hdl.getD 0
    match fs.path[hdl]? with
    | none => (.error (.system EINVAL "Bad fs handle"), s)
    | some f => (.ok (ops.normalize (ops.append f.path path), hdl), s)

/-- `proto_fs_impl::open`. Inserting below a handle that is known changes nothing. -/
def fsOpen (fs : FsInstance P) (s : AgentState) (path : P) (hdl : Option Nat) :
    Except Error (Nat × P) × AgentState × FsInstance P :=
  match fs.pathFromRequest ops s path hdl with
  | (.error err, s) => (.error err, s, fs)
  | (.ok (p, hdl), s) =>
    (.ok (hdl, p), { s with born := s.born + 1 },
      { fs with path := fs.path.insertIfNew hdl ⟨s.born, p⟩ })

/-- `proto_fs_impl::iter_begin`: the handle put into the response, and the
exception. `made` is the exception of the iterator's constructor, `info` the one
of filling in the rest of the response, when the iterator is stored already. -/
def iterBegin (fs : FsInstance P) (s : AgentState) (path : P) (hdl : Option Nat)
    (made info : Option Error) : Option Nat × Option Error × AgentState × FsInstance P :=
  match fs.pathFromRequest ops s path hdl with
  | (.error err, s) => (none, some err, s, fs)
  | (.ok (p, _), s) =>
    match made with
    | some err => (none, some err, s, fs)
    | none =>
      let (iterHdl, s) := s.nextIndex
      (some iterHdl, info, { s with born := s.born + 1 },
        { fs with iters := fs.iters.insertIfNew iterHdl ⟨s.born, p⟩ })

/-- `proto_fs_impl::iter_clone`. The response is filled before the clone is
stored, and with the handle of the request. -/
def iterClone (fs : FsInstance P) (s : AgentState) (hdl : Nat) (info : Option Error) :
    Option Nat × Option Error × AgentState × FsInstance P :=
  match fs.iters[hdl]? with
  | none => (none, some (.system EINVAL "Bad iterator handle"), s, fs)
  | some iter =>
    let (newHdl, s) := s.nextIndex
    match info with
    | some err => (some hdl, some err, s, fs)
    | none =>
      (some hdl, none, { s with born := s.born + 1 },
        { fs with iters := fs.iters.insertIfNew newHdl ⟨s.born, iter.dir⟩ })

/-- `proto_fs_impl::close`; an unknown handle is ignored. -/
def fsClose (fs : FsInstance P) (hdl : Nat) : FsInstance P :=
  match fs.path[hdl]? with
  | some _ => { fs with path := fs.path.erase hdl }
  | none => { fs with iters := fs.iters.erase hdl }

theorem pathFromRequest_new {path : P} {hdl : Option Nat} (hnew : newInstance ops path hdl = true)
    (fs : FsInstance P) (s : AgentState) :
    fs.pathFromRequest ops s path hdl = (.ok (ops.normalize path, s.nextIndex.1), s.nextIndex.2) := by
  rw [pathFromRequest, if_pos hnew]

theorem pathFromRequest_old {path : P} {hdl : Option Nat} (hold : ¬ newInstance ops path hdl = true)
    (fs : FsInstance P) (s : AgentState) :
    (∃ err, fs.pathFromRequest ops s path hdl = (.error err, s)) ∨
      ∃ f p, fs.path[hdl.getD 0]? = some f ∧
        fs.pathFromRequest ops s path hdl = (.ok (p, hdl.getD 0), s) := by
  rw [pathFromRequest, if_neg hold]
  cases hf : fs.path[hdl.getD 0]? with
  | none => exact .inl ⟨.system EINVAL "Bad fs handle", by simp only [hf]⟩
  | some f => exact .inr ⟨f, ops.normalize (ops.append f.path path), rfl, by simp only [hf]⟩

theorem pathFromRequest_state (path : P) (hdl : Option Nat) (fs : FsInstance P) (s : AgentState) :
    (fs.pathFromRequest ops s path hdl).2 = s ∨
      (fs.pathFromRequest ops s path hdl).2 = s.nextIndex.2 := by
  by_cases hnew : newInstance ops path hdl = true
  · rw [pathFromRequest_new ops hnew]
    exact .inr rfl
  · left
    rcases pathFromRequest_old ops hnew fs s with ⟨err, heq⟩ | ⟨f, p, -, heq⟩ <;> rw [heq]

theorem pathFromRequest_tables (path : P) (hdl : Option Nat) (fs : FsInstance P) (s : AgentState) :
    s.SameTables (fs.pathFromRequest ops s path hdl).2 := by
  rcases pathFromRequest_state ops path hdl fs s with heq | heq
  · rw [heq]
    exact ⟨rfl, rfl⟩
  · rw [heq]
    exact ⟨rfl, rfl⟩

theorem pathFromRequest_born (path : P) (hdl : Option Nat) (fs : FsInstance P) (s : AgentState) :
    (fs.pathFromRequest ops s path hdl).2.born = s.born := by
  rcases pathFromRequest_state ops path hdl fs s with heq | heq
  · rw [heq]
  · rw [heq]
    rfl

/-- The objects a handle stands for. -/
def lookup (fs : FsInstance P) (hdl : Nat) : List Nat :=
  (fs.path[hdl]?.map (·.id)).toList ++ (fs.iters[hdl]?.map (·.id)).toList

theorem lookup_eq_nil {fs : FsInstance P} {hdl : Nat} :
    fs.lookup hdl = [] ↔ fs.path[hdl]? = none ∧ fs.iters[hdl]? = none := by
  rw [lookup, List.append_eq_nil_iff, Option.toList_eq_nil_iff, Option.toList_eq_nil_iff,
    Option.map_eq_none_iff, Option.map_eq_none_iff]

theorem lookup_insertPath {fs : FsInstance P} {hdl : Nat} (hfree : fs.lookup hdl = [])
    (p : OpenedPath P) (hdl' : Nat) :
    lookup { fs with path := fs.path.insertIfNew hdl p } hdl' =
      if hdl = hdl' then [p.id] else fs.lookup hdl' := by
  obtain ⟨hpath, hiters⟩ := lookup_eq_nil.mp hfree
  simp only [lookup, Table.getElem?_insertIfNew_eq]
  by_cases heq : hdl = hdl'
  · subst heq
    simp [hpath, hiters]
  · simp [heq]

theorem lookup_insertIter {fs : FsInstance P} {hdl : Nat} (hfree : fs.lookup hdl = [])
    (iter : DirIterator P) (hdl' : Nat) :
    lookup { fs with iters := fs.iters.insertIfNew hdl iter } hdl' =
      if hdl = hdl' then [iter.id] else fs.lookup hdl' := by
  obtain ⟨hpath, hiters⟩ := lookup_eq_nil.mp hfree
  simp only [lookup, Table.getElem?_insertIfNew_eq]
  by_cases heq : hdl = hdl'
  · subst heq
    simp [hpath, hiters]
  · simp [heq]

/-- Closing a handle that stands for one object removes this object. -/
theorem lookup_fsClose {fs : FsInstance P} {hdl : Nat} (hone : (fs.lookup hdl).length ≤ 1)
    (hdl' : Nat) :
    (fs.fsClose hdl).lookup hdl' = if hdl = hdl' then [] else fs.lookup hdl' := by
  by_cases heq : hdl = hdl'
  · subst heq
    cases hpath : fs.path[hdl]? with
    | some f =>
        have hiters : fs.iters[hdl]? = none := by
          cases hiter : fs.iters[hdl]? with
          | none => rfl
          | some iter =>
              simp [lookup, hpath, hiter] at hone
        simp [fsClose, hpath, lookup, hiters]
    | none => simp [fsClose, hpath, lookup]
  · cases hpath : fs.path[hdl]? with
    | some f => simp [fsClose, hpath, lookup, heq, Table.getElem?_erase_eq]
    | none => simp [fsClose, hpath, lookup, heq, Table.getElem?_erase_eq]

end FsInstance

end FerroRemote.Agent

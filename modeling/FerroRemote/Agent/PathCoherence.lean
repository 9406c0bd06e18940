/-
# What a file system handle stands for

A client of the file system service is told two things by `open` and `cd`: a
handle, and the path it stands for. Later requests name the handle and a relative
path, and the service puts the two together. This module follows what the client
has been told, handle by handle, beside what the service goes by.

`cd` assigns the path it answers with. `open` inserts it, which does nothing for a
handle that is in use: there the answer may be a path that is never resolved
against.
-/

import FerroRemote.Agent.FsService
import FerroRemote.Math.Machine

namespace FerroRemote.Agent

variable {P : Type} (ops : PathOps P)

namespace FsInstance

/-- `proto_fs_impl::cd`. -/
def fsCd (fs : FsInstance P) (path : P) (hdl : Option Nat) : Except Error P × FsInstance P :=
  let hdl := hdl.getD 0
  match fs.path[hdl]? with
  | none => (.error (.system EINVAL "Bad fs handle"), fs)
  | some f =>
    let p := ops.normalize (if ops.isAbsolute path then path else ops.append f.path path)
    (.ok p, { fs with path := fs.path.insert hdl { f with path := p } })

theorem pathFromRequest_relative {fs : FsInstance P} {hdl : Nat} {f : OpenedPath P}
    (hf : fs.path[hdl]? = some f) (s : AgentState) {path : P}
    (hrelative : ops.isAbsolute path = false) :
    (fs.pathFromRequest ops s path (some hdl)).1 =
      .ok (ops.normalize (ops.append f.path path), hdl) := by
  have hold : ¬ newInstance ops path (some hdl) = true := by
    rw [newInstance, hrelative]
    exact Bool.false_ne_true
  simp only [pathFromRequest, if_neg hold, Option.getD_some, hf]

end FsInstance

/-- An instance, the counter it draws handles from, and the path last answered for
each handle that has not been closed. -/
structure PathState (P : Type) where
  agent : AgentState := {}
  fs : FsInstance P := {}
  answered : Table P := ∅

/-- The requests of a client, and the rest of the agent. -/
inductive PathAction (P : Type)
  /-- `open`. -/
  | fsOpen (path : P) (hdl : Option Nat)
  /-- `cd`. -/
  | fsCd (path : P) (hdl : Option Nat)
  /-- `pwd`, or another request that takes a path. -/
  | ask (path : P) (hdl : Option Nat)
  /-- `close`. -/
  | fsClose (hdl : Nat)
  /-- Another service draws a number. -/
  | nextOpId

namespace PathState

def step (s : PathState P) : PathAction P → Option (PathState P)
  | .fsOpen path hdl =>
    match s.fs.fsOpen ops s.agent path hdl with
    | (.error _, agent, fs) => some { s with agent := agent, fs := fs }
    | (.ok (hdl, p), agent, fs) =>
      some { agent := agent, fs := fs, answered := s.answered.insert hdl p }
  | .fsCd path hdl =>
    match s.fs.fsCd ops path hdl with
    | (.error _, fs) => some { s with fs := fs }
    | (.ok p, fs) => some { s with fs := fs, answered := s.answered.insert (hdl.getD 0) p }
  | .ask path hdl => some { s with agent := (s.fs.pathFromRequest ops s.agent path hdl).2 }
  | .fsClose hdl => some { s with fs := s.fs.fsClose hdl, answered := s.answered.erase hdl }
  | .nextOpId => some { s with agent := s.agent.nextOpId.2 }

end PathState

/-- A new instance, wherever the counter stands. -/
def pathRequests (opId : Nat) : Machine (PathState P) (PathAction P) where
  init := { agent := { opId := opId } }
  step := PathState.step ops

namespace PathState

/-- A request with a handle and a relative path is resolved against the path last
answered for the handle. -/
def Coherent (s : PathState P) : Prop :=
  ∀ (hdl : Nat) (p : P), s.answered[hdl]? = some p → ∀ path, ops.isAbsolute path = false →
    (s.fs.pathFromRequest ops s.agent path (some hdl)).1 =
      .ok (ops.normalize (ops.append p path), hdl)

/-- Two paths that every relative path leads to the same place from. -/
def Alike (p q : P) : Prop :=
  ∀ path, ops.isAbsolute path = false →
    ops.normalize (ops.append p path) = ops.normalize (ops.append q path)

/-- An `open` that succeeds names a handle that is free, or one whose path is as
good as the one it answers. -/
def OpensAlike (s : PathState P) : PathAction P → Prop
  | .fsOpen path hdl => ∀ (hdl' : Nat) (p : P) (f : OpenedPath P),
      (s.fs.pathFromRequest ops s.agent path hdl).1 = .ok (p, hdl') →
        s.fs.path[hdl']? = some f → Alike ops f.path p
  | _ => True

/-- The table of handles, against what has been answered. -/
def Backed (s : PathState P) : Prop :=
  ∀ (hdl : Nat) (p : P), s.answered[hdl]? = some p →
    ∃ f, s.fs.path[hdl]? = some f ∧ Alike ops f.path p

variable {ops} {s s' : PathState P}

theorem backed_init (opId : Nat) : Backed ops { agent := { opId := opId } } :=
  fun hdl p hanswered => absurd hanswered (Table.getElem?_empty_ne hdl p)

theorem Backed.coherent (hs : s.Backed ops) : s.Coherent ops := by
  intro hdl p hanswered path hrelative
  obtain ⟨f, hf, halike⟩ := hs hdl p hanswered
  rw [FsInstance.pathFromRequest_relative ops hf s.agent hrelative, halike path hrelative]

theorem Backed.congr (hs : s.Backed ops) (hpath : s'.fs.path = s.fs.path)
    (hanswered : s'.answered = s.answered) : s'.Backed ops := by
  intro hdl p hp
  rw [hanswered] at hp
  rw [hpath]
  exact hs hdl p hp

/-- A handle is answered anew, and the table has a path for it that is as good. -/
theorem Backed.answer (hs : s.Backed ops) {hdl : Nat} {p : P} {f : OpenedPath P}
    (hanswered : s'.answered = s.answered.insert hdl p) (hf : s'.fs.path[hdl]? = some f)
    (halike : Alike ops f.path p)
    (hothers : ∀ a, a ≠ hdl → s'.fs.path[a]? = s.fs.path[a]?) : s'.Backed ops := by
  intro a q hq
  rw [hanswered, Table.getElem?_insert_eq] at hq
  by_cases heq : hdl = a
  · rw [if_pos heq, Option.some_inj] at hq
    exact ⟨f, heq ▸ hf, hq ▸ halike⟩
  · rw [if_neg heq] at hq
    rw [hothers a (Ne.symm heq)]
    exact hs a q hq

theorem step_fsOpen {path : P} {hdl : Option Nat}
    (hstep : s.step ops (.fsOpen path hdl) = some s') :
    (∃ err, (s.fs.pathFromRequest ops s.agent path hdl).1 = .error err ∧ s'.fs = s.fs ∧
      s'.answered = s.answered) ∨
    ∃ (hdl' : Nat) (p : P) (id : Nat),
      (s.fs.pathFromRequest ops s.agent path hdl).1 = .ok (p, hdl') ∧
      s'.fs.path = s.fs.path.insertIfNew hdl' ⟨id, p⟩ ∧ s'.answered = s.answered.insert hdl' p := by
  rw [step, FsInstance.fsOpen] at hstep
  generalize s.fs.pathFromRequest ops s.agent path hdl = request at hstep ⊢
  obtain ⟨answer, agent⟩ := request
  cases answer with
  | error err =>
      cases hstep
      exact .inl ⟨err, rfl, rfl, rfl⟩
  | ok answer =>
      obtain ⟨p, hdl'⟩ := answer
      cases hstep
      exact .inr ⟨hdl', p, agent.born, rfl, rfl, rfl⟩

theorem Backed.fsOpen (hs : s.Backed ops) {path : P} {hdl : Option Nat}
    (halike : s.OpensAlike ops (.fsOpen path hdl))
    (hstep : s.step ops (.fsOpen path hdl) = some s') : s'.Backed ops := by
  rcases step_fsOpen hstep with ⟨-, -, hfs, hanswered⟩ | ⟨hdl', p, id, hanswer, hpath, hanswered⟩
  · exact hs.congr (by rw [hfs]) hanswered
  · have hothers : ∀ a, a ≠ hdl' → s'.fs.path[a]? = s.fs.path[a]? := by
      intro a hne
      rw [hpath, Table.getElem?_insertIfNew_eq, if_neg]
      exact fun hnew => hne hnew.1.symm
    cases hf : s.fs.path[hdl']? with
    | none =>
        have hnew : s'.fs.path[hdl']? = some ⟨id, p⟩ := by
          rw [hpath, Table.getElem?_insertIfNew_eq, if_pos ⟨rfl, hf⟩]
        exact hs.answer hanswered hnew (fun _ _ => rfl) hothers
    | some f =>
        have hkept : s'.fs.path[hdl']? = some f := by
          rw [hpath, Table.insertIfNew_of_getElem? hf, hf]
        exact hs.answer hanswered hkept (halike hdl' p f hanswer hf) hothers

theorem Backed.fsCd (hs : s.Backed ops) {path : P} {hdl : Option Nat}
    (hstep : s.step ops (.fsCd path hdl) = some s') : s'.Backed ops := by
  rw [step, FsInstance.fsCd] at hstep
  cases hf : s.fs.path[hdl.getD 0]? with
  | none =>
      simp only [hf] at hstep
      cases hstep
      exact hs
  | some f =>
      simp only [hf] at hstep
      cases hstep
      have hothers : ∀ (g : OpenedPath P) a, a ≠ hdl.getD 0 →
          (s.fs.path.insert (hdl.getD 0) g)[a]? = s.fs.path[a]? := by
        intro g a hne
        rw [Table.getElem?_insert_of_ne (Ne.symm hne)]
      have hnew : ∀ g : OpenedPath P, (s.fs.path.insert (hdl.getD 0) g)[hdl.getD 0]? = some g := by
        intro g
        rw [Table.getElem?_insert_self]
      exact hs.answer rfl (hnew _) (fun _ _ => rfl) (hothers _)

theorem Backed.fsClose (hs : s.Backed ops) (hdl : Nat) :
    Backed ops { s with fs := s.fs.fsClose hdl, answered := s.answered.erase hdl } := by
  intro a p hp
  obtain ⟨hne, hp⟩ := Table.getElem?_erase_eq_some_iff.mp hp
  obtain ⟨f, hf, halike⟩ := hs a p hp
  have hkept : (s.fs.fsClose hdl).path[a]? = some f := by
    rw [FsInstance.fsClose]
    split
    · exact Table.getElem?_erase_eq_some_iff.mpr ⟨hne, hf⟩
    · exact hf
  exact ⟨f, hkept, halike⟩

theorem backed_step (s : PathState P) (a : PathAction P) (s' : PathState P) (hs : s.Backed ops)
    (halike : s.OpensAlike ops a) (hstep : s.step ops a = some s') : s'.Backed ops := by
  cases a with
  | fsOpen path hdl => exact hs.fsOpen halike hstep
  | fsCd path hdl => exact hs.fsCd hstep
  | ask path hdl =>
      cases hstep
      exact hs
  | fsClose hdl =>
      cases hstep
      exact hs.fsClose hdl
  | nextOpId =>
      cases hstep
      exact hs

/-- After an `open` that keeps things coherent the handle's path is as good as the
answer. -/
theorem opensAlike_of_coherent {a : PathAction P} (hstep : s.step ops a = some s')
    (hcoherent : s'.Coherent ops) : s.OpensAlike ops a := by
  cases a with
  | fsOpen path hdl =>
      intro hdl' p f hanswer hf q hrelative
      rcases step_fsOpen hstep with ⟨err, herror, -⟩ | ⟨hdl'', p', id, hanswer', hpath, hanswered⟩
      · rw [hanswer] at herror
        cases herror
      · rw [hanswer] at hanswer'
        cases hanswer'
        have hkept : s'.fs.path[hdl']? = some f := by
          rw [hpath, Table.insertIfNew_of_getElem? hf, hf]
        have htold : s'.answered[hdl']? = some p := by
          rw [hanswered, Table.getElem?_insert_self]
        have hresolved := hcoherent hdl' p htold q hrelative
        rw [FsInstance.pathFromRequest_relative ops hkept s'.agent hrelative] at hresolved
        exact (Prod.mk.inj (Except.ok.inj hresolved)).1
  | fsCd | ask | fsClose | nextOpId => trivial

end PathState

/-- **Coherence of handles, exactly.** In a run every handle resolves relative paths
against what was answered for it last, if and only if no `open` answers another
path for a handle that is in use. -/
theorem coherent_iff_opensAlike (opId : Nat) (as : List (PathAction P)) :
    (pathRequests ops opId).Along (PathState.Coherent ops) as ↔
      (pathRequests ops opId).Meets (PathState.OpensAlike ops) as := by
  apply Machine.along_iff_meets (PathState.backed_init opId) PathState.backed_step
  · intro s hs
    exact hs.coherent
  · intro s a s' _ hstep hcoherent
    exact PathState.opensAlike_of_coherent hstep hcoherent

/-- Opening `b` below the handle of `/a` is answered `/a/b`, and `c` is still looked
for in `/a`. -/
theorem open_answers_other_path :
    ¬ (pathRequests namePaths 100).Along (PathState.Coherent namePaths)
      [.fsOpen ["/", "a"] none, .fsOpen ["b"] (some 101)] := by
  apply Machine.not_along_of_run rfl
  intro hcoherent
  have hresolved := hcoherent 101 ["/", "a", "b"] (by decide +kernel) ["c"] rfl
  revert hresolved
  decide +kernel

end FerroRemote.Agent

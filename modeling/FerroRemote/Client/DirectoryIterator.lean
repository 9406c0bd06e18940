/-
# Iterating over remote directories

A client's iterator keeps what the agent said last: the path and the info of the entry
it is at, or that there is none. The loop from `begin` to the default iterator goes
through a directory by these alone, and asks the agent for every step. The handle it
asks with is its own as long as the agent's numbers have not come round to one in use.
-/

import FerroRemote.Agent.DirectoryIteration
import Mathlib.Logic.Function.Iterate

namespace FerroRemote.Client

open FerroRemote.Agent

structure DirIterImpl (P : Type) where
  hdl : Nat
  /-- `val_.path` -/
  val : P
  isEnd : Bool
  info : ElementInfo
  deriving DecidableEq

namespace DirIterImpl

variable {P : Type} [Inhabited P] (tree : FileTree P)

/-- A path that is absent is the empty one. -/
def copyData (it : DirIterImpl P) (info : IteratorInfo P) : DirIterImpl P :=
  { it with val := info.path.getD default, isEnd := info.isEnd, info := info.info }

/-- `dir_iter_impl::dir_iter_impl` -/
def ofInfo (info : IteratorInfo P) : DirIterImpl P :=
  copyData { hdl := info.hdl, val := default, isEnd := false, info := {} } info

/-- An exception leaves the iterator as it is. -/
def next (it : DirIterImpl P) (d : DirState P) : Except Error (DirIterImpl P) × DirState P :=
  ((d.iterNext tree it.hdl).1.map it.copyData, (d.iterNext tree it.hdl).2)

/-- `operator ==`, with the default iterator as `none` -/
def equal [DecidableEq P] (it : DirIterImpl P) (r : Option (DirIterImpl P)) : Bool :=
  match r with
  | none => it.isEnd
  | some r => if it.isEnd then r.isEnd else it.val = r.val

/-- The iterator shows the first of `entries`, or the end. -/
def Shows (it : DirIterImpl P) : List P → Prop
  | [] => it.isEnd = true
  | p :: _ => it.isEnd = false ∧ it.val = p ∧ fillInfo (tree.status p) = .ok it.info

end DirIterImpl

/-- How a loop over a directory ends: what it visited, the iterator, and the exception
that stopped it, if one did. -/
structure Walk (P : Type) where
  visited : List (P × ElementInfo)
  last : DirIterImpl P
  stopped : Option Error
  d : DirState P

section Loop

variable {P : Type} [Inhabited P] [DecidableEq P] (ops : PathOps P) (tree : FileTree P)

/-- `begin_iterate`, of a client whose instance is behind `hdl` -/
def beginIterate (d : DirState P) (path : P) (hdl : Nat) :
    Except Error (DirIterImpl P) × DirState P :=
  ((d.iterBegin ops tree path (some hdl)).1.map .ofInfo, (d.iterBegin ops tree path (some hdl)).2)

/-- `for( ; it != directory_iterator( ); ++it )`, for `fuel` rounds at most -/
def iterate : Nat → List (P × ElementInfo) → DirIterImpl P → DirState P → Option (Walk P)
  | 0, _, _, _ => none
  | fuel + 1, visited, it, d =>
    if it.equal none then some ⟨visited, it, none, d⟩
    else
      let visited := visited ++ [(it.val, it.info)]
      match it.next tree d with
      | (.error err, d) => some ⟨visited, it, some err, d⟩
      | (.ok it, d) => iterate fuel visited it d

def visits (entries : List P) : List (P × ElementInfo) :=
  entries.map fun p => (p, (fillInfo (tree.status p)).toOption.getD {})

/-- A loop from `begin` on visits these entries in their order, each with its path and its
info, and stops behind the last one. There another step is refused, and nothing changes. -/
def VisitsAll (d : DirState P) (path : P) (hdl : Nat) (entries : List P) : Prop :=
  ∃ it d₁, beginIterate ops tree d path hdl = (.ok it, d₁) ∧
    ∀ fuel, entries.length < fuel → ∃ last d₂,
      iterate tree fuel [] it d₁ = some ⟨visits tree entries, last, none, d₂⟩ ∧
        last.isEnd = true ∧ d₂.At last.hdl [] ∧
        last.next tree d₂ = (.error (.system ENODATA "End iterator."), d₂)

/-- Both lists have the same to come behind their first entries. -/
def InStep (left entries : List P) : Prop := (left = [] ↔ entries = []) ∧ left.tail = entries.tail

/-- The number that `begin` draws is free, or its iterator goes on as the new one would. -/
def DrawsFree (d : DirState P) (path : P) (hdl : Nat) (entries : List P) : Prop :=
  ∀ iter, d.fs.iters[d.iterHdl ops path (some hdl)]? = some iter →
    InStep (d.entriesLeft iter) entries ∧ tree.Serves iter.dir (d.entriesLeft iter)

end Loop

section Steps

variable {P : Type} [Inhabited P] {tree : FileTree P} {d : DirState P} {it : DirIterImpl P}
  {iter : DirIterator P} {p : P} {rest entries : List P}

theorem shows_copyData {info : IteratorInfo P} {hdl : Nat}
    (hinfo : DirState.fillIterInfo tree entries hdl = .ok info) (it : DirIterImpl P) :
    (it.copyData info).Shows tree entries := by
  cases entries with
  | nil =>
      cases hinfo
      exact rfl
  | cons p entries =>
      rw [DirState.fillIterInfo] at hinfo
      cases hstatus : fillInfo (tree.status p) with
      | error err =>
          rw [hstatus] at hinfo
          cases hinfo
      | ok status =>
          rw [hstatus] at hinfo
          cases hinfo
          exact ⟨rfl, rfl, hstatus⟩

theorem next_of_advances (hiter : d.fs.iters[it.hdl]? = some iter)
    (hleft : d.entriesLeft iter = p :: rest) (hadvances : tree.Advances iter.dir rest) :
    ∃ it', it.next tree d = (.ok it', { d with left := d.left.insert iter.id rest }) ∧
      it'.hdl = it.hdl ∧ it'.Shows tree rest := by
  rcases DirState.fillIterInfo_of_described tree hadvances.2 it.hdl with ⟨info, hinfo⟩
  refine ⟨it.copyData info, ?_, rfl, shows_copyData hinfo it⟩
  rw [DirIterImpl.next, DirState.iterNext_of_advances tree hiter hleft hadvances, hinfo]
  rfl

theorem next_of_not_advances (hiter : d.fs.iters[it.hdl]? = some iter)
    (hleft : d.entriesLeft iter = p :: rest) (hnot : ¬ tree.Advances iter.dir rest) :
    ∃ err rest', it.next tree d = (.error err, { d with left := d.left.insert iter.id rest' }) ∧
      (rest' = [] ∨ ¬ tree.Described rest') := by
  rcases DirState.iterNext_of_not_advances tree hiter hleft hnot with
    ⟨err, rest', hthrown, hrest'⟩
  refine ⟨err, rest', ?_, hrest'⟩
  rw [DirIterImpl.next, hthrown]
  rfl

theorem next_of_at_nil (hat : d.At it.hdl []) :
    it.next tree d = (.error (.system ENODATA "End iterator."), d) := by
  rw [DirIterImpl.next, DirState.iterNext_of_at_nil tree hat]
  rfl

omit [Inhabited P] in
theorem info_of_shows (hshows : it.Shows tree (p :: rest)) :
    (it.val, it.info) = (p, (fillInfo (tree.status p)).toOption.getD {}) := by
  rw [hshows.2.1, hshows.2.2]
  rfl

variable [DecidableEq P]

/-- A loop whose iterator shows entries, over a stream in step with them. The induction is
on the entries. -/
theorem iterate_visits {fuel : Nat} {left : List P} (hfuel : entries.length < fuel)
    (visited : List (P × ElementInfo)) (hshows : it.Shows tree entries)
    (hiter : d.fs.iters[it.hdl]? = some iter) (hleft : d.entriesLeft iter = left)
    (hstep : InStep left entries) (hserves : tree.Serves iter.dir left) :
    ∃ last d', iterate tree fuel visited it d =
        some ⟨visited ++ visits tree entries, last, none, d'⟩ ∧
      last.Shows tree [] ∧ d'.At last.hdl [] := by
  induction entries generalizing fuel visited it d left with
  | nil =>
      rcases Nat.exists_eq_succ_of_ne_zero (Nat.ne_zero_of_lt hfuel) with ⟨fuel, rfl⟩
      refine ⟨it, d, ?_, hshows, iter, hiter, hleft.trans (hstep.1.mpr rfl)⟩
      have hend : it.equal none = true := hshows
      rw [iterate, if_pos hend, visits, List.map_nil, List.append_nil]
  | cons p rest ih =>
      rcases Nat.exists_eq_succ_of_ne_zero (Nat.ne_zero_of_lt hfuel) with ⟨fuel, rfl⟩
      cases left with
      | nil => exact absurd (hstep.1.mp rfl) (List.cons_ne_nil p rest)
      | cons q left =>
          have htail : left = rest := hstep.2
          subst htail
          rcases next_of_advances hiter hleft hserves.1 with ⟨it', hnext, hhdl, hshows'⟩
          have hmoved := DirState.entriesLeft_moved d iter left
          rcases @ih { d with left := d.left.insert iter.id left } it' fuel left
            (Nat.lt_of_succ_lt_succ hfuel) (visited ++ [(it.val, it.info)]) hshows'
            (hhdl ▸ hiter) hmoved ⟨Iff.rfl, rfl⟩ hserves.2 with ⟨last, d', hloop, hlast⟩
          refine ⟨last, d', ?_, hlast⟩
          have hmore : ¬ it.equal none = true := by
            rw [DirIterImpl.equal, hshows.1]
            exact Bool.false_ne_true
          rw [iterate, if_neg hmore]
          simp only [hnext, hloop]
          rw [info_of_shows hshows, List.append_assoc]
          rfl

/-- What a loop that no exception has stopped has visited is what its stream had, and every
step was answered. -/
theorem visits_of_iterate {fuel : Nat} {visited out : List (P × ElementInfo)} {left : List P}
    {last : DirIterImpl P} {d' : DirState P} (hshows : it.Shows tree left)
    (hiter : d.fs.iters[it.hdl]? = some iter) (hleft : d.entriesLeft iter = left)
    (hloop : iterate tree fuel visited it d = some ⟨out, last, none, d'⟩) :
    out = visited ++ visits tree left ∧ tree.Serves iter.dir left := by
  induction left generalizing fuel visited it d with
  | nil =>
      cases fuel with
      | zero => cases hloop
      | succ fuel =>
          have hend : it.equal none = true := hshows
          rw [iterate, if_pos hend] at hloop
          cases hloop
          exact ⟨(List.append_nil _).symm, trivial⟩
  | cons p rest ih =>
      cases fuel with
      | zero => cases hloop
      | succ fuel =>
          have hmore : ¬ it.equal none = true := by
            rw [DirIterImpl.equal, hshows.1]
            exact Bool.false_ne_true
          rw [iterate, if_neg hmore] at hloop
          by_cases hadvances : tree.Advances iter.dir rest
          · rcases next_of_advances hiter hleft hadvances with ⟨it', hnext, hhdl, hshows'⟩
            simp only [hnext] at hloop
            have hmoved := DirState.entriesLeft_moved d iter rest
            rcases ih hshows' (d := { d with left := d.left.insert iter.id rest })
              (hhdl ▸ hiter) hmoved hloop with ⟨hout, hserves⟩
            refine ⟨?_, hadvances, hserves⟩
            rw [hout, info_of_shows hshows, List.append_assoc]
            rfl
          · rcases next_of_not_advances hiter hleft hadvances with ⟨err, rest', hnext, -⟩
            simp only [hnext] at hloop
            cases hloop

/-- What comes behind the first entry was in the stream, when a loop visits the entries. -/
theorem inStep_of_iterate {fuel : Nat} {left : List P} {last : DirIterImpl P} {d' : DirState P}
    (hshows : it.Shows tree entries) (hiter : d.fs.iters[it.hdl]? = some iter)
    (hleft : d.entriesLeft iter = left)
    (hloop : iterate tree fuel [] it d = some ⟨visits tree entries, last, none, d'⟩)
    (hat : d'.At last.hdl []) : InStep left entries ∧ tree.Serves iter.dir left := by
  cases fuel with
  | zero => cases hloop
  | succ fuel =>
      cases entries with
      | nil =>
          have hend : it.equal none = true := hshows
          rw [iterate, if_pos hend] at hloop
          cases hloop
          rcases hat with ⟨iter', hiter', hnothing⟩
          rw [hiter, Option.some_inj] at hiter'
          rw [← hleft, hiter', hnothing]
          exact ⟨⟨Iff.rfl, rfl⟩, trivial⟩
      | cons p rest =>
          have hmore : ¬ it.equal none = true := by
            rw [DirIterImpl.equal, hshows.1]
            exact Bool.false_ne_true
          rw [iterate, if_neg hmore] at hloop
          cases left with
          | nil =>
              simp only [next_of_at_nil ⟨iter, hiter, hleft⟩] at hloop
              have hstopped := congrArg Walk.stopped (Option.some.inj hloop)
              cases hstopped
          | cons q left =>
              by_cases hadvances : tree.Advances iter.dir left
              · rcases next_of_advances hiter hleft hadvances with ⟨it', hnext, hhdl, hshows'⟩
                simp only [hnext, info_of_shows hshows] at hloop
                have hmoved := DirState.entriesLeft_moved d iter left
                rcases visits_of_iterate (d := { d with left := d.left.insert iter.id left })
                  hshows' (hhdl ▸ hiter) hmoved hloop with ⟨hout, hserved⟩
                have hpaths := congrArg (List.map Prod.fst) (List.cons.inj hout).2
                have hsame : rest = left := by
                  simpa [Function.comp_def, visits] using hpaths
                have hboth : q :: left = [] ↔ p :: rest = [] :=
                  iff_of_false (List.cons_ne_nil _ _) (List.cons_ne_nil _ _)
                exact ⟨⟨hboth, hsame.symm⟩, hadvances, hserved⟩
              · rcases next_of_not_advances hiter hleft hadvances with ⟨err, rest', hnext, -⟩
                simp only [hnext] at hloop
                have hstopped := congrArg Walk.stopped (Option.some.inj hloop)
                cases hstopped

end Steps

section Beginning

variable {P : Type} [Inhabited P] {ops : PathOps P} {tree : FileTree P} {d : DirState P}
  {path p : P} {hdl h : Nat} {agent : AgentState} {entries : List P}

/-- A begin whose directory can be read: its iterator is in the table, unless another one is
there, and its stream is new. -/
structure Stored (d d' : DirState P) (hdl : Nat) (p : P) (entries : List P) : Prop where
  born : d'.agent.born = d.agent.born + 1
  iters : d'.fs.iters = d.fs.iters.insertIfNew hdl ⟨d.agent.born, p⟩
  left : d'.left = d.left.insert d.agent.born entries

/-- A begin that has gone well, with the iterator it gave. -/
structure Begun (tree : FileTree P) (d d' : DirState P) (hdl : Nat) (it : DirIterImpl P) (p : P)
    (entries : List P) : Prop extends Stored d d' hdl p entries where
  drawn : it.hdl = hdl
  shows : it.Shows tree entries

theorem beginIterate_stored
    (hresolved : d.fs.pathFromRequest ops d.agent path (some hdl) = (.ok (p, h), agent))
    (hlisting : tree.listing p = .ok entries) :
    ∃ d', beginIterate ops tree d path hdl =
        ((DirState.fillIterInfo tree entries agent.nextIndex.1).map .ofInfo, d') ∧
      Stored d d' (d.iterHdl ops path (some hdl)) p entries := by
  have hborn := FsInstance.pathFromRequest_born ops path (some hdl) d.fs d.agent
  rw [hresolved] at hborn
  change agent.born = d.agent.born at hborn
  simp only [beginIterate, DirState.iterBegin, hresolved, hlisting, DirState.iterHdl]
  refine ⟨_, rfl, congrArg (· + 1) hborn, ?_, ?_⟩
  · rw [← hborn]
    rfl
  · rw [← hborn]
    rfl

theorem beginIterate_of_described
    (hresolved : d.fs.pathFromRequest ops d.agent path (some hdl) = (.ok (p, h), agent))
    (hlisting : tree.listing p = .ok entries) (hdescribed : tree.Described entries) :
    ∃ it d', beginIterate ops tree d path hdl = (.ok it, d') ∧
      Begun tree d d' (d.iterHdl ops path (some hdl)) it p entries := by
  rcases beginIterate_stored hresolved hlisting with ⟨d', hbegin, hstored⟩
  rcases DirState.fillIterInfo_of_described tree hdescribed agent.nextIndex.1 with
    ⟨info, hinfo⟩
  rw [hinfo] at hbegin
  refine ⟨.ofInfo info, d', hbegin, hstored, ?_, shows_copyData hinfo _⟩
  rw [DirState.iterHdl, hresolved]
  exact DirState.hdl_of_fillIterInfo tree hinfo

/-- The iterator stays behind when its entry cannot be asked about. -/
theorem beginIterate_of_not_described
    (hresolved : d.fs.pathFromRequest ops d.agent path (some hdl) = (.ok (p, h), agent))
    (hlisting : tree.listing p = .ok entries) (hnot : ¬ tree.Described entries) :
    ∃ err d', beginIterate ops tree d path hdl = (.error err, d') ∧
      Stored d d' (d.iterHdl ops path (some hdl)) p entries := by
  rcases beginIterate_stored hresolved hlisting with ⟨d', hbegin, hstored⟩
  rcases DirState.fillIterInfo_of_not_described tree hnot agent.nextIndex.1 with ⟨err, hthrown⟩
  rw [hthrown] at hbegin
  exact ⟨err, d', hbegin, hstored⟩

omit [Inhabited P] in
/-- Where the iterator behind the new one's number has been before, it stays. -/
theorem Begun.kept {d' : DirState P} {it : DirIterImpl P} {iter : DirIterator P}
    (hbegun : Begun tree d d' hdl it p entries) (hdated : d.Dated)
    (hiter : d.fs.iters[hdl]? = some iter) :
    d'.fs.iters[hdl]? = some iter ∧ d'.entriesLeft iter = d.entriesLeft iter := by
  constructor
  · rw [hbegun.iters, Table.insertIfNew_of_getElem? hiter, hiter]
  · rw [DirState.entriesLeft, hbegun.left,
      Table.getElem?_insert_of_ne (Nat.ne_of_gt (hdated hdl iter hiter))]
    rfl

omit [Inhabited P] in
theorem Begun.fresh {d' : DirState P} {it : DirIterImpl P}
    (hbegun : Begun tree d d' hdl it p entries) (hfree : d.fs.iters[hdl]? = none) :
    d'.fs.iters[hdl]? = some ⟨d.agent.born, p⟩ ∧
      d'.entriesLeft ⟨d.agent.born, p⟩ = entries := by
  constructor
  · rw [hbegun.iters, Table.getElem?_insertIfNew_eq, if_pos ⟨rfl, hfree⟩]
  · rw [DirState.entriesLeft, hbegun.left, Table.getElem?_insert_self]
    rfl

variable [DecidableEq P]

theorem drawsFree_of_visitsAll (hdated : d.Dated)
    (hresolved : d.fs.pathFromRequest ops d.agent path (some hdl) = (.ok (p, h), agent))
    (hlisting : tree.listing p = .ok entries) (hdescribed : tree.Described entries)
    (hvisits : VisitsAll ops tree d path hdl entries) : DrawsFree ops tree d path hdl entries := by
  rcases beginIterate_of_described hresolved hlisting hdescribed with ⟨it, d₁, hbegin, hbegun⟩
  rcases hvisits with ⟨it', d₁', hbegin', hvisits⟩
  rw [hbegin] at hbegin'
  cases hbegin'
  intro iter hiter
  rcases hbegun.kept hdated hiter with ⟨hkept, hleft⟩
  rw [← hbegun.drawn] at hkept
  rcases hvisits (entries.length + 1) (Nat.lt_succ_self _) with ⟨last, d₂, hloop, -, hat, -⟩
  rw [← hleft]
  exact inStep_of_iterate hbegun.shows hkept rfl hloop hat

theorem visitsAll_of_drawsFree (hdated : d.Dated)
    (hresolved : d.fs.pathFromRequest ops d.agent path (some hdl) = (.ok (p, h), agent))
    (hlisting : tree.listing p = .ok entries) (hdescribed : tree.Described entries)
    (hserves : tree.Serves p entries) (hfree : DrawsFree ops tree d path hdl entries) :
    VisitsAll ops tree d path hdl entries := by
  rcases beginIterate_of_described hresolved hlisting hdescribed with ⟨it, d₁, hbegin, hbegun⟩
  have hown : ∃ iter, d₁.fs.iters[it.hdl]? = some iter ∧
      InStep (d₁.entriesLeft iter) entries ∧ tree.Serves iter.dir (d₁.entriesLeft iter) := by
    rw [hbegun.drawn]
    cases htaken : d.fs.iters[d.iterHdl ops path (some hdl)]? with
    | none =>
        rcases hbegun.fresh htaken with ⟨hiter, hleft⟩
        rw [← hleft] at hserves ⊢
        exact ⟨_, hiter, ⟨Iff.rfl, rfl⟩, hserves⟩
    | some iter =>
        rcases hbegun.kept hdated htaken with ⟨hkept, hleft⟩
        refine ⟨iter, hkept, ?_⟩
        rw [hleft]
        exact hfree iter htaken
  rcases hown with ⟨iter, hiter, hstep, hgoes⟩
  refine ⟨it, d₁, hbegin, ?_⟩
  intro fuel hfuel
  rcases iterate_visits hfuel [] hbegun.shows hiter rfl hstep hgoes with
    ⟨last, d₂, hloop, hshows, hat⟩
  exact ⟨last, d₂, hloop, hshows, hat, next_of_at_nil hat⟩

/-- Directories whose entries can all be asked about are gone through as they should be
exactly when the number that is drawn is free, or its iterator goes on in the same way. -/
theorem visitsAll_iff_drawsFree (hdated : d.Dated)
    (hresolved : d.fs.pathFromRequest ops d.agent path (some hdl) = (.ok (p, h), agent))
    (hlisting : tree.listing p = .ok entries) (hdescribed : tree.Described entries)
    (hserves : tree.Serves p entries) :
    VisitsAll ops tree d path hdl entries ↔ DrawsFree ops tree d path hdl entries :=
  ⟨drawsFree_of_visitsAll hdated hresolved hlisting hdescribed,
    visitsAll_of_drawsFree hdated hresolved hlisting hdescribed hserves⟩

end Beginning

/-- A directory with a file and a directory in it. -/
def smallTree : FileTree (List String) where
  listing path := if path = ["/"] then .ok [["/", "file"], ["/", "dir"]] else .ok []
  status path :=
    ⟨.ok true, .ok (path = ["/", "dir"]), .ok false, .ok (path = ["/", "file"]), .ok true⟩

theorem described_small (p : List String) (rest : List (List String)) :
    smallTree.Described (p :: rest) := ⟨_, rfl⟩

/-- Of an instance that has no iterator yet, a loop visits the two. -/
theorem visitsAll_small :
    VisitsAll namePaths smallTree {} ["/"] 0 [["/", "file"], ["/", "dir"]] := by
  refine (visitsAll_iff_drawsFree ?_ (FsInstance.pathFromRequest_new namePaths rfl {} {}) rfl
    (described_small _ _) ?_).mpr ?_
  · exact fun hdl iter hiter => absurd hiter (Table.getElem?_empty_ne hdl iter)
  · exact ⟨⟨rfl, described_small _ _⟩, ⟨rfl, trivial⟩, trivial⟩
  · exact fun iter hiter => absurd hiter (Table.getElem?_empty_ne _ iter)

theorem nextOpId_iterate {agent : AgentState} (hlt : agent.opId < UInt64.size) (n : Nat) :
    (fun s : AgentState => s.nextOpId.2)^[n] agent =
      { agent with opId := (agent.opId + n) % UInt64.size } := by
  induction n with
  | zero => rw [Function.iterate_zero_apply, Nat.add_zero, Nat.mod_eq_of_lt hlt]
  | succ n ih =>
      rw [Function.iterate_succ_apply', ih, AgentState.nextOpId]
      simp only [Nat.mod_add_mod, Nat.add_assoc]

/-- An iterator over `/` has been begun and moved one step, and then the services have
drawn all numbers but two. -/
def goneAround : DirState (List String) :=
  let d := (beginIterate namePaths smallTree {} ["/"] 0).2
  let d := (d.iterNext smallTree 102).2
  { d with agent := (fun s : AgentState => s.nextOpId.2)^[UInt32.size - 2] d.agent }

/-- The next loop over `/` goes on with the iterator that is there already. -/
theorem not_visitsAll_goneAround :
    ¬ VisitsAll namePaths smallTree goneAround ["/"] 0 [["/", "file"], ["/", "dir"]] := by
  have hagent : goneAround.agent = { opId := UInt32.size + 100, born := 1 } := by
    simp only [goneAround]
    rw [nextOpId_iterate (by decide)]
    rfl
  have hiters : goneAround.fs.iters = (∅ : Table _).insertIfNew 102 ⟨0, ["/"]⟩ := rfl
  have hiter : goneAround.fs.iters[102]? = some ⟨0, ["/"]⟩ := rfl
  have hleft : goneAround.entriesLeft ⟨0, ["/"]⟩ = [["/", "dir"]] := rfl
  have hdated : goneAround.Dated := by
    intro hdl iter hmem
    rw [hiters, Table.getElem?_insertIfNew_eq] at hmem
    split at hmem
    · cases hmem
      rw [hagent]
      exact Nat.one_pos
    · exact absurd hmem (Table.getElem?_empty_ne hdl iter)
  intro hvisits
  have hfree := drawsFree_of_visitsAll hdated (FsInstance.pathFromRequest_new namePaths rfl _ _)
    rfl (described_small _ _) hvisits
  have hdrawn : goneAround.iterHdl namePaths ["/"] (some 0) = 102 := by
    rw [DirState.iterHdl, hagent]
    rfl
  have hstep := (hfree ⟨0, ["/"]⟩ (hdrawn ▸ hiter)).1.2
  rw [hleft] at hstep
  cases hstep

end FerroRemote.Client

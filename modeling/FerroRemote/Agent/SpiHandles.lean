/-
# SPI handlers and the handle table

`index_map::get` gives its lock back before its caller has used the reference into the
table that it returns. A handler keeps that reference until it ends, and another request
of the same client may take the entry away, or, when the counter of the handles has come
round, put another device in its place. The tables of the i2c, file and gpio services
store shared pointers, and their handlers copy one.

Requests that use a device are taken apart here: the lookup, every use of what it has
returned, and the end.
-/

import FerroRemote.Agent.BusServices
import FerroRemote.Math.Machine

namespace FerroRemote.Agent

/-- A handler that has passed `get_file`: the handle it looked up, and the entry that the
reference was made for. -/
structure SpiHandler where
  hdl : Nat
  object : Nat
  deriving DecidableEq, Repr

/-- A use of the reference, and the entry that was in its place. -/
structure SpiUse where
  handler : SpiHandler
  entry : Option Nat
  deriving DecidableEq, Repr

/-- A `proto_impl`, with its handlers. -/
structure SpiHandles where
  /-- `files_`. -/
  files : IndexMap SpiInfo := spiFiles
  handlers : Table SpiHandler := ∅
  /-- The next unused name of a handler. -/
  started : Nat := 0
  /-- The next unused identity of an entry. -/
  born : Nat := 0
  /-- All the uses. -/
  uses : List SpiUse := []

inductive SpiAction
  | open (bus channel : Nat)
  | close (hdl : Nat)
  /-- `setup`, `write`, `read`, `wr`, `transfer` or `transfer_list` calls `get_file`. -/
  | lookup (hdl : Nat)
  /-- The handler uses its reference; `setup` writes the speed through it. -/
  | use (handler : Nat) (speed : Option Nat)
  /-- The handler ends. -/
  | finish (handler : Nat)
  deriving Repr

namespace SpiHandles

def entryOf (s : SpiHandles) (hdl : Nat) : Option Nat := s.files.map[hdl]?.map (·.id)

/-- What is written through a reference whose entry is there. -/
def writeSpeed (s : SpiHandles) (h : SpiHandler) (speed : Nat) : SpiHandles :=
  match s.files.map[h.hdl]? with
  | none => s
  | some f =>
    if f.id = h.object then
      { s with files := { s.files with map := s.files.map.insert h.hdl { f with speed } } }
    else s

/-- One step; `get_file` throws for a handle that is not in the table. -/
def step (s : SpiHandles) : SpiAction → Option SpiHandles
  | .open bus channel =>
    some { s with files := (s.files.set ⟨s.born, bus, channel, 0⟩).2, born := s.born + 1 }
  | .close hdl => some { s with files := s.files.del hdl }
  | .lookup hdl =>
    match s.entryOf hdl with
    | none => some s
    | some object =>
      some { s with
        handlers := s.handlers.insert s.started ⟨hdl, object⟩
        started := s.started + 1 }
  | .use handler speed =>
    match s.handlers[handler]? with
    | none => none
    | some h =>
      let s := speed.elim s (s.writeSpeed h)
      some { s with uses := s.uses ++ [⟨h, s.entryOf h.hdl⟩] }
  | .finish handler =>
    if handler ∈ s.handlers then some { s with handlers := s.handlers.erase handler } else none

end SpiHandles

def spiHandles : Machine SpiHandles SpiAction where
  init := {}
  step := SpiHandles.step

namespace SpiHandles

/-- Every use was of the entry that had been looked up. Beside that, every reference that a
handler has is to an entry that is still there, so that a use of it would be one too. -/
structure UsesLive (s : SpiHandles) : Prop where
  used : ∀ use ∈ s.uses, use.entry = some use.handler.object
  refers : ∀ {handler : Nat} {h : SpiHandler}, s.handlers[handler]? = some h →
    s.entryOf h.hdl = some h.object

/-- No handler in progress has looked the handle up. -/
def Unborrowed (s : SpiHandles) (hdl : Nat) : Prop :=
  ∀ {handler : Nat} {h : SpiHandler}, s.handlers[handler]? = some h → h.hdl ≠ hdl

/-- No entry is taken away or replaced that a handler in progress has looked up. -/
def SparesHandlers (s : SpiHandles) : SpiAction → Prop
  | .open _ _ => s.Unborrowed s.files.nextId
  | .close hdl => s.Unborrowed hdl
  | _ => True

/-- `UsesLive`, and entries have identities that were given out. -/
structure Fresh (s : SpiHandles) : Prop where
  live : s.UsesLive
  born : ∀ {hdl object : Nat}, s.entryOf hdl = some object → object < s.born

variable {s s' : SpiHandles}

theorem entryOf_open (bus channel hdl : Nat) :
    { s with files := (s.files.set ⟨s.born, bus, channel, 0⟩).2, born := s.born + 1 }.entryOf hdl =
      if s.files.nextId = hdl then some s.born else s.entryOf hdl := by
  rw [entryOf, IndexMap.set, Table.getElem?_insert_eq]
  split
  · rfl
  · rfl

theorem entryOf_close (hdl hdl' : Nat) :
    { s with files := s.files.del hdl }.entryOf hdl' =
      if hdl = hdl' then none else s.entryOf hdl' := by
  rw [entryOf, IndexMap.del, Table.getElem?_erase_eq]
  split
  · rfl
  · rfl

theorem entryOf_writeSpeed (h : SpiHandler) (speed hdl : Nat) :
    (s.writeSpeed h speed).entryOf hdl = s.entryOf hdl := by
  unfold writeSpeed
  split
  · rfl
  · next f hf =>
      split
      · rw [entryOf, entryOf, Table.getElem?_insert_eq]
        split
        · next heq => rw [← heq, hf, Option.map_some, Option.map_some]
        · rfl
      · rfl

/-- A use leaves everything as it is but for a speed, and is recorded. -/
theorem step_use {handler : Nat} {speed : Option Nat}
    (htaken : s.step (.use handler speed) = some s') :
    ∃ h, s.handlers[handler]? = some h ∧ s'.handlers = s.handlers ∧ s'.born = s.born ∧
      (∀ hdl, s'.entryOf hdl = s.entryOf hdl) ∧ s'.uses = s.uses ++ [⟨h, s.entryOf h.hdl⟩] := by
  simp only [step] at htaken
  cases hh : s.handlers[handler]? with
  | none =>
      rw [hh] at htaken
      cases htaken
  | some h =>
      rw [hh] at htaken
      cases htaken
      apply Exists.intro h
      apply And.intro rfl
      cases speed with
      | none => exact ⟨rfl, rfl, fun _ => rfl, rfl⟩
      | some speed =>
          have hsame : (s.writeSpeed h speed).handlers = s.handlers ∧
              (s.writeSpeed h speed).born = s.born ∧ (s.writeSpeed h speed).uses = s.uses := by
            unfold writeSpeed
            split
            · exact ⟨rfl, rfl, rfl⟩
            · split
              · exact ⟨rfl, rfl, rfl⟩
              · exact ⟨rfl, rfl, rfl⟩
          refine ⟨hsame.1, hsame.2.1, fun hdl => entryOf_writeSpeed h speed hdl, ?_⟩
          simp only [Option.elim_some, hsame.2.2, entryOf_writeSpeed]

/-- A new entry takes no other's place that somebody has looked up. -/
theorem Fresh.set (hs : s.Fresh) (hspares : s.Unborrowed s.files.nextId) (bus channel : Nat) :
    Fresh { s with
      files := (s.files.set ⟨s.born, bus, channel, 0⟩).2
      born := s.born + 1 } := by
  refine ⟨⟨hs.live.used, ?_⟩, ?_⟩
  · intro handler h hh
    rw [entryOf_open, if_neg (hspares hh).symm]
    exact hs.live.refers hh
  · intro hdl object hentry
    rw [entryOf_open] at hentry
    split at hentry
    · cases hentry
      exact Nat.lt_succ_self _
    · exact Nat.lt_succ_of_lt (hs.born hentry)

theorem Fresh.del (hs : s.Fresh) {hdl : Nat} (hspares : s.Unborrowed hdl) :
    Fresh { s with files := s.files.del hdl } := by
  refine ⟨⟨hs.live.used, ?_⟩, ?_⟩
  · intro handler h hh
    rw [entryOf_close, if_neg (hspares hh).symm]
    exact hs.live.refers hh
  · intro hdl' object hentry
    rw [entryOf_close] at hentry
    split at hentry
    · cases hentry
    · exact hs.born hentry

/-- What a handler has just looked up is there. -/
theorem Fresh.lookup (hs : s.Fresh) {hdl : Nat} (htaken : s.step (.lookup hdl) = some s') :
    s'.Fresh := by
  simp only [step] at htaken
  cases hentry : s.entryOf hdl with
  | none =>
      rw [hentry] at htaken
      cases htaken
      exact hs
  | some object =>
      rw [hentry] at htaken
      cases htaken
      refine ⟨⟨hs.live.used, ?_⟩, hs.born⟩
      intro handler h hh
      rw [Table.getElem?_insert_eq] at hh
      split at hh
      · cases hh
        exact hentry
      · exact hs.live.refers hh

theorem Fresh.use (hs : s.Fresh) {handler : Nat} {speed : Option Nat}
    (htaken : s.step (.use handler speed) = some s') : s'.Fresh := by
  obtain ⟨h, hh, hhandlers, hborn, hentry, huses⟩ := step_use htaken
  refine ⟨⟨?_, ?_⟩, ?_⟩
  · intro use huse
    rw [huses, List.mem_append, List.mem_singleton] at huse
    cases huse with
    | inl hold => exact hs.live.used use hold
    | inr hnew =>
        rw [hnew]
        exact hs.live.refers hh
  · intro handler' h' hh'
    rw [hentry]
    exact hs.live.refers (hhandlers ▸ hh')
  · intro hdl object hobject
    rw [hborn]
    exact hs.born ((hentry hdl).symm.trans hobject)

theorem fresh_step {a : SpiAction} (hs : s.Fresh) (hspares : s.SparesHandlers a)
    (htaken : s.step a = some s') : s'.Fresh := by
  cases a with
  | «open» bus channel =>
      cases htaken
      exact hs.set hspares bus channel
  | close hdl =>
      cases htaken
      exact hs.del hspares
  | lookup hdl => exact hs.lookup htaken
  | use handler speed => exact hs.use htaken
  | finish handler =>
      obtain ⟨-, rfl⟩ := Machine.of_enabled htaken
      refine ⟨⟨hs.live.used, ?_⟩, hs.born⟩
      intro handler' h hh
      exact hs.live.refers (Table.getElem?_erase_eq_some_iff.mp hh).2

/-- Taking an entry away that a handler has looked up leaves it with a dead reference. -/
theorem spares_of_usesLive {a : SpiAction} (hs : s.Fresh) (htaken : s.step a = some s')
    (hlive : s'.UsesLive) : s.SparesHandlers a := by
  cases a with
  | «open» bus channel =>
      cases htaken
      rintro handler h hh heq
      have hafter := hlive.refers hh
      rw [entryOf_open, if_pos heq.symm, Option.some_inj] at hafter
      exact absurd (hs.born (hs.live.refers hh)) (hafter ▸ Nat.lt_irrefl _)
  | close hdl =>
      cases htaken
      rintro handler h hh heq
      have hafter := hlive.refers hh
      rw [entryOf_close, if_pos heq.symm] at hafter
      cases hafter
  | lookup hdl => trivial
  | use handler speed => trivial
  | finish handler => trivial

theorem fresh_init : Fresh {} where
  live := {
    used := fun use huse => by cases huse
    refers := fun hh => absurd hh (Table.getElem?_empty_ne _ _) }
  born hentry := by
    obtain ⟨f, hf, -⟩ := Option.map_eq_some_iff.mp hentry
    exact absurd hf (Table.getElem?_empty_ne _ _)

/-- Uses alone: none is of an entry that is gone. -/
theorem used_of_sparesHandlers {as : List SpiAction} (hmeets : spiHandles.Meets SparesHandlers as) :
    spiHandles.Along (fun s => ∀ use ∈ s.uses, use.entry = some use.handler.object) as := by
  apply Machine.along_of_meets fresh_init _ _ hmeets
  · intro s a s' hs hspares htaken
    exact fresh_step hs hspares htaken
  · intro s hs
    exact hs.live.used

/-- Handlers use live entries in a run exactly when nothing that a handler in progress
has looked up is closed, and no handle is given out anew that one has looked up. -/
theorem usesLive_iff_sparesHandlers (as : List SpiAction) :
    spiHandles.Along UsesLive as ↔ spiHandles.Meets SparesHandlers as :=
  Machine.along_iff_meets fresh_init (fun _ _ _ hs hspares htaken => fresh_step hs hspares htaken)
    (fun _ hs => hs.live)
    (fun _ _ _ hs htaken hlive => spares_of_usesLive hs htaken hlive) as

/-- A handler looks its handle up, another request closes it, and the handler uses what
it has got: there is no such entry. -/
theorem closed_entry_is_used :
    ¬ spiHandles.Along (fun s => ∀ use ∈ s.uses, use.entry = some use.handler.object)
      [.open 0 1, .lookup 101, .close 101, .use 0 none] := by
  apply Machine.not_along_of_run rfl
  intro hused
  have hentry := hused ⟨⟨101, 0⟩, none⟩ (by decide +kernel)
  cases hentry

end SpiHandles

end FerroRemote.Agent

/-
# The pin registry

Every client that opens a pin gets a reference to one helper, which the registry
remembers by weak pointer. `open_pin` and `close_pin` run under `devices_lock_`; the
references are copied and dropped without it, also while one of the two is half
through: after `open_pin` has looked the pin up and before it makes a helper, after
`close_pin` has found the helper gone and before it erases the entry.

What makes this safe is that a helper which is gone does not come back: only
`open_pin` makes one.
-/

import FerroRemote.Math.Machine
import FerroRemote.Math.WeakTable

namespace FerroRemote.Agent

/-- A helper that was made: its pin, and the number of references to it outside of the
registry. -/
structure SharedPin where
  pin : Nat
  refs : Nat
  deriving DecidableEq, Repr

/-- The functions that take `devices_lock_`. -/
inductive PinCall
  | openPin
  | closePin
  deriving DecidableEq, Repr

/-- A function that has looked its pin up; `res` is what locking the weak pointer gave,
a reference of its own. -/
structure LockedCall where
  call : PinCall
  pin : Nat
  res : Option Nat
  deriving DecidableEq, Repr

/-- `gpio::impl`, and the references to its helpers. -/
structure PinRegistry where
  /-- `devices_`. -/
  devices : Table Nat := ∅
  /-- All the helpers ever made. -/
  made : Table SharedPin := ∅
  /-- Who has `devices_lock_`. -/
  locked : Option LockedCall := none
  born : Nat := 0

namespace PinRegistry

/-- The reference that the function under the lock has. -/
def held (s : PinRegistry) : Option Nat := s.locked.bind (·.res)

def useCount (s : PinRegistry) (h : Nat) : Nat :=
  (s.made[h]?.elim 0 (·.refs)) + if s.held = some h then 1 else 0

/-- `lock`, for the weak pointer of a pin. -/
def lookup (s : PinRegistry) (pin : Nat) : Option Nat :=
  WeakTable.lock s.devices (fun h => 0 < s.useCount h) pin

def setRefs (s : PinRegistry) (h : Nat) (p : SharedPin) (refs : Nat) : PinRegistry :=
  { s with made := s.made.insert h { p with refs } }

inductive RegistryAction
  /-- `open_pin` or `close_pin` takes the lock and looks the pin up. -/
  | enter (call : PinCall) (pin : Nat)
  /-- The function does the rest and gives the lock back. -/
  | leave
  /-- A reference is copied. -/
  | copy (h : Nat)
  /-- A reference is dropped; with the last one the helper goes. -/
  | drop (h : Nat)
  deriving Repr

/-- The rest of `open_pin`: the caller gets the reference that was found, or one to a
new helper. -/
def leaveOpen (s : PinRegistry) (pin : Nat) (res : Option Nat) : PinRegistry :=
  match res with
  | some h =>
    match s.made[h]? with
    | some p => { s.setRefs h p (p.refs + 1) with locked := none }
    | none => { s with locked := none }
  | none =>
    { s with
      made := s.made.insert s.born ⟨pin, 1⟩
      devices := s.devices.insert pin s.born
      born := s.born + 1
      locked := none }

/-- The rest of `close_pin`: only an expired entry is removed. -/
def leaveClose (s : PinRegistry) (pin : Nat) (res : Option Nat) : PinRegistry :=
  match res with
  | some _ => { s with locked := none }
  | none => { s with devices := s.devices.erase pin, locked := none }

def step (s : PinRegistry) : RegistryAction → Option PinRegistry
  | .enter call pin =>
    if s.locked.isNone then some { s with locked := some ⟨call, pin, s.lookup pin⟩ } else none
  | .leave =>
    match s.locked with
    | some ⟨.openPin, pin, res⟩ => some (s.leaveOpen pin res)
    | some ⟨.closePin, pin, res⟩ => some (s.leaveClose pin res)
    | none => none
  | .copy h =>
    match s.made[h]? with
    | some p => if 0 < p.refs then some (s.setRefs h p (p.refs + 1)) else none
    | none => none
  | .drop h =>
    match s.made[h]? with
    | some p => if 0 < p.refs then some (s.setRefs h p (p.refs - 1)) else none
    | none => none

end PinRegistry

def pinRegistry : Machine PinRegistry PinRegistry.RegistryAction where
  init := {}
  step := PinRegistry.step

namespace PinRegistry

/-- A helper for `pin` whose reference count is not zero. -/
def Alive (s : PinRegistry) (h pin : Nat) : Prop :=
  (∃ p, s.made[h]? = some p ∧ p.pin = pin) ∧ 0 < s.useCount h

/-- What an `open_pin` that has looked its pin up is going to return. -/
def answer (s : PinRegistry) (res : Option Nat) : Nat := res.getD s.born

/-- One helper for each pin, and `open_pin` returns it: an `open_pin` that begins finds
it, and one that is half through answers with it. -/
structure OneHelper (s : PinRegistry) : Prop where
  unique : ∀ {h h' pin : Nat}, s.Alive h pin → s.Alive h' pin → h = h'
  finds : ∀ {h pin : Nat}, s.Alive h pin → s.lookup pin = some h
  answers : ∀ {h pin : Nat} {res : Option Nat}, s.locked = some ⟨.openPin, pin, res⟩ →
    s.Alive h pin → s.answer res = h

/-- The registry tracks the helpers; and what the function under the lock has found is
still so. -/
structure Tracked (s : PinRegistry) : Prop where
  tracks : WeakTable.Tracks s.devices s.Alive
  entryMade : ∀ {h pin : Nat}, s.devices[pin]? = some h → ∃ p, s.made[h]? = some p ∧ p.pin = pin
  found : ∀ {call : PinCall} {h pin : Nat}, s.locked = some ⟨call, pin, some h⟩ → s.Alive h pin
  expired : ∀ {call : PinCall} {pin : Nat}, s.locked = some ⟨call, pin, none⟩ →
    ∀ h, ¬ s.Alive h pin
  bornMade : ∀ h ∈ s.made, h < s.born

variable {s s' : PinRegistry} {h pin : Nat} {p : SharedPin}

theorem alive_iff : s.Alive h pin ↔
    ∃ p, s.made[h]? = some p ∧ p.pin = pin ∧ (0 < p.refs ∨ s.held = some h) := by
  constructor
  · rintro ⟨⟨p, hp, hpin⟩, hcount⟩
    rw [useCount, hp, Option.elim_some] at hcount
    apply Exists.intro p
    apply And.intro hp
    apply And.intro hpin
    by_cases hheld : s.held = some h
    · exact Or.inr hheld
    · rw [if_neg hheld] at hcount
      exact Or.inl hcount
  · rintro ⟨p, hp, hpin, hcount⟩
    apply And.intro ⟨p, hp, hpin⟩
    rw [useCount, hp, Option.elim_some]
    cases hcount with
    | inl hrefs => omega
    | inr hheld =>
        rw [if_pos hheld]
        omega

theorem mem_made_of (hp : s.made[h]? = some p) : h ∈ s.made :=
  (Table.mem_iff_exists _ _).mpr ⟨p, hp⟩

theorem alive_of_refs (hp : s.made[h]? = some p) (hrefs : 0 < p.refs) : s.Alive h p.pin :=
  alive_iff.mpr ⟨p, hp, rfl, Or.inl hrefs⟩

/-- Counting the references to a helper that is alive brings no other one back. -/
theorem alive_setRefs (halive : s.Alive h p.pin) {refs h' pin' : Nat}
    (hafter : (s.setRefs h p refs).Alive h' pin') : s.Alive h' pin' := by
  rw [alive_iff] at hafter
  obtain ⟨q, hq, hpin, hcount⟩ := hafter
  rw [setRefs, Table.getElem?_insert_eq] at hq
  split at hq
  · next heq =>
      cases hq
      exact heq ▸ hpin ▸ halive
  · exact alive_iff.mpr ⟨q, hq, hpin, hcount⟩

theorem Tracked.setRefs (hs : s.Tracked) (hp : s.made[h]? = some p) (halive : s.Alive h p.pin)
    (refs : Nat) : (s.setRefs h p refs).Tracked := by
  have hmade : ∀ {h' : Nat} {q : SharedPin}, s.made[h']? = some q →
      ∃ q', (s.setRefs h p refs).made[h']? = some q' ∧ q'.pin = q.pin := by
    intro h' q hq
    rw [PinRegistry.setRefs, Table.getElem?_insert_eq]
    by_cases heq : h = h'
    · rw [if_pos heq]
      rw [← heq, hp, Option.some_inj] at hq
      exact ⟨{ p with refs }, rfl, by rw [← hq]⟩
    · rw [if_neg heq]
      exact ⟨q, hq, rfl⟩
  constructor
  · exact hs.tracks.shrink fun h' pin' => alive_setRefs halive
  · intro h' pin' hentry
    obtain ⟨q, hq, hpin⟩ := hs.entryMade hentry
    obtain ⟨q', hq', hpin'⟩ := hmade hq
    exact ⟨q', hq', hpin'.trans hpin⟩
  · intro call h' pin' hlocked
    obtain ⟨⟨q, hq, hpin⟩, -⟩ := hs.found hlocked
    obtain ⟨q', hq', hpin'⟩ := hmade hq
    have hheld : (s.setRefs h p refs).held = some h' := by
      rw [held, hlocked, Option.bind_some]
    exact alive_iff.mpr ⟨q', hq', hpin'.trans hpin, Or.inr hheld⟩
  · intro call pin' hlocked h' hafter
    exact hs.expired hlocked h' (alive_setRefs halive hafter)
  · intro h' hmem
    exact hs.bornMade h' ((Table.mem_insert_of_mem (mem_made_of hp) _ _).mp hmem)

/-- The function under the lock gives it back, and with it its reference. -/
theorem Tracked.unlock (hs : s.Tracked) : { s with locked := none }.Tracked := by
  constructor
  · apply hs.tracks.shrink
    intro h pin hafter
    obtain ⟨p, hp, hpin, hcount⟩ := alive_iff.mp hafter
    cases hcount with
    | inl hrefs => exact alive_iff.mpr ⟨p, hp, hpin, Or.inl hrefs⟩
    | inr hheld => cases hheld
  · exact hs.entryMade
  · intro call h pin hlocked
    cases hlocked
  · intro call pin hlocked
    cases hlocked
  · exact hs.bornMade

theorem Tracked.forget (hs : s.Tracked) (hnone : ∀ h, ¬ s.Alive h pin) :
    { s with devices := s.devices.erase pin }.Tracked := by
  constructor
  · exact hs.tracks.forget hnone
  · intro h pin' hentry
    exact hs.entryMade (Table.getElem?_erase_eq_some_iff.mp hentry).2
  · exact hs.found
  · exact hs.expired
  · exact hs.bornMade

/-- `open_pin` makes a helper for a pin that has none. -/
theorem Tracked.create (hs : s.Tracked) (hnone : ∀ h, ¬ s.Alive h pin) :
    (s.leaveOpen pin none).Tracked := by
  have hfresh : s.made[s.born]? = none := by
    apply (Table.not_mem_iff _ _).mp
    intro hmem
    exact Nat.lt_irrefl _ (hs.bornMade _ hmem)
  have hmade : ∀ h : Nat, (s.leaveOpen pin none).made[h]? =
      if s.born = h then some ⟨pin, 1⟩ else s.made[h]? :=
    fun h => Table.getElem?_insert_eq _ _ _ _
  constructor
  · apply hs.tracks.create hnone
    intro h pin' hafter
    obtain ⟨p, hp, hpin, hcount⟩ := alive_iff.mp hafter
    rw [hmade] at hp
    split at hp
    · next heq =>
        cases hp
        exact Or.inr ⟨heq.symm, hpin.symm⟩
    · cases hcount with
      | inl hrefs => exact Or.inl (alive_iff.mpr ⟨p, hp, hpin, Or.inl hrefs⟩)
      | inr hheld => cases hheld
  · intro h pin' hentry
    rw [hmade]
    rw [leaveOpen, Table.getElem?_insert_eq] at hentry
    split at hentry
    · next heq =>
        cases hentry
        rw [if_pos rfl]
        exact ⟨_, rfl, heq⟩
    · obtain ⟨p, hp, hpin⟩ := hs.entryMade hentry
      have hne : s.born ≠ h := by
        intro heq
        rw [← heq, hfresh] at hp
        cases hp
      rw [if_neg hne]
      exact ⟨p, hp, hpin⟩
  · intro call h pin' hlocked
    cases hlocked
  · intro call pin' hlocked
    cases hlocked
  · exact Table.forall_lt_insert _ hs.bornMade

/-- A function takes the lock, and finds the helper of its pin or that there is none. -/
theorem Tracked.enter (hs : s.Tracked) (call : PinCall) (pin : Nat) :
    { s with locked := some ⟨call, pin, s.lookup pin⟩ }.Tracked := by
  have hlookup : ∀ {h : Nat}, s.lookup pin = some h → s.Alive h pin := by
    intro h hfound
    obtain ⟨hentry, hcount⟩ := WeakTable.lock_eq_some_iff.mp hfound
    exact ⟨hs.entryMade hentry, of_decide_eq_true hcount⟩
  have hbefore : ∀ h pin', { s with locked := some ⟨call, pin, s.lookup pin⟩ }.Alive h pin' →
      s.Alive h pin' := by
    intro h pin' hafter
    obtain ⟨p, hp, hpin, hcount⟩ := alive_iff.mp hafter
    cases hcount with
    | inl hrefs => exact alive_iff.mpr ⟨p, hp, hpin, Or.inl hrefs⟩
    | inr hheld => exact ⟨⟨p, hp, hpin⟩, (hlookup hheld).2⟩
  constructor
  · exact hs.tracks.shrink hbefore
  · exact hs.entryMade
  · intro call' h pin' hlocked
    simp only [Option.some_inj, LockedCall.mk.injEq] at hlocked
    obtain ⟨-, hpin, hfound⟩ := hlocked
    obtain ⟨p, hp, hmade⟩ := (hlookup hfound).1
    exact alive_iff.mpr ⟨p, hp, hmade.trans hpin, Or.inr hfound⟩
  · intro call' pin' hlocked h hafter
    simp only [Option.some_inj, LockedCall.mk.injEq] at hlocked
    obtain ⟨-, hpin, hnone⟩ := hlocked
    have hcounted : ∀ o k, s.Alive o k → decide (0 < s.useCount o) = true :=
      fun o k halive => decide_eq_true halive.2
    exact hs.tracks.none_alive hcounted hnone h (hbefore h pin (hpin ▸ hafter))
  · exact hs.bornMade

theorem tracked_init : Tracked {} where
  tracks := WeakTable.tracks_empty fun h pin halive => by
    obtain ⟨⟨p, hp, -⟩, -⟩ := halive
    exact Table.getElem?_empty_ne _ _ hp
  entryMade hentry := absurd hentry (Table.getElem?_empty_ne _ _)
  found hlocked := by cases hlocked
  expired hlocked := by cases hlocked
  bornMade h hmem := absurd hmem (by simp)

theorem tracked_step (a : RegistryAction) (hs : s.Tracked) (htaken : s.step a = some s') :
    s'.Tracked := by
  cases a with
  | enter call pin =>
      obtain ⟨-, rfl⟩ := Machine.of_enabled htaken
      exact hs.enter call pin
  | leave =>
      rw [step] at htaken
      split at htaken
      · next pin res hlocked =>
          cases htaken
          cases res with
          | none => exact hs.create (hs.expired hlocked)
          | some h =>
              obtain ⟨⟨p, hp, rfl⟩, hcount⟩ := hs.found hlocked
              rw [leaveOpen, hp]
              exact (hs.setRefs hp ⟨⟨p, hp, rfl⟩, hcount⟩ _).unlock
      · next pin res hlocked =>
          cases htaken
          cases res with
          | none => exact (hs.forget (hs.expired hlocked)).unlock
          | some h => exact hs.unlock
      · cases htaken
  | copy h =>
      rw [step] at htaken
      split at htaken
      · next p hp =>
          obtain ⟨hrefs, rfl⟩ := Machine.of_enabled htaken
          exact hs.setRefs hp (alive_of_refs hp hrefs) _
      · cases htaken
  | drop h =>
      rw [step] at htaken
      split at htaken
      · next p hp =>
          obtain ⟨hrefs, rfl⟩ := Machine.of_enabled htaken
          exact hs.setRefs hp (alive_of_refs hp hrefs) _
      · cases htaken

theorem alive_answer (hs : s.Tracked) {res : Option Nat}
    (hlocked : s.locked = some ⟨.openPin, pin, res⟩) :
    (s.leaveOpen pin res).Alive (s.answer res) pin := by
  cases res with
  | none =>
      apply alive_iff.mpr
      exact ⟨⟨pin, 1⟩, Table.getElem?_insert_self s.made s.born _, rfl,
        Or.inl Nat.one_pos⟩
  | some h =>
      obtain ⟨⟨p, hp, hpin⟩, -⟩ := hs.found hlocked
      apply alive_iff.mpr
      rw [leaveOpen, hp]
      refine ⟨{ p with refs := p.refs + 1 }, ?_, hpin, Or.inl (Nat.succ_pos _)⟩
      exact Table.getElem?_insert_self _ _ _

theorem Tracked.oneHelper (hs : s.Tracked) : s.OneHelper where
  unique hfirst hsecond := hs.tracks.unique hfirst hsecond
  finds halive := hs.tracks.lock_eq halive (decide_eq_true halive.2)
  answers {h pin res} hlocked halive := by
    cases res with
    | none => exact absurd halive (hs.expired hlocked h)
    | some h' => exact hs.tracks.unique (hs.found hlocked) halive

/-- Whatever is opened, closed, copied and dropped, and in whatever order, a pin has one
helper at most, and `open_pin` returns it. -/
theorem pinRegistry_oneHelper (as : List RegistryAction) :
    pinRegistry.Along OneHelper as :=
  Machine.along_of_steps tracked_init (fun _ a _ hs htaken => tracked_step a hs htaken)
    (fun _ hs => hs.oneHelper) as

end PinRegistry

end FerroRemote.Agent

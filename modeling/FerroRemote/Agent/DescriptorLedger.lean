/-
# The ledger of descriptors

What a disciplined history of the descriptor table looks like: every object
opened at most one descriptor, a number that belonged to an object was closed by
that object only, and the object of an open number has opened it and not closed
it yet. Opening a descriptor for an object that has none,
closing one on behalf of its owner and closing a number that is not open keep the
ledger.
-/

import FerroRemote.Agent.Kernel

namespace FerroRemote.Agent

namespace FdEvent

/-- The event is the opening of a descriptor by `owner`. -/
def IsOpenBy (owner : Owner) : FdEvent → Bool
  | .opened o _ => o = owner
  | .closed .. => false

/-- The event closes a number that belonged to `owner`. -/
def IsCloseOf (owner : Owner) : FdEvent → Bool
  | .opened .. => false
  | .closed _ _ hit => hit = some owner

@[simp]
theorem isOpenBy_opened (owner o : Owner) (fd : Fd) :
    (FdEvent.opened o fd).IsOpenBy owner = decide (o = owner) := rfl

@[simp]
theorem isOpenBy_closed (owner : Owner) (closer : Closer) (fd : Fd) (hit : Option Owner) :
    (FdEvent.closed closer fd hit).IsOpenBy owner = false := rfl

@[simp]
theorem isCloseOf_opened (owner o : Owner) (fd : Fd) :
    (FdEvent.opened o fd).IsCloseOf owner = false := rfl

@[simp]
theorem isCloseOf_closed (owner : Owner) (closer : Closer) (fd : Fd) (hit : Option Owner) :
    (FdEvent.closed closer fd hit).IsCloseOf owner = decide (hit = some owner) := rfl

end FdEvent

namespace Kernel

/-- How many descriptors `owner` has opened. -/
def opens (k : Kernel) (owner : Owner) : Nat := k.log.countP (·.IsOpenBy owner)

/-- How many times a number was closed while it belonged to `owner`. -/
def closes (k : Kernel) (owner : Owner) : Nat := k.log.countP (·.IsCloseOf owner)

/-- Every `close` of a number that belonged to an object came from that object. -/
def ClosedByOpener (k : Kernel) : Prop :=
  ∀ closer fd owner, .closed closer fd (some owner) ∈ k.log → closer = .object owner

/-- The history agrees with the table of open descriptors. -/
structure Ledger (k : Kernel) : Prop where
  /-- Only owners close. -/
  closedByOpener : k.ClosedByOpener
  /-- No object has two numbers open. -/
  injective : ∀ {a b : Fd} {owner : Owner},
    k.fds[a]? = some owner → k.fds[b]? = some owner → a = b
  /-- The object of an open number opened it once and has not closed it. -/
  open_once : ∀ {fd : Fd} {owner : Owner},
    k.fds[fd]? = some owner → k.opens owner = 1 ∧ k.closes owner = 0
  /-- An object without an open number closed what it opened, once. -/
  closed_once : ∀ {owner : Owner}, (∀ fd : Fd, k.fds[fd]? ≠ some owner) →
    k.closes owner = k.opens owner ∧ k.opens owner ≤ 1

theorem ledger_empty : Ledger {} where
  closedByOpener := by simp [ClosedByOpener]
  injective := by simp
  open_once := by simp
  closed_once := by simp [closes, opens]

theorem Ledger.congr {k k' : Kernel} (h : k.Ledger) (hfds : k'.fds = k.fds)
    (hlog : k'.log = k.log) : k'.Ledger := by
  rcases k with ⟨fds, poll, log⟩
  rcases k' with ⟨fds', poll', log'⟩
  cases hfds
  cases hlog
  exact ⟨h.closedByOpener, h.injective, h.open_once, h.closed_once⟩

theorem opens_openFd (k : Kernel) (o owner : Owner) (fd : Fd) :
    (k.openFd o fd).opens owner = k.opens owner + if o = owner then 1 else 0 := by
  simp [opens, List.countP_cons]

@[simp]
theorem closes_openFd (k : Kernel) (o owner : Owner) (fd : Fd) :
    (k.openFd o fd).closes owner = k.closes owner := by
  simp [closes]

@[simp]
theorem opens_close (k : Kernel) (closer : Closer) (owner : Owner) (fd : Fd) :
    (k.close closer fd).opens owner = k.opens owner := by
  simp [opens]

theorem closes_close (k : Kernel) (closer : Closer) (owner : Owner) (fd : Fd) :
    (k.close closer fd).closes owner =
      k.closes owner + if k.fds[fd]? = some owner then 1 else 0 := by
  simp [closes, List.countP_cons]

theorem Ledger.not_open_of_opens_eq_zero {k : Kernel} (h : k.Ledger) {owner : Owner}
    (hzero : k.opens owner = 0) (fd : Fd) : k.fds[fd]? ≠ some owner := by
  intro hfd
  have hone := (h.open_once hfd).1
  omega

theorem Ledger.openFd {k : Kernel} (h : k.Ledger) {owner : Owner} {fd : Fd}
    (hunused : fd ∉ k.fds) (hfirst : k.opens owner = 0) : (k.openFd owner fd).Ledger := by
  have hnone := h.not_open_of_opens_eq_zero hfirst
  have hclosed := (h.closed_once hnone).1
  have hlookup : ∀ a : Fd, (k.openFd owner fd).fds[a]? =
      if fd = a then some owner else k.fds[a]? := fun a => by
    rw [openFd_fds, Table.getElem?_insert_eq]
  refine ⟨?_, ?_, ?_, ?_⟩
  · intro closer a o hmem
    rw [openFd_log, List.mem_cons] at hmem
    rcases hmem with hmem | hmem
    · cases hmem
    · exact h.closedByOpener closer a o hmem
  · intro a b o ha hb
    rw [hlookup] at ha hb
    by_cases hfa : fd = a <;> by_cases hfb : fd = b
    · exact hfa.symm.trans hfb
    · rw [if_pos hfa] at ha
      rw [if_neg hfb, ← ha] at hb
      exact absurd hb (hnone b)
    · rw [if_pos hfb] at hb
      rw [if_neg hfa, ← hb] at ha
      exact absurd ha (hnone a)
    · rw [if_neg hfa] at ha
      rw [if_neg hfb] at hb
      exact h.injective ha hb
  · intro a o ha
    rw [hlookup] at ha
    rw [opens_openFd, closes_openFd]
    split at ha
    · cases ha
      simp [hfirst, hclosed]
    · have hne : owner ≠ o := fun heq => hnone a (heq ▸ ha)
      simpa [hne] using h.open_once ha
  · intro o hno
    have hne : owner ≠ o := by
      rintro rfl
      exact hno fd (by rw [hlookup, if_pos rfl])
    have hold : ∀ a : Fd, k.fds[a]? ≠ some o := by
      intro a ha
      have hfd : fd ≠ a := by
        rintro rfl
        rw [(Table.not_mem_iff _ _).mp hunused] at ha
        cases ha
      exact hno a (by rw [hlookup, if_neg hfd]; exact ha)
    rw [opens_openFd, closes_openFd]
    simpa [hne] using h.closed_once hold

/-- Closing a number on behalf of the object it belongs to. -/
theorem Ledger.close {k : Kernel} (h : k.Ledger) {owner : Owner} {fd : Fd}
    (howner : k.fds[fd]? = some owner) : (k.close (.object owner) fd).Ledger := by
  have hlookup : ∀ a : Fd, (k.close (.object owner) fd).fds[a]? =
      if fd = a then none else k.fds[a]? := fun a => by
    rw [close_fds, Table.getElem?_erase_eq]
  have hcount : ∀ o, (k.close (.object owner) fd).closes o =
      k.closes o + if owner = o then 1 else 0 := fun o => by
    rw [closes_close, howner]
    simp
  refine ⟨?_, ?_, ?_, ?_⟩
  · intro closer a o hmem
    rw [close_log, howner, List.mem_cons] at hmem
    rcases hmem with hmem | hmem
    · cases hmem
      rfl
    · exact h.closedByOpener closer a o hmem
  · intro a b o ha hb
    rw [hlookup] at ha hb
    split at ha
    · cases ha
    · split at hb
      · cases hb
      · exact h.injective ha hb
  · intro a o ha
    rw [hlookup] at ha
    split at ha
    · cases ha
    · next hfd =>
        have hne : owner ≠ o := fun heq => hfd (h.injective howner (heq ▸ ha))
        rw [opens_close, hcount]
        simpa [hne] using h.open_once ha
  · intro o hno
    rw [opens_close, hcount]
    by_cases heq : owner = o
    · subst heq
      have hone := h.open_once howner
      simp [hone.1, hone.2]
    · have hold : ∀ a : Fd, k.fds[a]? ≠ some o := by
        intro a ha
        have hfd : fd ≠ a := by
          rintro rfl
          rw [howner] at ha
          cases ha
          exact heq rfl
        exact hno a (by rw [hlookup, if_neg hfd]; exact ha)
      simpa [heq] using h.closed_once hold

theorem Ledger.closeUnused {k : Kernel} (h : k.Ledger) (closer : Closer) {fd : Fd}
    (hunused : k.fds[fd]? = none) : (k.close closer fd).Ledger := by
  have hfds : (k.close closer fd).fds = k.fds := Table.erase_of_getElem? hunused
  have hcloses : ∀ o, (k.close closer fd).closes o = k.closes o := fun o => by
    simp [closes_close, hunused]
  refine ⟨?_, ?_, ?_, ?_⟩
  · intro closer' a o hmem
    rw [close_log, hunused, List.mem_cons] at hmem
    rcases hmem with hmem | hmem
    · cases hmem
    · exact h.closedByOpener closer' a o hmem
  · rw [hfds]
    exact h.injective
  · intro a o ha
    rw [opens_close, hcloses]
    exact h.open_once (hfds ▸ ha)
  · intro o hno
    rw [opens_close, hcloses]
    exact h.closed_once (hfds ▸ hno)

end Kernel

end FerroRemote.Agent

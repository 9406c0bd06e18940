/-
# Signals and connections

A signal calls every slot that is connected to it, in the order in which they
were connected. Connecting answers a handle, by which the slot can be
disconnected again; a handle is a plain value, and overwriting one does not
disconnect anything. Numbers of connections are not used again, so that a handle
whose slot is gone never comes to refer to another.
-/

import FerroRemote.Math.Table

namespace FerroRemote

universe u

/-- The connected slots, and the number of the next connection. -/
structure Signal (S : Type u) where
  slots : Table S
  next : Nat
  /-- Connections get new numbers. -/
  fresh : ∀ c ∈ slots, c < next

namespace Signal

variable {S : Type u}

/-- A signal nobody has connected to. -/
def silent : Signal S where
  slots := ∅
  next := 0
  fresh _ hmem := absurd hmem Std.ExtTreeMap.not_mem_empty

/-- Connect a slot; the answer is its handle. -/
def connect (sig : Signal S) (slot : S) : Nat × Signal S :=
  (sig.next,
    { slots := sig.slots.insert sig.next slot
      next := sig.next + 1
      fresh := Table.forall_lt_insert slot sig.fresh })

/-- Disconnect the slot a handle refers to; a handle without a connected slot is
ignored. -/
def disconnect (sig : Signal S) : Option Nat → Signal S
  | none => sig
  | some c =>
    { slots := sig.slots.erase c
      next := sig.next
      fresh := fun a ha => sig.fresh a (Std.ExtTreeMap.mem_erase.mp ha).2 }

/-- The slots a call of the signal runs, in order. -/
def connected (sig : Signal S) : List S := sig.slots.toList.map (·.2)

@[simp]
theorem disconnect_next (sig : Signal S) (handle : Option Nat) :
    (sig.disconnect handle).next = sig.next := by
  cases handle <;> rfl

theorem getElem?_connect (sig : Signal S) (slot : S) (c : Nat) :
    (sig.connect slot).2.slots[c]? = if sig.next = c then some slot else sig.slots[c]? :=
  Table.getElem?_insert_eq _ _ _ _

theorem getElem?_disconnect (sig : Signal S) (handle : Option Nat) (c : Nat) :
    (sig.disconnect handle).slots[c]? = if handle = some c then none else sig.slots[c]? := by
  cases handle with
  | none => rfl
  | some a =>
      simp only [Option.some_inj]
      exact Table.getElem?_erase_eq _ _ _

theorem lt_next {sig : Signal S} {c : Nat} {slot : S} (hslot : sig.slots[c]? = some slot) :
    c < sig.next :=
  sig.fresh c ((Table.mem_iff_exists _ _).mpr ⟨slot, hslot⟩)

theorem mem_connected {sig : Signal S} {slot : S} :
    slot ∈ sig.connected ↔ ∃ c : Nat, sig.slots[c]? = some slot := by
  rw [connected, List.mem_map]
  constructor
  · intro hmem
    obtain ⟨⟨c, slot'⟩, hentry, rfl⟩ := hmem
    exact ⟨c, Std.ExtTreeMap.mem_toList_iff_getElem?_eq_some.mp hentry⟩
  · intro hexists
    obtain ⟨c, hslot⟩ := hexists
    exact ⟨(c, slot), Std.ExtTreeMap.mem_toList_iff_getElem?_eq_some.mpr hslot, rfl⟩

theorem getElem?_next (sig : Signal S) : sig.slots[sig.next]? = none := by
  apply (Table.not_mem_iff _ _).mp
  intro hmem
  exact Nat.lt_irrefl _ (sig.fresh _ hmem)

theorem connected_connect_perm (sig : Signal S) (slot : S) :
    (sig.connect slot).2.connected.Perm (slot :: sig.connected) :=
  (Table.toList_insert_perm slot sig.getElem?_next).map _

theorem connected_disconnect_perm {sig : Signal S} {c : Nat} {slot : S}
    (hslot : sig.slots[c]? = some slot) :
    sig.connected.Perm (slot :: (sig.disconnect (some c)).connected) :=
  (Table.toList_erase_perm hslot).map _

theorem connected_filter_of_unique {sig : Signal S} {c : Nat} {slot : S} (p : S → Bool)
    (hslot : sig.slots[c]? = some slot) (hp : p slot = true)
    (hunique : ∀ (a : Nat) (slot' : S), sig.slots[a]? = some slot' → p slot' = true → a = c) :
    sig.connected.filter p = [slot] := by
  have hentries := Table.filter_toList_of_unique (fun _ slot' => p slot') hslot hp hunique
  rw [connected, List.filter_map]
  exact congrArg (List.map Prod.snd) hentries

theorem eq_of_connected_filter {sig : Signal S} {p : S → Bool}
    (hone : (sig.connected.filter p).length = 1) {a b : Nat} {slot slot' : S}
    (ha : sig.slots[a]? = some slot) (hpa : p slot = true)
    (hb : sig.slots[b]? = some slot') (hpb : p slot' = true) : a = b := by
  have hin : ∀ {c : Nat} {s : S}, sig.slots[c]? = some s → p s = true →
      (c, s) ∈ sig.slots.toList.filter fun entry => p entry.2 := fun hc hp =>
    List.mem_filter.mpr ⟨Std.ExtTreeMap.mem_toList_iff_getElem?_eq_some.mpr hc, hp⟩
  rw [connected, List.filter_map, List.length_map] at hone
  obtain ⟨entry, hentry⟩ := List.length_eq_one_iff.mp hone
  have hfirst := hin ha hpa
  have hsecond := hin hb hpb
  have hboth : sig.slots.toList.filter (fun entry => p entry.2) = [entry] := hentry
  rw [hboth, List.mem_singleton] at hfirst hsecond
  exact congrArg Prod.fst (hfirst.trans hsecond.symm)

end Signal

end FerroRemote

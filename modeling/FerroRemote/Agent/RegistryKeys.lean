/-
# What the pin registry remembers

`close` is meant to take a pin out of the registry with its last handle. It calls
`close_pin` with a handle number, not with the pin, and while it still has a
`gpio_sptr` of its own, so that the entry of the pin would not have expired even under
the right key. An `open` that throws after `open_pin` leaves its entry behind too.

Requests overlap here: an `open` obtains its helper in one step and does the rest in
another.
-/

import FerroRemote.Agent.FanOutLifetime
import FerroRemote.Math.WeakTable

namespace FerroRemote.Agent

/-- The requests that open and close pins, and the clients that come. -/
inductive PinRequest
  | connect
  | beginOpen (inst pin : Nat)
  /-- The `open` at place `n` does the rest of its work. -/
  | finishOpen (n : Nat) (setup : Option Error) (res : Except Errno Fd)
  | close (inst hdl : Nat)

def PinRequest.action : PinRequest → PinAction
  | connect => .connectPins
  | beginOpen inst pin => .beginOpen inst pin
  | finishOpen n setup res => .finish n setup res none
  | close inst hdl => .gpioClose inst hdl

/-- Runs of open and close requests. -/
def pinRequests : Machine AgentState PinRequest where
  init := {}
  step s a := s.pinStep a.action

namespace AgentState

/-- A helper that exists, and its pin. -/
def HelperOf (s : AgentState) (g pin : Nat) : Prop :=
  ∃ impl, s.helpers[g]? = some impl ∧ impl.pin = pin

/-- A client has a handle of the pin. -/
def HasHandle (s : AgentState) (pin : Nat) : Prop :=
  ∃ inst hdl g : Nat, (s.pinsOf inst)[hdl]? = some g ∧ s.HelperOf g pin

/-- With no request in progress, the keys of the registry are the pins that have a
handle. -/
def NoLeak (s : AgentState) : Prop :=
  s.calls = [] → ∀ pin, pin ∈ s.devices ↔ s.HasHandle pin

/-- Nothing leaks. Beside that, at any time, also while an `open` is in progress, the keys of
the registry are the pins that a handle or such an `open` has the helper of. -/
structure KeysMatch (s : AgentState) : Prop where
  inUse : ∀ pin, pin ∈ s.devices ↔ ∃ g, s.HelperOf g pin ∧ s.referenced g = true
  noLeak : s.NoLeak

/-- The rest of the `open` stores a handle: nothing throws, and the number is free. -/
def Stores (s : AgentState) (call : Call) (setup : Option Error) (res : Except Errno Fd) : Prop :=
  (setup = none ∧ (s.valueOpened call.helper = true ∨ ∃ fd, res = .ok fd)) ∧
    (s.pinsOf call.inst)[call.hdl]? = none

/-- The step does not drop the last reference to a helper: an `open` stores a handle or
is not alone with its pin, and a handle that is closed is not the last. -/
def KeepsReference (s : AgentState) : PinRequest → Prop
  | .finishOpen n setup res => ∀ call : Call, s.calls[n]? = some call →
      (s.withoutCall n).referenced call.helper = true ∨ s.Stores call setup res
  | .close inst hdl => ∀ g : Nat, (s.pinsOf inst)[hdl]? = some g →
      (s.eraseGpio inst hdl).referenced g = true
  | _ => True

/-- The registry tracks the helpers and nothing else, and every helper is referenced. -/
structure Accounted (s : AgentState) : Prop where
  tracks : WeakTable.Tracks s.devices s.HelperOf
  entries : ∀ {g pin : Nat}, s.devices[pin]? = some g → s.HelperOf g pin
  held : ∀ {g pin : Nat}, s.HelperOf g pin → s.referenced g = true
  alive : ∀ {g : Nat}, s.referenced g = true → ∃ pin, s.HelperOf g pin
  opening : ∀ call ∈ s.calls, call.kind = .opening ∧ call.inst ∈ s.pins
  bornPins : ∀ inst ∈ s.pins, inst < s.born
  bornHelpers : ∀ {g pin : Nat}, s.HelperOf g pin → g < s.born

variable {s u : AgentState}

theorem mem_helpers_iff_helperOf (g : Nat) : g ∈ s.helpers ↔ ∃ pin, s.HelperOf g pin := by
  rw [Table.mem_iff_exists]
  constructor
  · rintro ⟨impl, himpl⟩
    exact ⟨impl.pin, impl, himpl, rfl⟩
  · rintro ⟨pin, impl, himpl, -⟩
    exact ⟨impl, himpl⟩

theorem Accounted.keysMatch (hs : s.Accounted) : s.KeysMatch := by
  have hinUse : ∀ pin, pin ∈ s.devices ↔ ∃ g, s.HelperOf g pin ∧ s.referenced g = true := by
    intro pin
    rw [Table.mem_iff_exists]
    constructor
    · rintro ⟨g, hentry⟩
      exact ⟨g, hs.entries hentry, hs.held (hs.entries hentry)⟩
    · rintro ⟨g, hhelper, -⟩
      exact ⟨g, hs.tracks hhelper⟩
  apply KeysMatch.mk hinUse
  intro hcalls pin
  rw [hinUse]
  constructor
  · rintro ⟨g, hhelper, href⟩
    cases (s.referenced_iff g).mp href with
    | inl hhandle =>
        obtain ⟨inst, hdl, hg⟩ := hhandle
        exact ⟨inst, hdl, g, hg, hhelper⟩
    | inr hcall =>
        obtain ⟨call, hmem, -⟩ := hcall
        rw [hcalls] at hmem
        cases hmem
  · rintro ⟨inst, hdl, g, hg, hhelper⟩
    exact ⟨g, hhelper, (s.referenced_iff g).mpr (Or.inl ⟨inst, hdl, hg⟩)⟩

/-- The registry, the helpers with their pins and the requests in progress are the
same. -/
structure SameRegistry (s u : AgentState) : Prop where
  devices : u.devices = s.devices
  helperOf : ∀ g pin, u.HelperOf g pin ↔ s.HelperOf g pin
  calls : u.calls = s.calls
  born : u.born = s.born

theorem sameRegistry_refl (s : AgentState) : SameRegistry s s :=
  ⟨rfl, fun _ _ => Iff.rfl, rfl, rfl⟩

theorem SameRegistry.setPins (h : SameRegistry s u) (inst : Nat) (t : Table Nat) :
    SameRegistry s (u.setPins inst t) :=
  ⟨h.devices, h.helperOf, h.calls, h.born⟩

theorem helperOf_insert {g : Nat} {impl impl' : GpioHelper} (himpl : s.helpers[g]? = some impl)
    (hpin : impl'.pin = impl.pin) (hhelpers : u.helpers = s.helpers.insert g impl')
    (h pin : Nat) : u.HelperOf h pin ↔ s.HelperOf h pin := by
  rw [HelperOf, HelperOf, hhelpers, Table.getElem?_insert_eq]
  by_cases heq : g = h
  · subst heq
    simp only [if_true, himpl, Option.some_inj, exists_eq_left', hpin]
  · rw [if_neg heq]

theorem sameRegistry_openValueFd {g : Nat} (hg : g ∈ s.helpers) (res : Except Errno Fd) :
    SameRegistry s (s.onHelper g fun r impl => impl.openValueFd g r res).2 := by
  obtain ⟨impl, himpl⟩ := (Table.mem_iff_exists _ _).mp hg
  have hpin : (impl.openValueFd g s.react res).2.2.pin = impl.pin := by
    rcases GpioHelper.openValueFd_cases g s.react impl res with
      ⟨fd, -, heq⟩ | ⟨-, code, -, heq⟩ | ⟨-, fd, -, heq⟩
    all_goals rw [heq]
  rw [onHelper_of_some himpl]
  exact ⟨rfl, helperOf_insert himpl hpin rfl, rfl, rfl⟩

theorem sameRegistry_finishOpen {g : Nat} (hg : g ∈ s.helpers) (inst hdl : Nat)
    (setup : Option Error) (res : Except Errno Fd) :
    SameRegistry s (s.finishOpen g inst hdl setup res).2 := by
  cases setup with
  | some err => exact sameRegistry_refl s
  | none =>
      have hsame := sameRegistry_openValueFd hg res
      simp only [finishOpen]
      split
      · next err t heq =>
          rw [heq] at hsame
          exact hsame
      · next fd t heq =>
          rw [heq] at hsame
          exact hsame.setPins _ _

theorem sameRegistry_delActionIfOpened (g hdl : Nat) :
    SameRegistry s (s.delActionIfOpened g hdl) := by
  rcases s.delActionIfOpened_cases g hdl with heq | ⟨impl, fd, himpl, -, heq⟩
  · rw [heq]
    exact sameRegistry_refl s
  · rw [heq]
    have hpin : (impl.delConnection hdl).pin = impl.pin := rfl
    exact ⟨rfl, helperOf_insert himpl hpin rfl, rfl, rfl⟩

theorem closePin_of_entries (hentries : ∀ {g pin : Nat}, s.devices[pin]? = some g →
    s.HelperOf g pin) (pin : Nat) : s.closePin pin = s := by
  unfold closePin
  split
  · rfl
  · next g hentry => rw [if_pos ((mem_helpers_iff_helperOf g).mpr ⟨pin, hentries hentry⟩)]

/-- The request has done everything but to drop its reference to `g`, which is not
counted any more. -/
structure Sheds (s u : AgentState) (g : Nat) : Prop where
  same : u.devices = s.devices ∧ ∀ h pin, u.HelperOf h pin ↔ s.HelperOf h pin
  had : s.referenced g = true
  others : ∀ h, g ≠ h → (u.referenced h = true ↔ s.referenced h = true)
  calls : u.calls ⊆ s.calls
  pins : ∀ inst, inst ∈ u.pins ↔ inst ∈ s.pins
  born : u.born = s.born

theorem release_devices (g : Nat) : (u.release g).devices = u.devices := by
  unfold release
  split
  · rfl
  · split <;> rfl

/-- While the helper is referenced, dropping a reference to it changes nothing. -/
theorem Sheds.accounted {g : Nat} (h : Sheds s u g) (hs : s.Accounted)
    (href : u.referenced g = true) : (u.release g).Accounted := by
  have hrelease : u.release g = u := if_pos href
  have hreferenced : ∀ x, u.referenced x = true ↔ s.referenced x = true := by
    intro x
    by_cases heq : g = x
    · exact heq ▸ iff_of_true href h.had
    · exact h.others x heq
  obtain ⟨hdevices, hhelper⟩ := h.same
  rw [hrelease]
  constructor
  · rw [hdevices]
    exact hs.tracks.shrink fun x pin => (hhelper x pin).mp
  · intro x pin hentry
    exact (hhelper x pin).mpr (hs.entries (hdevices ▸ hentry))
  · intro x pin hx
    exact (hreferenced x).mpr (hs.held ((hhelper x pin).mp hx))
  · intro x hx
    obtain ⟨pin, hpin⟩ := hs.alive ((hreferenced x).mp hx)
    exact ⟨pin, (hhelper x pin).mpr hpin⟩
  · intro call hcall
    obtain ⟨hkind, hinst⟩ := hs.opening call (h.calls hcall)
    exact ⟨hkind, (h.pins _).mpr hinst⟩
  · intro inst hinst
    rw [h.born]
    exact hs.bornPins inst ((h.pins inst).mp hinst)
  · intro x pin hx
    rw [h.born]
    exact hs.bornHelpers ((hhelper x pin).mp hx)

/-- A helper that loses its last reference leaves its entry behind. -/
theorem Sheds.referenced_of_keysMatch {g : Nat} (h : Sheds s u g) (hs : s.Accounted)
    (hmatch : (u.release g).KeysMatch) : u.referenced g = true := by
  obtain ⟨pin, hpin⟩ := hs.alive h.had
  obtain ⟨hdevices, hhelper⟩ := h.same
  by_contra hunref
  obtain ⟨-, heffect⟩ := u.release_effect g
  rw [if_neg hunref] at heffect
  have hmem : pin ∈ (u.release g).devices := by
    rw [release_devices, hdevices]
    exact (Table.mem_iff_exists _ _).mpr ⟨g, hs.tracks hpin⟩
  obtain ⟨x, ⟨impl, himpl, himplPin⟩, -⟩ := (hmatch.inUse pin).mp hmem
  rw [heffect] at himpl
  obtain ⟨hne, himpl⟩ := Table.getElem?_erase_eq_some_iff.mp himpl
  -- another helper of the pin
  have hx : s.HelperOf x pin := (hhelper x pin).mp ⟨impl, himpl, himplPin⟩
  exact hne (hs.tracks.unique hpin hx)

theorem referenced_eraseGpio_of_ne {inst hdl g h : Nat} (hg : (s.pinsOf inst)[hdl]? = some g)
    (hne : g ≠ h) : (s.eraseGpio inst hdl).referenced h = true ↔ s.referenced h = true := by
  rw [referenced_iff, referenced_iff]
  apply or_congr_left
  constructor
  · rintro ⟨inst', hdl', hin⟩
    rw [pinsOf_eraseGpio] at hin
    split at hin
    · cases hin
    · exact ⟨inst', hdl', hin⟩
  · rintro ⟨inst', hdl', hin⟩
    apply Exists.intro inst'
    apply Exists.intro hdl'
    rw [pinsOf_eraseGpio, if_neg]
    · exact hin
    · rintro ⟨rfl, rfl⟩
      exact hne (Option.some_inj.mp (hg.symm.trans hin))

theorem sheds_close (hs : s.Accounted) {inst hdl g : Nat} (hg : (s.pinsOf inst)[hdl]? = some g) :
    Sheds s ((s.delActionIfOpened g hdl).eraseGpio inst hdl) g ∧
      ((s.delActionIfOpened g hdl).eraseGpio inst hdl).referenced g =
        (s.eraseGpio inst hdl).referenced g ∧
      s.gpioClose inst hdl = ((s.delActionIfOpened g hdl).eraseGpio inst hdl).release g := by
  have hsame := sameRegistry_delActionIfOpened (s := s) g hdl
  have hpins := (s.delActionIfOpened_tables g hdl).pins
  have hinst := mem_pins_of_getElem? hg
  have herased : ∀ inst' hdl' : Nat,
      (((s.delActionIfOpened g hdl).eraseGpio inst hdl).pinsOf inst')[hdl']? =
        ((s.eraseGpio inst hdl).pinsOf inst')[hdl']? := by
    intro inst' hdl'
    rw [pinsOf_eraseGpio, pinsOf_eraseGpio, pinsOf, pinsOf, hpins]
  have hreferenced : ∀ h, ((s.delActionIfOpened g hdl).eraseGpio inst hdl).referenced h = true ↔
      (s.eraseGpio inst hdl).referenced h = true := by
    intro h
    rw [referenced_iff, referenced_iff]
    simp only [herased]
    exact or_congr_right (by rw [eraseGpio, eraseGpio, setPins, setPins, hsame.calls])
  refine ⟨⟨⟨hsame.devices, hsame.helperOf⟩, ?_, ?_, ?_, ?_, hsame.born⟩, ?_, ?_⟩
  · exact (s.referenced_iff g).mpr (Or.inl ⟨inst, hdl, hg⟩)
  · exact fun h hne => (hreferenced h).trans (referenced_eraseGpio_of_ne hg hne)
  · change (s.delActionIfOpened g hdl).calls ⊆ s.calls
    rw [hsame.calls]
    exact List.Subset.refl _
  · intro inst'
    rw [eraseGpio, mem_setPins_iff (hpins ▸ hinst), hpins]
  · exact Bool.eq_iff_iff.mpr (hreferenced g)
  · have hentries : ∀ {x pin : Nat},
        ((s.delActionIfOpened g hdl).eraseGpio inst hdl).devices[pin]? = some x →
          ((s.delActionIfOpened g hdl).eraseGpio inst hdl).HelperOf x pin := by
      intro x pin hentry
      exact (hsame.helperOf x pin).mpr (hs.entries (hsame.devices ▸ hentry))
    simp only [gpioClose, hg]
    rw [closePin_of_entries hentries]

/-- The handles after the rest of an `open`: what there was, and the new one. -/
theorem pinsOf_finishOpen {call : Call} (hg : call.helper ∈ s.helpers) (setup : Option Error)
    (res : Except Errno Fd) (inst hdl x : Nat) :
    ((s.finishOpen call.helper call.inst call.hdl setup res).2.pinsOf inst)[hdl]? = some x ↔
      (s.pinsOf inst)[hdl]? = some x ∨
        (call.inst = inst ∧ call.hdl = hdl ∧ call.helper = x) ∧ s.Stores call setup res := by
  rcases finishOpen_cases hg call.inst call.hdl setup res with
    ⟨hopens, t, hsame, heq⟩ | ⟨hfails, err, t, hsame, heq⟩
  · rw [heq, pinsOf_addHandle, hsame.pinsOf, hsame.pinsOf]
    split
    · next hnew =>
        obtain ⟨rfl, rfl, hfree⟩ := hnew
        have hstores : s.Stores call setup res := ⟨hopens, hfree⟩
        simp [hfree, hstores]
    · next hold =>
        constructor
        · exact Or.inl
        · rintro (hin | ⟨⟨hinst, hhdl, -⟩, -, hfree⟩)
          · exact hin
          · exact absurd ⟨hinst, hhdl, hfree⟩ hold
  · rw [heq, hsame.pinsOf]
    constructor
    · exact Or.inl
    · rintro (hin | ⟨-, hopens, -⟩)
      · exact hin
      · exact absurd hopens hfails

/-- Who refers to a helper when the `open` has done the rest of its work. -/
theorem referenced_finishOpen {call : Call} (hg : call.helper ∈ s.helpers) (n : Nat)
    (setup : Option Error) (res : Except Errno Fd) (x : Nat) :
    ((s.finishOpen call.helper call.inst call.hdl setup res).2.withoutCall n).referenced x = true ↔
      (s.withoutCall n).referenced x = true ∨
        call.helper = x ∧ s.Stores call setup res := by
  have hcalls : ((s.finishOpen call.helper call.inst call.hdl setup res).2.withoutCall n).calls =
      (s.withoutCall n).calls :=
    congrArg (·.eraseIdx n) (sameRegistry_finishOpen hg call.inst call.hdl setup res).calls
  rw [referenced_iff, referenced_iff, hcalls, or_right_comm]
  apply or_congr_left
  constructor
  · rintro ⟨inst, hdl, hin⟩
    cases (pinsOf_finishOpen hg setup res inst hdl x).mp hin with
    | inl hold => exact Or.inl ⟨inst, hdl, hold⟩
    | inr hnew => exact Or.inr ⟨hnew.1.2.2, hnew.2⟩
  · rintro (⟨inst, hdl, hold⟩ | ⟨heq, hstores⟩)
    · exact ⟨inst, hdl, (pinsOf_finishOpen hg setup res inst hdl x).mpr (Or.inl hold)⟩
    · exact ⟨call.inst, call.hdl,
        (pinsOf_finishOpen hg setup res _ _ x).mpr (Or.inr ⟨⟨rfl, rfl, heq⟩, hstores⟩)⟩

theorem sheds_finishOpen (hs : s.Accounted) {n : Nat} {call : Call} (hcall : s.calls[n]? = some call)
    (setup : Option Error) (res : Except Errno Fd) :
    Sheds s ((s.finishOpen call.helper call.inst call.hdl setup res).2.withoutCall n)
      call.helper := by
  have hmem : call ∈ s.calls := List.mem_of_getElem? hcall
  have hreferenced : s.referenced call.helper = true :=
    (s.referenced_iff _).mpr (Or.inr ⟨call, hmem, rfl⟩)
  have hg := (mem_helpers_iff_helperOf _).mpr (hs.alive hreferenced)
  have hsame := sameRegistry_finishOpen hg call.inst call.hdl setup res
  refine ⟨⟨hsame.devices, hsame.helperOf⟩, hreferenced, ?_, ?_, ?_, hsame.born⟩
  · intro x hne
    rw [referenced_finishOpen hg, or_iff_left fun h => hne h.1, referenced_iff, referenced_iff]
    apply or_congr_right
    constructor
    · rintro ⟨other, hother, heq⟩
      exact ⟨other, List.mem_of_mem_eraseIdx hother, heq⟩
    · rintro ⟨other, hother, heq⟩
      obtain ⟨k, hk⟩ := List.mem_iff_getElem?.mp hother
      have hplace : k ≠ n := by
        rintro rfl
        cases hcall.symm.trans hk
        exact hne heq
      exact ⟨other, List.mem_eraseIdx_iff_getElem?.mpr ⟨k, hplace, hk⟩, heq⟩
  · intro other hother
    rw [← hsame.calls]
    exact List.mem_of_mem_eraseIdx hother
  · intro inst
    rcases finishOpen_cases hg call.inst call.hdl setup res with
      ⟨-, t, htables, heq⟩ | ⟨-, err, t, htables, heq⟩
    · have hcaller : call.inst ∈ t.pins := htables.pins ▸ (hs.opening call hmem).2
      rw [heq, withoutCall, mem_setPins_iff hcaller, htables.pins]
    · rw [heq]
      exact iff_of_eq (congrArg (inst ∈ ·) htables.pins)

theorem Accounted.connectPins (hs : s.Accounted) : s.connectPins.Accounted := by
  have hpinsOf : ∀ inst : Nat, s.connectPins.pinsOf inst = s.pinsOf inst := by
    intro inst
    have hnew : s.pins[s.born]? = none := by
      apply (Table.not_mem_iff _ _).mp
      intro hmem
      exact Nat.lt_irrefl _ (hs.bornPins _ hmem)
    rw [pinsOf, pinsOf, AgentState.connectPins, Table.getElem?_insert_eq]
    split
    · next heq =>
        rw [← heq, hnew]
        rfl
    · rfl
  have hreferenced : ∀ x, s.connectPins.referenced x = true ↔ s.referenced x = true := by
    intro x
    rw [referenced_iff, referenced_iff]
    simp only [hpinsOf]
    rfl
  constructor
  · exact hs.tracks
  · exact hs.entries
  · intro g pin hhelper
    exact (hreferenced g).mpr (hs.held hhelper)
  · intro g href
    exact hs.alive ((hreferenced g).mp href)
  · intro call hcall
    obtain ⟨hkind, hinst⟩ := hs.opening call hcall
    exact ⟨hkind, (Table.mem_insert_iff _ _ _ _).mpr (Or.inr hinst)⟩
  · exact Table.forall_lt_insert ∅ hs.bornPins
  · intro g pin hhelper
    exact Nat.lt_succ_of_lt (hs.bornHelpers hhelper)

/-- A request in progress has a helper that exists. -/
theorem Accounted.beginCall (hs : s.Accounted) {call : Call} {pin : Nat}
    (hhelper : s.HelperOf call.helper pin) (hkind : call.kind = .opening)
    (hinst : call.inst ∈ s.pins) : (s.beginCall call).Accounted := by
  have hreferenced : ∀ x, (s.beginCall call).referenced x = true ↔
      s.referenced x = true ∨ call.helper = x := by
    intro x
    rw [referenced_iff, referenced_iff, or_assoc]
    apply or_congr_right
    simp [AgentState.beginCall, or_and_right, exists_or]
  constructor
  · exact hs.tracks
  · exact hs.entries
  · intro g pin' hg
    exact (hreferenced g).mpr (Or.inl (hs.held hg))
  · intro g href
    cases (hreferenced g).mp href with
    | inl hold => exact hs.alive hold
    | inr heq => exact ⟨pin, heq ▸ hhelper⟩
  · intro other hother
    cases List.mem_append.mp hother with
    | inl hold => exact hs.opening other hold
    | inr hnew =>
        rw [List.mem_singleton.mp hnew]
        exact ⟨hkind, hinst⟩
  · exact hs.bornPins
  · exact hs.bornHelpers

/-- The state when `open_pin` has made a helper. -/
def withPin (s : AgentState) (pin : Nat) : AgentState :=
  { s with
    helpers := s.helpers.insert s.born { pin := pin }
    devices := s.devices.insert pin s.born
    born := s.born + 1 }

theorem helperOf_withPin (hs : s.Accounted) (pin g pin' : Nat) :
    (s.withPin pin).HelperOf g pin' ↔ s.HelperOf g pin' ∨ g = s.born ∧ pin' = pin := by
  rw [HelperOf, withPin, Table.getElem?_insert_eq]
  by_cases heq : s.born = g
  · have hold : ¬ s.HelperOf g pin' := fun h => Nat.lt_irrefl _ (heq ▸ hs.bornHelpers h)
    simp [heq, hold, eq_comm]
  · have hne : ¬ g = s.born := fun h => heq h.symm
    rw [if_neg heq]
    simp only [hne, false_and, or_false]
    rfl

theorem openPin_of_accounted (hs : s.Accounted) (pin : Nat) :
    (∃ g pin', s.HelperOf g pin' ∧ s.openPin pin = (g, s)) ∨
      (∀ g, ¬ s.HelperOf g pin) ∧ s.openPin pin = (s.born, s.withPin pin) := by
  unfold openPin
  split
  · next g hentry =>
      have hhelper := hs.entries hentry
      rw [if_pos ((mem_helpers_iff_helperOf g).mpr ⟨pin, hhelper⟩)]
      exact Or.inl ⟨g, pin, hhelper, rfl⟩
  · next hnone =>
      apply Or.inr
      apply And.intro _ rfl
      intro g hhelper
      rw [hs.tracks hhelper] at hnone
      cases hnone

theorem Accounted.newPin (hs : s.Accounted) {pin : Nat} (hnone : ∀ g, ¬ s.HelperOf g pin)
    {call : Call} (hhelper : call.helper = s.born) (hkind : call.kind = .opening)
    (hinst : call.inst ∈ s.pins) : ((s.withPin pin).beginCall call).Accounted := by
  have hreferenced : ∀ x, ((s.withPin pin).beginCall call).referenced x = true ↔
      s.referenced x = true ∨ s.born = x := by
    intro x
    rw [referenced_iff, referenced_iff, or_assoc]
    apply or_congr_right
    simp [AgentState.beginCall, withPin, or_and_right, exists_or, hhelper]
  have hhelperOf : ∀ g pin', ((s.withPin pin).beginCall call).HelperOf g pin' ↔
      s.HelperOf g pin' ∨ g = s.born ∧ pin' = pin := helperOf_withPin hs pin
  constructor
  · exact hs.tracks.create hnone fun g pin' => (hhelperOf g pin').mp
  · intro g pin' hentry
    rw [hhelperOf]
    change (s.devices.insert pin s.born)[pin']? = some g at hentry
    rw [Table.getElem?_insert_eq] at hentry
    split at hentry
    · next heq =>
        cases hentry
        exact Or.inr ⟨rfl, heq.symm⟩
    · exact Or.inl (hs.entries hentry)
  · intro g pin' hg
    cases (hhelperOf g pin').mp hg with
    | inl hold => exact (hreferenced g).mpr (Or.inl (hs.held hold))
    | inr hnew => exact (hreferenced g).mpr (Or.inr hnew.1.symm)
  · intro g href
    cases (hreferenced g).mp href with
    | inl hold =>
        obtain ⟨pin', hpin'⟩ := hs.alive hold
        exact ⟨pin', (hhelperOf g pin').mpr (Or.inl hpin')⟩
    | inr hnew => exact ⟨pin, (hhelperOf g pin).mpr (Or.inr ⟨hnew.symm, rfl⟩)⟩
  · intro other hother
    cases List.mem_append.mp hother with
    | inl hold => exact hs.opening other hold
    | inr hlast =>
        rw [List.mem_singleton.mp hlast]
        exact ⟨hkind, hinst⟩
  · intro inst hmem
    exact Nat.lt_succ_of_lt (hs.bornPins inst hmem)
  · intro g pin' hg
    cases (hhelperOf g pin').mp hg with
    | inl hold => exact Nat.lt_succ_of_lt (hs.bornHelpers hold)
    | inr hnew => exact hnew.1 ▸ Nat.lt_succ_self _

theorem Accounted.beginOpen (hs : s.Accounted) {inst : Nat} (hinst : inst ∈ s.pins) (pin : Nat) :
    (s.beginOpen inst pin).Accounted := by
  have hnext : s.nextIndex.2.Accounted :=
    ⟨hs.tracks, hs.entries, hs.held, hs.alive, hs.opening, hs.bornPins, hs.bornHelpers⟩
  simp only [AgentState.beginOpen]
  rcases openPin_of_accounted hnext pin with ⟨g, pin', hhelper, heq⟩ | ⟨hnone, heq⟩
  · rw [heq]
    exact hnext.beginCall hhelper rfl hinst
  · rw [heq]
    exact hnext.newPin hnone rfl rfl hinst

/-! ## Runs -/

theorem accounted_init : Accounted {} where
  tracks := WeakTable.tracks_empty fun g pin hhelper => by
    obtain ⟨impl, himpl, -⟩ := hhelper
    exact Table.getElem?_empty_ne _ _ himpl
  entries hentry := absurd hentry (Table.getElem?_empty_ne _ _)
  held hhelper := by
    obtain ⟨impl, himpl, -⟩ := hhelper
    exact absurd himpl (Table.getElem?_empty_ne _ _)
  alive href := by simp [referenced] at href
  opening call hcall := by cases hcall
  bornPins inst hmem := absurd hmem (by simp)
  bornHelpers hhelper := by
    obtain ⟨impl, himpl, -⟩ := hhelper
    exact absurd himpl (Table.getElem?_empty_ne _ _)

/-- What a step comes to: it keeps the account, or it drops a reference. -/
theorem pinRequest_cases (hs : s.Accounted) (a : PinRequest) (htaken : s.pinStep a.action = some u) :
    (s.KeepsReference a ∧ u.Accounted) ∨
      ∃ t g, Sheds s t g ∧ u = t.release g ∧ (s.KeepsReference a ↔ t.referenced g = true) := by
  cases a with
  | connect =>
      cases htaken
      exact Or.inl ⟨trivial, hs.connectPins⟩
  | beginOpen inst pin =>
      obtain ⟨hinst, rfl⟩ := Machine.of_enabled htaken
      exact Or.inl ⟨trivial, hs.beginOpen hinst pin⟩
  | finishOpen n setup res =>
      simp only [PinRequest.action, pinStep] at htaken
      cases hcall : s.calls[n]? with
      | none =>
          rw [hcall] at htaken
          cases htaken
      | some call =>
          rw [hcall] at htaken
          obtain ⟨-, rfl⟩ := Machine.of_enabled htaken
          have hkind := (hs.opening call (List.mem_of_getElem? hcall)).1
          have hsheds := sheds_finishOpen hs hcall setup res
          have hg := (mem_helpers_iff_helperOf _).mpr (hs.alive hsheds.had)
          apply Or.inr
          refine ⟨_, call.helper, hsheds, ?_, ?_⟩
          · rw [serve, hkind]
          · rw [referenced_finishOpen hg, KeepsReference]
            constructor
            · intro h
              exact (h call hcall).imp_right fun hstores => ⟨rfl, hstores⟩
            · intro h call' hcall'
              cases hcall.symm.trans hcall'
              exact h.imp_right And.right
  | close inst hdl =>
      obtain ⟨-, rfl⟩ := Machine.of_enabled htaken
      cases hg : (s.pinsOf inst)[hdl]? with
      | none =>
          have hclose : s.gpioClose inst hdl = s := by simp only [gpioClose, hg]
          rw [hclose]
          apply Or.inl
          apply And.intro _ hs
          intro g hg'
          rw [hg] at hg'
          cases hg'
      | some g =>
          obtain ⟨hsheds, href, hclose⟩ := sheds_close hs hg
          apply Or.inr
          refine ⟨_, g, hsheds, hclose, ?_⟩
          rw [href]
          constructor
          · intro h
            exact h g hg
          · intro h g' hg'
            cases hg.symm.trans hg'
            exact h

theorem accounted_step {a : PinRequest} (hs : s.Accounted) (hkeeps : s.KeepsReference a)
    (htaken : s.pinStep a.action = some u) : u.Accounted := by
  rcases pinRequest_cases hs a htaken with ⟨-, hu⟩ | ⟨t, g, hsheds, rfl, hiff⟩
  · exact hu
  · exact hsheds.accounted hs (hiff.mp hkeeps)

theorem keepsReference_of_keysMatch {a : PinRequest} (hs : s.Accounted)
    (htaken : s.pinStep a.action = some u) (hmatch : u.KeysMatch) : s.KeepsReference a := by
  rcases pinRequest_cases hs a htaken with ⟨hkeeps, -⟩ | ⟨t, g, hsheds, rfl, hiff⟩
  · exact hkeeps
  · exact hiff.mpr (hsheds.referenced_of_keysMatch hs hmatch)

/-- With no request in progress alone: the keys are the pins that have a handle. -/
theorem noLeak_of_keepsReference {as : List PinRequest}
    (hmeets : pinRequests.Meets KeepsReference as) : pinRequests.Along NoLeak as := by
  apply Machine.along_of_meets accounted_init _ _ hmeets
  · intro s a s' hs hkeeps htaken
    exact accounted_step hs hkeeps htaken
  · intro s hs
    exact hs.keysMatch.noLeak

/-- The registry remembers just the pins in use exactly in the runs that never drop the
last reference to a helper: no handle that is closed is the last one of its pin, and no
`open` fails that is alone with its pin. -/
theorem keysMatch_iff_keepsReference (as : List PinRequest) :
    pinRequests.Along KeysMatch as ↔ pinRequests.Meets KeepsReference as :=
  Machine.along_iff_meets accounted_init
    (fun _ _ _ hs hkeeps htaken => accounted_step hs hkeeps htaken)
    (fun _ hs => hs.keysMatch)
    (fun _ _ _ hs htaken hmatch => keepsReference_of_keysMatch hs htaken hmatch) as

/-- A pin is opened and closed, and the registry still has it. -/
theorem closed_pin_is_remembered :
    ¬ pinRequests.Along NoLeak
      [.connect, .beginOpen 0 17, .finishOpen 0 none (.ok 5), .close 0 101] := by
  apply Machine.not_along_of_run rfl
  intro hnoLeak
  obtain ⟨inst, hdl, g, -, hhelper⟩ := (hnoLeak (by decide +kernel) 17).mp (by decide +kernel)
  obtain ⟨impl, himpl, -⟩ := hhelper
  cases himpl.symm.trans ((Table.isEmpty_iff_forall _).mp (by decide +kernel) g)

end AgentState

end FerroRemote.Agent

/-
# What a client sets and what it gets

A client sets a pin up with all of its four properties at once, and gets them all. What it gets
after it has set them is what it has set, with one exception: the value is the other one when the
active-low flag has changed on the way. And it can set up outputs only, since a value is always
written with the rest.
-/

import FerroRemote.Agent.GpioInfo

namespace FerroRemote.Client

open FerroRemote.Agent

/-- `direction_type` -/
inductive Direction
  | directIn
  | directOut
  | directNone
  deriving DecidableEq, Repr

def Direction.val : Direction → UInt32
  | .directIn => 0
  | .directOut => 1
  | .directNone => 0xFF

def directionVal2enum (val : UInt32) : Direction :=
  if val = 0 then .directIn else if val = 1 then .directOut else .directOut

def edgeVal2enum (val : UInt32) : EdgeType :=
  if val = 0 then .edgeNone
  else if val = 1 then .edgeRising
  else if val = 2 then .edgeFalling
  else if val = 3 then .edgeBoth
  else .edgeNone

/-- `gpio::info` -/
structure GpioInfo where
  id : Nat
  value : UInt32
  activeLow : UInt32
  direction : Direction
  edge : EdgeType
  deriving DecidableEq, Repr

section Calls

variable {S : Type} (fs : Sysfs S) (readError : Errno) (id : Nat)

/-- The `setup_data` of `set_info` -/
def GpioInfo.setup (inf : GpioInfo) : SetupData where
  direction := some inf.direction.val
  value := some inf.value
  activeLow := some inf.activeLow
  edge := some inf.edge.val

/-- `set_info`, with the agent's part in it -/
def setInfo (inf : GpioInfo) : Action Error S Unit := gpioSetup fs id inf.setup

/-- `get_info`. A field that the answer does not have is 0. -/
def getInfo : Action Error S GpioInfo := do
  let res ← info fs readError id
    { withActiveLow := true, withValue := true, withEdge := true, withDirection := true }
  return {
    id := id
    value := res.value.getD 0
    activeLow := res.activeLow.getD 0
    direction := directionVal2enum (res.direction.getD 0)
    edge := edgeVal2enum (res.edge.getD 0) }

end Calls

theorem edgeVal2enum_val (edge : EdgeType) : edgeVal2enum edge.val = edge := by
  cases edge <;> decide

theorem edge_val_inj {edge edge' : EdgeType} (hval : edge.val = edge'.val) : edge = edge' := by
  rw [← edgeVal2enum_val edge, hval, edgeVal2enum_val]

theorem bit_inj {a b : Bool} : bit a = bit b ↔ a = b := by
  cases a <;> cases b <;> decide

/-- **What a client sets, it gets.** A pin that a client has set up is an output. What the client
gets then is what it has set, the value exactly when the active-low flag was that before. -/
theorem getInfo_setInfo {S : Type} {fs : Sysfs S} {readError : Errno} {id : Nat}
    {pin : S → PinState} (hdoc : fs.Documented id pin) {inf inf' : GpioInfo} {s s' s'' : S}
    (hset : setInfo fs id inf s = .done () s')
    (hget : getInfo fs readError id s' = .done inf' s'') :
    inf.direction = .directOut ∧ inf'.direction = .directOut ∧ inf'.edge = inf.edge ∧
      inf'.activeLow = bit (decide (inf.activeLow ≠ 0)) ∧
      (inf'.value = bit (decide (inf.value ≠ 0)) ↔
        decide (inf.activeLow ≠ 0) = (pin s).activeLow) := by
  rcases setUp_of_done hdoc hset with ⟨hup, hedges⟩
  rcases hedges (Option.some_ne_none _) with ⟨s₁, hedge⟩
  rcases hdoc.edgeStays s₁ s' hedge with ⟨hopens, hread⟩
  rcases Action.of_bind_done hget with ⟨res, s₂, hinfo, hres⟩
  rcases info_done hdoc hopens hread hinfo with ⟨hdirection, hresEdge, hvalue, hlow⟩
  cases hres
  have hset := hup.value inf.value rfl
  have hout : (pin s').direction = .directOut := by
    rw [PinState.direction, if_pos hset.1]
  have hdir : inf.direction = .directOut := by
    have hval := hup.direction inf.direction.val rfl
    rw [hout] at hval
    cases hinf : inf.direction with
    | directIn =>
        rw [hinf] at hval
        exact absurd hval (by decide)
    | directOut => rfl
    | directNone =>
        rw [hinf] at hval
        exact absurd hval (by decide)
  have hafter : (pin s').activeLow = decide (inf.activeLow ≠ 0) := hup.activeLow
  refine ⟨hdir, ?_, ?_, ?_, ?_⟩
  · rw [hdirection, hout]
    rfl
  · rw [hresEdge, Option.getD_some, edgeVal2enum_val]
    exact edge_val_inj (hup.edge inf.edge.val rfl)
  · rw [hlow, Option.getD_some, hafter]
  · -- the value was written through the flag before
    rw [hvalue, Option.getD_some, bit_inj, PinState.value, ← hset.2, hafter, Bool.xor_right_inj]

/-- The files of a pin that has one for the edge -/
def boardPin : Sysfs PinState where
  present _ _ := .ok true
  read p
    | .direction _ => some (directIndex p.direction)
    | .edge _ => some (edgeIndex p.edge)
    | .value _ => some (bitLine p.value)
    | .activeLow _ => some (bitLine p.activeLow)
    | _ => none
  opens _ _ := .ok ()
  opensToWrite _ _ := .ok ()
  write p file data :=
    match file with
    | .direction _ =>
        if data = directIndex .directIn ++ ['\x00'] then (.ok (), { p with output := false })
        else if data = directIndex .directOut ++ ['\x00'] then
          (.ok (), { p with output := true, level := false })
        else (.error EINVAL, p)
    | .edge _ =>
        match [EdgeType.edgeNone, .edgeRising, .edgeFalling, .edgeBoth].find?
            fun edge => data = edgeIndex edge ++ ['\x00'] with
        | some edge => (.ok (), { p with edge := edge })
        | none => (.error EINVAL, p)
    | .value _ =>
        if p.output then (.ok (), { p with level := (data.head? ≠ some '0') ^^ p.activeLow })
        else (.error 1, p)
    | .activeLow _ => (.ok (), { p with activeLow := data.head? ≠ some '0' })
    | _ => (.ok (), p)

theorem head_flag (val : UInt32) :
    decide ((SetupData.flag val).head? ≠ some '0') = decide (val ≠ 0) := by
  rw [SetupData.flag]
  by_cases hzero : val = 0
  · rw [if_pos hzero, hzero]
    decide
  · rw [if_neg hzero, decide_eq_true hzero]
    decide

theorem boardPin_documented (id : Nat) : boardPin.Documented id fun p => p where
  readDirection := fun _ _ hread => (Option.some_inj.mp hread).symm
  readEdge := fun _ _ hread => (Option.some_inj.mp hread).symm
  readValue := fun _ _ hread => (Option.some_inj.mp hread).symm
  readActiveLow := fun _ _ hread => (Option.some_inj.mp hread).symm
  writeDirection := by
    intro p p' val hwrite
    cases val <;> cases hwrite
    · refine ⟨rfl, ?_, rfl, rfl⟩
      intro hout
      cases hout
    · exact ⟨rfl, fun _ => rfl, rfl, rfl⟩
  writeEdge := by
    intro p p' val hwrite
    cases val <;> cases hwrite <;> rfl
  writeValue := by
    intro p p' val hwrite
    simp only [boardPin] at hwrite
    split at hwrite
    · next hout =>
        cases hwrite
        exact ⟨hout, by rw [head_flag]⟩
    · cases hwrite
  writeActiveLow := by
    intro p p' val hwrite
    cases hwrite
    dsimp only
    rw [head_flag]
  edgeStays := fun _ _ _ => ⟨rfl, rfl⟩

/-- A pin that is not active low is set to 1 and made active low: the client gets a 0. -/
theorem getInfo_setInfo_turned :
    ∃ p' : PinState,
      setInfo boardPin 7 ⟨7, 1, 1, .directOut, .edgeNone⟩ ⟨false, true, .edgeNone, false⟩ =
        .done () p' ∧
      ∃ inf', getInfo boardPin EINVAL 7 p' = .done inf' p' ∧ inf'.value ≠ 1 := by
  have hset : setInfo boardPin 7 ⟨7, 1, 1, .directOut, .edgeNone⟩ ⟨false, true, .edgeNone, false⟩ =
      .done () ⟨true, true, .edgeNone, true⟩ := by decide
  have hget : getInfo boardPin EINVAL 7 ⟨true, true, .edgeNone, true⟩ =
      .done ⟨7, 0, 1, .directOut, .edgeNone⟩ ⟨true, true, .edgeNone, true⟩ := by decide
  refine ⟨_, hset, _, hget, ?_⟩
  exact (getInfo_setInfo (boardPin_documented 7) hset hget).2.2.2.2.not.mpr (by decide)

end FerroRemote.Client

/-
# What is read back from a pin

The files of a pin answer with what the kernel has made of what was written to them. The value
goes through the active-low flag both ways, and a setup writes the value before the flag: when
the flag changes, the value that is read back is the other one. `Documented` is what the kernel
says of these files.
-/

import FerroRemote.Agent.GpioSetup

namespace FerroRemote.Agent

section Helper

variable {S : Type} (fs : Sysfs S) (readError : Errno) (id : Nat)

/-- `read_from_file`, which reads up to 32 bytes and takes them up to a zero. `readError` is the
error that a failing read is reported with. -/
def readFromFile (file : SysfsFile) : Action Error S (List Char) := fun s =>
  match fs.opens s file with
  | .error code => .thrown (.errno "open" code) s
  | .ok () =>
    match fs.read s file with
    | none => .thrown (.errno "read" readError) s
    | some text => .done ((text.take 32).takeWhile (· ≠ '\x00')) s

/-- `pos[0] - '0'` -/
def firstDigit (pos : List Char) : UInt32 := UInt32.ofNat (pos.headD '\x00').toNat - 48

def checkName (test templ : List Char) : Bool :=
  let max := if test.length > templ.length then templ.length else test.length
  test.take max == templ.take max

def value : Action Error S UInt32 := do
  let pos ← readFromFile fs readError (.value id)
  return firstDigit pos

def activeLow : Action Error S UInt32 := do
  let pos ← readFromFile fs readError (.activeLow id)
  return firstDigit pos

def direction : Action Error S DirectionType := do
  let pos ← readFromFile fs readError (.direction id)
  if checkName pos (directIndex .directIn) then return .directIn
  else if checkName pos (directIndex .directOut) then return .directOut
  else Action.throw (.system EINVAL (String.ofList pos))

/-- `gpio_helper::edge`. Every exception is an edge that is not there. -/
def edge : Action Error S EdgeType := fun s =>
  match readFromFile fs readError (.edge id) s with
  | .done pos s =>
    .done
      (if checkName pos (edgeIndex .edgeNone) then .edgeNone
      else if checkName pos (edgeIndex .edgeRising) then .edgeRising
      else if checkName pos (edgeIndex .edgeFalling) then .edgeFalling
      else if checkName pos (edgeIndex .edgeBoth) then .edgeBoth
      else .edgeNone) s
  | .thrown _ s => .done .edgeNone s
  | .left => .left

def DirectionType.val : DirectionType → UInt32
  | .directIn => 0
  | .directOut => 1

def EdgeType.val : EdgeType → UInt32
  | .edgeNone => 0
  | .edgeRising => 1
  | .edgeFalling => 2
  | .edgeBoth => 3

/-- An `info_req` -/
structure InfoReq where
  withValue : Bool := false
  withDirection : Bool := false
  withEdge : Bool := false
  withActiveLow : Bool := false

/-- `if( request->with_field( ) ) { response->set_field( read( ) ); }` -/
def ifAsked {α : Type} (asked : Bool) (read : Action Error S α) (val : α → UInt32) :
    Action Error S (Option UInt32) :=
  if asked then do
    let a ← read
    return some (val a)
  else return none

def info (request : InfoReq) : Action Error S SetupData := do
  let val ← ifAsked request.withValue (value fs readError id) fun val => val
  let dir ← ifAsked request.withDirection (direction fs readError id) DirectionType.val
  let ed ← ifAsked request.withEdge (edge fs readError id) EdgeType.val
  let low ← ifAsked request.withActiveLow (activeLow fs readError id) fun low => low
  return { direction := dir, edge := ed, value := val, activeLow := low }

end Helper

/-- A pin. The level is the one at the pin itself; the files turn it around when the pin is
active low. -/
structure PinState where
  output : Bool
  level : Bool
  edge : EdgeType
  activeLow : Bool
  deriving DecidableEq, Repr

def PinState.value (p : PinState) : Bool := p.level ^^ p.activeLow

def PinState.direction (p : PinState) : DirectionType := if p.output then .directOut else .directIn

def bitLine (b : Bool) : List Char := if b then ['1', '\n'] else ['0', '\n']

def bit (b : Bool) : UInt32 := if b then 1 else 0

/-- The documentation of the files of a pin. A write of the value is for outputs; an output
begins low; whether there is a file for the edge is a matter of the pin. -/
structure Sysfs.Documented {S : Type} (fs : Sysfs S) (id : Nat) (pin : S → PinState) : Prop where
  readDirection : ∀ s text, fs.read s (.direction id) = some text →
    text = directIndex (pin s).direction
  readEdge : ∀ s text, fs.read s (.edge id) = some text → text = edgeIndex (pin s).edge
  readValue : ∀ s text, fs.read s (.value id) = some text → text = bitLine (pin s).value
  readActiveLow : ∀ s text, fs.read s (.activeLow id) = some text →
    text = bitLine (pin s).activeLow
  writeDirection : ∀ s s' val,
    fs.write s (.direction id) (directIndex val ++ ['\x00']) = (.ok (), s') →
      (pin s').direction = val ∧ (val = .directOut → (pin s').level = false) ∧
        (pin s').edge = (pin s).edge ∧ (pin s').activeLow = (pin s).activeLow
  writeEdge : ∀ s s' val,
    fs.write s (.edge id) (edgeIndex val ++ ['\x00']) = (.ok (), s') →
      pin s' = { pin s with edge := val }
  writeValue : ∀ s s' val,
    fs.write s (.value id) (SetupData.flag val) = (.ok (), s') →
      (pin s).output = true ∧
        pin s' = { pin s with level := decide (val ≠ 0) ^^ (pin s).activeLow }
  writeActiveLow : ∀ s s' val,
    fs.write s (.activeLow id) (SetupData.flag val) = (.ok (), s') →
      pin s' = { pin s with activeLow := decide (val ≠ 0) }
  edgeStays : ∀ s s', fs.opensToWrite s (.edge id) = .ok () →
    fs.opens s' (.edge id) = .ok () ∧ (fs.read s' (.edge id)).isSome

section Applied

variable {S : Type} {fs : Sysfs S} {id : Nat} {pin : S → PinState} {s s' : S}

theorem Sysfs.applied_append_iff {ws ws' : List FileWrite} :
    fs.Applied (ws ++ ws') s s' ↔ ∃ s₁, fs.Applied ws s s₁ ∧ fs.Applied ws' s₁ s' := by
  rw [Sysfs.Applied, Sysfs.writeAll_append]
  constructor
  · intro hall
    rcases Action.of_bind_done hall with ⟨_, s₁, hfirst, hsecond⟩
    exact ⟨s₁, hfirst, hsecond⟩
  · rintro ⟨s₁, hfirst, hsecond⟩
    exact (Action.bind_done hfirst).trans hsecond

theorem Sysfs.Applied.field {field : Option UInt32} {w : UInt32 → FileWrite}
    (happlied : fs.Applied (field.map w).toList s s') :
    field = none ∧ s' = s ∨ ∃ val, field = some val ∧ fs.opensToWrite s (w val).file = .ok () ∧
      fs.write s (w val).file (w val).data = (.ok (), s') := by
  cases field with
  | none =>
      cases happlied
      exact .inl ⟨rfl, rfl⟩
  | some val =>
      refine .inr ⟨val, rfl, ?_⟩
      rw [Sysfs.Applied, Option.map_some, Option.toList_some, Sysfs.writeAll_singleton,
        Sysfs.writeToFile] at happlied
      split at happlied
      · cases happlied
      · next hopens =>
          split at happlied
          · cases happlied
          · next hwrite =>
              cases happlied
              exact ⟨hopens, hwrite⟩

end Applied

/-- What a setup makes of a pin. The value is the one of the file before the flag is written. -/
structure SetUp (d : SetupData) (before after : PinState) : Prop where
  direction : ∀ dir, d.direction = some dir → after.direction.val = dir
  sameDirection : d.direction = none → after.output = before.output
  edge : ∀ edge, d.edge = some edge → after.edge.val = edge
  sameEdge : d.edge = none → after.edge = before.edge
  activeLow : after.activeLow = d.activeLow.elim before.activeLow fun val => decide (val ≠ 0)
  value : ∀ val, d.value = some val →
    after.output = true ∧ (after.level ^^ before.activeLow) = decide (val ≠ 0)

theorem val_of_directFromProto {dir : UInt32} {val : DirectionType}
    (hval : directFromProto dir = .ok val) : val.val = dir := by
  rw [directFromProto] at hval
  split at hval
  · next hdir =>
      cases hval
      exact hdir.symm
  · split at hval
    · next hdir =>
        cases hval
        exact hdir.symm
    · cases hval

theorem val_of_edgeFromProto {edge : UInt32} {val : EdgeType}
    (hval : edgeFromProto edge = .ok val) : val.val = edge := by
  rw [edgeFromProto] at hval
  split at hval
  · next hedge =>
      cases hval
      exact hedge.symm
  · split at hval
    · next hedge =>
        cases hval
        exact hedge.symm
    · split at hval
      · next hedge =>
          cases hval
          exact hedge.symm
      · split at hval
        · next hedge =>
            cases hval
            exact hedge.symm
        · cases hval

theorem readFromFile_done {S : Type} {fs : Sysfs S} {readError : Errno} {s s' : S}
    {file : SysfsFile} {pos : List Char}
    (hdone : readFromFile fs readError file s = .done pos s') :
    s' = s ∧ ∃ text, fs.read s file = some text ∧
      pos = (text.take 32).takeWhile (· ≠ '\x00') := by
  rw [readFromFile] at hdone
  split at hdone
  · cases hdone
  · split at hdone
    · cases hdone
    · next text hread =>
        cases hdone
        exact ⟨rfl, text, hread, rfl⟩

theorem firstDigit_bitLine (b : Bool) :
    firstDigit (((bitLine b).take 32).takeWhile (· ≠ '\x00')) = bit b := by
  cases b <;> decide

section Documented

variable {S : Type} {fs : Sysfs S} {id : Nat} {pin : S → PinState} (hdoc : fs.Documented id pin)
  {d : SetupData} {s s' : S}
include hdoc

theorem direction_applied (hok : d.DirectionOk)
    (happlied : fs.Applied (d.directionWrites id) s s') :
    (∀ dir, d.direction = some dir → (pin s').direction.val = dir) ∧
      (d.direction = none → (pin s').output = (pin s).output) ∧
      (pin s').edge = (pin s).edge ∧ (pin s').activeLow = (pin s).activeLow := by
  rcases happlied.field with ⟨hnone, rfl⟩ | ⟨dir, hdir, -, hwrite⟩
  · refine ⟨?_, fun _ => rfl, rfl, rfl⟩
    intro dir hdir
    rw [hnone] at hdir
    cases hdir
  · rcases directFromProto_of_le (hok dir hdir) with ⟨val, hval, hindex⟩
    dsimp only at hwrite
    rw [← hindex] at hwrite
    rcases hdoc.writeDirection s s' val hwrite with ⟨hdirection, -, hedge, hlow⟩
    refine ⟨?_, ?_, hedge, hlow⟩
    · intro other hother
      rw [hdir, Option.some_inj] at hother
      rw [hdirection, val_of_directFromProto hval, hother]
    · intro hnone
      rw [hnone] at hdir
      cases hdir

theorem edge_applied (hok : d.EdgeOk) (happlied : fs.Applied (d.edgeWrites id) s s') :
    (∀ edge, d.edge = some edge → (pin s').edge.val = edge ∧
        fs.opensToWrite s (.edge id) = .ok ()) ∧
      (d.edge = none → (pin s').edge = (pin s).edge) ∧
      (pin s').output = (pin s).output ∧ (pin s').activeLow = (pin s).activeLow := by
  rcases happlied.field with ⟨hnone, rfl⟩ | ⟨edge, hedge, hopens, hwrite⟩
  · refine ⟨?_, fun _ => rfl, rfl, rfl⟩
    intro edge hedge
    rw [hnone] at hedge
    cases hedge
  · rcases edgeFromProto_of_le (hok edge hedge) with ⟨val, hval, hindex⟩
    dsimp only at hwrite
    rw [← hindex] at hwrite
    rw [hdoc.writeEdge s s' val hwrite]
    refine ⟨?_, ?_, rfl, rfl⟩
    · intro other hother
      rw [hedge, Option.some_inj] at hother
      exact ⟨hother ▸ val_of_edgeFromProto hval, hopens⟩
    · intro hnone
      rw [hnone] at hedge
      cases hedge

theorem value_applied
    (happlied : fs.Applied (d.value.map fun val => ⟨.value id, SetupData.flag val⟩).toList s s') :
    (∀ val, d.value = some val → (pin s).output = true ∧
        ((pin s').level ^^ (pin s).activeLow) = decide (val ≠ 0)) ∧
      (pin s').output = (pin s).output ∧ (pin s').edge = (pin s).edge ∧
      (pin s').activeLow = (pin s).activeLow := by
  rcases happlied.field with ⟨hnone, rfl⟩ | ⟨val, hval, -, hwrite⟩
  · refine ⟨?_, rfl, rfl, rfl⟩
    intro val hval
    rw [hnone] at hval
    cases hval
  · rcases hdoc.writeValue s s' val hwrite with ⟨houtput, hpin⟩
    rw [hpin]
    refine ⟨?_, rfl, rfl, rfl⟩
    intro other hother
    rw [hval, Option.some_inj] at hother
    subst hother
    exact ⟨houtput, by rw [Bool.xor_assoc, Bool.xor_self, Bool.xor_false]⟩

theorem activeLow_applied
    (happlied : fs.Applied (d.activeLow.map fun val => ⟨.activeLow id, SetupData.flag val⟩).toList
      s s') :
    pin s' = { pin s with
      activeLow := d.activeLow.elim (pin s).activeLow fun val => decide (val ≠ 0) } := by
  rcases happlied.field with ⟨hnone, rfl⟩ | ⟨val, hval, -, hwrite⟩
  · rw [hnone, Option.elim_none]
  · rw [hval, Option.elim_some, hdoc.writeActiveLow s s' val hwrite]

theorem setUp_of_done (hdone : gpioSetup fs id d s = .done () s') :
    SetUp d (pin s) (pin s') ∧
      (d.edge ≠ none → ∃ s₁, fs.opensToWrite s₁ (.edge id) = .ok ()) := by
  have hdir : d.DirectionOk := by
    apply Classical.byContradiction
    intro hbad
    rw [gpioSetup_of_bad_direction fs id hbad] at hdone
    cases hdone
  have hedge : d.EdgeOk := by
    apply Classical.byContradiction
    intro hbad
    rw [gpioSetup_of_bad_edge fs id hdir hbad] at hdone
    rcases Action.of_bind_done hdone with ⟨_, s₁, -, hthrow⟩
    cases hthrow
  have happlied : fs.Applied (d.writes id) s s' := by
    rw [Sysfs.Applied, ← gpioSetup_of_ok fs id hdir hedge]
    exact hdone
  rw [SetupData.writes, SetupData.flagWrites, Sysfs.applied_append_iff] at happlied
  rcases happlied with ⟨s₁, h₁, happlied⟩
  rw [Sysfs.applied_append_iff] at happlied
  rcases happlied with ⟨s₂, h₂, happlied⟩
  rw [Sysfs.applied_append_iff] at happlied
  rcases happlied with ⟨s₃, h₃, h₄⟩
  rcases direction_applied hdoc hdir h₁ with ⟨hd, hsame, hedge₁, hlow₁⟩
  rcases edge_applied hdoc hedge h₂ with ⟨he, hnone, hout₂, hlow₂⟩
  rcases value_applied hdoc h₃ with ⟨hv, hout₃, hedge₃, hlow₃⟩
  have hout : (pin s₃).output = (pin s₁).output := hout₃.trans hout₂
  have hlow : (pin s₂).activeLow = (pin s).activeLow := hlow₂.trans hlow₁
  rw [activeLow_applied hdoc h₄]
  constructor
  · constructor
    · intro dir hdir
      rw [PinState.direction, hout]
      exact hd dir hdir
    · intro hnone
      exact hout.trans (hsame hnone)
    · intro edge hedge
      rw [hedge₃]
      exact (he edge hedge).1
    · intro hedge
      exact hedge₃.trans ((hnone hedge).trans hedge₁)
    · rw [hlow₃, hlow]
    · intro val hval
      rw [hout₃, ← hlow]
      exact hv val hval
  · intro hsome
    rcases Option.ne_none_iff_exists'.mp hsome with ⟨edge, hedge⟩
    exact ⟨s₁, (he edge hedge).2⟩

variable {readError : Errno}

theorem value_done {val : UInt32} (hdone : value fs readError id s = .done val s') :
    s' = s ∧ val = bit (pin s).value := by
  rcases Action.of_bind_done hdone with ⟨pos, s₁, hread, hval⟩
  rcases readFromFile_done hread with ⟨rfl, text, htext, rfl⟩
  cases hval
  rw [hdoc.readValue _ text htext]
  exact ⟨rfl, firstDigit_bitLine _⟩

theorem activeLow_done {val : UInt32} (hdone : activeLow fs readError id s = .done val s') :
    s' = s ∧ val = bit (pin s).activeLow := by
  rcases Action.of_bind_done hdone with ⟨pos, s₁, hread, hval⟩
  rcases readFromFile_done hread with ⟨rfl, text, htext, rfl⟩
  cases hval
  rw [hdoc.readActiveLow _ text htext]
  exact ⟨rfl, firstDigit_bitLine _⟩

theorem direction_done {dir : DirectionType}
    (hdone : direction fs readError id s = .done dir s') : s' = s ∧ dir = (pin s).direction := by
  rcases Action.of_bind_done hdone with ⟨pos, s₁, hread, hdir⟩
  rcases readFromFile_done hread with ⟨rfl, text, htext, rfl⟩
  have hname := hdoc.readDirection _ text htext
  generalize (pin _).direction = val at hname ⊢
  subst hname
  cases val <;> cases hdir <;> exact ⟨rfl, rfl⟩

theorem edge_done {ed : EdgeType} (hopens : fs.opens s (.edge id) = .ok ())
    (hread : (fs.read s (.edge id)).isSome) (hdone : edge fs readError id s = .done ed s') :
    s' = s ∧ ed = (pin s).edge := by
  rcases Option.isSome_iff_exists.mp hread with ⟨text, htext⟩
  have hedge := hdoc.readEdge s text htext
  rw [edge, readFromFile, hopens, htext, hedge] at hdone
  cases hpin : (pin s).edge <;> rw [hpin] at hdone <;> cases hdone <;> exact ⟨rfl, rfl⟩

theorem info_done {r : SetupData} (hopens : fs.opens s (.edge id) = .ok ())
    (hread : (fs.read s (.edge id)).isSome)
    (hdone : info fs readError id
      { withValue := true, withDirection := true, withEdge := true, withActiveLow := true } s =
        .done r s') :
    r.direction = some (pin s).direction.val ∧ r.edge = some (pin s).edge.val ∧
      r.value = some (bit (pin s).value) ∧ r.activeLow = some (bit (pin s).activeLow) := by
  rcases Action.of_bind_done hdone with ⟨val, s₁, hval, hdone⟩
  rcases Action.of_bind_done hval with ⟨val', s₁', hval, heq⟩
  cases heq
  rcases value_done hdoc hval with ⟨rfl, rfl⟩
  rcases Action.of_bind_done hdone with ⟨dir, s₂, hdir, hdone⟩
  rcases Action.of_bind_done hdir with ⟨dir', s₂', hdir, heq⟩
  cases heq
  rcases direction_done hdoc hdir with ⟨rfl, rfl⟩
  rcases Action.of_bind_done hdone with ⟨ed, s₃, hedge, hdone⟩
  rcases Action.of_bind_done hedge with ⟨ed', s₃', hedge, heq⟩
  cases heq
  rcases edge_done hdoc hopens hread hedge with ⟨rfl, rfl⟩
  rcases Action.of_bind_done hdone with ⟨low, s₄, hlow, hdone⟩
  rcases Action.of_bind_done hlow with ⟨low', s₄', hlow, heq⟩
  cases heq
  rcases activeLow_done hdoc hlow with ⟨rfl, rfl⟩
  cases hdone
  exact ⟨rfl, rfl, rfl, rfl⟩

end Documented

end FerroRemote.Agent

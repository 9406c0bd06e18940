/-
# Setting up a pin

A pin is set up through its files in sysfs. A request may have a direction, an edge, a value
and an active-low flag; they are looked at and written one after the other, so that a field
out of range is found when what is before it has been written. An `open` exports the pin
first.
-/

import FerroRemote.Math.Action
import FerroRemote.Agent.OsFiles

namespace FerroRemote.Agent

inductive SysfsFile
  /-- `/sys/class/gpio/export` -/
  | exportFile
  /-- `/sys/class/gpio/gpioN` -/
  | pin (id : Nat)
  /-- `/sys/class/gpio/gpioN/direction`, and so on. -/
  | direction (id : Nat)
  | edge (id : Nat)
  | value (id : Nat)
  | activeLow (id : Nat)
  deriving DecidableEq, Repr

/-- The files of sysfs over a state of the pins. A write that fails may have changed it. -/
structure Sysfs (S : Type) where
  /-- `bfs::exists` -/
  present : S → SysfsFile → Except Error Bool
  read : S → SysfsFile → Option (List Char)
  /-- `open`, to read, and to write. -/
  opens : S → SysfsFile → Except Errno Unit
  opensToWrite : S → SysfsFile → Except Errno Unit
  write : S → SysfsFile → List Char → Except Errno Unit × S

/-- A file and what is written to it. -/
structure FileWrite where
  file : SysfsFile
  data : List Char
  deriving DecidableEq, Repr

namespace Sysfs

variable {S : Type} (fs : Sysfs S)

def writeToFile (w : FileWrite) : Action Error S Unit := fun s =>
  match fs.opensToWrite s w.file with
  | .error code => .thrown (.errno "open" code) s
  | .ok () =>
    match fs.write s w.file w.data with
    | (.error code, s') => .thrown (.errno "write" code) s'
    | (.ok (), s') => .done () s'

def writeAll : List FileWrite → Action Error S Unit
  | [] => pure ()
  | w :: ws => do
    fs.writeToFile w
    writeAll ws

def Applied (ws : List FileWrite) (s s' : S) : Prop := fs.writeAll ws s = .done () s'

def StopsIn (ws : List FileWrite) (err : Error) (s s' : S) : Prop :=
  fs.writeAll ws s = .thrown err s'

/-- These are written, nothing else, and the outcome is as it should be behind them, or one
of them fails, and the outcome is its error. -/
def Writes {α : Type} (ws : List FileWrite) (s : S) (o : Conclusion Error S α)
    (behind : S → Prop) : Prop :=
  (∃ s', fs.Applied ws s s' ∧ behind s') ∨
    ∃ func code s', fs.StopsIn ws (.errno func code) s s' ∧ o = .thrown (.errno func code) s'

end Sysfs

inductive DirectionType
  | directIn
  | directOut
  deriving DecidableEq, Repr

inductive EdgeType
  | edgeNone
  | edgeRising
  | edgeFalling
  | edgeBoth
  deriving DecidableEq, Repr

def directIndex : DirectionType → List Char
  | .directIn => "in\n".toList
  | .directOut => "out\n".toList

def edgeIndex : EdgeType → List Char
  | .edgeNone => "none\n".toList
  | .edgeRising => "rising\n".toList
  | .edgeFalling => "falling\n".toList
  | .edgeBoth => "both\n".toList

def badDirection : Error := .system EINVAL "Bad direction"

def badEdge : Error := .system EINVAL "Bad edge"

def directFromProto (dir : UInt32) : Except Error DirectionType :=
  if dir = 0 then .ok .directIn
  else if dir = 1 then .ok .directOut
  else .error badDirection

def edgeFromProto (edge : UInt32) : Except Error EdgeType :=
  if edge = 0 then .ok .edgeNone
  else if edge = 1 then .ok .edgeRising
  else if edge = 2 then .ok .edgeFalling
  else if edge = 3 then .ok .edgeBoth
  else .error badEdge

/-- `char( val + '0' )`. -/
def digitChar (val : UInt32) : Char := Char.ofNat ((val + 48).toNat % 256)

section Helper

variable {S : Type} (fs : Sysfs S) (id : Nat)

/-- `gpio_helper::exp`. The number is written with the zero behind it. -/
def exp : Action Error S Unit :=
  fs.writeToFile ⟨.exportFile, Nat.toDigits 10 id ++ ['\x00']⟩

def setDirection (val : DirectionType) : Action Error S Unit :=
  fs.writeToFile ⟨.direction id, directIndex val ++ ['\x00']⟩

def setEdge (val : EdgeType) : Action Error S Unit :=
  fs.writeToFile ⟨.edge id, edgeIndex val ++ ['\x00']⟩

def setValue (val : UInt32) : Action Error S Unit :=
  fs.writeToFile ⟨.value id, [digitChar val, '\x00']⟩

def setActiveLow (val : UInt32) : Action Error S Unit :=
  fs.writeToFile ⟨.activeLow id, [digitChar val, '\x00']⟩

def edgeSupported : Action Error S Bool := fun s =>
  .done (fs.opens s (.edge id)).isOk s

/-- `gpio_helper::value_fd`, of a helper that has opened it or not. -/
def valueFd (opened : Bool) : Action Error S Unit := fun s =>
  if opened then .done () s
  else
    match fs.opens s (.value id) with
    | .error code => .thrown (.system code "open") s
    | .ok () => .done () s

/-- A `setup_data`. -/
structure SetupData where
  direction : Option UInt32 := none
  edge : Option UInt32 := none
  value : Option UInt32 := none
  activeLow : Option UInt32 := none
  deriving DecidableEq, Repr

/-- `if( setup.has_field( ) ) { ... }` -/
def ifPresent (field : Option UInt32) (f : UInt32 → Action Error S Unit) : Action Error S Unit :=
  match field with
  | none => pure ()
  | some val => f val

/-- `gpio_impl::gpio_setup`, for the direction. -/
def setupDirection (setup : SetupData) : Action Error S Unit :=
  ifPresent setup.direction fun dir => fun s =>
    match directFromProto dir with
    | .error err => .thrown err s
    | .ok dir => setDirection fs id dir s

def setupEdge (setup : SetupData) : Action Error S Unit :=
  ifPresent setup.edge fun edge => fun s =>
    match edgeFromProto edge with
    | .error err => .thrown err s
    | .ok edge => setEdge fs id edge s

def gpioSetup (setup : SetupData) : Action Error S Unit := do
  setupDirection fs id setup
  setupEdge fs id setup
  ifPresent setup.value fun val => setValue fs id (if val = 0 then 0 else 1)
  ifPresent setup.activeLow fun actLow => setActiveLow fs id (if actLow = 0 then 0 else 1)

/-- An `open_req`. -/
structure OpenPin where
  exp : Bool := false
  setup : SetupData := {}
  deriving DecidableEq, Repr

/-- `if( !ng->exists( ) ) { ng->exp( ); }` -/
def expMissing : Action Error S Unit := fun s =>
  match fs.present s (.pin id) with
  | .error err => .thrown err s
  | .ok true => .done () s
  | .ok false => exp fs id s

/-- What the answer of `open` needs. The line that is logged opens the value. -/
def openAnswer (opened : Bool) : Action Error S Bool := do
  let supported ← edgeSupported fs id
  valueFd fs id opened
  return supported

/-- `gpio_impl::open` behind `open_pin`, with the answer's `edge_supported`. -/
def openPin (request : OpenPin) (opened : Bool) : Action Error S Bool := do
  if request.exp then do
    expMissing fs id
    gpioSetup fs id request.setup
  openAnswer fs id opened

end Helper

/-! ## What should be written -/

namespace SetupData

variable (d : SetupData) (id : Nat)

def DirectionOk : Prop := ∀ dir, d.direction = some dir → dir ≤ 1

def EdgeOk : Prop := ∀ edge, d.edge = some edge → edge ≤ 3

def flag (val : UInt32) : List Char := if val = 0 then ['0', '\x00'] else ['1', '\x00']

def directionWrites : List FileWrite :=
  (d.direction.map fun dir =>
    ⟨.direction id, (if dir = 0 then "in\n" else "out\n").toList ++ ['\x00']⟩).toList

def edgeWrites : List FileWrite :=
  (d.edge.map fun edge =>
    ⟨.edge id, (if edge = 0 then "none\n" else if edge = 1 then "rising\n"
      else if edge = 2 then "falling\n" else "both\n").toList ++ ['\x00']⟩).toList

def flagWrites : List FileWrite :=
  (d.value.map fun val => ⟨.value id, flag val⟩).toList ++
    (d.activeLow.map fun val => ⟨.activeLow id, flag val⟩).toList

/-- A write for every field that is present. -/
def writes : List FileWrite := d.directionWrites id ++ (d.edgeWrites id ++ d.flagWrites id)

end SetupData

/-- The write of an `open` that exports. -/
def OpenPin.exports {S : Type} (fs : Sysfs S) (id : Nat) (request : OpenPin) (s : S) :
    List FileWrite :=
  match request.exp, fs.present s (.pin id) with
  | true, .ok false => [⟨.exportFile, Nat.toDigits 10 id ++ ['\x00']⟩]
  | _, _ => []

/-- The setup of an `open` is for one that exports. -/
def OpenPin.given (request : OpenPin) : SetupData := if request.exp then request.setup else {}

/-- What a setup comes to when `before` is written in front of it. With a bad direction
nothing is written of it, with a bad edge the direction alone, and otherwise everything; the
value may then not open. A write that fails is the end, and nothing is behind it. -/
structure SetupEnds {S α : Type} (fs : Sysfs S) (before : List FileWrite) (id : Nat)
    (d : SetupData) (s : S) (o : Conclusion Error S α) : Prop where
  direction : ¬ d.DirectionOk → fs.Writes before s o fun s' => o = .thrown badDirection s'
  edge : d.DirectionOk → ¬ d.EdgeOk →
    fs.Writes (before ++ d.directionWrites id) s o fun s' => o = .thrown badEdge s'
  inRange : d.DirectionOk → d.EdgeOk → fs.Writes (before ++ d.writes id) s o fun s' =>
    (∃ a, o = .done a s') ∨ ∃ code, o = .thrown (.system code "open") s'

namespace Sysfs

variable {S : Type} (fs : Sysfs S)

theorem writeAll_append (ws ws' : List FileWrite) :
    fs.writeAll (ws ++ ws') = fs.writeAll ws >>= fun _ => fs.writeAll ws' := by
  induction ws with
  | nil => rfl
  | cons w ws ih =>
      change (fs.writeToFile w >>= fun _ => fs.writeAll (ws ++ ws')) = _
      rw [ih, writeAll, Action.bind_assoc]

theorem writeAll_singleton (w : FileWrite) : fs.writeAll [w] = fs.writeToFile w := by
  funext s
  rw [writeAll]
  cases hw : fs.writeToFile w s with
  | done a s' => rw [Action.bind_done hw, writeAll, Action.pure_apply]
  | thrown err s' => rw [Action.bind_thrown hw]
  | left => rw [Action.bind_left hw]

theorem writeToFile_cases (w : FileWrite) (s : S) :
    (∃ s', fs.writeToFile w s = .done () s') ∨
      ∃ func code s', fs.writeToFile w s = .thrown (.errno func code) s' := by
  unfold writeToFile
  split
  · exact .inr ⟨_, _, _, rfl⟩
  · split
    · exact .inr ⟨_, _, _, rfl⟩
    · exact .inl ⟨_, rfl⟩

/-- Writes come to their end, or one of them throws what the system says. -/
theorem writeAll_cases (ws : List FileWrite) (s : S) :
    (∃ s', fs.Applied ws s s') ∨ ∃ func code s', fs.StopsIn ws (.errno func code) s s' := by
  induction ws generalizing s with
  | nil => exact .inl ⟨s, rfl⟩
  | cons w ws ih =>
      rcases fs.writeToFile_cases w s with ⟨s', hw⟩ | ⟨func, code, s', hw⟩
      · rcases ih s' with ⟨s'', hrest⟩ | ⟨func, code, s'', hrest⟩
        · exact .inl ⟨s'', (Action.bind_done hw).trans hrest⟩
        · exact .inr ⟨func, code, s'', (Action.bind_done hw).trans hrest⟩
      · exact .inr ⟨func, code, s', Action.bind_thrown hw⟩

theorem writes_bind {α : Type} (ws : List FileWrite) (f : Unit → Action Error S α) (s : S)
    (behind : S → Prop)
    (hbehind : ∀ s', fs.Applied ws s s' → (fs.writeAll ws >>= f) s = f () s' → behind s') :
    fs.Writes ws s ((fs.writeAll ws >>= f) s) behind := by
  rcases fs.writeAll_cases ws s with ⟨s', happlied⟩ | ⟨func, code, s', hstops⟩
  · exact .inl ⟨s', happlied, hbehind s' happlied (Action.bind_done happlied)⟩
  · exact .inr ⟨func, code, s', hstops, Action.bind_thrown hstops⟩

end Sysfs

section Fields

variable {S : Type} (fs : Sysfs S) (id : Nat)

theorem ifPresent_of_writes {field : Option UInt32} {f : UInt32 → Action Error S Unit}
    {w : UInt32 → FileWrite} (hf : ∀ val, field = some val → f val = fs.writeToFile (w val)) :
    ifPresent field f = fs.writeAll (field.map w).toList := by
  cases field with
  | none => rfl
  | some val =>
      change f val = fs.writeAll [w val]
      rw [Sysfs.writeAll_singleton, hf val rfl]

theorem ifPresent_flag (field : Option UInt32) (file : SysfsFile) :
    ifPresent field (fun val =>
        fs.writeToFile ⟨file, [digitChar (if val = 0 then 0 else 1), '\x00']⟩) =
      fs.writeAll (field.map fun val => (⟨file, SetupData.flag val⟩ : FileWrite)).toList := by
  apply ifPresent_of_writes
  intro val _
  rw [SetupData.flag]
  by_cases hzero : val = 0
  · rw [if_pos hzero, if_pos hzero]
    rfl
  · rw [if_neg hzero, if_neg hzero]
    rfl

theorem directFromProto_of_le {dir : UInt32} (hle : dir ≤ 1) :
    ∃ val, directFromProto dir = .ok val ∧
      directIndex val = (if dir = 0 then "in\n" else "out\n").toList := by
  have hcases : dir = 0 ∨ dir = 1 := by
    have hnat : dir.toNat ≤ 1 := hle
    rw [← UInt32.toNat_inj, ← UInt32.toNat_inj]
    change dir.toNat = 0 ∨ dir.toNat = 1
    omega
  rcases hcases with rfl | rfl
  · exact ⟨.directIn, rfl, rfl⟩
  · exact ⟨.directOut, rfl, rfl⟩

theorem directFromProto_of_not_le {dir : UInt32} (hle : ¬ dir ≤ 1) :
    directFromProto dir = .error badDirection := by
  have hzero : dir ≠ 0 := by
    rintro rfl
    exact hle (by decide)
  have hone : dir ≠ 1 := by
    rintro rfl
    exact hle (by decide)
  rw [directFromProto, if_neg hzero, if_neg hone]

theorem edgeFromProto_of_le {edge : UInt32} (hle : edge ≤ 3) :
    ∃ val, edgeFromProto edge = .ok val ∧
      edgeIndex val = (if edge = 0 then "none\n" else if edge = 1 then "rising\n"
        else if edge = 2 then "falling\n" else "both\n").toList := by
  have hcases : edge = 0 ∨ edge = 1 ∨ edge = 2 ∨ edge = 3 := by
    have hnat : edge.toNat ≤ 3 := hle
    rw [← UInt32.toNat_inj, ← UInt32.toNat_inj, ← UInt32.toNat_inj, ← UInt32.toNat_inj]
    change edge.toNat = 0 ∨ edge.toNat = 1 ∨ edge.toNat = 2 ∨ edge.toNat = 3
    omega
  rcases hcases with rfl | rfl | rfl | rfl
  · exact ⟨.edgeNone, rfl, rfl⟩
  · exact ⟨.edgeRising, rfl, rfl⟩
  · exact ⟨.edgeFalling, rfl, rfl⟩
  · exact ⟨.edgeBoth, rfl, rfl⟩

theorem edgeFromProto_of_not_le {edge : UInt32} (hle : ¬ edge ≤ 3) :
    edgeFromProto edge = .error badEdge := by
  have hne : ∀ k : UInt32, k ≤ 3 → edge ≠ k := by
    intro k hk heq
    exact hle (heq ▸ hk)
  rw [edgeFromProto, if_neg (hne 0 (by decide)), if_neg (hne 1 (by decide)),
    if_neg (hne 2 (by decide)), if_neg (hne 3 (by decide))]

variable {d : SetupData}

theorem setupDirection_of_ok (hok : d.DirectionOk) :
    setupDirection fs id d = fs.writeAll (d.directionWrites id) := by
  apply ifPresent_of_writes
  intro dir hdir
  obtain ⟨val, hval, hindex⟩ := directFromProto_of_le (hok dir hdir)
  rw [← hindex]
  funext s
  simp only [hval]
  rfl

theorem setupDirection_of_not_ok (hok : ¬ d.DirectionOk) :
    setupDirection fs id d = Action.throw badDirection := by
  simp only [SetupData.DirectionOk, not_forall] at hok
  obtain ⟨dir, hdir, hle⟩ := hok
  rw [setupDirection, hdir]
  funext s
  simp only [ifPresent, directFromProto_of_not_le hle]
  rfl

theorem setupEdge_of_ok (hok : d.EdgeOk) :
    setupEdge fs id d = fs.writeAll (d.edgeWrites id) := by
  apply ifPresent_of_writes
  intro edge hedge
  obtain ⟨val, hval, hindex⟩ := edgeFromProto_of_le (hok edge hedge)
  rw [← hindex]
  funext s
  simp only [hval]
  rfl

theorem setupEdge_of_not_ok (hok : ¬ d.EdgeOk) :
    setupEdge fs id d = Action.throw badEdge := by
  simp only [SetupData.EdgeOk, not_forall] at hok
  obtain ⟨edge, hedge, hle⟩ := hok
  rw [setupEdge, hedge]
  funext s
  simp only [ifPresent, edgeFromProto_of_not_le hle]
  rfl

theorem gpioSetup_of_ok (hdir : d.DirectionOk) (hedge : d.EdgeOk) :
    gpioSetup fs id d = fs.writeAll (d.writes id) := by
  have hvalue := ifPresent_flag fs d.value (.value id)
  have hactive := ifPresent_flag fs d.activeLow (.activeLow id)
  change (setupDirection fs id d >>= fun _ => setupEdge fs id d >>= fun _ =>
    ifPresent d.value (fun val => fs.writeToFile ⟨.value id, _⟩) >>= fun _ =>
      ifPresent d.activeLow (fun val => fs.writeToFile ⟨.activeLow id, _⟩)) = _
  rw [setupDirection_of_ok fs id hdir, setupEdge_of_ok fs id hedge, hvalue, hactive,
    SetupData.writes, SetupData.flagWrites, Sysfs.writeAll_append, Sysfs.writeAll_append,
    Sysfs.writeAll_append]

theorem gpioSetup_of_bad_direction (hdir : ¬ d.DirectionOk) :
    gpioSetup fs id d = Action.throw badDirection := by
  change (setupDirection fs id d >>= fun _ => setupEdge fs id d >>= fun _ => _) = _
  rw [setupDirection_of_not_ok fs id hdir]
  rfl

theorem gpioSetup_of_bad_edge (hdir : d.DirectionOk) (hedge : ¬ d.EdgeOk) :
    gpioSetup fs id d =
      fs.writeAll (d.directionWrites id) >>= fun _ => Action.throw badEdge := by
  change (setupDirection fs id d >>= fun _ => setupEdge fs id d >>= fun _ => _) = _
  rw [setupDirection_of_ok fs id hdir, setupEdge_of_not_ok fs id hedge]
  rfl

end Fields

section Setups

variable {S α : Type} {fs : Sysfs S} {id : Nat} {d : SetupData}

/-- A setup behind other writes, and what follows it: that touches nothing, and throws only
when the value cannot be opened. -/
theorem setupEnds_bind (fs : Sysfs S) (id : Nat) (d : SetupData) (before : List FileWrite)
    (f : Unit → Action Error S α)
    (hf : ∀ s, (∃ a, f () s = .done a s) ∨ ∃ code, f () s = .thrown (.system code "open") s)
    (s : S) :
    SetupEnds fs before id d s
      ((fs.writeAll before >>= fun _ => gpioSetup fs id d >>= f) s) where
  direction := by
    intro hdir
    rw [gpioSetup_of_bad_direction fs id hdir]
    exact fs.writes_bind before _ s _ fun s' _ heq => heq
  edge := by
    intro hdir hedge
    rw [gpioSetup_of_bad_edge fs id hdir hedge, Action.bind_assoc, ← Action.bind_assoc,
      ← Sysfs.writeAll_append]
    exact fs.writes_bind (before ++ d.directionWrites id) _ s _ fun s' _ heq => heq
  inRange := by
    intro hdir hedge
    rw [gpioSetup_of_ok fs id hdir hedge, ← Action.bind_assoc, ← Sysfs.writeAll_append]
    apply fs.writes_bind (before ++ d.writes id) f s
    intro s' _ heq
    rw [heq]
    rcases hf s' with ⟨a, hdone⟩ | ⟨code, hthrown⟩
    · exact .inl ⟨a, hdone⟩
    · exact .inr ⟨code, hthrown⟩

theorem openAnswer_cases (fs : Sysfs S) (id : Nat) (opened : Bool) (s : S) :
    (∃ a, openAnswer fs id opened s = .done a s) ∨
      ∃ code, openAnswer fs id opened s = .thrown (.system code "open") s := by
  have hanswer : openAnswer fs id opened s = (valueFd fs id opened >>= fun _ =>
      (pure (fs.opens s (.edge id)).isOk : Action Error S Bool)) s := rfl
  rw [hanswer]
  cases opened with
  | true => exact .inl ⟨_, rfl⟩
  | false =>
      cases hopens : fs.opens s (.value id) with
      | error code =>
          have hfd : valueFd fs id false s = .thrown (.system code "open") s := by
            simp only [valueFd, Bool.false_eq_true, if_false, hopens]
          exact .inr ⟨code, Action.bind_thrown hfd⟩
      | ok _ =>
          have hfd : valueFd fs id false s = .done () s := by
            simp only [valueFd, Bool.false_eq_true, if_false, hopens]
          exact .inl ⟨_, Action.bind_done hfd⟩

theorem expMissing_eq (fs : Sysfs S) (id : Nat) {request : OpenPin} (hexp : request.exp = true)
    {s : S} {present : Bool} (hpresent : fs.present s (.pin id) = .ok present) :
    expMissing fs id s = fs.writeAll (request.exports fs id s) s := by
  cases present with
  | true =>
      have hexports : request.exports fs id s = [] := by
        simp only [OpenPin.exports, hexp, hpresent]
      rw [hexports]
      simp only [expMissing, hpresent]
      rfl
  | false =>
      have hexports : request.exports fs id s =
          [⟨.exportFile, Nat.toDigits 10 id ++ ['\x00']⟩] := by
        simp only [OpenPin.exports, hexp, hpresent]
      rw [hexports, Sysfs.writeAll_singleton]
      simp only [expMissing, hpresent]
      rfl

theorem openPin_ends (fs : Sysfs S) (id : Nat) (request : OpenPin) (opened : Bool) (s : S)
    (hpresent : request.exp = true → ∃ present, fs.present s (.pin id) = .ok present) :
    SetupEnds fs (request.exports fs id s) id request.given s (openPin fs id request opened s) := by
  cases hexp : request.exp with
  | true =>
      rcases hpresent hexp with ⟨present, hpresent⟩
      have hgiven : request.given = request.setup := by rw [OpenPin.given, hexp, if_pos rfl]
      have hends := setupEnds_bind fs id request.setup (request.exports fs id s)
        (fun _ => openAnswer fs id opened) (openAnswer_cases fs id opened) s
      rw [hgiven, openPin, hexp, if_pos rfl,
        Action.bind_congr_left (expMissing_eq fs id hexp hpresent)]
      exact hends
  | false =>
      have hgiven : request.given = {} := by rw [OpenPin.given, hexp, if_neg Bool.false_ne_true]
      have hexports : request.exports fs id s = [] := by simp only [OpenPin.exports, hexp]
      rw [hgiven, hexports, openPin, hexp, if_neg Bool.false_ne_true]
      exact setupEnds_bind fs id {} [] (fun _ => openAnswer fs id opened)
        (openAnswer_cases fs id opened) s

theorem openPin_of_unknown (fs : Sysfs S) (id : Nat) {request : OpenPin}
    (hexp : request.exp = true) (opened : Bool) {s : S} {err : Error}
    (hthrown : fs.present s (.pin id) = .error err) :
    openPin fs id request opened s = .thrown err s := by
  have hmissing : expMissing fs id s = .thrown err s := by simp only [expMissing, hthrown]
  rw [openPin, hexp, if_pos rfl]
  exact Action.bind_thrown hmissing

end Setups

/-- **Setting up a pin.** A field out of range is found after what is before it has been
written: a bad direction leaves the pin alone, a bad edge leaves the direction written. A
setup in range writes the fields that are present and nothing else. The same holds behind
the export of an `open`, which stays whatever comes after it; where it cannot be told
whether the pin exists, the `open` throws at once. -/
theorem gpioSetup_ends {S : Type} (fs : Sysfs S) (id : Nat) :
    (∀ d s, SetupEnds fs [] id d s (gpioSetup fs id d s)) ∧
      ∀ (request : OpenPin) opened s,
        (∃ err, request.exp = true ∧ fs.present s (.pin id) = .error err ∧
          openPin fs id request opened s = .thrown err s) ∨
        SetupEnds fs (request.exports fs id s) id request.given s
          (openPin fs id request opened s) := by
  constructor
  · intro d s
    have hends := setupEnds_bind fs id d [] pure (fun s => .inl ⟨(), rfl⟩) s
    rw [Action.bind_pure] at hends
    exact hends
  · intro request opened s
    cases hpresent : fs.present s (.pin id) with
    | ok present =>
        exact .inr (openPin_ends fs id request opened s fun _ => ⟨present, hpresent⟩)
    | error err =>
        cases hexp : request.exp with
        | true => exact .inl ⟨err, rfl, rfl, openPin_of_unknown fs id hexp opened hpresent⟩
        | false =>
            right
            apply openPin_ends
            rw [hexp]
            exact fun h => nomatch h

/-- The files of pins that are inputs, over what has been written to them. A pin is there
once it has been exported. -/
def plainFiles : Sysfs (List FileWrite) where
  present written _ := .ok (written.any fun w => w.file = .exportFile)
  read written file := (written.find? fun w => w.file = file).map (·.data)
  opens _ _ := .ok ()
  opensToWrite _ _ := .ok ()
  write written file data := (.ok (), ⟨file, data⟩ :: written)

/-- What a setup that is rejected for a field out of range leaves of the pin, and what one
that is accepted does. -/
structure AllOrNothing {S α : Type} (fs : Sysfs S) (id : Nat) (d : SetupData) (s : S)
    (o : Conclusion Error S α) : Prop where
  rejected : ¬ (d.DirectionOk ∧ d.EdgeOk) → ∀ err s', err = badDirection ∨ err = badEdge →
    o = .thrown err s' → ∀ file ∈ [SysfsFile.direction id, .edge id, .value id, .activeLow id],
      fs.read s' file = fs.read s file
  accepted : ∀ a s', o = .done a s' → fs.Applied (d.writes id) s s'

/-- The direction of a setup whose edge is bad stays, and so does the export of an `open`
whose direction is. -/
theorem direction_is_left_behind :
    (¬ ∀ (S : Type) (fs : Sysfs S) (id : Nat) (d : SetupData) (s : S),
        AllOrNothing fs id d s (gpioSetup fs id d s)) ∧
      ¬ ∀ (S : Type) (fs : Sysfs S) (id : Nat) (request : OpenPin) (opened : Bool) (s s' : S)
        (err : Error), openPin fs id request opened s = .thrown err s' →
          fs.present s' (.pin id) = fs.present s (.pin id) := by
  constructor
  · intro hall
    have hbad : ¬ (SetupData.DirectionOk { direction := some 1, edge := some 4 } ∧
        SetupData.EdgeOk { direction := some 1, edge := some 4 }) :=
      fun h => absurd (h.2 4 rfl) (by decide)
    have hkept := (hall _ plainFiles 5 { direction := some 1, edge := some 4 }
      [⟨.direction 5, "in\n".toList⟩]).rejected hbad badEdge _ (.inr rfl) rfl (.direction 5)
      List.mem_cons_self
    exact absurd hkept (by decide)
  · intro hall
    have hkept := hall _ plainFiles 5 { exp := true, setup := { direction := some 9 } } false []
      [⟨.exportFile, ['5', '\x00']⟩] badDirection rfl
    simp [plainFiles] at hkept

end FerroRemote.Agent

/-
# Registers as tables of a script

A script reads registers of an SMBus chip with a table of commands, and gets a table with
what it has read under the numbers of the registers. With a table of that kind it writes
registers. A table that has been read is thus a copy of the registers: written to a chip,
the same or another, it puts them there and leaves the others as they are, whatever has
been done between, and in whatever order the table is gone through. Of words there are
only the low bytes in it. All of this is said of transfers that succeed.
-/

import FerroRemote.Client.SmbusTransfer
import FerroRemote.Lua.ClientObjects
import FerroRemote.Lua.NumberTables
import FerroRemote.Lua.ObjectRoundTrip
import FerroRemote.Lua.Wrapper

namespace FerroRemote.Lua

open FerroRemote.Agent FerroRemote.Client

/-- `get_opt< T >` of an argument -/
def Trait.getOpt {α : Type} (T : Trait α) : Option Value → α
  | some v => if T.check v.type then T.get v else T.default
  | none => T.default

/-- `id_traits< unsigned int >` -/
def idUnsigned : Trait UInt32 := idInteger UInt32.ofInt

/-- `atof`, and the casts from a double to the numbers of registers and to what they hold. A
number that the type has stays as it is; what becomes of another is left open. -/
structure RegisterCasts where
  atof : Text → LuaNumber
  toUint8 : LuaNumber → UInt8
  toUint16 : LuaNumber → UInt16
  toUint8_whole : ∀ value : UInt8, toUint8 (.whole value.toNat) = value
  toUint16_whole : ∀ value : UInt16, toUint16 (.whole value.toNat) = value

/-- `num( )` of the objects that `get_object` makes -/
def Obj.num (atof : Text → LuaNumber) : Obj → LuaNumber
  | .boolean value => .whole (if value then 1 else 0)
  | .number num => num
  | .integer num => (LuaNumber.whole num).toDouble
  | .string cont => atof (cString cont)
  | _ => .whole 0

section Vectors

variable {V : Type} (casts : RegisterCasts)

/-- `create_cmd_params< T >`, with the cast to `T` -/
def Pairs.createCmdParams (toValue : LuaNumber → V) : Pairs → List (UInt8 × V)
  | .nil => []
  | .cons id val rest =>
    (casts.toUint8 (id.num casts.atof), toValue (val.num casts.atof)) ::
      rest.createCmdParams toValue

/-- `create_cmd_from_table< uint8_t >`, which takes the values -/
def Pairs.createCmdFromTable : Pairs → List UInt8
  | .nil => []
  | .cons _ val rest => casts.toUint8 (val.num casts.atof) :: rest.createCmdFromTable

/-- The pairs of `nt` after the loop of `lcall_read_impl` -/
def Pairs.ofRegisters (num : V → Nat) : List (UInt8 × V) → Pairs
  | [] => .nil
  | v :: res => .cons (.integer v.1.toNat) (.integer (num v.2)) (ofRegisters num res)

end Vectors

/-- The handles in the objects of the module, and `buses_` with the handles on the agent -/
structure SmbusModule where
  objects : Table Nat := ∅
  buses : Table Nat := ∅

namespace SmbusModule

/-- `get_object_hdl`, null for what is no bus -/
def getObjectHdl (m : SmbusModule) : Option Value → Nat
  | some (.userdata ud) => m.objects[ud]?.getD 0
  | _ => 0

def getBus (m : SmbusModule) (hdl : Nat) : Except Text Nat :=
  match m.buses[hdl]? with
  | some bus => .ok bus
  | none => .error "Bad handle value.".toList

section Calls

variable {V : Type} (m : SmbusModule) (casts : RegisterCasts) (what : Error → Text)

/-- A call of the bus that an object stands for, with the text of what it throws -/
def onBus {α : Type} (object : Option Value) (call : Nat → Except Error α) : Except Text α :=
  (m.getBus (m.getObjectHdl object)).bind fun bus => (call bus).mapError what

def badCommandType : Text := "Bad command type. Need 'number' or 'table'.".toList

def lcallReadImpl (call : Nat → UInt8 → Except Error V)
    (calllist : Nat → List UInt8 → Except Error (List (UInt8 × V))) (num : V → Nat) (h : Heap)
    (args : List Value) : Answer × Heap :=
  match (args[1]? : Option Value) with
  | some (.number n) =>
    let cmd := idUnsigned.getOpt (some (.number n))
    match m.onBus what args[0]? fun bus => call bus cmd.toUInt8 with
    | .ok value => (.returned [.number (.whole (num value))], h)
    | .error text => (report .nil text, h)
  | some (.table id) =>
    let tab := (pairsOf false (entriesOf h id)).createCmdFromTable casts
    match m.onBus what args[0]? fun bus => calllist bus tab with
    | .ok res =>
      let nt := (Obj.table (.ofRegisters num res) 1).push h
      (.returned [nt.1], nt.2)
    | .error text => (report .nil text, h)
  | _ => (report .nil badCommandType, h)

/-- `lcall_write_impl< T >`, with the casts to `T` -/
def lcallWriteImpl (call : Nat → UInt8 → V → Except Error SmbusChips)
    (calllist : Nat → List (UInt8 × V) → Except Error SmbusChips) (toValue : LuaNumber → V)
    (ofUnsigned : UInt32 → V) (chips : SmbusChips) (h : Heap) (args : List Value) :
    Answer × SmbusChips :=
  match (args[1]? : Option Value) with
  | some (.number n) =>
    let cmd := idUnsigned.getOpt (some (.number n))
    let data := idUnsigned.getOpt args[2]?
    match m.onBus what args[0]? fun bus => call bus cmd.toUInt8 (ofUnsigned data) with
    | .ok chips => (.returned [.boolean true], chips)
    | .error text => (report .nil text, chips)
  | some (.table id) =>
    let tab := (pairsOf false (entriesOf h id)).createCmdParams casts toValue
    match m.onBus what args[0]? fun bus => calllist bus tab with
    | .ok chips => (.returned [.boolean true], chips)
    | .error text => (report .nil text, chips)
  | _ => (report .nil badCommandType, chips)

variable (i2c : I2cInstance) (chips : SmbusChips)

def lcallBusReadByte : Heap → List Value → Answer × Heap :=
  m.lcallReadImpl casts what (readByte i2c chips) (readBytes i2c chips) UInt8.toNat

def lcallBusReadWord : Heap → List Value → Answer × Heap :=
  m.lcallReadImpl casts what (readWord i2c chips) (readWords i2c chips) UInt16.toNat

def lcallBusWriteByte : Heap → List Value → Answer × SmbusChips :=
  m.lcallWriteImpl casts what (writeByte i2c chips) (writeBytes i2c chips) casts.toUint8
    UInt32.toUInt8 chips

def lcallBusWriteWord : Heap → List Value → Answer × SmbusChips :=
  m.lcallWriteImpl casts what (writeWord i2c chips) (writeWords i2c chips) casts.toUint16
    UInt32.toUInt16 chips

end Calls

/-- The object is a bus that is open here and on the agent, with this helper. -/
def IsBus (m : SmbusModule) (i2c : I2cInstance) (object : Value) (dev : I2cHelper) : Prop :=
  ∃ bus, m.getBus (m.getObjectHdl (some object)) = .ok bus ∧ i2c.devices[bus]? = some dev

end SmbusModule

/-- The table has a value for each of the registers, under its number, and nothing else. -/
structure HoldsRegisters {V : Type} (num : V → Nat) (h : Heap) (id : Nat) (cmds : List UInt8)
    (f : UInt8 → V) : Prop where
  held : ∀ cmd ∈ cmds, h.get id (index cmd.toNat) = index (num (f cmd))
  others : ∀ k, (∀ cmd ∈ cmds, k ≠ index cmd.toNat) → h.get id k = .nil

section Holding

variable {V : Type} {num : V → Nat} {f : UInt8 → V} {cmds : List UInt8} {h : Heap} {id : Nat}

/-- What a script does to other tables, and to the order of the entries, does not matter. -/
theorem HoldsRegisters.of_get_eq {h' : Heap} (hholds : HoldsRegisters num h id cmds f)
    (hget : ∀ k, h'.get id k = h.get id k) : HoldsRegisters num h' id cmds f where
  held cmd hcmd := by rw [hget, hholds.held cmd hcmd]
  others k hk := by rw [hget, hholds.others k hk]

/-- Under the key of no register, and in the other tables, all is as before. -/
theorem push_ofRegisters_other (hid : id < h.length) (len : Nat) {id' : Nat} {k : Value}
    (hother : id' = id → ∀ cmd ∈ cmds, k ≠ index cmd.toNat) :
    ((Pairs.ofRegisters num (cmds.map fun cmd => (cmd, f cmd))).push id len h).get id' k =
      h.get id' k := by
  induction cmds generalizing h with
  | nil => rfl
  | cons cmd cmds ih =>
      have hset : (h.set id (index cmd.toNat) (index (num (f cmd)))).get id' k = h.get id' k := by
        rw [Heap.get_set hid (index_ne_nil _)]
        exact if_neg fun hboth => hother hboth.1 cmd List.mem_cons_self hboth.2
      rw [← hset]
      apply ih
      · rwa [Heap.length_set]
      · exact fun heq cmd hcmd => hother heq cmd (List.mem_cons_of_mem _ hcmd)

theorem push_ofRegisters_held (hid : id < h.length) (len : Nat) {cmd : UInt8} (hcmd : cmd ∈ cmds) :
    ((Pairs.ofRegisters num (cmds.map fun cmd => (cmd, f cmd))).push id len h).get id
      (index cmd.toNat) = index (num (f cmd)) := by
  induction cmds generalizing h with
  | nil => exact absurd hcmd List.not_mem_nil
  | cons first cmds ih =>
      have hlt : id < (h.set id (index first.toNat) (index (num (f first)))).length := by
        rwa [Heap.length_set]
      by_cases hmem : cmd ∈ cmds
      · exact ih hlt hmem
      · rcases List.mem_cons.mp hcmd with rfl | hlater
        · have hother : ∀ later ∈ cmds, index cmd.toNat ≠ index later.toNat := by
            intro later hlater heq
            apply hmem
            rwa [UInt8.toNat_inj.mp (index_injective heq)]
          have hpush := @push_ofRegisters_other V num f cmds _ id hlt len id _ fun _ => hother
          rw [Heap.get_set hid (index_ne_nil _), if_pos ⟨rfl, rfl⟩] at hpush
          exact hpush
        · exact absurd hlater hmem

/-- `nt` holds the registers that it is made of, and the other tables are as before. -/
theorem holdsRegisters_push (num : V → Nat) (f : UInt8 → V) (cmds : List UInt8) (h : Heap) :
    let nt := (Obj.table (.ofRegisters num (cmds.map fun cmd => (cmd, f cmd))) 1).push h
    nt.1 = .table h.length ∧ HoldsRegisters num nt.2 h.length cmds f ∧
      ∀ id k, id < h.length → nt.2.get id k = h.get id k := by
  have hlt : h.length < h.alloc.length := by
    rw [Heap.length_alloc]
    exact Nat.lt_succ_self _
  refine ⟨rfl, ⟨fun cmd hcmd => push_ofRegisters_held hlt 1 hcmd, ?_⟩, ?_⟩
  · intro k hk
    have hother := @push_ofRegisters_other V num f cmds _ _ hlt 1 h.length k fun _ => hk
    rw [Heap.get_alloc, Heap.get_of_le (Nat.le_refl _)] at hother
    exact hother
  · intro id k hid
    have hother := @push_ofRegisters_other V num f cmds _ _ hlt 1 id k
      fun heq => absurd heq (Nat.ne_of_lt hid)
    rw [Heap.get_alloc] at hother
    exact hother

end Holding

section Writing

variable {V : Type} {num : V → Nat} {f : UInt8 → V} {cmds : List UInt8} {h : Heap} {id : Nat}
  (casts : RegisterCasts)

/-- A number of a register and what it holds pass through a double. -/
theorem num_element {n : Nat} (hn : n ≤ 2 ^ 53) :
    (element false (index n)).num casts.atof = .whole n := by
  have hfits : Rounding.Fits 52 n := by
    have hshift := Rounding.fits_mul_two_pow hn 0
    rwa [Nat.pow_zero, Nat.mul_one] at hshift
  have hround : Rounding.roundInt 52 (n : Int) = n := Rounding.roundInt_eq_self_iff.mpr hfits
  simp only [index, element, objectOf, Obj.num, LuaNumber.toDouble, hround, Bool.false_eq_true,
    if_false]

theorem mem_createCmdParams {toValue : LuaNumber → V}
    {entries : List (Sigma fun _ : Value => Value)} {v : UInt8 × V} :
    v ∈ (pairsOf false entries).createCmdParams casts toValue ↔
      ∃ e ∈ entries, v = (casts.toUint8 ((element false e.1).num casts.atof),
        toValue ((element false e.2).num casts.atof)) := by
  induction entries with
  | nil => simp [pairsOf, Pairs.createCmdParams]
  | cons e entries ih =>
      rw [pairsOf, Pairs.createCmdParams, List.mem_cons, ih]
      simp only [List.mem_cons, exists_eq_or_imp]

/-- Of a table that holds registers the writing functions get these registers, in some order. -/
theorem mem_createCmdParams_iff {toValue : LuaNumber → V} (hnum : ∀ v, num v ≤ 2 ^ 53)
    (hcast : ∀ v, toValue (.whole (num v)) = v) (hholds : HoldsRegisters num h id cmds f)
    {v : UInt8 × V} :
    v ∈ (pairsOf false (entriesOf h id)).createCmdParams casts toValue ↔
      v.1 ∈ cmds ∧ v.2 = f v.1 := by
  have hentry : ∀ cmd, (casts.toUint8 ((element false (index cmd.toNat)).num casts.atof),
      toValue ((element false (index (num (f cmd)))).num casts.atof)) = (cmd, f cmd) := by
    intro cmd
    have hbyte : cmd.toNat ≤ 2 ^ 53 := by
      have hlt := cmd.toNat_lt
      omega
    rw [num_element casts hbyte, num_element casts (hnum _), casts.toUint8_whole, hcast]
  rw [mem_createCmdParams]
  constructor
  · rintro ⟨⟨k, value⟩, he, rfl⟩
    have hget := (h[id]?.getD LuaTable.empty).get_of_mem he
    have hcmd : ∃ cmd ∈ cmds, k = index cmd.toNat := by
      by_contra hnone
      push Not at hnone
      exact hget.2 (hget.1.symm.trans (hholds.others k hnone))
    rcases hcmd with ⟨cmd, hmem, rfl⟩
    rw [show value = index (num (f cmd)) from hget.1.symm.trans (hholds.held cmd hmem), hentry]
    exact ⟨hmem, rfl⟩
  · rintro ⟨hmem, hvalue⟩
    have hpresent : index (num (f v.1)) ≠ .nil := index_ne_nil _
    refine ⟨⟨index v.1.toNat, index (num (f v.1))⟩, ?_, ?_⟩
    · exact ((h[id]?.getD LuaTable.empty).get_eq_iff hpresent).mp (hholds.held v.1 hmem)
    · rw [hentry, ← hvalue]

end Writing

/-- Some registers from the one chip, and the others from the other. -/
def patch {V : Type} (cmds : List UInt8) (f g : UInt8 → V) : UInt8 → V :=
  fun cmd => if cmd ∈ cmds then f cmd else g cmd

section Patching

variable {V : Type} {f : UInt8 → V} {cmds : List UInt8}

theorem foldl_update_eq {values : List (UInt8 × V)} (hvalues : ∀ v ∈ values, v.2 = f v.1)
    (regs : UInt8 → V) :
    values.foldl (fun regs v => Function.update regs v.1 v.2) regs =
      patch (values.map Prod.fst) f regs := by
  induction values generalizing regs with
  | nil => rfl
  | cons v values ih =>
      rw [List.foldl_cons, ih fun v hv => hvalues v (List.mem_cons_of_mem _ hv)]
      funext cmd
      simp only [patch, List.map_cons, List.mem_cons]
      by_cases hlater : cmd ∈ values.map Prod.fst
      · rw [if_pos hlater, if_pos (.inr hlater)]
      · rw [if_neg hlater]
        by_cases heq : cmd = v.1
        · rw [if_pos (.inl heq), heq, Function.update_self, hvalues v List.mem_cons_self]
        · rw [if_neg fun hor => hor.elim heq hlater, Function.update_of_ne heq]

/-- A list of the registers and what they hold patches with them, whatever its order. -/
theorem foldl_update_of_mem_iff {values : List (UInt8 × V)}
    (hvalues : ∀ v, v ∈ values ↔ v.1 ∈ cmds ∧ v.2 = f v.1) (regs : UInt8 → V) :
    values.foldl (fun regs v => Function.update regs v.1 v.2) regs = patch cmds f regs := by
  rw [foldl_update_eq fun v hv => ((hvalues v).mp hv).2]
  have hmem : ∀ cmd, cmd ∈ values.map Prod.fst ↔ cmd ∈ cmds := by
    intro cmd
    rw [List.mem_map]
    constructor
    · rintro ⟨v, hv, rfl⟩
      exact ((hvalues v).mp hv).1
    · exact fun hcmd => ⟨(cmd, f cmd), (hvalues _).mpr ⟨hcmd, rfl⟩, rfl⟩
  funext cmd
  simp only [patch, hmem]

end Patching

/-- What `read_words` reads of words. -/
def lowBytes (words : UInt8 → UInt16) : UInt8 → UInt16 := fun cmd => (words cmd).toUInt8.toUInt16

theorem patch_lowBytes_eq_iff {cmds : List UInt8} {words others : UInt8 → UInt16} :
    patch cmds (lowBytes words) others = patch cmds words others ↔
      ∀ cmd ∈ cmds, words cmd < 256 := by
  rw [funext_iff]
  apply forall_congr'
  intro cmd
  by_cases hcmd : cmd ∈ cmds
  · rw [patch, patch, if_pos hcmd, if_pos hcmd, lowBytes, toUInt16_toUInt8_eq_iff]
    exact ⟨fun hlt _ => hlt, fun hall => hall hcmd⟩
  · rw [patch, patch, if_neg hcmd, if_neg hcmd]
    exact iff_of_true rfl fun hmem => absurd hmem hcmd

section Script

variable {m : SmbusModule} {casts : RegisterCasts} {what : Error → Text} {i2c : I2cInstance}
  {bus : Value} {dev : I2cHelper}

/-- The commands that the reading functions take from a table -/
def commands (casts : RegisterCasts) (h : Heap) (id : Nat) : List UInt8 :=
  (pairsOf false (entriesOf h id)).createCmdFromTable casts

theorem lcallReadImpl_table {V : Type} {call : Nat → UInt8 → Except Error V}
    {calllist : Nat → List UInt8 → Except Error (List (UInt8 × V))} {num : V → Nat} {h : Heap}
    {id : Nat} {f : UInt8 → V} (hbus : m.IsBus i2c bus dev)
    (hcall : ∀ hdl, i2c.devices[hdl]? = some dev →
      calllist hdl (commands casts h id) =
        .ok ((commands casts h id).map fun cmd => (cmd, f cmd))) :
    ∃ h', m.lcallReadImpl casts what call calllist num h [bus, .table id] =
        (.returned [.table h.length], h') ∧
      HoldsRegisters num h' h.length (commands casts h id) f ∧
      ∀ id k, id < h.length → h'.get id k = h.get id k := by
  rcases hbus with ⟨hdl, hget, hdev⟩
  have hon : m.onBus what (some bus) (fun bus => calllist bus (commands casts h id)) =
      .ok ((commands casts h id).map fun cmd => (cmd, f cmd)) := by
    simp only [SmbusModule.onBus, hget, Except.bind, hcall hdl hdev, Except.mapError]
  have hpush := holdsRegisters_push num f (commands casts h id) h
  have hread : m.lcallReadImpl casts what call calllist num h [bus, .table id] =
      match m.onBus what (some bus) (fun bus => calllist bus (commands casts h id)) with
      | .ok res =>
        let nt := (Obj.table (.ofRegisters num res) 1).push h
        (.returned [nt.1], nt.2)
      | .error text => (report .nil text, h) := rfl
  rw [hread, hon]
  exact ⟨_, rfl, hpush.2⟩

theorem lcallWriteImpl_table {V : Type} {call : Nat → UInt8 → V → Except Error SmbusChips}
    {calllist : Nat → List (UInt8 × V) → Except Error SmbusChips} {toValue : LuaNumber → V}
    {ofUnsigned : UInt32 → V} {chips written : SmbusChips} {h : Heap} {id : Nat}
    (hbus : m.IsBus i2c bus dev)
    (hcall : ∀ hdl, i2c.devices[hdl]? = some dev →
      calllist hdl ((pairsOf false (entriesOf h id)).createCmdParams casts toValue) =
        .ok written) :
    m.lcallWriteImpl casts what call calllist toValue ofUnsigned chips h [bus, .table id] =
      (.returned [.boolean true], written) := by
  rcases hbus with ⟨hdl, hget, hdev⟩
  have hon : m.onBus what (some bus) (fun bus => calllist bus
      ((pairsOf false (entriesOf h id)).createCmdParams casts toValue)) = .ok written := by
    simp only [SmbusModule.onBus, hget, Except.bind, hcall hdl hdev, Except.mapError]
  have hwrite : m.lcallWriteImpl casts what call calllist toValue ofUnsigned chips h
        [bus, .table id] =
      match m.onBus what (some bus) (fun bus => calllist bus
        ((pairsOf false (entriesOf h id)).createCmdParams casts toValue)) with
      | .ok chips => (.returned [.boolean true], chips)
      | .error text => (report .nil text, chips) := rfl
  rw [hwrite, hon]

/-- **Bytes are put back.** A table that has been read, and is still what it was, puts the
registers back into any chip and leaves the others of that chip, and all other chips. -/
theorem bytes_put_back (hbus : m.IsBus i2c bus dev) (chips : SmbusChips) (h : Heap) (id : Nat) :
    ∃ h', m.lcallBusReadByte casts what i2c chips h [bus, .table id] =
        (.returned [.table h.length], h') ∧
      (∀ id k, id < h.length → h'.get id k = h.get id k) ∧
      ∀ {m' i2c' bus' dev'} (chips' : SmbusChips) (h'' : Heap),
        SmbusModule.IsBus m' i2c' bus' dev' → (∀ k, h''.get h.length k = h'.get h.length k) →
        m'.lcallBusWriteByte casts what i2c' chips' h'' [bus', .table h.length] =
          (.returned [.boolean true], chips'.set dev' { chips'.of dev' with
            bytes := patch (commands casts h id) (chips.of dev).bytes
              (chips'.of dev').bytes }) := by
  rcases @lcallReadImpl_table m casts what i2c bus dev UInt8 (readByte i2c chips) _ UInt8.toNat h id
    (chips.of dev).bytes hbus (fun hdl hdev => readBytes_eq chips hdev _) with
    ⟨h', hread, hholds, hkept⟩
  refine ⟨h', hread, hkept, ?_⟩
  intro m' i2c' bus' dev' chips' h'' hbus' hsame
  apply lcallWriteImpl_table hbus'
  intro hdl hdev
  have hnum : ∀ v : UInt8, v.toNat ≤ 2 ^ 53 := by
    intro v
    have hlt := v.toNat_lt
    omega
  have hmem := fun v => @mem_createCmdParams_iff UInt8 _ _ _ _ _ casts casts.toUint8 hnum
    casts.toUint8_whole (hholds.of_get_eq hsame) v
  rw [writeBytes_eq chips' hdev, SmbusRegisters.putBytes, foldl_update_of_mem_iff hmem]

/-- **Words are put back without their high bytes**, so that a chip gets what another had
exactly when the words are small. -/
theorem words_put_back (hbus : m.IsBus i2c bus dev) (chips : SmbusChips) (h : Heap) (id : Nat) :
    ∃ h', m.lcallBusReadWord casts what i2c chips h [bus, .table id] =
        (.returned [.table h.length], h') ∧
      (∀ id k, id < h.length → h'.get id k = h.get id k) ∧
      ∀ {m' i2c' bus' dev'} (chips' : SmbusChips) (h'' : Heap),
        SmbusModule.IsBus m' i2c' bus' dev' → (∀ k, h''.get h.length k = h'.get h.length k) →
        ∃ words, m'.lcallBusWriteWord casts what i2c' chips' h'' [bus', .table h.length] =
            (.returned [.boolean true],
              chips'.set dev' { chips'.of dev' with words := words }) ∧
          words = patch (commands casts h id) (lowBytes (chips.of dev).words)
            (chips'.of dev').words ∧
          (words = patch (commands casts h id) (chips.of dev).words (chips'.of dev').words ↔
            ∀ cmd ∈ commands casts h id, (chips.of dev).words cmd < 256) := by
  rcases @lcallReadImpl_table m casts what i2c bus dev UInt16 (readWord i2c chips) _ UInt16.toNat h
    id (lowBytes (chips.of dev).words) hbus (fun hdl hdev => readWords_eq chips hdev _) with
    ⟨h', hread, hholds, hkept⟩
  refine ⟨h', hread, hkept, ?_⟩
  intro m' i2c' bus' dev' chips' h'' hbus' hsame
  have hnum : ∀ v : UInt16, v.toNat ≤ 2 ^ 53 := by
    intro v
    have hlt := v.toNat_lt
    omega
  have hmem := fun v => @mem_createCmdParams_iff UInt16 _ _ _ _ _ casts casts.toUint16 hnum
    casts.toUint16_whole (hholds.of_get_eq hsame) v
  refine ⟨_, lcallWriteImpl_table hbus' ?_, rfl, patch_lowBytes_eq_iff⟩
  intro hdl hdev
  rw [writeWords_eq chips' hdev, SmbusRegisters.putWords, foldl_update_of_mem_iff hmem]

end Script

/-- Casts that cut what is too much, for scripts without strings. -/
def cuttingCasts : RegisterCasts where
  atof _ := .whole 0
  toUint8 n := UInt8.ofNat (wholeOrZero n).toNat
  toUint16 n := UInt16.ofNat (wholeOrZero n).toNat
  toUint8_whole value := by simp [wholeOrZero]
  toUint16_whole value := by simp [wholeOrZero]

/-- The object at 1 has the handle 5, of the helper at 101. -/
def oneBus : SmbusModule where
  objects := (∅ : Table Nat).insert 1 5
  buses := (∅ : Table Nat).insert 5 101

theorem isBus_oneBus : oneBus.IsBus oneI2c (.userdata 1) ⟨0, 1⟩ := ⟨101, rfl, oneI2c_device⟩

def twoCommands : Heap := [(LuaTable.empty.set (index 1) (index 7)).set (index 2) (index 9)]

theorem commands_twoCommands : commands cuttingCasts twoCommands 0 = [9, 7] := by decide

/-- A chip whose registers are different -/
def numberedChip : SmbusChips where
  chip := fun _ => 0
  registers := fun _ => { bytes := id, words := fun cmd => if cmd = 7 then 0x1234 else 0x56 }

/-- Registers 7 and 9 are put back. -/
theorem bytes_put_back_two :
    ∃ h', oneBus.lcallBusReadByte cuttingCasts (fun _ => []) oneI2c numberedChip twoCommands
        [.userdata 1, .table 0] = (.returned [.table 1], h') ∧
      oneBus.lcallBusWriteByte cuttingCasts (fun _ => []) oneI2c (wordChip 5) h'
        [.userdata 1, .table 1] = (.returned [.boolean true], (wordChip 5).set ⟨0, 1⟩
          { (wordChip 5).of ⟨0, 1⟩ with bytes := patch [9, 7] id (fun _ => 0) }) := by
  rcases @bytes_put_back oneBus cuttingCasts (fun _ => []) oneI2c (.userdata 1) ⟨0, 1⟩
    isBus_oneBus numberedChip twoCommands 0 with ⟨h', hread, -, hwrite⟩
  rw [commands_twoCommands] at hwrite
  exact ⟨h', hread, hwrite (wordChip 5) h' isBus_oneBus fun _ => rfl⟩

/-- Of 0x1234 the chip gets 0x34, and 0x56 as it is. -/
theorem words_put_back_two :
    ∃ h', oneBus.lcallBusReadWord cuttingCasts (fun _ => []) oneI2c numberedChip twoCommands
        [.userdata 1, .table 0] = (.returned [.table 1], h') ∧
      oneBus.lcallBusWriteWord cuttingCasts (fun _ => []) oneI2c (wordChip 5) h'
        [.userdata 1, .table 1] = (.returned [.boolean true], (wordChip 5).set ⟨0, 1⟩
          { (wordChip 5).of ⟨0, 1⟩ with
            words := patch [9, 7] (fun cmd => if cmd = 7 then 0x34 else 0x56) (fun _ => 5) }) := by
  rcases @words_put_back oneBus cuttingCasts (fun _ => []) oneI2c (.userdata 1) ⟨0, 1⟩
    isBus_oneBus numberedChip twoCommands 0 with ⟨h', hread, -, hwrite⟩
  rcases hwrite (wordChip 5) h' isBus_oneBus fun _ => rfl with ⟨words, hwritten, hwords, -⟩
  have hlow : lowBytes (numberedChip.of ⟨0, 1⟩).words =
      fun cmd => if cmd = 7 then 0x34 else 0x56 := by
    funext cmd
    have hword : (numberedChip.of ⟨0, 1⟩).words cmd = if cmd = 7 then 0x1234 else 0x56 := rfl
    rw [lowBytes, hword]
    split
    · decide
    · decide
  rw [hwords, commands_twoCommands, hlow] at hwritten
  exact ⟨h', hread, hwritten⟩

end FerroRemote.Lua

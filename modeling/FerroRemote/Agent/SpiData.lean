/-
# Data to and from SPI devices

The handlers of the SPI service fill the strings of their responses in place. A device
may fail a call, and it may give fewer bytes to a `read` than it was asked for, which
`spi_helper::read` does not tell its callers.

In `read`, `data` is the pointer to the response's string, and `&data[0]` is the string
object itself, not its first character: what the device gives is written over the object.
`wr` has `&(*data)[0]` in the same place.
-/

import FerroRemote.Agent.SpiService
import FerroRemote.Math.FallibleLoop

namespace FerroRemote.Agent

/-- `errno` after a call that has failed. -/
abbrev Fault : Type := { code : Errno // code ≠ 0 }

/-- What a device does with the calls that are made for the element at a place of a
request. A `read` gives as many bytes as it was asked for, or fewer; a transfer gives one
for each it is sent, and what is in the buffer when it fails is the device's business. -/
structure SpiWire where
  write : Nat → List UInt8 → Except Fault Nat
  read : Nat → (len : Nat) → Except Fault { bytes : List UInt8 // bytes.length ≤ len }
  transfer : Nat → (tx : List UInt8) →
    Option Fault × { rx : List UInt8 // rx.length = tx.length }

/-- The bytes of a response, or what its string object was overwritten with. -/
inductive ResponseString
  | value (bytes : List UInt8)
  | overwritten (bytes : List UInt8)
  deriving DecidableEq, Repr

/-- A request that moves data, in the words of its message. -/
inductive SpiRequest
  | read (len : UInt32)
  | wr (data : List (List UInt8))
  | transfer (data : List UInt8)
  | transferList (datas : List (List UInt8)) (nothrow : Bool)
  deriving Repr

inductive SpiResponse
  | data (data : ResponseString)
  | datas (datas : List (List UInt8)) (errors : List Errno)
  deriving DecidableEq, Repr

namespace SpiWire

variable (wire : SpiWire)

/-- `spi_helper::write`. -/
def helperWrite (place : Nat) (buf : List UInt8) : Except Error Unit :=
  match wire.write place buf with
  | .error fault => .error (.errno "spi_write" fault)
  | .ok _ => .ok ()

/-- `spi_helper::read`: the bytes that are put into the buffer, from its start. -/
def helperRead (place len : Nat) : Except Error (List UInt8) :=
  match wire.read place len with
  | .error fault => .error (.errno "spi_write" fault)
  | .ok bytes => .ok bytes

/-- `spi_helper::transfer`. -/
def helperTransfer (place : Nat) (buf : List UInt8) : Except Error (List UInt8) :=
  match wire.transfer place buf with
  | (some fault, _) => .error (.errno "spi_transfer" fault)
  | (none, rx) => .ok rx

/-- A buffer of zeros that bytes have been put into. -/
def resized (len : Nat) (bytes : List UInt8) : List UInt8 :=
  bytes ++ List.replicate (len - bytes.length) 0

/-- `proto_impl::read`. Writing no bytes leaves the string as it is. -/
def serveRead (len : UInt32) : Except Error SpiResponse :=
  if len = 0 then .ok (.data (.value []))
  else do
    let bytes ← wire.helperRead 0 len.toNat
    return .data (if bytes.isEmpty then .value (resized len.toNat []) else .overwritten bytes)

/-- The body of the loop of `proto_impl::wr`. -/
def wrElement (element : List UInt8 × Nat) : Except Error (List UInt8) :=
  if element.1.isEmpty then .ok []
  else do
    wire.helperWrite element.2 element.1
    let bytes ← wire.helperRead element.2 element.1.length
    return resized element.1.length bytes

/-- `proto_impl::wr`. -/
def serveWr (data : List (List UInt8)) : Except Error SpiResponse := do
  let datas ← data.zipIdx.mapM wire.wrElement
  return .datas datas []

/-- The body of the loop of `proto_impl::transfer_list`. -/
def transferElement (element : List UInt8 × Nat) : Except Error (List UInt8) :=
  if element.1.isEmpty then .ok [] else wire.helperTransfer element.2 element.1

/-- The body of its loop with `nothrow`: the element and its error. -/
def transferNothrow (element : List UInt8 × Nat) : List UInt8 × Errno :=
  if element.1.isEmpty then ([], 0)
  else
    match wire.transfer element.2 element.1 with
    | (some fault, buf) => (buf, fault)
    | (none, rx) => (rx, 0)

/-- The rest of `proto_impl::transfer_list`. -/
def serveTransferList (datas : List (List UInt8)) (nothrow : Bool) : Except Error SpiResponse :=
  if nothrow then
    let elements := datas.zipIdx.map wire.transferNothrow
    .ok (.datas (elements.map (·.1)) (elements.map (·.2)))
  else do
    let datas ← datas.zipIdx.mapM wire.transferElement
    return .datas datas []

end SpiWire

/-- `proto_impl::get_file`, for the device behind the file. -/
def spiFile (wires : SpiDevice → SpiWire) (files : IndexMap SpiInfo) (hdl : Nat) :
    Except Error SpiWire :=
  match files.map[hdl]? with
  | none => .error (.system EBADF "Bad SPI file number.")
  | some f => .ok (wires f.device)

/-- The handlers. A transfer of nothing returns before the handle is looked up. -/
def spiServe (wires : SpiDevice → SpiWire) (files : IndexMap SpiInfo) (hdl : Nat) :
    SpiRequest → Except Error SpiResponse
  | .read len => do
    let f ← spiFile wires files hdl
    f.serveRead len
  | .wr data => do
    let f ← spiFile wires files hdl
    f.serveWr data
  | .transfer data =>
    if data.isEmpty then .ok (.data (.value []))
    else do
      let si ← spiFile wires files hdl
      let rx ← si.helperTransfer 0 data
      return .data (.value rx)
  | .transferList datas nothrow =>
    if datas.isEmpty then .ok (.datas [] [])
    else do
      let si ← spiFile wires files hdl
      si.serveTransferList datas nothrow

/-- One element of the response for each of the request, in order, of the same length,
and where there is something to send, with what the device has produced. -/
def Elements (produced : List UInt8 × Nat → List UInt8 → Prop)
    (request response : List (List UInt8)) : Prop :=
  List.Forall₂ (fun element data =>
    data.length = element.1.length ∧ (element.1 ≠ [] → produced element data))
    request.zipIdx response

/-- The response has what the device has produced. -/
def SpiWire.Mirrors (wire : SpiWire) : SpiRequest → SpiResponse → Prop
  | .read len, .data res =>
    if len = 0 then res = .value []
    else ∃ bytes, wire.read 0 len.toNat = .ok bytes ∧ res = .value bytes
  | .wr data, .datas datas _ =>
    Elements (fun element res =>
      ∃ bytes, wire.read element.2 element.1.length = .ok bytes ∧ res = bytes) data datas
  | .transfer data, .data res =>
    ∃ rx, res = .value rx ∧ rx.length = data.length ∧
      (data ≠ [] → rx = (wire.transfer 0 data).2)
  | .transferList request nothrow, .datas datas errors =>
    Elements (fun element res => res = (wire.transfer element.2 element.1).2) request datas ∧
      (nothrow = true → List.Forall₂ (fun element code =>
        code = 0 ↔ element.1 = [] ∨ (wire.transfer element.2 element.1).1 = none)
        request.zipIdx errors)
  | _, _ => False

/-- A call for one of the elements fails. -/
def SpiWire.FailsWr (wire : SpiWire) (data : List (List UInt8)) : Prop :=
  ∃ element ∈ data.zipIdx, element.1 ≠ [] ∧
    ((∃ fault, wire.write element.2 element.1 = .error fault) ∨
      ∃ fault, wire.read element.2 element.1.length = .error fault)

/-- Every `read` gives as many bytes as it was asked for. -/
def SpiWire.ReadsFull (wire : SpiWire) (data : List (List UInt8)) : Prop :=
  ∀ element ∈ data.zipIdx, element.1 ≠ [] → ∀ bytes,
    wire.read element.2 element.1.length = .ok bytes → bytes.1.length = element.1.length

/-- When the response to a request is right, for the device it is about: a `read` of
nothing, or one that fails; a `wr` that fails, or whose reads are all full; and any
transfer. -/
def SpiWire.MirrorsWhen (wire : SpiWire) : SpiRequest → Prop
  | .read len => len = 0 ∨ ∃ fault, wire.read 0 len.toNat = .error fault
  | .wr data => wire.FailsWr data ∨ wire.ReadsFull data
  | .transfer _ => True
  | .transferList _ _ => True

namespace SpiWire

variable {wire : SpiWire}

theorem serveRead_mirrors_iff (len : UInt32) :
    (∀ res, wire.serveRead len = .ok res → wire.Mirrors (.read len) res) ↔
      wire.MirrorsWhen (.read len) := by
  rw [MirrorsWhen, serveRead]
  by_cases hlen : len = 0
  · rw [if_pos hlen]
    apply iff_of_true
    · rintro res ⟨⟩
      exact (if_pos hlen).mpr rfl
    · exact Or.inl hlen
  · rw [if_neg hlen, or_iff_right hlen, helperRead]
    cases hread : wire.read 0 len.toNat with
    | error fault =>
        apply iff_of_true
        · rintro res ⟨⟩
        · exact ⟨fault, rfl⟩
    | ok bytes =>
        apply iff_of_false
        · intro hmirrors
          have hres := hmirrors _ rfl
          rw [Mirrors, if_neg hlen] at hres
          obtain ⟨produced, hproduced, hvalue⟩ := hres
          rw [hread, Except.ok.injEq] at hproduced
          subst hproduced
          split at hvalue
          · next hempty =>
              -- a buffer of zeros, and the device has produced nothing
              rw [List.isEmpty_iff.mp hempty, ResponseString.value.injEq] at hvalue
              have hlength := congrArg List.length hvalue
              rw [resized, List.nil_append, List.length_replicate, List.length_nil] at hlength
              exact hlen (UInt32.toNat_inj.mp hlength)
          · cases hvalue
        · rintro ⟨fault, ⟨⟩⟩

theorem wrElement_cases (element : List UInt8 × Nat) (hne : element.1 ≠ []) :
    (((∃ fault, wire.write element.2 element.1 = .error fault) ∨
        ∃ fault, wire.read element.2 element.1.length = .error fault) ∧
      ∃ err, wire.wrElement element = .error err) ∨
    ∃ n bytes, wire.write element.2 element.1 = .ok n ∧
      wire.read element.2 element.1.length = .ok bytes ∧
      wire.wrElement element = .ok (resized element.1.length bytes) := by
  have hempty : ¬ element.1.isEmpty = true := fun h => hne (List.isEmpty_iff.mp h)
  rw [wrElement, if_neg hempty, helperWrite, helperRead]
  cases hwrite : wire.write element.2 element.1 with
  | error fault => exact Or.inl ⟨Or.inl ⟨fault, rfl⟩, _, rfl⟩
  | ok n =>
      cases hread : wire.read element.2 element.1.length with
      | error fault => exact Or.inl ⟨Or.inr ⟨fault, rfl⟩, _, rfl⟩
      | ok bytes => exact Or.inr ⟨n, bytes, rfl, rfl, rfl⟩

theorem failsWr_iff (data : List (List UInt8)) :
    wire.FailsWr data ↔ ∃ err, data.zipIdx.mapM wire.wrElement = .error err := by
  rw [FallibleLoop.mapM_fails_iff, FailsWr]
  constructor
  · rintro ⟨element, hmem, hne, hfails⟩
    rcases wrElement_cases element hne with ⟨-, herr⟩ | ⟨n, bytes, hwrite, hread, -⟩
    · exact ⟨element, hmem, herr⟩
    · rw [hwrite, hread] at hfails
      rcases hfails with ⟨fault, ⟨⟩⟩ | ⟨fault, ⟨⟩⟩
  · rintro ⟨⟨d, place⟩, hmem, err, herr⟩
    by_cases hne : d = []
    · subst hne
      cases herr
    · apply Exists.intro (d, place)
      apply And.intro hmem
      apply And.intro hne
      rcases wrElement_cases (d, place) hne with ⟨hfails, -⟩ | ⟨n, bytes, -, -, hok⟩
      · exact hfails
      · rw [herr] at hok
        cases hok

theorem length_resized {len : Nat} {bytes : List UInt8} (hle : bytes.length ≤ len) :
    (resized len bytes).length = len := by
  rw [resized, List.length_append, List.length_replicate]
  omega

/-- An element of a `wr` is what the device gave exactly when its `read` was full. -/
theorem wrElement_mirrors_iff {element : List UInt8 × Nat} {res : List UInt8}
    (hok : wire.wrElement element = .ok res) :
    (res.length = element.1.length ∧ (element.1 ≠ [] →
        ∃ bytes, wire.read element.2 element.1.length = .ok bytes ∧ res = bytes)) ↔
      (element.1 ≠ [] → ∀ bytes, wire.read element.2 element.1.length = .ok bytes →
        bytes.1.length = element.1.length) := by
  by_cases hne : element.1 = []
  · have hempty : element.1.isEmpty = true := List.isEmpty_iff.mpr hne
    rw [wrElement, if_pos hempty, Except.ok.injEq] at hok
    subst hok
    rw [hne]
    simp
  · rcases wrElement_cases element hne with ⟨-, err, herr⟩ | ⟨n, bytes, -, hread, hwhole⟩
    · rw [herr] at hok
      cases hok
    · rw [hwhole, Except.ok.injEq] at hok
      subst hok
      rw [hread]
      constructor
      · rintro ⟨-, hmirrors⟩ - produced hproduced
        obtain ⟨given, hgiven, hres⟩ := hmirrors hne
        cases hproduced
        cases hgiven
        rw [← hres, length_resized bytes.2]
      · intro hfull
        have hlength := hfull hne bytes rfl
        apply And.intro (length_resized bytes.2)
        intro _
        apply Exists.intro bytes
        apply And.intro rfl
        rw [resized, hlength, Nat.sub_self, List.replicate_zero, List.append_nil]

theorem serveWr_mirrors_iff (data : List (List UInt8)) :
    (∀ res, wire.serveWr data = .ok res → wire.Mirrors (.wr data) res) ↔
      wire.MirrorsWhen (.wr data) := by
  rw [MirrorsWhen, failsWr_iff, serveWr]
  cases hloop : data.zipIdx.mapM wire.wrElement with
  | error err =>
      apply iff_of_true
      · rintro res ⟨⟩
      · exact Or.inl ⟨err, rfl⟩
  | ok datas =>
      have hnofail :
          ¬ ∃ err, (Except.ok datas : Except Error (List (List UInt8))) = .error err := by
        rintro ⟨err, ⟨⟩⟩
      rw [or_iff_right hnofail]
      have hok := (FallibleLoop.mapM_eq_ok_iff _ _).mp hloop
      constructor
      · intro hmirrors
        have helements : Elements _ data datas := hmirrors _ rfl
        have hfull := (hok.mp (fun _ _ hres hboth => hboth hres)
          (helements.imp fun _ _ hres hok => (wrElement_mirrors_iff hok).mp hres))
        have hall := (List.forall₂_and_left (R := fun _ _ => True) _ _).mp
          (hfull.imp fun _ _ h => ⟨h, trivial⟩)
        exact hall.1
      · rintro hfull res ⟨⟩
        have hboth := (List.forall₂_and_left _ _).mpr ⟨hfull, hok⟩
        exact hboth.imp fun _ _ h => (wrElement_mirrors_iff h.2).mpr h.1

theorem helperTransfer_ok {place : Nat} {buf rx : List UInt8}
    (hok : wire.helperTransfer place buf = .ok rx) :
    (wire.transfer place buf).1 = none ∧ rx = (wire.transfer place buf).2 := by
  unfold helperTransfer at hok
  split at hok
  · cases hok
  · next out heq =>
      cases hok
      exact ⟨congrArg Prod.fst heq, (congrArg (fun out => out.2.1) heq).symm⟩

theorem transferElement_mirrors {element : List UInt8 × Nat} {res : List UInt8}
    (hok : wire.transferElement element = .ok res) :
    res.length = element.1.length ∧
      (element.1 ≠ [] → res = (wire.transfer element.2 element.1).2) := by
  unfold transferElement at hok
  split at hok
  · next hempty =>
      cases hok
      have hnil := List.isEmpty_iff.mp hempty
      rw [hnil]
      exact ⟨rfl, fun hne => absurd rfl hne⟩
  · obtain ⟨-, rfl⟩ := helperTransfer_ok hok
    exact ⟨(wire.transfer _ _).2.2, fun _ => rfl⟩

theorem transferNothrow_mirrors (wire : SpiWire) (element : List UInt8 × Nat) :
    ((wire.transferNothrow element).1.length = element.1.length ∧
        (element.1 ≠ [] →
          (wire.transferNothrow element).1 = (wire.transfer element.2 element.1).2)) ∧
      ((wire.transferNothrow element).2 = 0 ↔
        element.1 = [] ∨ (wire.transfer element.2 element.1).1 = none) := by
  unfold transferNothrow
  by_cases hempty : element.1.isEmpty = true
  · have hnil := List.isEmpty_iff.mp hempty
    rw [if_pos hempty, hnil]
    simp
  · have hne : element.1 ≠ [] := fun h => hempty (List.isEmpty_iff.mpr h)
    rw [if_neg hempty, or_iff_right hne]
    have hlength := (wire.transfer element.2 element.1).2.2
    split
    · next fault buf heq =>
        rw [heq] at hlength ⊢
        refine ⟨⟨hlength, fun _ => rfl⟩, iff_of_false fault.2 ?_⟩
        rintro ⟨⟩
    · next rx heq =>
        rw [heq] at hlength ⊢
        exact ⟨⟨hlength, fun _ => rfl⟩, iff_of_true rfl rfl⟩

theorem serveTransferList_mirrors (datas : List (List UInt8)) (nothrow : Bool)
    {res : SpiResponse} (hok : wire.serveTransferList datas nothrow = .ok res) :
    wire.Mirrors (.transferList datas nothrow) res := by
  cases nothrow with
  | true =>
      cases hok
      constructor
      · rw [Elements, List.forall₂_map_right_iff, List.forall₂_map_right_iff, List.forall₂_same]
        intro element _
        exact (transferNothrow_mirrors wire element).1
      · intro _
        rw [List.forall₂_map_right_iff, List.forall₂_map_right_iff, List.forall₂_same]
        intro element _
        exact (transferNothrow_mirrors wire element).2
  | false =>
      unfold serveTransferList at hok
      cases hloop : datas.zipIdx.mapM wire.transferElement with
      | error err =>
          rw [hloop] at hok
          cases hok
      | ok elements =>
          rw [hloop] at hok
          cases hok
          constructor
          · exact ((FallibleLoop.mapM_eq_ok_iff _ _).mp hloop).imp
              fun _ _ hres => transferElement_mirrors hres
          · rintro ⟨⟩

end SpiWire

end FerroRemote.Agent

/-
# SPI data, from the client to the devices

A `spi_impl` hands its data to the service as it is, and what comes back to its
caller as it is. A length is a `size_t` with the client and 32 bits wide in the
message. The client has no word for `nothrow`, so the requests have more to them
than its calls.
-/

import FerroRemote.Agent.SpiData

namespace FerroRemote.Client

open FerroRemote.Agent

/-- What moves data through a `spi_impl`; it has two `transfer`s. -/
inductive SpiCall
  | read (len : Nat)
  | wr (d : List (List UInt8))
  | transfer (data : List UInt8)
  | transferVector (data : List (List UInt8))
  deriving Repr

inductive SpiAnswer
  | string (data : ResponseString)
  | stringVector (data : List (List UInt8))
  deriving DecidableEq, Repr

def SpiCall.request : SpiCall → SpiRequest
  | .read len => .read (UInt32.ofNat len)
  | .wr d => .wr d
  | .transfer data => .transfer data
  | .transferVector data => .transferList data false

def SpiAnswer.ofResponse : SpiResponse → SpiAnswer
  | .data data => .string data
  | .datas datas _ => .stringVector datas

variable (wires : SpiDevice → SpiWire) (files : IndexMap SpiInfo) (hdl : Nat)

/-- A call through a handle, and its answer. -/
def SpiCall.answer (call : SpiCall) : Except Error SpiAnswer :=
  (spiServe wires files hdl call.request).map SpiAnswer.ofResponse

/-- The device of a handle. A handle that is not known has no device, and anything
said of it is said of all of them. -/
def IsWireOf (wire : SpiWire) : Prop :=
  ∀ f, files.map[hdl]? = some f → wire = wires f.device

/-- A response, if there is one, mirrors the device. -/
def MirrorsDevice (req : SpiRequest) : Prop :=
  ∀ res, spiServe wires files hdl req = .ok res →
    ∀ wire, IsWireOf wires files hdl wire → wire.Mirrors req res

/-- So does what a call returns, if it returns. -/
def SpiCall.MirrorsDevice (call : SpiCall) : Prop :=
  ∀ answer, call.answer wires files hdl = .ok answer →
    ∀ wire, IsWireOf wires files hdl wire →
      ∃ res, answer = .ofResponse res ∧ wire.Mirrors call.request res

/-- No string object is written over, and no device is too short with its bytes. -/
def SparesStrings (req : SpiRequest) : Prop :=
  ∀ f, files.map[hdl]? = some f → (wires f.device).MirrorsWhen req

variable {wires files hdl}

/-- A transfer that is served through a known handle mirrors its device, and one of
nothing mirrors any device. -/
theorem mirrorsDevice_transfer (data : List UInt8) :
    MirrorsDevice wires files hdl (.transfer data) := by
  intro res hok wire hwire
  simp only [spiServe] at hok
  split at hok
  · next hempty =>
      cases hok
      rw [List.isEmpty_iff.mp hempty]
      exact ⟨[], rfl, rfl, fun hne => absurd rfl hne⟩
  · unfold spiFile at hok
    cases hf : files.map[hdl]? with
    | none =>
        rw [hf] at hok
        cases hok
    | some f =>
        obtain rfl := hwire f hf
        rw [hf] at hok
        change ((wires f.device).helperTransfer 0 data >>= fun rx =>
          pure (SpiResponse.data (.value rx))) = .ok res at hok
        cases hrx : (wires f.device).helperTransfer 0 data with
        | error err =>
            rw [hrx] at hok
            cases hok
        | ok rx =>
            rw [hrx] at hok
            cases hok
            obtain ⟨-, rfl⟩ := SpiWire.helperTransfer_ok hrx
            exact ⟨_, rfl, ((wires f.device).transfer 0 data).2.2, fun _ => rfl⟩

theorem mirrorsDevice_transferList (datas : List (List UInt8)) (nothrow : Bool) :
    MirrorsDevice wires files hdl (.transferList datas nothrow) := by
  intro res hok wire hwire
  simp only [spiServe] at hok
  split at hok
  · next hempty =>
      cases hok
      rw [List.isEmpty_iff.mp hempty]
      exact ⟨List.Forall₂.nil, fun _ => List.Forall₂.nil⟩
  · unfold spiFile at hok
    cases hf : files.map[hdl]? with
    | none =>
        rw [hf] at hok
        cases hok
    | some f =>
        obtain rfl := hwire f hf
        rw [hf] at hok
        exact SpiWire.serveTransferList_mirrors datas nothrow hok

/-- A handler that begins with its handle is right exactly when it is for the
handle's device. -/
theorem mirrorsDevice_iff_of_serve {req : SpiRequest} {serve : SpiWire → Except Error SpiResponse}
    (hserve : spiServe wires files hdl req = spiFile wires files hdl >>= serve)
    (hwire : ∀ wire : SpiWire, (∀ res, serve wire = .ok res → wire.Mirrors req res) ↔
      wire.MirrorsWhen req) :
    MirrorsDevice wires files hdl req ↔ SparesStrings wires files hdl req := by
  rw [MirrorsDevice, SparesStrings, hserve, spiFile]
  cases hf : files.map[hdl]? with
  | none =>
      apply iff_of_true
      · rintro res ⟨⟩
      · rintro f ⟨⟩
  | some f =>
      constructor
      · rintro hmirrors f' ⟨⟩
        apply (hwire _).mp
        intro res hok
        apply hmirrors res hok
        intro f' hf'
        rw [hf, Option.some.injEq] at hf'
        rw [hf']
      · intro hwhen res hok wire hiswire
        obtain rfl := hiswire f hf
        exact (hwire _).mpr (hwhen f rfl) res hok

/-- The errors of a response are dropped, and a call does not ask for them. -/
theorem mirrors_of_ofResponse_eq {wire : SpiWire} {call : SpiCall} {res res' : SpiResponse}
    (heq : SpiAnswer.ofResponse res = SpiAnswer.ofResponse res')
    (hmirrors : wire.Mirrors call.request res') : wire.Mirrors call.request res := by
  cases res with
  | data data =>
      cases res' with
      | data data' =>
          cases heq
          exact hmirrors
      | datas datas' errors' => cases heq
  | datas datas errors =>
      cases res' with
      | data data' => cases heq
      | datas datas' errors' =>
          cases heq
          cases call with
          | read len => exact hmirrors
          | wr d => exact hmirrors
          | transfer data => exact hmirrors
          | transferVector data => exact ⟨hmirrors.1, fun hnothrow => by cases hnothrow⟩

theorem callMirrorsDevice_iff (call : SpiCall) :
    call.MirrorsDevice wires files hdl ↔ MirrorsDevice wires files hdl call.request := by
  rw [SpiCall.MirrorsDevice, MirrorsDevice, SpiCall.answer]
  cases hres : spiServe wires files hdl call.request with
  | error err =>
      apply iff_of_true
      · rintro answer ⟨⟩
      · rintro res ⟨⟩
  | ok res =>
      constructor
      · rintro hcall res' ⟨⟩ wire hwire
        obtain ⟨res', heq, hmirrors⟩ := hcall _ rfl wire hwire
        exact mirrors_of_ofResponse_eq heq hmirrors
      · rintro hmirrors answer ⟨⟩ wire hwire
        exact ⟨res, rfl, hmirrors res rfl wire hwire⟩

theorem mirrorsDevice_iff (req : SpiRequest) :
    MirrorsDevice wires files hdl req ↔ SparesStrings wires files hdl req := by
  cases req with
  | read len => exact mirrorsDevice_iff_of_serve rfl fun wire => wire.serveRead_mirrors_iff len
  | wr data => exact mirrorsDevice_iff_of_serve rfl fun wire => wire.serveWr_mirrors_iff data
  | transfer data => exact iff_of_true (mirrorsDevice_transfer data) fun _ _ => trivial
  | transferList datas nothrow =>
      exact iff_of_true (mirrorsDevice_transferList datas nothrow) fun _ _ => trivial

/-- Every response mirrors its device, and every call returns what its device has
produced, exactly when no string object is written over and no device is short. -/
theorem responsesMirror_iff (wires : SpiDevice → SpiWire) (files : IndexMap SpiInfo) (hdl : Nat) :
    (∀ req, MirrorsDevice wires files hdl req ↔ SparesStrings wires files hdl req) ∧
      ∀ call : SpiCall, call.MirrorsDevice wires files hdl ↔
        SparesStrings wires files hdl call.request := by
  constructor
  · intro req
    exact mirrorsDevice_iff req
  · intro call
    exact (callMirrorsDevice_iff call).trans (mirrorsDevice_iff call.request)

/-- Reads are answered with one byte, however many are asked for. -/
def oneByte : SpiWire where
  write _ tx := .ok tx.length
  read _ len :=
    match len with
    | 0 => .ok ⟨[], Nat.le_refl 0⟩
    | len + 1 => .ok ⟨[7], Nat.succ_le_succ (Nat.zero_le len)⟩
  transfer _ tx := (none, ⟨tx, rfl⟩)

def oneSpiFile : IndexMap SpiInfo where
  map := (∅ : Table SpiInfo).insert 101 { id := 101, bus := 0, channel := 0 }
  id := 101

/-- The byte of a `read` goes over the string, and a `wr` of two bytes gets one, and
a zero that no device has produced. -/
theorem string_is_overwritten :
    ¬ SpiCall.MirrorsDevice (fun _ => oneByte) oneSpiFile 101 (.read 1) ∧
      ¬ SpiCall.MirrorsDevice (fun _ => oneByte) oneSpiFile 101 (.wr [[1, 2]]) := by
  have hread : SpiCall.answer (fun _ => oneByte) oneSpiFile 101 (.read 1) =
      .ok (.string (.overwritten [7])) := by decide +kernel
  have hwr : SpiCall.answer (fun _ => oneByte) oneSpiFile 101 (.wr [[1, 2]]) =
      .ok (.stringVector [[7, 0]]) := by decide +kernel
  constructor
  · intro hmirrors
    obtain ⟨res, heq, hres⟩ := hmirrors _ hread oneByte fun _ _ => rfl
    cases res with
    | data data =>
        cases heq
        obtain ⟨bytes, -, ⟨⟩⟩ := hres
    | datas datas errors => cases heq
  · intro hmirrors
    obtain ⟨res, heq, hres⟩ := hmirrors _ hwr oneByte fun _ _ => rfl
    cases res with
    | data data => cases heq
    | datas datas errors =>
        cases heq
        obtain ⟨-, hproduced⟩ := (List.forall₂_cons.mp hres).1
        obtain ⟨bytes, hbytes, hvalue⟩ := hproduced (List.cons_ne_nil 1 [2])
        cases hbytes
        cases hvalue

end FerroRemote.Client

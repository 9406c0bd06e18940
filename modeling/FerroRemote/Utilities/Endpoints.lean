/-
# Endpoints

An endpoint is given to the agent, to the client library and to a console as text:
`address:port`, or the name of a local socket. The agent and the client library have a
copy each of `get_endpoint_info`, and a client that connects has a parser of its own,
`get_connect_info`.

`strtoul` does not touch `errno` unless the number is too long, so what the parsers
find there may have been left by anything before.
-/

import FerroRemote.Agent.Kernel
import FerroRemote.Math.Numerals

namespace FerroRemote.Utilities

open FerroRemote.Agent (Errno EINVAL)

def ERANGE : Errno := 34

/-- How long a `long` is on a platform. -/
inductive LongWidth
  | ilp32
  | lp64
  deriving DecidableEq, Repr

def LongWidth.bits : LongWidth → Nat
  | ilp32 => 32
  | lp64 => 64

/-- `ep_type`: the names for IP, UDP and TCP are one value. -/
inductive EpType
  | none
  | localEp
  | ip
  deriving DecidableEq, Repr

structure EndpointInfo where
  addpess : List Char := []
  service : UInt16 := 0
  flags : Nat := 0
  type : EpType := .none
  deriving DecidableEq, Repr

def flagSsl : Nat := 0x01

/-- The end of `get_endpoint_info`: a leading `@` asks for SSL. -/
def EndpointInfo.finish (res : EndpointInfo) (tmpAddr : List Char) : EndpointInfo :=
  match tmpAddr with
  | '@' :: addr => { res with addpess := addr, flags := flagSsl }
  | _ => { res with addpess := tmpAddr }

/-- `str_res == ULONG_MAX && errno == EINVAL`, with what `errno` was before. -/
def refused (w : LongWidth) (errno : Errno) (svc : Numeral) : Bool :=
  svc.strtoul w.bits == Numeral.ulongMax w.bits &&
    (if svc.overflows w.bits then ERANGE else errno) == EINVAL

namespace Agent

/-- `get_endpoint_info` of the agent. -/
def getEndpointInfo (w : LongWidth) (errno : Errno) (ep : List Char) : EndpointInfo :=
  match splitLast ':' ep with
  | none => { type := .localEp : EndpointInfo }.finish ep
  | some (tmpAddr, svcTmp) =>
    let svc := Numeral.scan svcTmp
    if refused w errno svc then { type := .none : EndpointInfo }.finish tmpAddr
    else { type := .ip, addpess := tmpAddr, service := UInt16.ofNat (svc.strtoul w.bits) }

end Agent

namespace Client

/-- `get_endpoint_info` of the client library. -/
def getEndpointInfo (w : LongWidth) (errno : Errno) (ep : List Char) : EndpointInfo :=
  match splitLast ':' ep with
  | none => { type := .localEp : EndpointInfo }.finish ep
  | some (tmpAddr, svcTmp) =>
    let svc := Numeral.scan svcTmp
    if refused w errno svc then { type := .none : EndpointInfo }.finish tmpAddr
    else { type := .ip, service := UInt16.ofNat (svc.strtoul w.bits) }

inductive ConnectionName
  | pipe
  | tcp
  deriving DecidableEq, Repr

structure ConnectInfo where
  name : ConnectionName
  server : List Char
  port : UInt16
  tcpNowait : Bool
  deriving DecidableEq, Repr

/-- `get_connect_info`. What it does not set is zero: the object is made by value
initialization. -/
def getConnectInfo (w : LongWidth) (name : List Char) (nw : Bool) : ConnectInfo :=
  match splitLast ':' name with
  | none => { name := .pipe, server := name, port := 0, tcpNowait := false }
  | some (server, svcTmp) =>
    { name := .tcp, server, port := UInt16.ofInt ((Numeral.scan svcTmp).atoi w.bits),
      tcpNowait := nw }

end Client

/-- An agent and a client, on platforms of their own, read one endpoint from a text. -/
structure EndpointsAgree (agent client : LongWidth) (agentErrno clientErrno : Errno)
    (ep : List Char) : Prop where
  infos : Agent.getEndpointInfo agent agentErrno ep =
    Client.getEndpointInfo client clientErrno ep
  connects : ep.head? ≠ some '@' → ∀ nw,
    (Client.getConnectInfo client ep nw).server =
        (Client.getEndpointInfo client clientErrno ep).addpess ∧
      (Client.getConnectInfo client ep nw).port =
        (Client.getEndpointInfo client clientErrno ep).service

/-- A parser does not take the number for a port: an earlier call has left `EINVAL`, and
the number is the greatest one. -/
def Refused (w : LongWidth) (errno : Errno) (svc : Numeral) : Prop :=
  svc.AllOnes w.bits ∧ errno = EINVAL

/-- When the parsers agree: there is no colon; or nothing before the last one, and a
number after it that is read the same by all three; or the number is refused by both
copies, and a leading `@` leaves the third out. -/
def AgreeWhen (agent client : LongWidth) (agentErrno clientErrno : Errno)
    (ep : List Char) : Prop :=
  match splitLast ':' ep with
  | none => True
  | some (host, svcTmp) =>
    let svc := Numeral.scan svcTmp
    (Refused agent agentErrno svc ∧ Refused client clientErrno svc ∧ ep.head? = some '@') ∨
      (¬ Refused agent agentErrno svc ∧ ¬ Refused client clientErrno svc ∧ host = [] ∧
        svc.SameLowBits agent.bits client.bits ∧ svc.LowBitsAgree client.bits)

theorem LongWidth.enough (w : LongWidth) : 17 ≤ w.bits := by
  cases w with
  | ilp32 => decide
  | lp64 => decide

theorem refused_iff (w : LongWidth) (errno : Errno) (svc : Numeral) :
    refused w errno svc = true ↔ Refused w errno svc := by
  rw [refused, Refused, Bool.and_eq_true, beq_iff_eq, beq_iff_eq]
  by_cases hfits : 2 ^ w.bits ≤ svc.magnitude
  · have hover : svc.overflows w.bits = true := decide_eq_true hfits
    rw [if_pos hover]
    constructor
    · intro h
      exact absurd h.2 (by decide)
    · intro h
      exact absurd hfits (h.1.fits w.enough)
  · have hover : ¬ svc.overflows w.bits = true := fun h => hfits (of_decide_eq_true h)
    rw [if_neg hover, Numeral.strtoul_eq_max_iff w.enough hfits]

theorem ofNat_eq_ofNat_iff (a b : Nat) :
    UInt16.ofNat a = UInt16.ofNat b ↔ a % 65536 = b % 65536 := by
  rw [← UInt16.toNat_inj, UInt16.toNat_ofNat', UInt16.toNat_ofNat']

theorem ofInt_eq_ofNat_iff (a : Int) (b : Nat) :
    UInt16.ofInt a = UInt16.ofNat b ↔ (b : Int) % 65536 = a % 65536 := by
  rw [UInt16.ofInt, ofNat_eq_ofNat_iff]
  omega

section Colon

variable {ep host svcTmp : List Char}

/-- A text begins with what is before its last colon. -/
theorem head_eq_host (hsplit : splitLast ':' ep = some (host, svcTmp)) :
    ep.head? = some '@' ↔ ∃ addr, host = '@' :: addr := by
  rw [eq_of_splitLast hsplit]
  cases host with
  | nil => simp
  | cons c host => simp

theorem finish_addpess (res : EndpointInfo) (hhost : ∀ addr, host ≠ '@' :: addr) :
    (res.finish host).addpess = host := by
  unfold EndpointInfo.finish
  split
  · exact absurd rfl (hhost _)
  · rfl

theorem finish_service (res : EndpointInfo) : (res.finish host).service = res.service := by
  unfold EndpointInfo.finish
  split <;> rfl

theorem finish_type (res : EndpointInfo) : (res.finish host).type = res.type := by
  unfold EndpointInfo.finish
  split <;> rfl

variable (agent client : LongWidth) (agentErrno clientErrno : Errno)

/-- The copies agree on a text with a colon if they both refuse the number, or both take
it and the agent has no address. -/
theorem infos_iff (hsplit : splitLast ':' ep = some (host, svcTmp)) :
    Agent.getEndpointInfo agent agentErrno ep = Client.getEndpointInfo client clientErrno ep ↔
      (Refused agent agentErrno (.scan svcTmp) ∧ Refused client clientErrno (.scan svcTmp)) ∨
        (¬ Refused agent agentErrno (.scan svcTmp) ∧
          ¬ Refused client clientErrno (.scan svcTmp) ∧ host = [] ∧
          (Numeral.scan svcTmp).SameLowBits agent.bits client.bits) := by
  have hnone : ({ type := .none : EndpointInfo }.finish host).type ≠ .ip := by
    rw [finish_type]
    decide
  simp only [Agent.getEndpointInfo, Client.getEndpointInfo, hsplit]
  rw [← refused_iff, ← refused_iff]
  by_cases ha : refused agent agentErrno (.scan svcTmp) = true
  · rw [if_pos ha]
    by_cases hc : refused client clientErrno (.scan svcTmp) = true
    · rw [if_pos hc]
      simp only [ha, hc, and_true, true_or]
    · rw [if_neg hc]
      apply iff_of_false
      · intro heq
        rw [heq] at hnone
        exact hnone rfl
      · simp [ha, hc]
  · rw [if_neg ha]
    by_cases hc : refused client clientErrno (.scan svcTmp) = true
    · rw [if_pos hc]
      apply iff_of_false
      · intro heq
        rw [← heq] at hnone
        exact hnone rfl
      · simp [ha, hc]
    · rw [if_neg hc]
      simp [ofNat_eq_ofNat_iff, ha, hc,
        Numeral.same_low_bits_iff agent.enough client.enough]

/-- A client that connects finds the address and the port of its own copy if that has no
address either, and the number is read the same. -/
theorem connects_iff (hsplit : splitLast ':' ep = some (host, svcTmp)) (nw : Bool) :
    ((Client.getConnectInfo client ep nw).server =
        (Client.getEndpointInfo client clientErrno ep).addpess ∧
      (Client.getConnectInfo client ep nw).port =
        (Client.getEndpointInfo client clientErrno ep).service) ↔
      ¬ Refused client clientErrno (.scan svcTmp) ∧ host = [] ∧
        (Numeral.scan svcTmp).LowBitsAgree client.bits := by
  simp only [Client.getConnectInfo, Client.getEndpointInfo, hsplit]
  by_cases hc : refused client clientErrno (.scan svcTmp) = true
  · have hrefused := (refused_iff _ _ _).mp hc
    rw [if_pos hc, finish_service]
    simp only [hrefused, not_true, false_and, iff_false, not_and]
    intro _ hport
    have hzero := (ofInt_eq_ofNat_iff _ 0).mp hport
    exact hrefused.1.atoi_emod_ne client.enough hzero.symm
  · have hrefused := mt (refused_iff _ _ _).mpr hc
    rw [if_neg hc, ofInt_eq_ofNat_iff, Numeral.atoi_emod,
      Numeral.low_bits_iff client.enough]
    simp only [hrefused, not_false_eq_true, true_and]

end Colon

theorem endpointsAgree_local {ep : List Char} (hsplit : splitLast ':' ep = none)
    (agent client : LongWidth) (agentErrno clientErrno : Errno) :
    EndpointsAgree agent client agentErrno clientErrno ep := by
  have hhost (hssl : ep.head? ≠ some '@') (addr : List Char) : ep ≠ '@' :: addr := by
    intro heq
    exact hssl (by rw [heq, List.head?_cons])
  constructor
  · simp only [Agent.getEndpointInfo, Client.getEndpointInfo, hsplit]
  · intro hssl nw
    simp only [Client.getEndpointInfo, Client.getConnectInfo, hsplit, finish_service,
      finish_addpess _ (hhost hssl), and_self]

/-- The parsers agree exactly when `AgreeWhen` says so. -/
theorem endpointsAgree_iff (agent client : LongWidth) (agentErrno clientErrno : Errno)
    (ep : List Char) :
    EndpointsAgree agent client agentErrno clientErrno ep ↔
      AgreeWhen agent client agentErrno clientErrno ep := by
  rw [AgreeWhen]
  cases hsplit : splitLast ':' ep with
  | none => exact iff_of_true (endpointsAgree_local hsplit _ _ _ _) trivial
  | some parts =>
      obtain ⟨host, svcTmp⟩ := parts
      have hinfos := infos_iff agent client agentErrno clientErrno hsplit
      have hconnects := connects_iff client clientErrno hsplit
      have hempty : host = [] → ep.head? ≠ some '@' := by
        intro hnil hssl
        obtain ⟨addr, heq⟩ := (head_eq_host hsplit).mp hssl
        rw [hnil] at heq
        cases heq
      constructor
      · intro h
        by_cases hssl : ep.head? = some '@'
        · apply Or.inl
          obtain ⟨ha, hc⟩ | ⟨-, -, hnil, -⟩ := hinfos.mp h.infos
          · exact ⟨ha, hc, hssl⟩
          · exact absurd hssl (hempty hnil)
        · obtain ⟨hc, hnil, hlow⟩ := (hconnects false).mp (h.connects hssl false)
          obtain ⟨-, hrefused⟩ | ⟨ha, -, -, hsame⟩ := hinfos.mp h.infos
          · exact absurd hrefused hc
          · exact Or.inr ⟨ha, hc, hnil, hsame, hlow⟩
      · intro h
        obtain ⟨ha, hc, hssl⟩ | ⟨ha, hc, hnil, hsame, hlow⟩ := h
        · exact ⟨hinfos.mpr (Or.inl ⟨ha, hc⟩), fun hno => absurd hssl hno⟩
        · exact ⟨hinfos.mpr (Or.inr ⟨ha, hc, hnil, hsame⟩),
            fun hno nw => (hconnects nw).mpr ⟨hc, hnil, hlow⟩⟩

/-- The agent listens on an address and a port, and the client pings the port alone. -/
theorem address_is_lost :
    ¬ EndpointsAgree .lp64 .lp64 0 0 "127.0.0.1:12345".toList := by
  intro h
  have haddr := congrArg EndpointInfo.addpess h.infos
  revert haddr
  decide +kernel

end FerroRemote.Utilities

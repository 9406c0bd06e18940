/-
# The answer to a multicast request

The agent answers a client that looks for agents with the endpoints it can be reached
at: for every network interface whose subnet the client is in, the address of the
interface with the port of every listener that belongs to the interface.

`check_listener` takes a listener for the interface's own when its address is in the
interface's subnet, not when it is the interface's address. Two interfaces in one
subnet are enough for the answer to name an endpoint that nothing listens on.
-/

import FerroRemote.Utilities.Endpoints
import Mathlib.Data.Finset.Basic

namespace FerroRemote.Agent

open Utilities

/-- `boost::asio::ip::address`. What is compared of one is its bytes, so the scope of an
IPv6 address is left out. -/
inductive Address
  | v4 (addr : UInt32)
  | v6 (bytes : Vector UInt8 16)
  deriving DecidableEq, Repr

namespace Address

def isV4 : Address → Bool
  | v4 _ => true
  | v6 _ => false

def isUnspecified : Address → Bool
  | v4 addr => addr == 0
  | v6 bytes => bytes == Vector.replicate 16 0

def width : Address → Nat
  | v4 _ => 32
  | v6 _ => 128

/-- A bit: within each of its words, from the lowest. -/
def bit : Address → Nat → Bool
  | v4 addr, n => addr.toBitVec.getLsbD n
  | v6 bytes, n => (bytes[n / 8]?.getD 0).toBitVec.getLsbD (n % 8)

end Address

/-- `iface_info`: an address and a mask of one family. -/
inductive IfaceInfo
  | v4 (sockaddr mask : UInt32)
  | v6 (sockaddr mask : Vector UInt8 16)
  deriving DecidableEq, Repr

namespace IfaceInfo

def addr : IfaceInfo → Address
  | v4 sockaddr _ => .v4 sockaddr
  | v6 sockaddr _ => .v6 sockaddr

def mask : IfaceInfo → Address
  | v4 _ mask => .v4 mask
  | v6 _ mask => .v6 mask

def check : IfaceInfo → Address → Bool
  | v4 sa ma, .v4 ta => (sa &&& ma) == (ta &&& ma)
  | v6 sa ma, .v6 ta => decide (∀ k : Fin 16, sa[k] &&& ma[k] = ta[k] &&& ma[k])
  | _, _ => false

/-- An address is of the interface's family, and has its bits wherever the mask has
one. -/
def InSubnet (inf : IfaceInfo) (test : Address) : Prop :=
  inf.addr.isV4 = test.isV4 ∧
    ∀ n < inf.addr.width, inf.mask.bit n = true → inf.addr.bit n = test.bit n

end IfaceInfo

/-- A `listener_info`: what the listener was configured as, and the address that was
read from it. -/
structure ListenerInfo where
  info : EndpointInfo
  addr : Address
  deriving Repr

namespace ListenerInfo

/-- `info.is_ip`. -/
def isIp (lst : ListenerInfo) : Bool := lst.info.type == .ip

/-- A listener accepts connections on an address: it is bound to that one, or to any
of the family. -/
def AcceptsOn (lst : ListenerInfo) (addr : Address) : Prop :=
  lst.addr.isV4 = addr.isV4 ∧ (lst.addr.isUnspecified = true ∨ lst.addr = addr)

instance (lst : ListenerInfo) (addr : Address) : Decidable (lst.AcceptsOn addr) := by
  unfold AcceptsOn
  infer_instance

end ListenerInfo

def checkListener (inf : IfaceInfo) (lst : ListenerInfo) : Bool :=
  lst.isIp && lst.addr.isV4 == inf.addr.isV4 &&
    (lst.addr.isUnspecified || inf.check lst.addr)

structure MulticastResponse where
  gpioAvailable : Bool := false
  endpoints : Finset (List Char) := ∅

/-- `oss << i.addr( ) << ":" << lst.info.service`. -/
def endpointText (text : Address → List Char) (addr : Address) (service : UInt16) : List Char :=
  text addr ++ ':' :: decimal service.toNat

/-- The loop of `mcast_res` over the listeners. -/
def addListeners (text : Address → List Char) (inf : IfaceInfo) (listeners : List ListenerInfo)
    (res : MulticastResponse) : MulticastResponse :=
  listeners.foldl (fun res lst =>
    if checkListener inf lst then
      { res with endpoints := insert (endpointText text inf.addr lst.info.service) res.endpoints }
    else res) res

/-- `mcast_res`, with how addresses are written. -/
def mcastRes (text : Address → List Char) (ifaces : List IfaceInfo)
    (listeners : List ListenerInfo) (client : Address) (res : MulticastResponse) :
    MulticastResponse :=
  ifaces.foldl (fun res inf =>
    if inf.check client then addListeners text inf listeners res else res) res

/-- What the answer is to hold: the addresses that the client shares a subnet with, each
with the ports that a listener accepts connections at on that address. -/
def Reachable (ifaces : List IfaceInfo) (listeners : List ListenerInfo) (client : Address)
    (addr : Address) (service : UInt16) : Prop :=
  (∃ inf ∈ ifaces, inf.addr = addr ∧ inf.InSubnet client) ∧
    ∃ lst ∈ listeners, lst.isIp = true ∧ lst.info.service = service ∧ lst.AcceptsOn addr

/-- The answer holds what it is to hold. -/
def AnswersRight (text : Address → List Char) (ifaces : List IfaceInfo)
    (listeners : List ListenerInfo) (client : Address) : Prop :=
  ∀ ep, ep ∈ (mcastRes text ifaces listeners client {}).endpoints ↔
    ∃ addr service, Reachable ifaces listeners client addr service ∧
      ep = endpointText text addr service

/-- No listener strays: where one has an address in the subnet of an interface that the
client shares, some listener accepts connections at its port on the interface's own
address. -/
def NoStray (ifaces : List IfaceInfo) (listeners : List ListenerInfo) (client : Address) :
    Prop :=
  ∀ inf ∈ ifaces, inf.InSubnet client → ∀ lst ∈ listeners, lst.isIp = true →
    inf.InSubnet lst.addr → ∃ other ∈ listeners, other.isIp = true ∧
      other.info.service = lst.info.service ∧ other.AcceptsOn inf.addr

/-- Words agree under a mask when they agree at its bits. -/
theorem and_eq_and_iff {w : Nat} (a b mask : BitVec w) :
    a &&& mask = b &&& mask ↔ ∀ n < w, mask.getLsbD n = true → a.getLsbD n = b.getLsbD n := by
  constructor
  · intro heq n _ hmask
    have hbit := congrArg (BitVec.getLsbD · n) heq
    simpa only [BitVec.getLsbD_and, hmask, Bool.and_true] using hbit
  · intro hbits
    apply BitVec.eq_of_getLsbD_eq
    intro n hn
    rw [BitVec.getLsbD_and, BitVec.getLsbD_and]
    cases hmask : mask.getLsbD n with
    | true => rw [hbits n hn hmask]
    | false => rw [Bool.and_false, Bool.and_false]

theorem Address.bit_v6 (bytes : Vector UInt8 16) (k : Fin 16) {n : Nat} (hn : n < 8) :
    (Address.v6 bytes).bit (8 * k + n) = bytes[k].toBitVec.getLsbD n := by
  have hbyte : (8 * (k : Nat) + n) / 8 = k := by omega
  have hrest : (8 * (k : Nat) + n) % 8 = n := by omega
  rw [bit, hbyte, hrest]
  simp

theorem check_iff (inf : IfaceInfo) (test : Address) :
    inf.check test = true ↔ inf.InSubnet test := by
  cases inf with
  | v4 sa ma =>
      cases test with
      | v4 ta =>
          rw [IfaceInfo.check, beq_iff_eq, ← UInt32.toBitVec_inj, UInt32.toBitVec_and,
            UInt32.toBitVec_and, and_eq_and_iff]
          exact ⟨fun h => ⟨rfl, h⟩, fun h => h.2⟩
      | v6 ta => exact iff_of_false Bool.false_ne_true fun h => Bool.noConfusion h.1
  | v6 sa ma =>
      cases test with
      | v4 ta => exact iff_of_false Bool.false_ne_true fun h => Bool.noConfusion h.1
      | v6 ta =>
          rw [IfaceInfo.check, decide_eq_true_iff]
          constructor
          · intro hbytes
            apply And.intro rfl
            intro n hn hmask
            change n < 128 at hn
            have hbyte := hbytes ⟨n / 8, by omega⟩
            rw [← UInt8.toBitVec_inj, UInt8.toBitVec_and, UInt8.toBitVec_and,
              and_eq_and_iff] at hbyte
            have hsplit : n = 8 * (⟨n / 8, by omega⟩ : Fin 16) + n % 8 := by
              simp only
              omega
            have hlow : n % 8 < 8 := by omega
            change (Address.v6 ma).bit n = true at hmask
            change (Address.v6 sa).bit n = (Address.v6 ta).bit n
            rw [hsplit, Address.bit_v6 _ _ hlow] at hmask ⊢
            rw [Address.bit_v6 _ _ hlow]
            exact hbyte _ hlow hmask
          · intro h k
            rw [← UInt8.toBitVec_inj, UInt8.toBitVec_and, UInt8.toBitVec_and, and_eq_and_iff]
            intro n hn hmask
            have hbit := h.2 (8 * k + n) (by
              change 8 * (k : Nat) + n < 128
              omega)
            change (Address.v6 ma).bit _ = true → (Address.v6 sa).bit _ = (Address.v6 ta).bit _
              at hbit
            rw [Address.bit_v6 _ _ hn, Address.bit_v6 _ _ hn, Address.bit_v6 _ _ hn] at hbit
            exact hbit hmask

theorem inSubnet_addr (inf : IfaceInfo) : inf.InSubnet inf.addr := ⟨rfl, fun _ _ _ => rfl⟩

theorem checkListener_iff (inf : IfaceInfo) (lst : ListenerInfo) :
    checkListener inf lst = true ↔
      lst.isIp = true ∧ (lst.AcceptsOn inf.addr ∨ inf.InSubnet lst.addr) := by
  rw [checkListener, Bool.and_eq_true, Bool.and_eq_true, Bool.or_eq_true, beq_iff_eq,
    check_iff, ListenerInfo.AcceptsOn]
  constructor
  · rintro ⟨⟨hip, hfamily⟩, hany | hin⟩
    · exact ⟨hip, Or.inl ⟨hfamily, Or.inl hany⟩⟩
    · exact ⟨hip, Or.inr hin⟩
  · rintro ⟨hip, ⟨hfamily, hany | hown⟩ | hin⟩
    · exact ⟨⟨hip, hfamily⟩, Or.inl hany⟩
    · exact ⟨⟨hip, hfamily⟩, Or.inr (hown ▸ inSubnet_addr inf)⟩
    · exact ⟨⟨hip, hin.1.symm⟩, Or.inr hin⟩

section Loops

variable (text : Address → List Char) (listeners : List ListenerInfo) (ep : List Char)

theorem mem_addListeners (inf : IfaceInfo) (res : MulticastResponse) :
    ep ∈ (addListeners text inf listeners res).endpoints ↔
      ep ∈ res.endpoints ∨ ∃ lst ∈ listeners, checkListener inf lst = true ∧
        ep = endpointText text inf.addr lst.info.service := by
  unfold addListeners
  induction listeners generalizing res with
  | nil => simp
  | cons lst listeners ih =>
      rw [List.foldl_cons, ih]
      by_cases hcheck : checkListener inf lst = true
      · rw [if_pos hcheck]
        simp only [Finset.mem_insert, List.exists_mem_cons_iff, hcheck, true_and]
        rw [or_left_comm, or_assoc]
      · rw [if_neg hcheck]
        simp only [List.exists_mem_cons_iff, hcheck, false_and, Bool.false_eq_true, false_or]

/-- What the answer holds: an endpoint for each interface the client is at and each
listener that `check_listener` accepts for it. -/
theorem mem_mcastRes (ifaces : List IfaceInfo) (client : Address) (res : MulticastResponse) :
    ep ∈ (mcastRes text ifaces listeners client res).endpoints ↔
      ep ∈ res.endpoints ∨ ∃ inf ∈ ifaces, inf.check client = true ∧
        ∃ lst ∈ listeners, checkListener inf lst = true ∧
          ep = endpointText text inf.addr lst.info.service := by
  unfold mcastRes
  induction ifaces generalizing res with
  | nil => simp
  | cons inf ifaces ih =>
      rw [List.foldl_cons, ih]
      by_cases hcheck : inf.check client = true
      · rw [if_pos hcheck, mem_addListeners]
        simp only [List.exists_mem_cons_iff, hcheck, true_and]
        rw [or_assoc]
      · rw [if_neg hcheck]
        simp only [List.exists_mem_cons_iff, hcheck, false_and, Bool.false_eq_true, false_or]

end Loops

section Answer

variable {text : Address → List Char} {ifaces : List IfaceInfo}
  {listeners : List ListenerInfo} {client : Address}

theorem endpointText_inj {addr addr' : Address} {service service' : UInt16}
    (heq : endpointText text addr service = endpointText text addr' service') :
    text addr = text addr' ∧ service = service' := by
  obtain ⟨haddr, hservice⟩ := append_sep_inj (not_mem_decimal _ (by decide))
    (not_mem_decimal _ (by decide)) heq
  exact ⟨haddr, UInt16.toNat_inj.mp (decimal_inj hservice)⟩

theorem mem_answer (ep : List Char) :
    ep ∈ (mcastRes text ifaces listeners client {}).endpoints ↔
      ∃ inf ∈ ifaces, inf.InSubnet client ∧ ∃ lst ∈ listeners,
        (lst.isIp = true ∧ (lst.AcceptsOn inf.addr ∨ inf.InSubnet lst.addr)) ∧
          ep = endpointText text inf.addr lst.info.service := by
  rw [mem_mcastRes]
  simp only [check_iff, checkListener_iff, Finset.notMem_empty, false_or]

theorem mem_answer_of_reachable {addr : Address} {service : UInt16}
    (hreach : Reachable ifaces listeners client addr service) :
    endpointText text addr service ∈ (mcastRes text ifaces listeners client {}).endpoints := by
  obtain ⟨⟨inf, hinf, rfl, hclient⟩, lst, hlst, hip, rfl, haccepts⟩ := hreach
  exact (mem_answer _).mpr ⟨inf, hinf, hclient, lst, hlst, ⟨hip, Or.inl haccepts⟩, rfl⟩

/-- Where the addresses of the interfaces are written differently, the answer is right
exactly when no listener strays. -/
theorem answersRight_iff
    (hwritten : ∀ inf ∈ ifaces, ∀ inf' ∈ ifaces,
      text inf.addr = text inf'.addr → inf.addr = inf'.addr) :
    AnswersRight text ifaces listeners client ↔ NoStray ifaces listeners client := by
  constructor
  · intro hright inf hinf hclient lst hlst hip hin
    have hmem : endpointText text inf.addr lst.info.service ∈
        (mcastRes text ifaces listeners client {}).endpoints :=
      (mem_answer _).mpr ⟨inf, hinf, hclient, lst, hlst, ⟨hip, Or.inr hin⟩, rfl⟩
    obtain ⟨addr, service, ⟨⟨inf', hinf', rfl, -⟩, other, hother⟩, heq⟩ :=
      (hright _).mp hmem
    obtain ⟨haddr, hservice⟩ := endpointText_inj heq
    rw [hservice, hwritten inf hinf inf' hinf' haddr]
    exact ⟨other, hother⟩
  · intro hstray ep
    constructor
    · intro hmem
      obtain ⟨inf, hinf, hclient, lst, hlst, ⟨hip, hfound⟩, rfl⟩ := (mem_answer ep).mp hmem
      apply Exists.intro inf.addr
      apply Exists.intro lst.info.service
      cases hfound with
      | inl haccepts =>
          exact ⟨⟨⟨inf, hinf, rfl, hclient⟩, lst, hlst, hip, rfl, haccepts⟩, rfl⟩
      | inr hin =>
          exact ⟨⟨⟨inf, hinf, rfl, hclient⟩, hstray inf hinf hclient lst hlst hip hin⟩, rfl⟩
    · rintro ⟨addr, service, hreach, rfl⟩
      exact mem_answer_of_reachable hreach

end Answer

/-- An IPv4 address as it is written, and an IPv6 one in full. -/
def addressText : Address → List Char
  | .v4 addr =>
    decimal (addr >>> 24).toNat ++ '.' :: decimal ((addr >>> 16) &&& 0xFF).toNat ++
      '.' :: decimal ((addr >>> 8) &&& 0xFF).toNat ++ '.' :: decimal (addr &&& 0xFF).toNat
  | .v6 bytes => bytes.toList.flatMap fun b => ':' :: decimal b.toNat

/-- Two interfaces at 10.0.0.1 and 10.0.0.2, with a mask of 24 bits. -/
def twoIfaces : List IfaceInfo := [.v4 0x0A000001 0xFFFFFF00, .v4 0x0A000002 0xFFFFFF00]

/-- A listener on an address and the port 12345. -/
def listenerOn (addr : UInt32) : ListenerInfo :=
  ⟨{ type := .ip, addpess := addressText (.v4 addr), service := 12345 }, .v4 addr⟩

/-- A listener that accepts connections at both of the interfaces. -/
theorem wildcard_answersRight :
    NoStray twoIfaces [listenerOn 0] (.v4 0x0A000009) ∧
      AnswersRight addressText twoIfaces [listenerOn 0] (.v4 0x0A000009) := by
  have hwritten : ∀ inf ∈ twoIfaces, ∀ inf' ∈ twoIfaces,
      addressText inf.addr = addressText inf'.addr → inf.addr = inf'.addr := by
    decide +kernel
  have hstray : NoStray twoIfaces [listenerOn 0] (.v4 0x0A000009) := by
    intro inf hinf _ lst hlst hip hin
    apply Exists.intro (listenerOn 0)
    rw [List.mem_singleton] at hlst
    rw [hlst]
    apply And.intro List.mem_cons_self
    apply And.intro rfl
    apply And.intro rfl
    rw [twoIfaces, List.mem_pair] at hinf
    cases hinf with
    | inl heq => exact heq ▸ ⟨rfl, Or.inl rfl⟩
    | inr heq => exact heq ▸ ⟨rfl, Or.inl rfl⟩
  exact ⟨hstray, (answersRight_iff hwritten).mpr hstray⟩

/-- The listener is on 10.0.0.2 alone, and the answer names 10.0.0.1 as well. -/
theorem neighbour_is_answered :
    ¬ AnswersRight addressText twoIfaces [listenerOn 0x0A000002] (.v4 0x0A000009) := by
  intro hright
  have hmem : "10.0.0.1:12345".toList ∈
      (mcastRes addressText twoIfaces [listenerOn 0x0A000002] (.v4 0x0A000009) {}).endpoints := by
    decide +kernel
  obtain ⟨addr, service, ⟨⟨inf, hinf, rfl, -⟩, lst, hlst, -, -, -, haccepts⟩, heq⟩ :=
    (hright _).mp hmem
  rw [List.mem_singleton] at hlst
  rw [hlst] at haccepts
  have htext : "10.0.0.1:12345".toList = endpointText addressText (.v4 0x0A000001) 12345 := by
    decide +kernel
  rw [htext] at heq
  rw [twoIfaces, List.mem_pair] at hinf
  cases hinf with
  | inl hfirst =>
      rw [hfirst] at haccepts
      revert haccepts
      decide +kernel
  | inr hsecond =>
      rw [hsecond] at heq
      have haddr := (endpointText_inj heq).1
      revert haddr
      decide +kernel

end FerroRemote.Agent

/-
# The grammar of endpoints

The agent documents the texts of its endpoints as `[@]address:port`, where `@` asks for
SSL and the port is a decimal number, and as the name of a local socket. What
`get_endpoint_info` reads is compared with that here, and what `operator <<` prints is
read back. With a colon in the text the parser looks at neither the `@` nor the digits.
-/

import Mathlib.Data.List.TakeWhile
import FerroRemote.Utilities.Endpoints

namespace FerroRemote.Utilities

open FerroRemote.Agent (Errno EINVAL)

/-- `operator <<`. -/
def EndpointInfo.print (ei : EndpointInfo) : List Char :=
  match ei.type with
  | .none => []
  | .localEp => ei.addpess
  | .ip =>
    (if ei.flags &&& flagSsl ≠ 0 then ['@'] else []) ++ ei.addpess ++
      ':' :: decimal ei.service.toNat

/-- A port is written in decimal digits, and is less than 65536. -/
def portOf (text : List Char) : Option UInt16 :=
  if text ≠ [] ∧ text.all Char.isDigit ∧ Numeral.ofDigits text < UInt16.size then
    some (UInt16.ofNat (Numeral.ofDigits text))
  else none

/-- An address that may have an `@` in front. -/
def addressed (text : List Char) (type : EpType) (service : UInt16) : EndpointInfo :=
  match text with
  | '@' :: addr => { addpess := addr, service, flags := flagSsl, type }
  | addr => { addpess := addr, service, type }

/-- The endpoint that a text stands for. What is not an endpoint has the type `none`, and
the rest of it is not documented. -/
def ReadsAsDocumented (w : LongWidth) (errno : Errno) (ep : List Char) : Prop :=
  match splitLast ':' ep with
  | none => Agent.getEndpointInfo w errno ep = addressed ep .localEp 0
  | some (host, svcTmp) =>
    match portOf svcTmp with
    | some port => Agent.getEndpointInfo w errno ep = addressed host .ip port
    | none => (Agent.getEndpointInfo w errno ep).type = .none

/-- When a text is read as documented: there is no colon; or a port after the last one, and
no `@` in front; or something else after it, which is refused because of an earlier call. -/
def DocumentedWhen (w : LongWidth) (errno : Errno) (ep : List Char) : Prop :=
  match splitLast ':' ep with
  | none => True
  | some (host, svcTmp) =>
    if (portOf svcTmp).isSome then host.head? ≠ some '@' else Refused w errno (.scan svcTmp)

instance (w : LongWidth) (errno : Errno) (svc : Numeral) : Decidable (Refused w errno svc) :=
  inferInstanceAs (Decidable (_ ∧ _))

instance (w : LongWidth) (errno : Errno) (ep : List Char) :
    Decidable (DocumentedWhen w errno ep) := by
  unfold DocumentedWhen
  split <;> infer_instance

/-- An endpoint whose name can be told from the marks around it. -/
structure NamedEndpoint extends EndpointInfo where
  named : addpess ≠ []
  unmarked : addpess.head? ≠ some '@'
  colonFree : type = .localEp → ':' ∉ addpess

def ReadsBack (w : LongWidth) (errno : Errno) (e : NamedEndpoint) : Prop :=
  Agent.getEndpointInfo w errno e.print = e.toEndpointInfo

/-- The parser does not depend on what an earlier call has left in `errno`. -/
def ErrnoFree (w : LongWidth) (ep : List Char) : Prop :=
  ∀ errno errno', Agent.getEndpointInfo w errno ep = Agent.getEndpointInfo w errno' ep

theorem scan_digits {text : List Char} (hdigits : ∀ c ∈ text, c.isDigit = true) :
    Numeral.scan text = ⟨false, Numeral.ofDigits text⟩ := by
  have htake : text.takeWhile Char.isDigit = text := List.takeWhile_eq_self_iff.mpr hdigits
  cases text with
  | nil => rfl
  | cons c rest =>
      have hc : c.isDigit = true := hdigits c List.mem_cons_self
      have hspace : ¬ Numeral.isSpace c = true := by
        intro hspace
        simp only [Numeral.isSpace, Bool.or_eq_true, beq_iff_eq] at hspace
        obtain ((((rfl | rfl) | rfl) | rfl) | rfl) | rfl := hspace <;> revert hc <;> decide
      rw [Numeral.scan, List.dropWhile_cons_of_neg hspace]
      split
      · next heq =>
          cases heq
          exact absurd hc (by decide)
      · next heq =>
          cases heq
          exact absurd hc (by decide)
      · rw [htake]

theorem portOf_eq_some {text : List Char} {port : UInt16} (hport : portOf text = some port) :
    Numeral.scan text = ⟨false, port.toNat⟩ := by
  unfold portOf at hport
  split at hport
  · next hcond =>
      obtain ⟨-, hdigits, hlt⟩ := hcond
      cases hport
      rw [scan_digits (by simpa using hdigits), UInt16.toNat_ofNat', Nat.mod_eq_of_lt hlt]
  · cases hport

theorem portOf_decimal (port : UInt16) : portOf (decimal port.toNat) = some port := by
  have hvalue : Numeral.ofDigits (decimal port.toNat) = port.toNat :=
    Nat.ofDigitChars_ten_toDigits
  have hdigits : (decimal port.toNat).all Char.isDigit = true := by
    rw [List.all_eq_true]
    intro c hc
    exact Nat.isDigit_of_mem_toDigits (by decide) (by decide) hc
  have hne : decimal port.toNat ≠ [] := Nat.toDigits_ne_nil
  have hlt : Numeral.ofDigits (decimal port.toNat) < UInt16.size := by
    rw [hvalue]
    exact port.toNat_lt
  rw [portOf, if_pos ⟨hne, hdigits, hlt⟩, hvalue, UInt16.ofNat_toNat]

theorem strtoul_port (w : LongWidth) (port : UInt16) :
    Numeral.strtoul w.bits ⟨false, port.toNat⟩ = port.toNat ∧
      ¬ Numeral.AllOnes w.bits ⟨false, port.toNat⟩ := by
  obtain ⟨k, hk, -, hword⟩ := Numeral.width_units w.enough
  have hlt : port.toNat < 65536 := port.toNat_lt
  simp only [Numeral.strtoul, Numeral.AllOnes, Numeral.ulongMax, hword, Bool.false_eq_true,
    if_false]
  constructor
  · rw [if_neg (by omega)]
  · omega

theorem addressed_unmarked {text : List Char} (hhead : text.head? ≠ some '@') (type : EpType)
    (service : UInt16) : addressed text type service = { addpess := text, service, type } := by
  unfold addressed
  split
  · exact absurd rfl hhead
  · rfl

theorem finish_unmarked {text : List Char} (hhead : text.head? ≠ some '@') (res : EndpointInfo) :
    res.finish text = { res with addpess := text } := by
  unfold EndpointInfo.finish
  split
  · exact absurd rfl hhead
  · rfl

section Colon

variable (w : LongWidth) (errno : Errno) {ep host svcTmp : List Char}

/-- A number that is refused leaves no endpoint, and any other an address as it stands. -/
theorem getEndpointInfo_colon (hsplit : splitLast ':' ep = some (host, svcTmp)) :
    (Refused w errno (.scan svcTmp) ∧ (Agent.getEndpointInfo w errno ep).type = .none) ∨
      (¬ Refused w errno (.scan svcTmp) ∧ Agent.getEndpointInfo w errno ep =
        { type := .ip, addpess := host,
          service := UInt16.ofNat ((Numeral.scan svcTmp).strtoul w.bits) }) := by
  simp only [Agent.getEndpointInfo, hsplit]
  rw [← refused_iff]
  by_cases hrefused : refused w errno (.scan svcTmp) = true
  · rw [if_pos hrefused]
    exact Or.inl ⟨hrefused, finish_type _⟩
  · rw [if_neg hrefused]
    exact Or.inr ⟨hrefused, rfl⟩

theorem eq_addressed_iff (port : UInt16) :
    ({ type := .ip, addpess := host, service := port } : EndpointInfo) = addressed host .ip port ↔
      host.head? ≠ some '@' := by
  by_cases hhead : host.head? = some '@'
  · apply iff_of_false
    · obtain ⟨addr, rfl⟩ := List.head?_eq_some_iff.mp hhead
      intro heq
      cases congrArg EndpointInfo.flags heq
    · exact fun hne => hne hhead
  · rw [addressed_unmarked hhead]
    exact iff_of_true rfl hhead

theorem read_port (hsplit : splitLast ':' ep = some (host, svcTmp)) {port : UInt16}
    (hport : portOf svcTmp = some port) :
    Agent.getEndpointInfo w errno ep = { type := .ip, addpess := host, service := port } := by
  have hscan := portOf_eq_some hport
  obtain ⟨hvalue, hones⟩ := strtoul_port w port
  obtain ⟨hrefused, -⟩ | ⟨-, hread⟩ := getEndpointInfo_colon w errno hsplit
  · rw [hscan] at hrefused
    exact absurd hrefused.1 hones
  · rw [hread, hscan, hvalue, UInt16.ofNat_toNat]

/-- With a port, the text is read as documented unless there is an `@` in front. -/
theorem reads_port_iff (hsplit : splitLast ':' ep = some (host, svcTmp)) {port : UInt16}
    (hport : portOf svcTmp = some port) :
    Agent.getEndpointInfo w errno ep = addressed host .ip port ↔ host.head? ≠ some '@' := by
  rw [read_port w errno hsplit hport]
  exact eq_addressed_iff port

/-- Without a port, it is read as documented when the number is refused. -/
theorem reads_none_iff (hsplit : splitLast ':' ep = some (host, svcTmp)) :
    (Agent.getEndpointInfo w errno ep).type = .none ↔ Refused w errno (.scan svcTmp) := by
  obtain ⟨hrefused, hnone⟩ | ⟨hrefused, hread⟩ := getEndpointInfo_colon w errno hsplit
  · exact iff_of_true hnone hrefused
  · rw [hread]
    exact iff_of_false (fun htype => EpType.noConfusion htype) hrefused

end Colon

theorem getEndpointInfo_local (w : LongWidth) (errno : Errno) {ep : List Char}
    (hsplit : splitLast ':' ep = none) :
    Agent.getEndpointInfo w errno ep = addressed ep .localEp 0 := by
  simp only [Agent.getEndpointInfo, hsplit]
  by_cases hhead : ep.head? = some '@'
  · obtain ⟨addr, rfl⟩ := List.head?_eq_some_iff.mp hhead
    rfl
  · rw [addressed_unmarked hhead, finish_unmarked hhead]

theorem readsAsDocumented_iff (w : LongWidth) (errno : Errno) (ep : List Char) :
    ReadsAsDocumented w errno ep ↔ DocumentedWhen w errno ep := by
  rw [ReadsAsDocumented, DocumentedWhen]
  cases hsplit : splitLast ':' ep with
  | none => exact iff_of_true (getEndpointInfo_local w errno hsplit) trivial
  | some parts =>
      obtain ⟨host, svcTmp⟩ := parts
      cases hport : portOf svcTmp with
      | none =>
          simp only [hport, Option.isSome_none, Bool.false_eq_true, if_false]
          exact reads_none_iff w errno hsplit
      | some port =>
          simp only [hport, Option.isSome_some, if_true]
          exact reads_port_iff w errno hsplit hport

theorem errnoFree_iff (w : LongWidth) (ep : List Char) :
    ErrnoFree w ep ↔
      ∀ host svcTmp, splitLast ':' ep = some (host, svcTmp) →
        ¬ (Numeral.scan svcTmp).AllOnes w.bits := by
  constructor
  · intro hfree host svcTmp hsplit hones
    have hnone := (reads_none_iff w EINVAL hsplit).mpr ⟨hones, rfl⟩
    rw [hfree EINVAL 0, reads_none_iff w 0 hsplit] at hnone
    exact absurd hnone.2 (by decide)
  · intro hones errno errno'
    cases hsplit : splitLast ':' ep with
    | none => rw [getEndpointInfo_local w errno hsplit, getEndpointInfo_local w errno' hsplit]
    | some parts =>
        obtain ⟨host, svcTmp⟩ := parts
        have hnot := hones host svcTmp hsplit
        obtain ⟨hrefused, -⟩ | ⟨-, hread⟩ := getEndpointInfo_colon w errno hsplit
        · exact absurd hrefused.1 hnot
        obtain ⟨hrefused, -⟩ | ⟨-, hread'⟩ := getEndpointInfo_colon w errno' hsplit
        · exact absurd hrefused.1 hnot
        rw [hread, hread']

theorem read_printed (w : LongWidth) (errno : Errno) (text : List Char) (port : UInt16) :
    Agent.getEndpointInfo w errno (text ++ ':' :: decimal port.toNat) =
      { type := .ip, addpess := text, service := port } := by
  have hfree : ':' ∉ decimal port.toNat := not_mem_decimal _ (by decide)
  exact read_port w errno (splitLast_append text hfree) (portOf_decimal port)

/-- A local endpoint is printed without its flags and its service, an IP endpoint with an
`@` that is not read. -/
theorem readsBack_iff (w : LongWidth) (errno : Errno) (e : NamedEndpoint) :
    ReadsBack w errno e ↔
      e.type ≠ .none ∧ e.flags = 0 ∧ (e.type = .localEp → e.service = 0) := by
  obtain ⟨⟨addpess, service, flags, type⟩, hnamed, hunmarked, hfree⟩ := e
  rw [ReadsBack]
  cases type with
  | none =>
      apply iff_of_false
      · intro heq
        cases congrArg EndpointInfo.type heq
      · exact fun hcond => hcond.1 rfl
  | localEp =>
      have hread : Agent.getEndpointInfo w errno addpess =
          { addpess := addpess, type := .localEp } := by
        rw [getEndpointInfo_local w errno (splitLast_eq_none (hfree rfl)),
          addressed_unmarked hunmarked]
      simp only [EndpointInfo.print, hread, EndpointInfo.mk.injEq]
      constructor
      · rintro ⟨-, hservice, hflags, -⟩
        exact ⟨by decide, hflags.symm, fun _ => hservice.symm⟩
      · rintro ⟨-, hflags, hservice⟩
        exact ⟨trivial, (hservice trivial).symm, hflags.symm, trivial⟩
  | ip =>
      simp only [EndpointInfo.print, read_printed, EndpointInfo.mk.injEq]
      constructor
      · rintro ⟨-, -, hflags, -⟩
        exact ⟨by decide, hflags.symm, fun hlocal => EpType.noConfusion hlocal⟩
      · rintro ⟨-, hflags, -⟩
        subst hflags
        simp

/-- **The grammar, exactly.** When a text is read as the grammar says, which printed
endpoints are read back, and which texts are read the same after any other call. -/
theorem endpoint_grammar_iff (w : LongWidth) :
    (∀ errno ep, ReadsAsDocumented w errno ep ↔ DocumentedWhen w errno ep) ∧
      (∀ errno (e : NamedEndpoint), ReadsBack w errno e ↔
        e.type ≠ .none ∧ e.flags = 0 ∧ (e.type = .localEp → e.service = 0)) ∧
      ∀ ep, ErrnoFree w ep ↔ ∀ host svcTmp, splitLast ':' ep = some (host, svcTmp) →
        ¬ (Numeral.scan svcTmp).AllOnes w.bits :=
  ⟨readsAsDocumented_iff w, readsBack_iff w, errnoFree_iff w⟩

def localSsl : NamedEndpoint where
  addpess := "/home/data/fr.sock".toList
  flags := flagSsl
  type := .localEp
  named := by decide
  unmarked := by decide
  colonFree := by decide

/-- An `@` that is kept in the address, a port that is a name, one that is too great, a local
endpoint that loses its flag, and a text that an earlier `EINVAL` changes. -/
theorem grammar_not_followed :
    ¬ ReadsAsDocumented .lp64 0 "@0.0.0.0:12345".toList ∧
      ¬ ReadsAsDocumented .lp64 0 "localhost:http".toList ∧
      ¬ ReadsAsDocumented .lp64 0 "localhost:70000".toList ∧
      ¬ ReadsBack .lp64 0 localSsl ∧
      ¬ ErrnoFree .lp64 "localhost:-1".toList := by
  refine ⟨?_, ?_, ?_, ?_, ?_⟩
  · rw [readsAsDocumented_iff]
    decide +kernel
  · rw [readsAsDocumented_iff]
    decide +kernel
  · rw [readsAsDocumented_iff]
    decide +kernel
  · rw [readsBack_iff]
    decide +kernel
  · intro hfree
    have hsame := hfree 0 EINVAL
    revert hsame
    decide +kernel

end FerroRemote.Utilities

/-
# Unpacking what was packed

What comes back of the arguments can be said without a byte: an integer is cut to the size
of its option and gets the sign of what is left, a string is cut to its width, and the string
of `c0` needs its length in front, which it replaces. `unpack` gives just that for whatever
`pack` has written, in either byte order, with any alignment and with any data behind it.
-/

import FerroRemote.Lua.StructLayout

namespace FerroRemote.Lua.Struct

open FerroRemote.ByteOrder
open FerroRemote.Scanning

/-- An integer of so many bytes -/
def fitted (issigned : Bool) (size : Nat) (value : BitVec 64) : Except Failure Int :=
  if issigned then
    if 0 < size ∧ size ≤ 8 then .ok (Int.bmod value.toInt (2 ^ (size * 8))) else .error .shift
  else unsignedResult (BitVec.ofNat 64 (value.toNat % 256 ^ size))

/-- What has come back, the last first, and the argument to be read next -/
structure Reading where
  h : Header
  arg : Nat
  values : List Value

/-- What has come back after an item, and how many arguments it took -/
structure Recovered where
  values : List Value
  args : Nat

section Spec

variable (conv : Conversions) (args : List Value)

def readItem (opt : Char) (size arg : Nat) (values : List Value) : Except Failure Recovered :=
  let value := args.getD (arg - 2) .nil
  if isInteger opt then do
    let n ← checkNumber conv arg value
    let word ← toUinttype n
    let res ← fitted opt.isLower size word
    return ⟨.number (.whole res) :: values, 1⟩
  else if opt = 'f' then do
    let n ← checkNumber conv arg value
    return ⟨.number (conv.ofFloat (conv.float n)) :: values, 1⟩
  else if opt = 'd' then do
    let n ← checkNumber conv arg value
    return ⟨.number (conv.ofDouble (conv.double n)) :: values, 1⟩
  else if opt = 'c' then do
    let s ← checkString conv arg value
    if size = 0 then
      match values with
      | .number n :: rest => do
          let width ← toSize n.toDouble
          if width = s.length then .ok ⟨.string s :: rest, 1⟩ else .error tooShort
      | _ => .error tooShort
    else .ok ⟨.string (s.take size) :: values, 1⟩
  else if opt = 's' then do
    let s ← checkString conv arg value
    if '\x00' ∈ s then .error tooShort else .ok ⟨.string s :: values, 1⟩
  else .ok ⟨values, 0⟩

def readTurn : Turn Char Failure Reading := fun opt fmt r => do
  let (size, fmt) ← optsize opt fmt
  let item ← readItem conv args opt size r.arg r.values
  let (fmt, h) ← if opt.isAlphanum then .ok (fmt, r.h) else controloptions opt fmt r.h
  return (fmt, ⟨h, r.arg + item.args, item.values⟩)

/-- What comes back of the arguments, with no bytes in between -/
def readBack (fmt : Text) : Except Failure (List Value) := do
  let r ← scan (readTurn conv args) (cString fmt) ⟨defaultoptions, 2, []⟩
  return r.values.reverse

end Spec

variable {conv : Conversions} {args : List Value} {opt : Char} {fmt fmt' : Text} {h : Header}

theorem toNat_ofNat {b : Nat} (hb : b < 256) : (Char.ofNat b).toNat = b := by
  have hvalid : b.isValidChar := Or.inl (by omega)
  rw [Char.ofNat, dif_pos hvalid]
  rfl

theorem map_bytes {bytes : List Nat} (hbytes : ∀ b ∈ bytes, b < 256) :
    (bytes.map Char.ofNat).map (fun c => c.toNat % 256) = bytes := by
  rw [List.map_map]
  calc bytes.map ((fun c => c.toNat % 256) ∘ Char.ofNat) = bytes.map id := by
        apply List.map_congr_left
        intro b hb
        have hlt := hbytes b hb
        rw [Function.comp_apply, toNat_ofNat hlt, Nat.mod_eq_of_lt hlt, id]
    _ = bytes := List.map_id bytes

/-- **A word comes back from its bytes**, in either order, up to what was cut off. -/
theorem wordOf_bytesOf (endian : Endian) (size : Nat) (value : BitVec 64) :
    wordOf endian (bytesOf endian size value) = BitVec.ofNat 64 (value.toNat % 256 ^ size) := by
  have hlow : ∀ b ∈ (lowFirst size value.toNat).reverse, b < 256 :=
    fun b hb => lt_of_mem_lowFirst (List.mem_reverse.mp hb)
  have hbytes : ∀ b ∈ lowFirst size value.toNat, b < 256 := fun b hb => lt_of_mem_lowFirst hb
  cases endian with
  | little =>
      rw [bytesOf, wordOf, map_bytes hbytes, gather_eq hlow, valueOf_reverse_lowFirst]
  | big =>
      rw [bytesOf, wordOf, highFirst_eq, List.append_nil, map_bytes hlow, gather_eq hlow,
        valueOf_reverse_lowFirst]

theorem two_pow_bytes (size : Nat) : 256 ^ size = 2 ^ (size * 8) := by
  rw [Nat.mul_comm, Nat.pow_mul]

theorem getinteger_bytesOf (endian : Endian) (issigned : Bool) (size : Nat) (value : BitVec 64) :
    getinteger (bytesOf endian size value) endian issigned size = fitted issigned size value := by
  rw [getinteger, fitted, wordOf_bytesOf]
  split
  · split
    · next hsize =>
        have hlt : value.toNat % 256 ^ size < 2 ^ (size * 8) := by
          rw [two_pow_bytes]
          exact Nat.mod_lt _ (Nat.two_pow_pos _)
        have hword := bmod_ofInt hsize.2 value.toInt
        rw [BitVec.ofInt_toInt] at hword
        rw [toInt_extended hsize.1 hsize.2 hlt, two_pow_bytes, hword]
    · rfl
  · rfl

theorem getD_exchange (b : Text) (i size k : Nat) (hsize : size ≤ b.length) (d : Char) :
    (exchange b i size).getD k d =
      if i ≤ k ∧ k < size then b.getD (i + size - 1 - k) d else b.getD k d := by
  induction size generalizing b i with
  | zero =>
      rw [exchange, if_neg (by omega)]
  | succ size ih =>
      rw [exchange]
      split
      · next hlt =>
          rw [ih _ _ (by simp; omega)]
          grind
      · next hge => grind

theorem correctbytes_correctbytes (b : Text) (endian : Endian) :
    correctbytes (correctbytes b b.length endian) b.length endian = b := by
  rw [correctbytes, correctbytes]
  split
  · apply List.ext_getElem
    · rw [length_exchange, length_exchange]
    · intro k hk hk'
      have hget := getD_exchange (exchange b 0 b.length) 0 b.length k
        (length_exchange b 0 b.length).ge '\x00'
      rw [if_pos (by omega), getD_exchange b 0 b.length _ (Nat.le_refl _), if_pos (by omega),
        List.getD_eq_getElem?_getD, List.getElem?_eq_getElem hk, Option.getD_some] at hget
      have hback : 0 + b.length - 1 - (0 + b.length - 1 - k) = k := by omega
      rw [hget, hback, List.getD_eq_getElem?_getD, List.getElem?_eq_getElem hk',
        Option.getD_some]
  · rfl

section Item

variable {data more : Text} {size pos arg : Nat} {values base : List Value}

theorem takeWhile_string {s : Text} (hs : '\x00' ∉ s) (more : Text) :
    (s ++ ['\x00'] ++ more).takeWhile (fun c => c ≠ '\x00') = s := by
  have hall : ∀ c ∈ s, decide (c ≠ '\x00') = true := by
    intro c hc
    rw [decide_eq_true_eq]
    rintro rfl
    exact hs hc
  rw [List.append_assoc, List.takeWhile_append_of_pos hall]
  exact List.append_nil s

theorem bytesAt_drop {bytes : Text} (hdrop : data.drop pos = bytes ++ more)
    (hle : pos + bytes.length ≤ data.length) :
    bytesAt data pos bytes.length = .ok bytes := by
  rw [bytesAt_of_le hle, hdrop, List.take_left]

theorem pushBytes_drop {bytes : Text} (hdrop : data.drop pos = bytes ++ more)
    (hle : pos + bytes.length ≤ data.length) (hdata : data.length < 2 ^ 63) :
    pushBytes data pos bytes.length = .ok bytes := by
  rw [pushBytes, if_neg (by omega), bytesAt_drop hdrop hle]

theorem correctbytes_twice {b : Text} (hlength : b.length = size) (endian : Endian) :
    correctbytes (correctbytes b size endian) size endian = b := by
  rw [← hlength]
  exact correctbytes_correctbytes b endian

/-- An item is read back where it stands in the data, whatever has been read before. -/
def ReadBack (conv : Conversions) (args : List Value) (opt : Char) (size : Nat) (fmt : Text)
    (h : Header) (arg : Nat) : Prop :=
  ∀ ⦃data more : Text⦄ ⦃pos : Nat⦄ ⦃values base : List Value⦄ ⦃item : Item⦄ ⦃back : Recovered⦄,
    packItem conv args opt size fmt h arg = .ok item →
    readItem conv args opt size arg values = .ok back →
    data.drop pos = item.bytes ++ more → pos + item.bytes.length ≤ data.length →
    data.length < 2 ^ 63 →
    unpackItem conv data opt size fmt h pos (values ++ base) =
        .ok ⟨back.values ++ base, item.size, item.fmt, item.h⟩ ∧ back.args = item.args

theorem readBack_integer (hopt : isInteger opt = true) :
    ReadBack conv args opt size fmt h arg := by
  intro data more pos values base item back hpack hread hdrop hle _
  rw [packItem, if_pos hopt] at hpack
  rw [readItem, if_pos hopt] at hread
  rcases bind_eq_ok_iff.mp hpack with ⟨bytes, hput, ⟨⟩⟩
  rcases bind_eq_ok_iff.mp hput with ⟨n, hn, hput⟩
  rcases bind_eq_ok_iff.mp hput with ⟨word, hword, ⟨⟩⟩
  rw [hn] at hread
  rcases bind_eq_ok_iff.mp hread with ⟨n, ⟨⟩, hread⟩
  rw [hword] at hread
  rcases bind_eq_ok_iff.mp hread with ⟨word, ⟨⟩, hread⟩
  rcases bind_eq_ok_iff.mp hread with ⟨res, hres, ⟨⟩⟩
  have hbytes := bytesAt_drop hdrop hle
  rw [length_bytesOf] at hbytes
  rw [unpackItem, if_pos hopt, hbytes]
  dsimp only [bind, Except.bind]
  rw [getinteger_bytesOf, hres]
  exact ⟨rfl, rfl⟩

theorem readBack_padding : ReadBack conv args 'x' size fmt h arg := by
  rintro data more pos values base item back ⟨⟩ ⟨⟩ - - -
  exact ⟨rfl, rfl⟩

theorem readBack_floating {write : LuaNumber → Text} {read : Text → LuaNumber}
    (hwrite : ∀ n, (write n).length = size)
    (hpackItem : packItem conv args opt size fmt h arg =
      checkNumber conv arg (args.getD (arg - 2) .nil) >>= fun n =>
        .ok ⟨correctbytes (write n) size h.endian, 1, size, fmt, h⟩)
    (hreadItem : ∀ values, readItem conv args opt size arg values =
      checkNumber conv arg (args.getD (arg - 2) .nil) >>= fun n =>
        .ok ⟨.number (read (write n)) :: values, 1⟩)
    (hunpackItem : ∀ data pos stack, unpackItem conv data opt size fmt h pos stack =
      bytesAt data pos size >>= fun buff =>
        .ok ⟨.number (read (correctbytes buff size h.endian)) :: stack, size, fmt, h⟩) :
    ReadBack conv args opt size fmt h arg := by
  intro data more pos values base item back hpack hread hdrop hle _
  rw [hpackItem] at hpack
  rw [hreadItem] at hread
  rcases bind_eq_ok_iff.mp hpack with ⟨n, hn, ⟨⟩⟩
  rw [hn] at hread
  rcases bind_eq_ok_iff.mp hread with ⟨n, ⟨⟩, ⟨⟩⟩
  have hbytes := bytesAt_drop hdrop hle
  rw [length_correctbytes, hwrite] at hbytes
  rw [hunpackItem, hbytes]
  dsimp only [bind, Except.bind]
  rw [correctbytes_twice (hwrite n)]
  exact ⟨rfl, rfl⟩

/-- A string of a width that stands in the format -/
theorem readBack_chars (hsize : size ≠ 0) : ReadBack conv args 'c' size fmt h arg := by
  intro data more pos values base item back hpack hread hdrop hle hdata
  rcases bind_eq_ok_iff.mp hpack with ⟨s, hs, hpack⟩
  rcases bind_eq_ok_iff.mp hread with ⟨s', hs', hread⟩
  rw [hs, Except.ok.injEq] at hs'
  subst hs'
  dsimp only at hpack
  rw [if_neg hsize] at hpack hread
  split at hpack
  · cases hpack
  · next hlong =>
      cases hpack
      cases hread
      have hbytes := pushBytes_drop hdrop hle hdata
      rw [List.length_take_of_le (Nat.not_lt.mp hlong)] at hbytes
      have hitem : unpackItem conv data 'c' size fmt h pos (values ++ base) =
          pushBytes data pos size >>= fun s =>
            .ok ⟨.string s :: (values ++ base), size, fmt, h⟩ := if_neg hsize
      rw [hitem, hbytes]
      exact ⟨rfl, rfl⟩

theorem readBack_counted : ReadBack conv args 'c' 0 fmt h arg := by
  intro data more pos values base item back hpack hread hdrop hle hdata
  rcases bind_eq_ok_iff.mp hpack with ⟨s, hs, hpack⟩
  rcases bind_eq_ok_iff.mp hread with ⟨s', hs', hread⟩
  rw [hs, Except.ok.injEq] at hs'
  subst hs'
  dsimp only at hpack
  rw [if_pos rfl, if_neg (Nat.lt_irrefl _)] at hpack
  cases hpack
  rw [if_pos rfl] at hread
  split at hread
  · next n rest hread =>
      rcases bind_eq_ok_iff.mp hread with ⟨width, hwidth, hread⟩
      split at hread
      · next heq =>
          cases hread
          subst heq
          dsimp only at hdrop hle
          rw [List.take_length] at hdrop hle
          have hitem : unpackItem conv data 'c' 0 fmt h pos (.number n :: rest ++ base) =
              toSize n.toDouble >>= fun size =>
                if plus pos size ≤ data.length then
                  pushBytes data pos size >>= fun s =>
                    .ok ⟨.string s :: (rest ++ base), size, fmt, h⟩
                else .error tooShort := rfl
          rw [hitem, hwidth]
          dsimp only [bind, Except.bind]
          rw [plus_of_lt (by omega), if_pos hle, pushBytes_drop hdrop hle hdata]
          exact ⟨rfl, rfl⟩
      · cases hread
  · cases hread

theorem readBack_zero : ReadBack conv args 's' 0 fmt h arg := by
  intro data more pos values base item back hpack hread hdrop hle hdata
  rcases bind_eq_ok_iff.mp hpack with ⟨s, hs, hpack⟩
  rcases bind_eq_ok_iff.mp hread with ⟨s', hs', hread⟩
  rw [hs, Except.ok.injEq] at hs'
  subst hs'
  dsimp only at hpack
  rw [if_pos rfl, if_neg (Nat.lt_irrefl _)] at hpack
  cases hpack
  split at hread
  · cases hread
  · next hzero =>
      cases hread
      dsimp only at hdrop hle
      rw [List.take_length] at hdrop hle
      have hfound : (data.drop pos).takeWhile (fun c => c ≠ '\x00') = s := by
        rw [hdrop]
        exact takeWhile_string hzero more
      have hshort : s.length < (data.drop pos).length := by
        rw [hdrop, List.length_append, List.length_append, List.length_singleton]
        omega
      have hitem : unpackItem conv data 's' 0 fmt h pos (values ++ base) =
          let found := (data.drop pos).takeWhile fun c => c ≠ '\x00'
          if found.length < (data.drop pos).length then
            .ok ⟨.string found :: (values ++ base), found.length + 1, fmt, h⟩
          else .error (.message "unfinished string in data") := rfl
      rw [hitem, hfound]
      dsimp only
      rw [if_pos hshort]
      exact ⟨rfl, rfl⟩

theorem control_cases {h' : Header} (hcontrol : controloptions opt fmt h = .ok (fmt', h')) :
    opt = ' ' ∨ opt = '>' ∨ opt = '<' ∨ opt = '!' := by
  rw [controloptions.eq_def] at hcontrol
  split at hcontrol
  case h_5 => cases hcontrol
  all_goals simp

theorem readBack_control {h' : Header} (hcontrol : controloptions opt fmt h = .ok (fmt', h')) :
    ReadBack conv args opt 0 fmt h arg := by
  intro data more pos values base item back hpack hread _ _ _
  have hopt := control_cases hcontrol
  have hinteger : isInteger opt = false := by rcases hopt with rfl | rfl | rfl | rfl <;> rfl
  have hothers : opt ≠ 'x' ∧ opt ≠ 'f' ∧ opt ≠ 'd' ∧ opt ≠ 'c' ∧ opt ≠ 's' := by
    rcases hopt with rfl | rfl | rfl | rfl <;> decide
  rcases hothers with ⟨hx, hf, hd, hc, hs⟩
  rw [packItem, hinteger] at hpack
  rw [readItem, hinteger] at hread
  rw [unpackItem, hinteger]
  simp only [Bool.false_eq_true, if_false, hx, hf, hd, hc, hs, or_self, hcontrol] at hpack hread ⊢
  cases hpack
  cases hread
  exact ⟨rfl, rfl⟩

/-- **Every item is read back.** -/
theorem readBack_item {r : Text} {item : Item} (hsize : optsize opt r = .ok (size, fmt))
    (hitem : packItem conv args opt size fmt h arg = .ok item) :
    ReadBack conv args opt size fmt h arg := by
  by_cases hinteger : isInteger opt = true
  · exact readBack_integer hinteger
  by_cases hx : opt = 'x'
  · subst hx
    exact readBack_padding
  by_cases hf : opt = 'f'
  · subst hf
    cases hsize
    exact readBack_floating conv.length_float rfl (fun _ => rfl) fun _ _ _ => rfl
  by_cases hd : opt = 'd'
  · subst hd
    cases hsize
    exact readBack_floating conv.length_double rfl (fun _ => rfl) fun _ _ _ => rfl
  by_cases hc : opt = 'c'
  · subst hc
    by_cases hzero : size = 0
    · subst hzero
      exact readBack_counted
    · exact readBack_chars hzero
  by_cases hs : opt = 's'
  · subst hs
    cases hsize
    exact readBack_zero
  · have hcontrol : ∃ next, controloptions opt fmt h = .ok next := by
      rw [packItem, if_neg hinteger, if_neg hx, if_neg hf, if_neg hd,
        if_neg (not_or.mpr ⟨hc, hs⟩)] at hitem
      rcases bind_eq_ok_iff.mp hitem with ⟨next, hnext, -⟩
      exact ⟨next, hnext⟩
    rcases hcontrol with ⟨next, hnext⟩
    have hzero := optsize_of_control (r := r) hnext
    rw [hsize, Except.ok.injEq, Prod.mk.injEq] at hzero
    rw [hzero.1]
    exact readBack_control hnext

end Item

theorem readTurn_ok {r r' : Reading} (hturn : readTurn conv args opt fmt r = .ok (fmt', r')) :
    ∃ size rest back, optsize opt fmt = .ok (size, rest) ∧
      readItem conv args opt size r.arg r.values = .ok back ∧ After opt rest r.h fmt' r'.h ∧
      r'.arg = r.arg + back.args ∧ r'.values = back.values := by
  rcases bind_eq_ok_iff.mp hturn with ⟨⟨size, rest⟩, hsize, hturn⟩
  rcases bind_eq_ok_iff.mp hturn with ⟨back, hback, hturn⟩
  refine ⟨size, rest, back, hsize, hback, ?_⟩
  dsimp only at hturn
  rw [After]
  split at hturn
  · next halnum =>
      cases hturn
      rw [if_pos halnum]
      exact ⟨⟨rfl, rfl⟩, rfl, rfl⟩
  · next halnum =>
      rcases bind_eq_ok_iff.mp hturn with ⟨next, hcontrol, ⟨⟩⟩
      rw [if_neg halnum]
      exact ⟨hcontrol, rfl, rfl⟩

theorem readTurn_consumes : Consumes (readTurn conv args) := by
  intro opt fmt r fmt' r' hturn
  rcases readTurn_ok hturn with ⟨size, rest, back, hsize, -, hafter, -⟩
  exact hafter.length.trans (optsize_length hsize)

theorem After.unique {r r' : Text} {h₁ h₂ : Header} (hafter : After opt fmt h r h₁)
    (hafter' : After opt fmt h r' h₂) : r = r' ∧ h₁ = h₂ := by
  rw [After] at hafter hafter'
  split at hafter
  · next halnum =>
      rw [if_pos halnum] at hafter'
      exact ⟨hafter.1.trans hafter'.1.symm, hafter.2.trans hafter'.2.symm⟩
  · next halnum =>
      rw [if_neg halnum, hafter] at hafter'
      cases hafter'
      exact ⟨rfl, rfl⟩

/-- An item is no smaller than the format says. -/
theorem size_le_length {size arg : Nat} {r : Text} {item : Item}
    (hsize : optsize opt r = .ok (size, fmt))
    (hitem : packItem conv args opt size fmt h arg = .ok item) : size ≤ item.bytes.length := by
  rcases packItem_ok hsize hitem with ⟨hlength, hfixed, -⟩
  by_cases hs : opt = 's'
  · subst hs
    cases hsize
    exact Nat.zero_le _
  by_cases hc : opt = 'c' ∧ size = 0
  · rw [hc.2]
    exact Nat.zero_le _
  · rw [hlength, hfixed hs hc]

/-- The three loops at the same place: packing has written what unpacking has read, and what
has come back stands on the stack. -/
structure Follows (base : List Value) (s : Packing) (r : Reading) (u : Unpacking) : Prop where
  h : r.h = s.h
  arg : r.arg = s.arg
  total : s.totalsize = s.buffer.length
  state : u = ⟨s.h, s.totalsize, r.values ++ base⟩

/-- **One turn of all three loops.** -/
theorem Follows.turn {base : List Value} {s s' : Packing} {r r' : Reading} {u : Unpacking}
    {data more rest rest' : Text} (hfollows : Follows base s r u)
    (hpack : packTurn conv args opt rest s = .ok (rest', s'))
    (hread : readTurn conv args opt rest r = .ok (fmt, r')) (hdata : data = s'.buffer ++ more)
    (hlength : data.length < 2 ^ 63) :
    fmt = rest' ∧
      ∃ u', unpackTurn conv data opt rest u = .ok (rest', u') ∧ Follows base s' r' u' := by
  rcases packTurn_ok hpack with ⟨size, fmt₁, item, hsize, hitem, rfl, rfl⟩
  rcases readTurn_ok hread with ⟨size', fmt₂, back, hsize', hback, hafter, harg, hvalues⟩
  rw [hsize, Except.ok.injEq, Prod.mk.injEq] at hsize'
  rcases hsize' with ⟨rfl, rfl⟩
  rcases packItem_ok hsize hitem with ⟨hbytes, -, hafter'⟩
  rw [hfollows.h] at hafter
  rcases hafter.unique hafter' with ⟨rfl, hheader⟩
  rcases hfollows with ⟨hh, harg', htotal, rfl⟩
  rw [harg'] at hback harg
  have hsum : data.length = s.buffer.length + gettoalign s.totalsize s.h opt size +
      item.bytes.length + more.length := by
    rw [hdata]
    simp only [List.length_append, List.length_replicate]
  have hle := size_le_length hsize hitem
  have hpos : plus s.totalsize (gettoalign s.totalsize s.h opt size) =
      s.buffer.length + gettoalign s.totalsize s.h opt size := by
    rw [plus_of_lt (by omega), htotal]
  have hdrop : data.drop (s.buffer.length + gettoalign s.totalsize s.h opt size) =
      item.bytes ++ more := by
    rw [hdata, List.append_assoc, List.drop_left']
    rw [List.length_append, List.length_replicate]
  have hunpack : unpackItem conv data opt size fmt₁ s.h
      (s.buffer.length + gettoalign s.totalsize s.h opt size) (r.values ++ base) =
        .ok ⟨back.values ++ base, item.size, item.fmt, item.h⟩ ∧ back.args = item.args :=
    readBack_item hsize hitem hitem hback hdrop (by omega) hlength
  rcases hunpack with ⟨hunpack, hargs⟩
  refine ⟨rfl, ⟨item.h, plus (plus s.totalsize (gettoalign s.totalsize s.h opt size)) item.size,
    back.values ++ base⟩, ?_, hheader, ?_, ?_, ?_⟩
  · rw [unpackTurn, hsize]
    dsimp only [bind, Except.bind]
    rw [hpos, plus_of_lt (by omega), if_pos (by omega), hunpack]
    rfl
  · rw [harg, hargs]
  · dsimp only
    rw [hpos, plus_of_lt (by omega), List.length_append, List.length_append,
      List.length_replicate, hbytes]
  · rw [hvalues]

theorem scan_unpack {base : List Value} {final : Packing} {tail : Text}
    (hlength : (final.buffer ++ tail).length < 2 ^ 63) {text : Text} {s : Packing}
    (hscan : scan (packTurn conv args) text s = .ok final) :
    (∃ more, final.buffer = s.buffer ++ more) ∧
      ∀ (r : Reading) (last : Reading) (u : Unpacking), Follows base s r u →
        scan (readTurn conv args) text r = .ok last →
        ∃ u', scan (unpackTurn conv (final.buffer ++ tail)) text u = .ok u' ∧
          Follows base final last u' := by
  refine scan_induction packTurn_consumes (P := fun text s =>
    (∃ more, final.buffer = s.buffer ++ more) ∧
      ∀ (r : Reading) (last : Reading) (u : Unpacking), Follows base s r u →
        scan (readTurn conv args) text r = .ok last →
        ∃ u', scan (unpackTurn conv (final.buffer ++ tail)) text u = .ok u' ∧
          Follows base final last u') ?_ ?_ hscan
  · refine ⟨⟨[], (List.append_nil _).symm⟩, ?_⟩
    rintro r last u hfollows ⟨⟩
    exact ⟨u, rfl, hfollows⟩
  · rintro c rest s rest' s' hturn _ ⟨⟨more, hmore⟩, ih⟩
    apply And.intro
    · rcases packTurn_ok hturn with ⟨size, fmt₁, item, -, -, -, rfl⟩
      rw [hmore, List.append_assoc, List.append_assoc]
      exact ⟨_, rfl⟩
    · intro r last u hfollows hread
      rw [scan_cons readTurn_consumes] at hread
      rcases bind_eq_ok_iff.mp hread with ⟨⟨fmt, r'⟩, hfirst, hrest⟩
      have hdata : final.buffer ++ tail = s'.buffer ++ (more ++ tail) := by
        rw [hmore, List.append_assoc]
      rcases hfollows.turn hturn hfirst hdata hlength with ⟨rfl, u', hu', hfollows'⟩
      rw [scan_cons_of_ok unpackTurn_consumes hu']
      exact ih r' last u' hfollows' hrest

/-- **Unpacking what was packed.** With whatever data behind it, a packed string gives back
what its arguments come to, and the position behind it. -/
theorem unpack_pack {bytes tail : Text} {values : List Value}
    (hpack : pack conv fmt args = .ok bytes) (hread : readBack conv args fmt = .ok values)
    (hlength : (bytes ++ tail).length + 1 < 2 ^ 63) :
    unpack conv fmt (bytes ++ tail) 1 =
      .ok (values ++ [.number (.whole (bytes.length + 1))]) := by
  rcases bind_eq_ok_iff.mp hpack with ⟨final, hscan, ⟨⟩⟩
  rcases bind_eq_ok_iff.mp hread with ⟨last, hlast, ⟨⟩⟩
  have hbound : (final.buffer ++ tail).length < 2 ^ 63 := by omega
  have hrun := (scan_unpack hbound hscan).2 _ last
    ⟨defaultoptions, 0, [.string (final.buffer ++ tail), .string fmt]⟩ ⟨rfl, rfl, rfl, rfl⟩ hlast
  rcases hrun with ⟨u, hu, hfollows⟩
  have hbuffer : final.buffer.length + 1 < 2 ^ 63 := by
    rw [List.length_append] at hlength
    omega
  have hpos : asInteger (plus u.pos 1) = final.buffer.length + 1 := by
    rw [hfollows.state]
    dsimp only
    rw [hfollows.total, plus_of_lt (by omega), asInteger_of_lt hbuffer]
    rfl
  have hstart : (BitVec.ofInt 64 (1 - 1)).toNat = 0 := by decide
  rw [unpack, hstart, hu]
  dsimp only [bind, Except.bind, pure, Except.pure]
  rw [hpos, hfollows.state]
  have hheight : (Value.number (.whole (final.buffer.length + 1)) ::
      (last.values ++ [.string (final.buffer ++ tail), .string fmt])).length - 2 =
        (.number (.whole (final.buffer.length + 1)) :: last.values).length := by
    simp
  rw [hheight, ← List.cons_append, List.take_left, List.reverse_cons]

theorem unpack_pack_counted :
    unpack zeroConversions ['>', 'B', 'c', '0', 'h'] ['\x02', 'h', 'i', '\xff', '\xfe', 'z'] 1 =
      .ok [.string ['h', 'i'], .number (.whole (-2)), .number (.whole 6)] := by
  have hpack : pack zeroConversions ['>', 'B', 'c', '0', 'h']
      [.number (.whole 2), .string ['h', 'i'], .number (.whole 65534)] =
        .ok ['\x02', 'h', 'i', '\xff', '\xfe'] := rfl
  have hread : readBack zeroConversions
      [.number (.whole 2), .string ['h', 'i'], .number (.whole 65534)] ['>', 'B', 'c', '0', 'h'] =
        .ok [.string ['h', 'i'], .number (.whole (-2))] := rfl
  have hlength : (['\x02', 'h', 'i', '\xff', '\xfe'] ++ ['z']).length + 1 < 2 ^ 63 := by decide
  exact unpack_pack hpack hread hlength

end FerroRemote.Lua.Struct

/-
# The size of what is packed

The three loops of the library read a format in the same way: the same options, the same
alignment. So `size` foretells how long a packed string is, where it answers at all; and it
answers for every format that can be packed, but for options whose size lies in the
arguments. `unpack` follows the same positions, and looks at nothing outside the data, as
long as it starts inside.
-/

import FerroRemote.Lua.StructFormat

namespace FerroRemote.Lua.Struct

open FerroRemote.ByteOrder
open FerroRemote.Scanning

variable {conv : Conversions} {args : List Value} {opt : Char} {fmt fmt' : Text} {h : Header}

theorem digits_length {a n : Nat} (hdigits : digits a fmt = .ok (n, fmt')) :
    fmt'.length ≤ fmt.length := by
  induction fmt generalizing a with
  | nil =>
      cases hdigits
      exact Nat.le_refl _
  | cons c rest ih =>
      rw [digits] at hdigits
      split at hdigits
      · split at hdigits
        · exact (ih hdigits).trans (Nat.le_succ _)
        · cases hdigits
      · cases hdigits
        exact Nat.le_refl _

theorem getnum_length {df n : Nat} (hnum : getnum fmt df = .ok (n, fmt')) :
    fmt'.length ≤ fmt.length := by
  rw [getnum.eq_def] at hnum
  split at hnum
  · cases hnum
    exact Nat.le_refl _
  · split at hnum
    · exact digits_length hnum
    · cases hnum
      exact Nat.le_refl _

theorem optsize_length {size : Nat} (hsize : optsize opt fmt = .ok (size, fmt')) :
    fmt'.length ≤ fmt.length := by
  rw [optsize.eq_def] at hsize
  split at hsize
  case h_11 => exact getnum_length hsize
  case h_12 | h_13 =>
    split at hsize
    · cases hsize
    · next hnum =>
        split at hsize
        · cases hsize
        · cases hsize
          exact getnum_length hnum
  all_goals
    cases hsize
    exact Nat.le_refl _

theorem controloptions_length {h' : Header} (hcontrol : controloptions opt fmt h = .ok (fmt', h')) :
    fmt'.length ≤ fmt.length := by
  rw [controloptions.eq_def] at hcontrol
  split at hcontrol
  case h_4 =>
    split at hcontrol
    · cases hcontrol
    · next hnum =>
        split at hcontrol
        · cases hcontrol
          exact getnum_length hnum
        · cases hcontrol
  case h_5 => cases hcontrol
  all_goals
    cases hcontrol
    exact Nat.le_refl _

theorem optsize_of_control {h' : Header} {r : Text}
    (hcontrol : controloptions opt fmt h = .ok (fmt', h')) : optsize opt r = .ok (0, r) := by
  rw [controloptions.eq_def] at hcontrol
  split at hcontrol
  case h_5 => cases hcontrol
  all_goals rfl

theorem alphanum_of_isInteger (hopt : isInteger opt = true) : opt.isAlphanum = true := by
  rw [isInteger, decide_eq_true_eq] at hopt
  simp only [List.mem_cons, List.not_mem_nil, or_false] at hopt
  rcases hopt with rfl | rfl | rfl | rfl | rfl | rfl | rfl | rfl | rfl
  all_goals rfl

theorem not_alphanum_of_control {h' : Header}
    (hcontrol : controloptions opt fmt h = .ok (fmt', h')) : opt.isAlphanum = false := by
  rw [controloptions.eq_def] at hcontrol
  split at hcontrol
  case h_5 => cases hcontrol
  all_goals rfl

theorem length_exchange (b : Text) (i size : Nat) : (exchange b i size).length = b.length := by
  induction size generalizing b i with
  | zero => rfl
  | succ size ih =>
      rw [exchange]
      split
      · rw [ih, List.length_set, List.length_set]
      · rfl

theorem length_correctbytes (b : Text) (size : Nat) (endian : Endian) :
    (correctbytes b size endian).length = b.length := by
  rw [correctbytes]
  split
  · exact length_exchange b 0 size
  · rfl

theorem length_bytesOf (endian : Endian) (size : Nat) (value : BitVec 64) :
    (bytesOf endian size value).length = size := by
  cases endian with
  | little => rw [bytesOf, List.length_map, length_lowFirst]
  | big =>
      rw [bytesOf, List.length_map, highFirst_eq, List.append_nil, List.length_reverse,
        length_lowFirst]

/-- What the format and the header are after an option -/
def After (opt : Char) (fmt : Text) (h : Header) (fmt' : Text) (h' : Header) : Prop :=
  if opt.isAlphanum then fmt' = fmt ∧ h' = h else controloptions opt fmt h = .ok (fmt', h')

/-- **What an item writes.** As many bytes as its size, which is the one in the format but for
strings that bring their own. -/
theorem packItem_ok {r rest : Text} {size arg : Nat} {item : Item}
    (hsize : optsize opt r = .ok (size, rest))
    (hitem : packItem conv args opt size rest h arg = .ok item) :
    item.bytes.length = item.size ∧
      (opt ≠ 's' → ¬(opt = 'c' ∧ size = 0) → item.size = size) ∧
      After opt rest h item.fmt item.h := by
  rw [packItem] at hitem
  split at hitem
  · next hinteger =>
      rcases bind_eq_ok_iff.mp hitem with ⟨bytes, hbytes, ⟨⟩⟩
      rcases bind_eq_ok_iff.mp hbytes with ⟨n, -, hn⟩
      rcases bind_eq_ok_iff.mp hn with ⟨value, -, ⟨⟩⟩
      refine ⟨length_bytesOf h.endian size value, fun _ _ => rfl, ?_⟩
      rw [After, if_pos (alphanum_of_isInteger hinteger)]
      exact ⟨rfl, rfl⟩
  · split at hitem
    · next hx =>
        subst hx
        cases hsize
        cases hitem
        exact ⟨rfl, fun _ _ => rfl, rfl, rfl⟩
    · split at hitem
      · next hf =>
          subst hf
          cases hsize
          rcases bind_eq_ok_iff.mp hitem with ⟨n, -, ⟨⟩⟩
          refine ⟨?_, fun _ _ => rfl, rfl, rfl⟩
          rw [length_correctbytes, conv.length_float]
      · split at hitem
        · next hd =>
            subst hd
            cases hsize
            rcases bind_eq_ok_iff.mp hitem with ⟨n, -, ⟨⟩⟩
            refine ⟨?_, fun _ _ => rfl, rfl, rfl⟩
            rw [length_correctbytes, conv.length_double]
        · split at hitem
          · next hstring =>
              rcases bind_eq_ok_iff.mp hitem with ⟨s, -, hs⟩
              generalize hwidth : (if size = 0 then s.length else size) = width at hs
              dsimp only at hs
              split at hs
              · cases hs
              · next hlong =>
                  have htake : (s.take width).length = width :=
                    List.length_take_of_le (Nat.not_lt.mp hlong)
                  rcases hstring with rfl | rfl
                  · cases hs
                    refine ⟨htake, ?_, rfl, rfl⟩
                    rintro - hnot
                    exact hwidth.symm.trans (if_neg fun hzero => hnot ⟨rfl, hzero⟩)
                  · cases hs
                    refine ⟨?_, fun hs => absurd rfl hs, rfl, rfl⟩
                    rw [List.length_append, htake]
                    rfl
          · rcases bind_eq_ok_iff.mp hitem with ⟨next, hcontrol, ⟨⟩⟩
            have hzero := optsize_of_control (r := r) hcontrol
            rw [hsize, Except.ok.injEq, Prod.mk.injEq] at hzero
            refine ⟨hzero.1.symm, fun _ _ => rfl, ?_⟩
            rw [After, not_alphanum_of_control hcontrol]
            exact hcontrol

theorem packTurn_ok {s s' : Packing} (hturn : packTurn conv args opt fmt s = .ok (fmt', s')) :
    ∃ size rest item, optsize opt fmt = .ok (size, rest) ∧
      packItem conv args opt size rest s.h s.arg = .ok item ∧ fmt' = item.fmt ∧
      s' = {
        h := item.h
        arg := s.arg + item.args
        totalsize := plus (plus s.totalsize (gettoalign s.totalsize s.h opt size)) item.size
        buffer := s.buffer ++ List.replicate (gettoalign s.totalsize s.h opt size) '\x00' ++
          item.bytes } := by
  rcases bind_eq_ok_iff.mp hturn with ⟨⟨size, rest⟩, hsize, hrest⟩
  rcases bind_eq_ok_iff.mp hrest with ⟨item, hitem, ⟨⟩⟩
  exact ⟨size, rest, item, hsize, hitem, rfl, rfl⟩

theorem After.length {r : Text} {h' : Header} (hafter : After opt fmt h r h') :
    r.length ≤ fmt.length := by
  rw [After] at hafter
  split at hafter
  · rw [hafter.1]
  · exact controloptions_length hafter

theorem packTurn_consumes : Consumes (packTurn conv args) := by
  intro opt fmt s fmt' s' hturn
  rcases packTurn_ok hturn with ⟨size, rest, item, hsize, hitem, rfl, -⟩
  exact (packItem_ok hsize hitem).2.2.length.trans (optsize_length hsize)

theorem sizeTurn_ok {s s' : Sizing} (hturn : sizeTurn opt fmt s = .ok (fmt', s')) :
    ∃ size rest, optsize opt fmt = .ok (size, rest) ∧ After opt rest s.h fmt' s'.h ∧
      s'.pos = plus (plus s.pos (gettoalign s.pos s.h opt size)) size := by
  rcases bind_eq_ok_iff.mp hturn with ⟨⟨size, rest⟩, hsize, hrest⟩
  refine ⟨size, rest, hsize, ?_⟩
  dsimp only at hrest
  split at hrest
  · cases hrest
  · split at hrest
    · cases hrest
    · rw [After]
      split at hrest
      · next halnum =>
          cases hrest
          rw [if_pos halnum]
          exact ⟨⟨rfl, rfl⟩, rfl⟩
      · next halnum =>
          rcases bind_eq_ok_iff.mp hrest with ⟨next, hcontrol, ⟨⟩⟩
          rw [if_neg halnum]
          exact ⟨hcontrol, rfl⟩

theorem sizeTurn_consumes : Consumes sizeTurn := by
  intro opt fmt s fmt' s' hturn
  rcases sizeTurn_ok hturn with ⟨size, rest, hsize, hafter, -⟩
  exact hafter.length.trans (optsize_length hsize)

/-- The failures of `size` for options whose size lies in the arguments -/
def NoFixedSize (err : Failure) : Prop :=
  err = .argument 1 "option 's' has no fixed size" ∨
    err = .argument 1 "option 'c0' has no fixed size"

/-- The two loops at the same place -/
structure InStep (s : Packing) (z : Sizing) : Prop where
  h : s.h = z.h
  pos : s.totalsize = z.pos
  length : s.buffer.length % 2 ^ 64 = z.pos

theorem plus_mod (a b c : Nat) : plus (plus (a % 2 ^ 64) b) c = (a + b + c) % 2 ^ 64 := by
  rw [plus, plus]
  omega

theorem sizeTurn_of_packTurn {s s' : Packing} {z : Sizing} (hstep : InStep s z)
    (hturn : packTurn conv args opt fmt s = .ok (fmt', s')) :
    (∃ z', sizeTurn opt fmt z = .ok (fmt', z') ∧ InStep s' z') ∨
      ∃ err, sizeTurn opt fmt z = .error err ∧ NoFixedSize err := by
  rcases packTurn_ok hturn with ⟨size, rest, item, hsize, hitem, rfl, rfl⟩
  rcases packItem_ok hsize hitem with ⟨hlength, hfixed, hafter⟩
  rw [sizeTurn, hsize]
  by_cases hs : opt = 's'
  · right
    exact ⟨_, if_pos hs, Or.inl rfl⟩
  by_cases hc : opt = 'c' ∧ size = 0
  · right
    refine ⟨.argument 1 "option 'c0' has no fixed size", ?_, Or.inr rfl⟩
    exact (if_neg hs).trans (if_pos hc)
  · left
    refine ⟨⟨item.h, plus (plus z.pos (gettoalign z.pos z.h opt size)) size⟩, ?_, rfl, ?_, ?_⟩
    · refine (if_neg hs).trans ((if_neg hc).trans ?_)
      rw [After, hstep.h] at hafter
      split at hafter
      · next halnum => rw [if_pos halnum, hafter.1, hafter.2]
      · next halnum =>
          rw [if_neg halnum, hafter]
          rfl
    · rw [hfixed hs hc, hstep.pos, hstep.h]
    · rw [List.length_append, List.length_append, List.length_replicate, hlength, hfixed hs hc,
        hstep.pos, hstep.h, ← hstep.length, plus_mod]

theorem scan_size_of_scan_pack {final : Packing} {text : Text} {s : Packing}
    (hscan : scan (packTurn conv args) text s = .ok final) :
    ∀ z, InStep s z →
      (∃ z', scan sizeTurn text z = .ok z' ∧ InStep final z') ∨
        ∃ err, scan sizeTurn text z = .error err ∧ NoFixedSize err := by
  refine scan_induction packTurn_consumes (P := fun text s => ∀ z, InStep s z →
    (∃ z', scan sizeTurn text z = .ok z' ∧ InStep final z') ∨
      ∃ err, scan sizeTurn text z = .error err ∧ NoFixedSize err) ?_ ?_ hscan
  · intro z hz
    exact Or.inl ⟨z, rfl, hz⟩
  · intro c rest s rest' s' hturn _ ih z hz
    rcases sizeTurn_of_packTurn hz hturn with ⟨z', hz', hstep⟩ | ⟨err, herr, hno⟩
    · rw [scan_cons_of_ok sizeTurn_consumes hz']
      exact ih z' hstep
    · exact Or.inr ⟨err, scan_cons_of_error sizeTurn_consumes herr, hno⟩

theorem asInteger_of_lt {n : Nat} (hn : n < 2 ^ 63) : asInteger n = n := by
  rw [asInteger, BitVec.toInt_eq_toNat_bmod, BitVec.toNat_ofNat, Nat.mod_eq_of_lt (by omega)]
  exact Int.bmod_eq_of_le (by omega) (by omega)

/-- **`size` foretells the length of what is packed.** A format that can be packed at all, with
any arguments, has the size that it was packed into, or an option of no fixed size. -/
theorem size_of_packed {bytes : Text} (hpack : pack conv fmt args = .ok bytes)
    (hbytes : bytes.length < 2 ^ 63) :
    size fmt = .ok bytes.length ∨ ∃ err, size fmt = .error err ∧ NoFixedSize err := by
  rcases bind_eq_ok_iff.mp hpack with ⟨final, hscan, ⟨⟩⟩
  rw [size]
  rcases scan_size_of_scan_pack hscan ⟨defaultoptions, 0⟩ ⟨rfl, rfl, rfl⟩ with
    ⟨z, hz, hstep⟩ | ⟨err, herr, hno⟩
  · left
    rw [hz]
    have hpos : z.pos = final.buffer.length := by
      rw [← hstep.length]
      omega
    exact congrArg Except.ok (by rw [hpos, asInteger_of_lt hbytes])
  · right
    rw [herr]
    exact ⟨err, rfl, hno⟩

/-- Conversions that know no number but zero in texts and in floating point -/
def zeroConversions : Conversions where
  toNumber text := if text = ['0'] then some (.whole 0) else none
  numberText _ := ['0']
  float _ := List.replicate 4 '\x00'
  ofFloat _ := .whole 0
  double _ := List.replicate 8 '\x00'
  ofDouble _ := .whole 0
  length_float _ := rfl
  length_double _ := rfl

theorem size_of_packed_fields :
    pack zeroConversions ['!', '4', '>', 'b', 'i'] [.number (.whole (-1)), .number (.whole 258)] =
        .ok ['\xff', '\x00', '\x00', '\x00', '\x00', '\x00', '\x01', '\x02'] ∧
      (size ['!', '4', '>', 'b', 'i'] = .ok 8 ∨
        ∃ err, size ['!', '4', '>', 'b', 'i'] = .error err ∧ NoFixedSize err) := by
  have hpack : pack zeroConversions ['!', '4', '>', 'b', 'i']
      [.number (.whole (-1)), .number (.whole 258)] =
        .ok ['\xff', '\x00', '\x00', '\x00', '\x00', '\x00', '\x01', '\x02'] := rfl
  exact ⟨hpack, size_of_packed hpack (by decide)⟩

/-! ## Reading inside the data -/

theorem digits_lt {a n : Nat} (ha : a < 2 ^ 31) (hdigits : digits a fmt = .ok (n, fmt')) :
    n < 2 ^ 31 := by
  induction fmt generalizing a with
  | nil =>
      cases hdigits
      exact ha
  | cons c rest ih =>
      rw [digits] at hdigits
      split at hdigits
      · split at hdigits
        · exact ih (by omega) hdigits
        · cases hdigits
      · cases hdigits
        exact ha

theorem getnum_lt {df n : Nat} (hdf : df < 2 ^ 31) (hnum : getnum fmt df = .ok (n, fmt')) :
    n < 2 ^ 31 := by
  rw [getnum.eq_def] at hnum
  split at hnum
  · cases hnum
    exact hdf
  · split at hnum
    · exact digits_lt (by decide) hnum
    · cases hnum
      exact hdf

theorem optsize_lt {size : Nat} (hsize : optsize opt fmt = .ok (size, fmt')) : size < 2 ^ 31 := by
  rw [optsize.eq_def] at hsize
  split at hsize
  case h_11 => exact getnum_lt (by decide) hsize
  case h_12 | h_13 =>
    split at hsize
    · cases hsize
    · next hnum =>
        split at hsize
        · cases hsize
        · cases hsize
          exact getnum_lt (by decide) hnum
  all_goals
    cases hsize
    decide

theorem gettoalign_le (len : Nat) (h : Header) (opt : Char) (size : Nat) :
    gettoalign len h opt size ≤ size := by
  rw [gettoalign]
  split
  · exact Nat.zero_le _
  · dsimp only
    apply Nat.and_le_right.trans
    split
    · omega
    · omega

theorem digits_error {a : Nat} {err : Failure} (hdigits : digits a fmt = .error err) :
    err = .overflow := by
  induction fmt generalizing a with
  | nil => cases hdigits
  | cons c rest ih =>
      rw [digits] at hdigits
      split at hdigits
      · split at hdigits
        · exact ih hdigits
        · cases hdigits
          rfl
      · cases hdigits

theorem getnum_error {df : Nat} {err : Failure} (hnum : getnum fmt df = .error err) :
    err = .overflow := by
  rw [getnum.eq_def] at hnum
  split at hnum
  · cases hnum
  · split at hnum
    · exact digits_error hnum
    · cases hnum

theorem optsize_ne_outside : optsize opt fmt ≠ .error .outside := by
  intro hsize
  rw [optsize.eq_def] at hsize
  split at hsize
  case h_11 => cases getnum_error hsize
  case h_12 | h_13 =>
    split at hsize
    · next hnum =>
        cases hsize
        cases getnum_error hnum
    · split at hsize
      · cases hsize
      · cases hsize
  all_goals cases hsize

theorem controloptions_ne_outside : controloptions opt fmt h ≠ .error .outside := by
  intro hcontrol
  rw [controloptions.eq_def] at hcontrol
  split at hcontrol
  case h_4 =>
    split at hcontrol
    · next hnum =>
        cases hcontrol
        cases getnum_error hnum
    · split at hcontrol
      · cases hcontrol
      · cases hcontrol
  all_goals cases hcontrol

theorem bytesAt_of_le {data : Text} {pos size : Nat} (hle : pos + size ≤ data.length) :
    bytesAt data pos size = .ok ((data.drop pos).take size) := if_pos (Or.inr hle)

theorem getinteger_ne_outside {buff : Text} {endian : Endian} {issigned : Bool} {size : Nat} :
    getinteger buff endian issigned size ≠ .error .outside := by
  rw [getinteger]
  split
  · split <;> rintro ⟨⟩
  · rw [unsignedResult]
    split <;> rintro ⟨⟩

/-- A read that stays inside the data leaves the position inside. -/
def Stays (data : Text) (pos : Nat) (r : Except Failure Taken) : Prop :=
  r ≠ .error .outside ∧ ∀ taken, r = .ok taken → pos + taken.size ≤ data.length

theorem Stays.bind {α : Type} {data : Text} {pos : Nat} {x : Except Failure α}
    {f : α → Except Failure Taken} (hx : x ≠ .error .outside)
    (hf : ∀ a, x = .ok a → Stays data pos (f a)) : Stays data pos (x >>= f) := by
  cases x with
  | ok a => exact hf a rfl
  | error err =>
      apply And.intro
      · rintro ⟨⟩
        exact hx rfl
      · rintro taken ⟨⟩

theorem Stays.pure {data : Text} {pos : Nat} {taken : Taken}
    (hle : pos + taken.size ≤ data.length) : Stays data pos (.ok taken) := by
  apply And.intro
  · rintro ⟨⟩
  · rintro taken' ⟨⟩
    exact hle

theorem Stays.error {data : Text} {pos : Nat} {err : Failure} (herr : err ≠ .outside) :
    Stays data pos (.error err) := by
  apply And.intro
  · rintro ⟨⟩
    exact herr rfl
  · rintro taken' ⟨⟩

theorem pushBytes_ne_outside {data : Text} {pos size : Nat}
    (hle : size < 2 ^ 63 → pos + size ≤ data.length) :
    pushBytes data pos size ≠ .error .outside := by
  rw [pushBytes]
  split
  · rintro ⟨⟩
  · next hsize =>
      rw [bytesAt_of_le (hle (Nat.not_le.mp hsize))]
      rintro ⟨⟩

theorem toSize_ne_outside {n : LuaNumber} : toSize n ≠ .error .outside := by
  rw [toSize]
  split
  · rintro ⟨⟩
  · split <;> rintro ⟨⟩

theorem plus_of_lt {a b : Nat} (hlt : a + b < 2 ^ 64) : plus a b = a + b := Nat.mod_eq_of_lt hlt

section Reading

variable {data : Text} {size pos : Nat} {stack : List Value}

/-- The option `c0`, whose size is the number read before: sums that wrap around belong to
sizes that no string has. -/
theorem stays_of_number (hdata : data.length < 2 ^ 63) (hpos : pos ≤ data.length)
    {n : LuaNumber} {h : Header} :
    Stays data pos (do
      let size ← toSize n
      if plus pos size ≤ data.length then do
        let s ← pushBytes data pos size
        return (⟨.string s :: stack, size, fmt, h⟩ : Taken)
      else .error tooShort) := by
  apply Stays.bind toSize_ne_outside
  intro size _
  split
  · next hle =>
      have hinside : size < 2 ^ 63 → pos + size ≤ data.length := by
        intro hsize
        rwa [plus_of_lt (by omega)] at hle
      apply Stays.bind (pushBytes_ne_outside hinside)
      intro s hs
      rw [pushBytes] at hs
      split at hs
      · cases hs
      · next hsize => exact Stays.pure (hinside (Nat.not_le.mp hsize))
  · apply Stays.error
    rintro ⟨⟩

/-- **What an item reads** once the check of its size has passed. -/
theorem unpackItem_stays (hdata : data.length < 2 ^ 63)
    (hle : pos + size ≤ data.length) :
    Stays data pos (unpackItem conv data opt size fmt h pos stack) := by
  have hbytes : bytesAt data pos size ≠ .error .outside := by
    rw [bytesAt_of_le hle]
    rintro ⟨⟩
  rw [unpackItem]
  split
  · exact Stays.bind hbytes fun buff _ => Stays.bind getinteger_ne_outside fun res _ =>
      Stays.pure hle
  · split
    · exact Stays.pure hle
    · split
      · exact Stays.bind hbytes fun buff _ => Stays.pure hle
      · split
        · exact Stays.bind hbytes fun buff _ => Stays.pure hle
        · split
          · split
            · split
              · apply Stays.error
                rintro ⟨⟩
              · exact stays_of_number hdata (by omega)
            · exact Stays.bind (pushBytes_ne_outside fun _ => hle) fun s _ => Stays.pure hle
          · split
            · dsimp only
              split
              · next hfound =>
                  apply Stays.pure
                  rw [List.length_drop] at hfound
                  dsimp only
                  omega
              · apply Stays.error
                rintro ⟨⟩
            · exact Stays.bind controloptions_ne_outside fun next _ => Stays.pure hle

/-- **A turn that starts inside the data stays inside.** -/
theorem unpackTurn_stays (hdata : data.length < 2 ^ 63) {s : Unpacking} (hpos : s.pos < 2 ^ 63) :
    unpackTurn conv data opt fmt s ≠ .error .outside ∧
      ∀ fmt' s', unpackTurn conv data opt fmt s = .ok (fmt', s') → s'.pos < 2 ^ 63 := by
  rw [unpackTurn]
  cases hsize : optsize opt fmt with
  | error err =>
      apply And.intro
      · rintro ⟨⟩
        exact optsize_ne_outside hsize
      · rintro fmt' s' ⟨⟩
  | ok next =>
      rcases next with ⟨size, rest⟩
      have hlt := optsize_lt hsize
      have halign := gettoalign_le s.pos s.h opt size
      have hplus : plus s.pos (gettoalign s.pos s.h opt size) =
          s.pos + gettoalign s.pos s.h opt size := plus_of_lt (by omega)
      dsimp only [bind, Except.bind]
      rw [hplus, plus_of_lt (by omega)]
      split
      · next hle =>
          have hstays : Stays data (s.pos + gettoalign s.pos s.h opt size)
              (unpackItem conv data opt size rest s.h
                (s.pos + gettoalign s.pos s.h opt size) s.stack) := unpackItem_stays hdata hle
          cases hitem : unpackItem conv data opt size rest s.h
              (s.pos + gettoalign s.pos s.h opt size) s.stack with
          | error err =>
              apply And.intro
              · rintro ⟨⟩
                exact hstays.1 hitem
              · rintro fmt' s' ⟨⟩
          | ok taken =>
              have hinside := hstays.2 taken hitem
              apply And.intro
              · rintro ⟨⟩
              · rintro fmt' s' ⟨⟩
                dsimp only
                rw [plus_of_lt (by omega)]
                omega
      · apply And.intro
        · rintro ⟨⟩
        · rintro fmt' s' ⟨⟩

theorem unpackItem_after {taken : Taken}
    (hitem : unpackItem conv data opt size fmt h pos stack = .ok taken) :
    After opt fmt h taken.fmt taken.h := by
  rw [unpackItem] at hitem
  split at hitem
  · next hinteger =>
      rcases bind_eq_ok_iff.mp hitem with ⟨buff, -, hbuff⟩
      rcases bind_eq_ok_iff.mp hbuff with ⟨res, -, ⟨⟩⟩
      rw [After, if_pos (alphanum_of_isInteger hinteger)]
      exact ⟨rfl, rfl⟩
  · split at hitem
    · next hx =>
        subst hx
        cases hitem
        exact ⟨rfl, rfl⟩
    · split at hitem
      · next hf =>
          subst hf
          rcases bind_eq_ok_iff.mp hitem with ⟨buff, -, ⟨⟩⟩
          exact ⟨rfl, rfl⟩
      · split at hitem
        · next hd =>
            subst hd
            rcases bind_eq_ok_iff.mp hitem with ⟨buff, -, ⟨⟩⟩
            exact ⟨rfl, rfl⟩
        · split at hitem
          · next hc =>
              subst hc
              split at hitem
              · split at hitem
                · cases hitem
                · rcases bind_eq_ok_iff.mp hitem with ⟨size, -, hrest⟩
                  split at hrest
                  · rcases bind_eq_ok_iff.mp hrest with ⟨s, -, ⟨⟩⟩
                    exact ⟨rfl, rfl⟩
                  · cases hrest
              · rcases bind_eq_ok_iff.mp hitem with ⟨s, -, ⟨⟩⟩
                exact ⟨rfl, rfl⟩
          · split at hitem
            · next hs =>
                subst hs
                dsimp only at hitem
                split at hitem
                · cases hitem
                  exact ⟨rfl, rfl⟩
                · cases hitem
            · rcases bind_eq_ok_iff.mp hitem with ⟨next, hcontrol, ⟨⟩⟩
              rw [After, not_alphanum_of_control hcontrol]
              exact hcontrol

theorem unpackTurn_consumes : Consumes (unpackTurn conv data) := by
  intro opt fmt s fmt' s' hturn
  rcases bind_eq_ok_iff.mp hturn with ⟨⟨size, rest⟩, hsize, hrest⟩
  dsimp only at hrest
  split at hrest
  · rcases bind_eq_ok_iff.mp hrest with ⟨taken, hitem, ⟨⟩⟩
    exact (unpackItem_after hitem).length.trans (optsize_length hsize)
  · cases hrest

/-- From a position before the data, the sum that is checked wraps around, and the first byte
is read in front of the data. -/
theorem unpack_before (conv : Conversions) (hdata : data.length < 2 ^ 63) :
    unpack conv ['b'] data 0 = .error .outside := by
  have hstart : (BitVec.ofInt 64 (0 - 1)).toNat = 2 ^ 64 - 1 := by decide
  have halign : plus (2 ^ 64 - 1) (gettoalign (2 ^ 64 - 1) defaultoptions 'b' 1) =
      2 ^ 64 - 1 := by decide
  have hwrap : plus (2 ^ 64 - 1) 1 = 0 := by decide
  have hbytes : bytesAt data (2 ^ 64 - 1) 1 = .error .outside := if_neg (by omega)
  have hitem : unpackItem conv data 'b' 1 [] defaultoptions (2 ^ 64 - 1)
      [.string data, .string ['b']] = .error .outside := by
    rw [unpackItem, if_pos (by decide), hbytes]
    rfl
  have hturn : unpackTurn conv data 'b' [] ⟨defaultoptions, 2 ^ 64 - 1,
      [.string data, .string ['b']]⟩ = .error .outside := by
    rw [unpackTurn, optsize]
    dsimp only [bind, Except.bind]
    rw [halign, hwrap, if_pos (Nat.zero_le _), hitem]
  have hfmt : cString ['b'] = ['b'] := by decide
  rw [unpack, hstart, hfmt, scan_cons_of_error unpackTurn_consumes hturn]
  rfl

end Reading

/-- **`unpack` reads inside the data.** Whatever the format is, nothing outside of the data is
looked at when the call starts inside or behind it. A start of zero is in front. -/
theorem unpack_inside_iff (conv : Conversions) {data : Text} (hdata : data.length < 2 ^ 63)
    {init : Int} (hnonneg : 0 ≤ init) (hinit : init < 2 ^ 63) :
    (∀ fmt, unpack conv fmt data init ≠ .error .outside) ↔ init ≠ 0 := by
  apply Iff.intro
  · rintro hall rfl
    exact hall ['b'] (unpack_before conv hdata)
  · intro hne fmt
    have hpos : (BitVec.ofInt 64 (init - 1)).toNat < 2 ^ 63 := by
      rw [BitVec.toNat_ofInt]
      omega
    rw [unpack]
    have hkeep : ∀ c rest s rest' s', s.pos < 2 ^ 63 →
        unpackTurn conv data c rest s = .ok (rest', s') → s'.pos < 2 ^ 63 :=
      fun _ _ _ _ _ hs hturn => (unpackTurn_stays hdata hs).2 _ _ hturn
    have hno : ∀ c rest s, s.pos < 2 ^ 63 → unpackTurn conv data c rest s ≠ .error .outside :=
      fun _ _ _ hs => (unpackTurn_stays hdata hs).1
    have hscan : scan (unpackTurn conv data) (cString fmt)
        ⟨defaultoptions, (BitVec.ofInt 64 (init - 1)).toNat, [.string data, .string fmt]⟩ ≠
          .error .outside := scan_ne_error unpackTurn_consumes hkeep hno hpos
    cases hrun : scan (unpackTurn conv data) (cString fmt)
        ⟨defaultoptions, (BitVec.ofInt 64 (init - 1)).toNat, [.string data, .string fmt]⟩ with
    | error err =>
        rintro ⟨⟩
        exact hscan hrun
    | ok final => rintro ⟨⟩

theorem unpack_inside_of_start :
    (∀ fmt, unpack zeroConversions fmt ['a', 'b'] 2 ≠ .error .outside) ↔ (2 : Int) ≠ 0 :=
  unpack_inside_iff zeroConversions (by decide) (by decide) (by decide)

end FerroRemote.Lua.Struct

/-
# Pulses

A pulse sets a pin, sleeps and sets it again. The sleep is begun anew with the time that
remains whenever a signal ends it. What is written is the given number as a character,
and an exception in the middle leaves the pin as it has been set.
-/

import Mathlib.Algebra.Order.Ring.Nat
import FerroRemote.Agent.GpioSetup

namespace FerroRemote.Agent

/-- A `timespec`. -/
structure Timespec where
  sec : Int
  nsec : Int
  deriving DecidableEq, Repr

namespace Timespec

/-- What `nanosleep` takes. -/
def Valid (ts : Timespec) : Prop := 0 ≤ ts.sec ∧ 0 ≤ ts.nsec ∧ ts.nsec < 1000000000

instance (ts : Timespec) : Decidable ts.Valid := inferInstanceAs (Decidable (_ ∧ _))

def nanoseconds (ts : Timespec) : Int := ts.sec * 1000000000 + ts.nsec

def ofNanoseconds (n : Nat) : Timespec := ⟨(n / 1000000000 : Nat), (n % 1000000000 : Nat)⟩

end Timespec

def EINTR : Errno := 4

/-- What comes of a write to the value file. -/
inductive ValueAnswer
  | written
  | notOpened (code : Errno)
  | notWritten (code : Errno)

/-- How the last sleep ends, if it does. -/
inductive SleepEnd
  | completes
  | fails (code : Errno) (hcode : code ≠ EINTR)
  | asleep

/-- What happens around a pulse: the answers to the writes, and how long each sleep lasts
until a signal comes. -/
structure PulseEnv where
  answers : Nat → ValueAnswer
  signals : List Nat
  wakes : SleepEnd

/-- The pin, with what has been written to its value file and passed to `nanosleep`, and how
long it had slept then. -/
structure PulseState where
  level : Bool
  elapsed : Nat := 0
  written : List (List Char × Nat) := []
  slept : List (Timespec × Nat) := []
  deriving DecidableEq

/-- The value file. Anything but a zero sets the pin. -/
def pulseFiles (answers : Nat → ValueAnswer) : Sysfs PulseState where
  present _ _ := .ok true
  read s _ := some (if s.level then ['1', '\n'] else ['0', '\n'])
  opens _ _ := .ok ()
  opensToWrite s _ :=
    match answers s.written.length with
    | .notOpened code => .error code
    | _ => .ok ()
  write s _ data :=
    let tried := { s with written := s.written ++ [(data, s.elapsed)] }
    match answers s.written.length with
    | .notWritten code => (.error code, tried)
    | _ => (.ok (), { tried with level := data.head? ≠ some '0' })

/-- A number of seconds as a `time_t` that is `w` bits wide. -/
def toTime (w n : Nat) : Int := (BitVec.ofNat w n).toInt

def sleepError (code : Errno) : Error := .system code "nanosleep failed."

/-- A state, and how control has left it if it has. -/
abbrev PulseExit := PulseState × Option (Except Error Unit)

/-- The loop around `nanosleep`, while there are signals. -/
def sleepFrom (wakes : SleepEnd) : List Nat → Timespec → PulseState → PulseExit
  | signals, init, s =>
    let s := { s with slept := s.slept ++ [(init, s.elapsed)] }
    if ¬ init.Valid then (s, some (.error (sleepError EINVAL)))
    else
      let time := init.nanoseconds.toNat
      match signals with
      | k :: signals =>
        let past := min k time
        sleepFrom wakes signals (.ofNanoseconds (time - past))
          { s with elapsed := s.elapsed + past }
      | [] =>
        match wakes with
        | .completes => ({ s with elapsed := s.elapsed + time }, some (.ok ()))
        | .fails code _ => (s, some (.error (sleepError code)))
        | .asleep => (s, none)

/-- A `pulse_req`. -/
structure PulseReq where
  setValue : Option UInt32 := none
  resetValue : Option UInt32 := none
  length : UInt64 := 0
  deriving DecidableEq, Repr

namespace PulseReq

variable (req : PulseReq)

/-- `b` -/
def set : UInt32 := req.setValue.getD 1

/-- `a` -/
def reset : UInt32 := req.resetValue.getD 0

/-- `init` -/
def time (w : Nat) : Timespec where
  sec := toTime w (req.length / (1000 * 1000)).toNat
  nsec := ((req.length % (1000 * 1000)) * 1000).toNat

end PulseReq

/-- What follows unless an exception has been thrown. -/
def goOn (f : PulseState → PulseExit) : PulseExit → PulseExit
  | (s, some (.ok ())) => f s
  | (s, exit) => (s, exit)

/-- `g->set_value( val )`. -/
def pulseWrite (id : Nat) (env : PulseEnv) (val : UInt32) (s : PulseState) : PulseExit :=
  match setValue (pulseFiles env.answers) id val s with
  | .done () s => (s, some (.ok ()))
  | .thrown err s => (s, some (.error err))
  | .left => (s, none)

/-- `gpio_impl::make_pulse` behind `gpio_by_index`. -/
def makePulse (w id : Nat) (env : PulseEnv) (req : PulseReq) (s : PulseState) : PulseExit :=
  goOn (pulseWrite id env req.reset)
    (goOn (sleepFrom env.wakes env.signals (req.time w)) (pulseWrite id env req.set s))

namespace PulseReq

variable (req : PulseReq)

/-- The writes: the set value at once, and the reset value after the whole length. -/
def writes : List (List Char × Nat) :=
  [(SetupData.flag req.set, 0), (SetupData.flag req.reset, req.length.toNat * 1000)]

/-- The exact conditions on the writes: a number is written as the digit it stands for. -/
def SetPlain : Prop := req.set = 0 ∨ req.set.toNat % 256 = 1

def ResetPlain : Prop := req.reset = 0 ∨ req.reset.toNat % 256 = 1

/-- Both values are the same level. -/
def Level : Prop := req.set ≠ 0 ↔ req.reset ≠ 0

end PulseReq

/-- A pulse that begins with `s` and comes to `exit`. -/
structure PulsesRight (req : PulseReq) (exit : PulseExit) : Prop where
  valid : ∀ call ∈ exit.1.slept, call.1.Valid
  total : ∀ call ∈ exit.1.slept, call.2 + call.1.nanoseconds = req.length.toNat * 1000
  writes : exit.1.written <+: req.writes
  complete : exit.2 = some (.ok ()) → exit.1.written = req.writes
  reset : exit.2 ≠ none → (exit.1.level = true ↔ req.reset ≠ 0)

/-- When the values that are written are plain, the seconds fit, and an exit in the middle
finds the pin at the reset value. -/
def PulseFits (w : Nat) (env : PulseEnv) (req : PulseReq) (level : Bool) : Prop :=
  match env.answers 0 with
  | .notOpened _ => level = true ↔ req.reset ≠ 0
  | .notWritten _ => req.SetPlain ∧ (level = true ↔ req.reset ≠ 0)
  | .written =>
    req.SetPlain ∧ req.length.toNat / 1000000 < 2 ^ (w - 1) ∧
      match env.wakes with
      | .asleep => True
      | .fails _ _ => req.Level
      | .completes =>
        match env.answers 1 with
        | .notOpened _ => req.Level
        | .notWritten _ => req.ResetPlain ∧ req.Level
        | .written => req.ResetPlain

theorem toNat_charOfNat {n : Nat} (hn : n < 256) : (Char.ofNat n).toNat = n := by
  have hvalid : n.isValidChar := Or.inl (by omega)
  rw [Char.ofNat, dif_pos hvalid]
  rfl

theorem charOfNat_inj {n m : Nat} (hn : n < 256) (hm : m < 256) :
    Char.ofNat n = Char.ofNat m ↔ n = m := by
  constructor
  · intro heq
    have hnat := congrArg Char.toNat heq
    rwa [toNat_charOfNat hn, toNat_charOfNat hm] at hnat
  · intro heq
    rw [heq]

theorem toNat_add_48 (val : UInt32) : (val + 48).toNat % 256 = (val.toNat + 48) % 256 := by
  rw [UInt32.toNat_add]
  exact Nat.mod_mod_of_dvd _ ⟨16777216, rfl⟩

theorem digitChar_eq_iff (val : UInt32) {n : Nat} (hn : n < 256) :
    digitChar val = Char.ofNat n ↔ (val.toNat + 48) % 256 = n := by
  rw [digitChar, charOfNat_inj (Nat.mod_lt _ (by decide)) hn, toNat_add_48]

theorem digitChar_eq_zero_iff (val : UInt32) : digitChar val = '0' ↔ val.toNat % 256 = 0 := by
  have hzero : '0' = Char.ofNat 48 := rfl
  rw [hzero, digitChar_eq_iff val (by decide)]
  omega

theorem digitChar_eq_one_iff (val : UInt32) : digitChar val = '1' ↔ val.toNat % 256 = 1 := by
  have hone : '1' = Char.ofNat 49 := rfl
  rw [hone, digitChar_eq_iff val (by decide)]
  omega

/-- Every number that is 0 or 1 behind its first byte stands for its digit, but 256 does not
stand for 0. -/
theorem digits_eq_flag_iff (val : UInt32) :
    [digitChar val, '\x00'] = SetupData.flag val ↔ val = 0 ∨ val.toNat % 256 = 1 := by
  rw [SetupData.flag]
  by_cases hzero : val = 0
  · subst hzero
    exact iff_of_true rfl (.inl rfl)
  · simp only [if_neg hzero, List.cons.injEq, and_true, digitChar_eq_one_iff]
    exact ⟨.inr, fun h => h.resolve_left hzero⟩

theorem toTime_eq_iff (w n : Nat) : toTime w n = n ↔ n < 2 ^ (w - 1) := by
  rw [toTime, BitVec.toInt_eq_toNat_cond, BitVec.toNat_ofNat]
  cases w with
  | zero =>
      simp
      omega
  | succ w =>
      have hlt : n % 2 ^ (w + 1) < 2 ^ (w + 1) := Nat.mod_lt _ (Nat.two_pow_pos _)
      have hpow : 2 ^ (w + 1) = 2 * 2 ^ w := by omega
      rw [Nat.add_sub_cancel]
      constructor
      · intro heq
        split at heq
        · omega
        · omega
      · intro hfits
        have hmod : n % 2 ^ (w + 1) = n := Nat.mod_eq_of_lt (by omega)
        rw [hmod, if_pos (by omega)]

namespace PulseReq

variable (req : PulseReq) (w : Nat)

theorem time_eq : req.time w =
    ⟨toTime w (req.length.toNat / 1000000), (req.length.toNat % 1000000 * 1000 : Nat)⟩ := by
  have hlt := req.length.toNat_lt
  have hsec : (req.length / (1000 * 1000)).toNat = req.length.toNat / 1000000 := by
    rw [UInt64.toNat_div]
    rfl
  have hnsec : (req.length % (1000 * 1000) * 1000).toNat = req.length.toNat % 1000000 * 1000 := by
    rw [UInt64.toNat_mul, UInt64.toNat_mod]
    change req.length.toNat % 1000000 * 1000 % 2 ^ 64 = _
    omega
  rw [time, hsec, hnsec]

theorem time_nanoseconds_iff :
    (req.time w).nanoseconds = req.length.toNat * 1000 ↔
      req.length.toNat / 1000000 < 2 ^ (w - 1) := by
  rw [← toTime_eq_iff, time_eq, Timespec.nanoseconds]
  dsimp only
  omega

theorem time_valid (hfits : req.length.toNat / 1000000 < 2 ^ (w - 1)) : (req.time w).Valid := by
  rw [time_eq, (toTime_eq_iff w _).mpr hfits]
  refine ⟨Int.natCast_nonneg _, Int.natCast_nonneg _, ?_⟩
  dsimp only
  omega

end PulseReq

theorem Timespec.ofNanoseconds_valid (n : Nat) : (Timespec.ofNanoseconds n).Valid := by
  refine ⟨Int.natCast_nonneg _, Int.natCast_nonneg _, ?_⟩
  rw [Timespec.ofNanoseconds]
  dsimp only
  omega

theorem Timespec.nanoseconds_ofNanoseconds (n : Nat) :
    (Timespec.ofNanoseconds n).nanoseconds = n := by
  rw [Timespec.ofNanoseconds, Timespec.nanoseconds]
  dsimp only
  omega

theorem Timespec.Valid.nanoseconds_nonneg {ts : Timespec} (hvalid : ts.Valid) :
    0 ≤ ts.nanoseconds := by
  obtain ⟨hsec, hnsec, -⟩ := hvalid
  rw [Timespec.nanoseconds]
  omega

section Sleeping

variable (wakes : SleepEnd)

/-- The first call is made whatever it is given, and sleeping writes nothing. -/
theorem sleepFrom_first (signals : List Nat) (ts : Timespec) (s : PulseState) :
    s.slept ++ [(ts, s.elapsed)] <+: (sleepFrom wakes signals ts s).1.slept ∧
      (sleepFrom wakes signals ts s).1.written = s.written ∧
      (sleepFrom wakes signals ts s).1.level = s.level := by
  induction signals generalizing ts s with
  | nil =>
      rw [sleepFrom]
      dsimp only
      split
      · exact ⟨List.prefix_refl _, rfl, rfl⟩
      · cases wakes <;> exact ⟨List.prefix_refl _, rfl, rfl⟩
  | cons k signals ih =>
      rw [sleepFrom]
      dsimp only
      split
      · exact ⟨List.prefix_refl _, rfl, rfl⟩
      · obtain ⟨hslept, hwritten, hlevel⟩ := ih _ _
        exact ⟨(List.prefix_append _ _).trans hslept, hwritten, hlevel⟩

/-- How a sleep of the right length leaves. -/
def SleepEnd.Leaves (total : Nat) (exit : PulseExit) : SleepEnd → Prop
  | completes => exit.2 = some (.ok ()) ∧ exit.1.elapsed = total
  | fails code _ => exit.2 = some (.error (sleepError code))
  | asleep => exit.2 = none

/-- A call that is new is a good one. -/
def GoodSince (old : List (Timespec × Nat)) (total : Nat) (calls : List (Timespec × Nat)) : Prop :=
  ∀ call ∈ calls, call ∈ old ∨ (call.1.Valid ∧ call.2 + call.1.nanoseconds = total)

theorem goodSince_append {ts : Timespec} {s : PulseState} {total : Nat} (hvalid : ts.Valid)
    (htotal : s.elapsed + ts.nanoseconds = total) :
    GoodSince s.slept total (s.slept ++ [(ts, s.elapsed)]) := by
  intro call hcall
  rcases List.mem_append.mp hcall with hold | hnew
  · exact .inl hold
  · rw [List.mem_singleton.mp hnew]
    exact .inr ⟨hvalid, htotal⟩

/-- A call of the right length is followed by others for the time that remains. -/
theorem sleepFrom_total (signals : List Nat) {ts : Timespec} {s : PulseState} {total : Nat}
    (hvalid : ts.Valid) (htotal : s.elapsed + ts.nanoseconds = total) :
    GoodSince s.slept total (sleepFrom wakes signals ts s).1.slept ∧
      wakes.Leaves total (sleepFrom wakes signals ts s) := by
  induction signals generalizing ts s with
  | nil =>
      have hnonneg := hvalid.nanoseconds_nonneg
      rw [sleepFrom]
      simp only [hvalid, not_true_eq_false, if_false]
      cases wakes with
      | completes =>
          refine ⟨goodSince_append hvalid htotal, rfl, ?_⟩
          dsimp only
          omega
      | fails code hcode => exact ⟨goodSince_append hvalid htotal, rfl⟩
      | asleep => exact ⟨goodSince_append hvalid htotal, rfl⟩
  | cons k signals ih =>
      have hnonneg := hvalid.nanoseconds_nonneg
      let time := ts.nanoseconds.toNat
      let s' : PulseState :=
        { s with
          slept := s.slept ++ [(ts, s.elapsed)]
          elapsed := s.elapsed + min k time }
      have hrest : s'.elapsed + (Timespec.ofNanoseconds (time - min k time)).nanoseconds =
          total := by
        rw [Timespec.nanoseconds_ofNanoseconds]
        change ((s.elapsed + min k time : Nat) : Int) + _ = _
        omega
      obtain ⟨hgood, hleaves⟩ := ih (Timespec.ofNanoseconds_valid _) hrest
      rw [sleepFrom]
      simp only [hvalid, not_true_eq_false, if_false]
      refine ⟨?_, hleaves⟩
      intro call hcall
      rcases hgood call hcall with hold | hnew
      · exact goodSince_append hvalid htotal call hold
      · exact .inr hnew

end Sleeping

section Writing

variable {id : Nat} {env : PulseEnv} {s : PulseState} {code : Errno}

/-- A write that has been tried. -/
def PulseState.tried (s : PulseState) (val : UInt32) : PulseState :=
  { s with written := s.written ++ [([digitChar val, '\x00'], s.elapsed)] }

theorem pulseWrite_written (hanswer : env.answers s.written.length = .written) (val : UInt32) :
    pulseWrite id env val s =
      ({ s.tried val with level := decide (digitChar val ≠ '0') }, some (.ok ())) := by
  simp [pulseWrite, setValue, Sysfs.writeToFile, pulseFiles, hanswer, PulseState.tried]

theorem pulseWrite_notOpened (hanswer : env.answers s.written.length = .notOpened code)
    (val : UInt32) :
    pulseWrite id env val s = (s, some (.error (.errno "open" code))) := by
  simp [pulseWrite, setValue, Sysfs.writeToFile, pulseFiles, hanswer]

theorem pulseWrite_notWritten (hanswer : env.answers s.written.length = .notWritten code)
    (val : UInt32) :
    pulseWrite id env val s = (s.tried val, some (.error (.errno "write" code))) := by
  simp [pulseWrite, setValue, Sysfs.writeToFile, pulseFiles, hanswer, PulseState.tried]

/-- A number that stands for its digit sets the pin to its level. -/
theorem level_of_plain {val : UInt32} (hplain : val = 0 ∨ val.toNat % 256 = 1) :
    decide (digitChar val ≠ '0') = true ↔ val ≠ 0 := by
  rw [decide_eq_true_iff, Ne, digitChar_eq_zero_iff]
  apply not_congr
  constructor
  · intro hmod
    rcases hplain with hzero | hone
    · exact hzero
    · omega
  · intro hzero
    rw [hzero]
    rfl

/-- What is written last adds to what there is. -/
theorem goOn_pulseWrite (id : Nat) (env : PulseEnv) (val : UInt32) (exit : PulseExit) :
    (goOn (pulseWrite id env val) exit).1.slept = exit.1.slept ∧
      exit.1.written <+: (goOn (pulseWrite id env val) exit).1.written := by
  obtain ⟨s, out⟩ := exit
  match out with
  | none => exact ⟨rfl, List.prefix_refl _⟩
  | some (.error _) => exact ⟨rfl, List.prefix_refl _⟩
  | some (.ok ()) =>
      rw [goOn]
      cases hanswer : env.answers s.written.length with
      | written =>
          rw [pulseWrite_written hanswer]
          exact ⟨rfl, List.prefix_append _ _⟩
      | notOpened code =>
          rw [pulseWrite_notOpened hanswer]
          exact ⟨rfl, List.prefix_refl _⟩
      | notWritten code =>
          rw [pulseWrite_notWritten hanswer]
          exact ⟨rfl, List.prefix_append _ _⟩

end Writing

/-! ## Pulses -/

section Pulses

variable (w id : Nat) (env : PulseEnv) (req : PulseReq)

/-- The pin when the sleep begins. -/
def PulseReq.begun : PulseState where
  level := decide (digitChar req.set ≠ '0')
  written := [([digitChar req.set, '\x00'], 0)]

theorem makePulse_of_written (hset : env.answers 0 = .written) (level : Bool) :
    makePulse w id env req { level := level } =
      goOn (pulseWrite id env req.reset)
        (sleepFrom env.wakes env.signals (req.time w) req.begun) := by
  have hwrite : pulseWrite id env req.set { level := level } = (req.begun, some (.ok ())) :=
    pulseWrite_written hset req.set
  rw [makePulse, hwrite]
  rfl

/-- When the calls of `nanosleep` are right, the writes and the level are left. -/
theorem pulsesRight_iff_of_slept {exit : PulseExit}
    (hslept : ∀ call ∈ exit.1.slept,
      call.1.Valid ∧ call.2 + call.1.nanoseconds = req.length.toNat * 1000) :
    PulsesRight req exit ↔ exit.1.written <+: req.writes ∧
      (exit.2 = some (.ok ()) → exit.1.written = req.writes) ∧
        (exit.2 ≠ none → (exit.1.level = true ↔ req.reset ≠ 0)) := by
  constructor
  · intro hright
    exact ⟨hright.writes, hright.complete, hright.reset⟩
  · rintro ⟨hwrites, hcomplete, hreset⟩
    exact ⟨fun call hcall => (hslept call hcall).1, fun call hcall => (hslept call hcall).2,
      hwrites, hcomplete, hreset⟩

theorem first_prefix_iff :
    [([digitChar req.set, '\x00'], 0)] <+: req.writes ↔ req.SetPlain := by
  rw [PulseReq.SetPlain, ← digits_eq_flag_iff, PulseReq.writes, List.cons_prefix_cons,
    Prod.mk.injEq]
  simp

theorem length_tried {s : PulseState} (hset : s.written = [(SetupData.flag req.set, 0)]) :
    (s.tried req.reset).written.length = req.writes.length := by
  rw [PulseState.tried, hset]
  rfl

/-- The second write is the right one when the number is plain. -/
theorem tried_prefix_iff {s : PulseState} (hset : s.written = [(SetupData.flag req.set, 0)])
    (helapsed : s.elapsed = req.length.toNat * 1000) :
    (s.tried req.reset).written <+: req.writes ↔ req.ResetPlain := by
  have htried : (s.tried req.reset).written =
      [(SetupData.flag req.set, 0), ([digitChar req.reset, '\x00'], req.length.toNat * 1000)] := by
    rw [PulseState.tried, hset, helapsed]
    rfl
  rw [PulseReq.ResetPlain, ← digits_eq_flag_iff]
  constructor
  · intro hstart
    have heq := htried.symm.trans (hstart.eq_of_length (length_tried req hset))
    simp only [PulseReq.writes, List.cons.injEq, Prod.mk.injEq] at heq
    exact heq.2.1.1
  · intro heq
    rw [htried, heq]
    exact List.prefix_refl _

theorem leaves_before_reset {s : PulseState} {err : Error}
    (hset : s.written = [(SetupData.flag req.set, 0)])
    (hlevel : s.level = true ↔ req.set ≠ 0) :
    (s.written <+: req.writes ∧
      ((some (.error err) : Option (Except Error Unit)) = some (.ok ()) → s.written = req.writes) ∧
        ((some (.error err) : Option (Except Error Unit)) ≠ none →
          (s.level = true ↔ req.reset ≠ 0))) ↔ req.Level := by
  rw [hset, hlevel]
  constructor
  · intro hright
    exact hright.2.2 (Option.some_ne_none _)
  · intro hsame
    exact ⟨⟨[_], rfl⟩, fun hok => (nomatch hok), fun _ => hsame⟩

theorem pulsesRight_begun_iff (hplain : req.SetPlain)
    (hfits : req.length.toNat / 1000000 < 2 ^ (w - 1)) :
    PulsesRight req (goOn (pulseWrite id env req.reset)
        (sleepFrom env.wakes env.signals (req.time w) req.begun)) ↔
      match env.wakes with
      | .asleep => True
      | .fails _ _ => req.Level
      | .completes =>
        match env.answers 1 with
        | .notOpened _ => req.Level
        | .notWritten _ => req.ResetPlain ∧ req.Level
        | .written => req.ResetPlain := by
  have htotal : req.begun.elapsed + (req.time w).nanoseconds = (req.length.toNat * 1000 : Nat) := by
    have hnano := (req.time_nanoseconds_iff w).mpr hfits
    change ((0 : Nat) : Int) + _ = _
    omega
  obtain ⟨hgood, hleaves⟩ :=
    sleepFrom_total env.wakes env.signals (req.time_valid w hfits) htotal
  obtain ⟨-, hwritten, hlevel⟩ := sleepFrom_first env.wakes env.signals (req.time w) req.begun
  generalize sleepFrom env.wakes env.signals (req.time w) req.begun = out at *
  have hslept : ∀ call ∈ (goOn (pulseWrite id env req.reset) out).1.slept,
      call.1.Valid ∧ call.2 + call.1.nanoseconds = req.length.toNat * 1000 := by
    intro call hcall
    rw [(goOn_pulseWrite id env req.reset out).1] at hcall
    rcases hgood call hcall with hold | hnew
    · cases hold
    · exact hnew
  rw [pulsesRight_iff_of_slept req hslept]
  have hset : out.1.written = [(SetupData.flag req.set, 0)] := by
    rw [hwritten, ← (digits_eq_flag_iff req.set).mpr hplain]
    rfl
  have hafter : out.1.level = true ↔ req.set ≠ 0 := by
    rw [hlevel]
    exact level_of_plain hplain
  have hstart : [(SetupData.flag req.set, 0)] <+: req.writes := ⟨[_], rfl⟩
  obtain ⟨s, exit⟩ := out
  cases hwakes : env.wakes with
  | asleep =>
      rw [hwakes] at hleaves
      cases (hleaves : exit = none)
      apply iff_of_true _ trivial
      refine ⟨?_, fun hok => (nomatch hok), fun hnone => absurd rfl hnone⟩
      change s.written <+: _
      rw [hset]
      exact hstart
  | fails code hcode =>
      rw [hwakes] at hleaves
      cases (hleaves : exit = some (.error (sleepError code)))
      exact leaves_before_reset req hset hafter
  | completes =>
      rw [hwakes] at hleaves
      obtain ⟨hok, helapsed⟩ := hleaves
      cases (hok : exit = some (.ok ()))
      have hlength : s.written.length = 1 := congrArg List.length hset
      cases hanswer : env.answers 1 with
      | notOpened code =>
          rw [goOn, pulseWrite_notOpened (hlength ▸ hanswer)]
          exact leaves_before_reset req hset hafter
      | notWritten code =>
          rw [goOn, pulseWrite_notWritten (hlength ▸ hanswer)]
          constructor
          · rintro ⟨hwrites, -, hreset⟩
            have hsame := hreset (Option.some_ne_none _)
            exact ⟨(tried_prefix_iff req hset helapsed).mp hwrites, hafter.symm.trans hsame⟩
          · rintro ⟨hreset, hsame⟩
            exact ⟨(tried_prefix_iff req hset helapsed).mpr hreset, fun hok => (nomatch hok),
              fun _ => hafter.trans hsame⟩
      | written =>
          rw [goOn, pulseWrite_written (hlength ▸ hanswer)]
          constructor
          · rintro ⟨hwrites, -, -⟩
            exact (tried_prefix_iff req hset helapsed).mp hwrites
          · intro hreset
            have hwrites := (tried_prefix_iff req hset helapsed).mpr hreset
            exact ⟨hwrites, fun _ => hwrites.eq_of_length (length_tried req hset),
              fun _ => level_of_plain hreset⟩

theorem setPlain_of_pulsesRight (level : Bool) (hset : env.answers 0 = .written)
    (hright : PulsesRight req (makePulse w id env req { level := level })) : req.SetPlain := by
  rw [makePulse_of_written w id env req hset] at hright
  obtain ⟨-, hmore⟩ := goOn_pulseWrite id env req.reset
    (sleepFrom env.wakes env.signals (req.time w) req.begun)
  rw [(sleepFrom_first env.wakes env.signals (req.time w) req.begun).2.1] at hmore
  exact (first_prefix_iff req).mp (hmore.trans hright.writes)

/-- **Pulses.** Over every length, every two values, every answer to the writes and every
sequence of signals: the times that are slept are valid and add up to the length, the digits
that are written are the right ones at the right times, and the pin is left at the reset
value, exactly when the pulse fits. -/
theorem pulsesRight_iff (level : Bool) :
    PulsesRight req (makePulse w id env req { level := level }) ↔ PulseFits w env req level := by
  cases hset : env.answers 0 with
  | notOpened code =>
      have hrun : makePulse w id env req { level := level } =
          ({ level := level }, some (.error (.errno "open" code))) := by
        have hwrite : pulseWrite id env req.set { level := level } = _ :=
          pulseWrite_notOpened hset req.set
        rw [makePulse, hwrite]
        rfl
      simp only [PulseFits, hset]
      rw [hrun, pulsesRight_iff_of_slept req (fun call hcall => absurd hcall List.not_mem_nil)]
      constructor
      · rintro ⟨-, -, hreset⟩
        exact hreset (Option.some_ne_none _)
      · intro hreset
        exact ⟨List.nil_prefix, fun hok => (nomatch hok), fun _ => hreset⟩
  | notWritten code =>
      have hrun : makePulse w id env req { level := level } =
          (({ level := level } : PulseState).tried req.set,
            some (.error (.errno "write" code))) := by
        have hwrite : pulseWrite id env req.set { level := level } = _ :=
          pulseWrite_notWritten hset req.set
        rw [makePulse, hwrite]
        rfl
      simp only [PulseFits, hset]
      rw [hrun, pulsesRight_iff_of_slept req (fun call hcall => absurd hcall List.not_mem_nil)]
      constructor
      · rintro ⟨hwrites, -, hreset⟩
        exact ⟨(first_prefix_iff req).mp hwrites, hreset (Option.some_ne_none _)⟩
      · rintro ⟨hplain, hreset⟩
        exact ⟨(first_prefix_iff req).mpr hplain, fun hok => (nomatch hok), fun _ => hreset⟩
  | written =>
      have hplain_of_right := setPlain_of_pulsesRight w id env req level hset
      simp only [PulseFits, hset]
      rw [makePulse_of_written w id env req hset] at hplain_of_right ⊢
      obtain ⟨hfirst, -, -⟩ := sleepFrom_first env.wakes env.signals (req.time w) req.begun
      obtain ⟨hslept, -⟩ := goOn_pulseWrite id env req.reset
        (sleepFrom env.wakes env.signals (req.time w) req.begun)
      constructor
      · intro hright
        have hplain := hplain_of_right hright
        have hfits : req.length.toNat / 1000000 < 2 ^ (w - 1) := by
          rw [← hslept] at hfirst
          have hcall := hright.total _ (hfirst.subset (List.mem_singleton_self _))
          rw [← req.time_nanoseconds_iff w, ← hcall]
          exact (Int.zero_add _).symm
        exact ⟨hplain, hfits, (pulsesRight_begun_iff w id env req hplain hfits).mp hright⟩
      · rintro ⟨hplain, hfits, hrest⟩
        exact (pulsesRight_begun_iff w id env req hplain hfits).mpr hrest

end Pulses

/-- Two is not one: the pin is set with the digit 2. -/
theorem two_is_written :
    ¬ ∀ (w id : Nat) (env : PulseEnv) (req : PulseReq) (level : Bool),
      PulsesRight req (makePulse w id env req { level := level }) := by
  intro hall
  have hright := hall 64 5 ⟨fun _ => .written, [], .completes⟩ { setValue := some 2 } false
  rcases setPlain_of_pulsesRight _ _ _ _ _ rfl hright with hzero | hone
  · exact absurd hzero (by decide)
  · exact absurd hone (by decide)

end FerroRemote.Agent

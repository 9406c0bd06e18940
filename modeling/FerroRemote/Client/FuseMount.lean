/-
# The FUSE mount and its connection

The mount serves calls before it is connected. Its interface to the file system of the
agent is made by the first attempt to connect that succeeds; attempts that fail are
retried by a timer, and a connection that drops is made again. Most of the functions
test the interface before they use it, and some do not.
-/

import FerroRemote.Math.Table
import FerroRemote.Math.Transitions
import FerroRemote.Client.FuseReaddir

namespace FerroRemote.Client.FuseMount

open FerroRemote.Agent
open FerroRemote.Client.Fuse (RpcCodes cancelError)

def EOPNOTSUPP : Errno := 95

def O_CREAT : Nat := 0o100

/-- `S_ISREG`. -/
def isReg (mode : Nat) : Bool := mode &&& 0o170000 = 0o100000

/-- What a request goes through: `fs_`, what a handle stands for, or an interface that
the function has made itself. -/
inductive Via
  | fs
  | file (fh : Nat)
  | dir (fh : Nat)
  | own
  deriving DecidableEq, Repr

inductive Request (P : Type)
  | del (path : P)
  | removeAll (path : P)
  | rename (path newname : P)
  | mkdir (path : P)
  | stat (path : P)
  | beginIterate (path : P)
  | chmod (path : P) (mode : Nat)
  | updateTime (path : P) (actime modtime : Nat)
  | truncate (path : P) (offset : Int)
  | openFile (path : P) (flags : Nat)
  | seek (pos : Int)
  | read (length : Nat)
  | write (data : List UInt8)
  | flush
  | next
  | close

/-- What is read of the answers: the code that `proto_error` or `channel_error` is called
with, or 0; the number of bytes, and whether an iterator is at its end. -/
structure Reply where
  code : Errno := 0
  count : Nat := 0
  isEnd : Bool := false

/-- How `file_iface::create` ends: it may throw an exception of the RPC library, or another
one. -/
inductive Creation
  | made
  | rpcException (code : Errno)
  | exception

/-- How `try_connect` goes: `connect` throws, `fs_iface::create` throws, or there is an
instance on the agent. -/
inductive Attempt
  | refused
  | notCreated
  | created (hdl : Nat)

inductive Phase
  | unmounted
  | mounted
  /-- An unset pointer has been dereferenced. -/
  | crashed
  | destroyed
  deriving DecidableEq, Repr

/-- `application::impl`. A file is its offset, and an iterator is whether it is at its end. -/
structure Mount where
  phase : Phase := .unmounted
  /-- `retry_timer_` is waiting. -/
  retry : Bool := false
  fs : Option Nat := none
  index : Nat := 100
  files : Table Int := ∅
  dirs : Table Bool := ∅

/-- How a function has gone: without a result it has not returned. -/
structure Ran (P : Type) where
  mount : Mount
  calls : List (Via × Request P) := []
  result : Option Int := none
  /-- What is in `fh` for the kernel. -/
  fh : Option Nat := none

namespace Mount

def startRetry (s : Mount) : Mount := { s with retry := true }

def tryConnect (s : Mount) : Attempt → Mount
  | .refused => s.startRetry
  | .notCreated => s.startRetry
  | .created hdl => { s with fs := some hdl }

variable {P : Type}

/-- `fs_->call( ... )`, with the code of its answer. -/
def ask (req : Request P) (code : Errno) (s : Mount) : Ran P :=
  match s.fs with
  | none => { mount := { s with phase := .crashed }, calls := [(.fs, req)] }
  | some _ =>
    { mount := s, calls := [(.fs, req)], result := some (MirrorState.localResult code) }

/-- The same where `fs( )` is tested before. -/
def tested (req : Request P) (code : Errno) (s : Mount) : Ran P :=
  match s.fs with
  | none => { mount := s, result := some (MirrorState.localResult EIO) }
  | some _ => ask req code s

def unlink (path : P) (code : Errno) : Mount → Ran P := ask (.del path) code

def rmdir (path : P) (code : Errno) : Mount → Ran P := ask (.removeAll path) code

def mkdir (path : P) (code : Errno) : Mount → Ran P := ask (.mkdir path) code

def rename (path newname : P) (code : Errno) : Mount → Ran P := tested (.rename path newname) code

def getattr (path : P) (code : Errno) : Mount → Ran P := tested (.stat path) code

def chmod (path : P) (mode : Nat) (code : Errno) : Mount → Ran P := tested (.chmod path mode) code

def utime (path : P) (actime modtime : Nat) (code : Errno) : Mount → Ran P :=
  tested (.updateTime path actime modtime) code

def truncate (path : P) (offset : Int) (code : Errno) : Mount → Ran P :=
  tested (.truncate path offset) code

/-- `chown` is a fake. -/
def chown (s : Mount) : Ran P := { mount := s, result := some 0 }

/-- `opendir`, with `create_dir_impl`. An iterator that could not be begun is closed again. -/
def opendir (path : P) (reply : Reply) (s : Mount) : Ran P :=
  match s.fs with
  | none => { mount := s, result := some (MirrorState.localResult EIO) }
  | some _ =>
    let nid := s.index + 1
    if reply.code = 0 then
      { mount := { s with index := nid, dirs := s.dirs.insert nid reply.isEnd }
        calls := [(.fs, .beginIterate path)]
        result := some 0
        fh := some nid }
    else
      { mount := { s with index := nid }
        calls := [(.fs, .beginIterate path), (.own, .close)]
        result := some (MirrorState.localResult reply.code)
        fh := some 0 }

/-- The rounds of `readdir` from round `k` on, `fuel` of them at most, with the iterator. -/
def readdirFrom (codes : RpcCodes) (fh : Nat) (accepts : Nat → Bool) (replies : Nat → Reply) :
    Nat → Nat → Bool → Int → List (Via × Request P) × Option Int × Bool
  | 0, _, isEnd, _ => ([], none, isEnd)
  | fuel + 1, k, isEnd, localResult =>
    if isEnd then ([], some localResult, isEnd)
    else if accepts k = false then ([], some (-(ENOMEM : Int)), isEnd)
    else if cancelError codes (-0) then ([], some 0, isEnd)
    else
      -- the reply to a call that fails is what was sent
      let isEnd := if (replies k).code = 0 then (replies k).isEnd else false
      let (calls, rest) := readdirFrom codes fh accepts replies fuel (k + 1) isEnd
        (MirrorState.localResult (replies k).code)
      ((.dir fh, .next) :: calls, rest)

def readdir (codes : RpcCodes) (fh : Nat) (accepts : Nat → Bool) (replies : Nat → Reply)
    (fuel : Nat) (s : Mount) : Ran P :=
  match s.dirs[fh]? with
  | none => { mount := s, result := some (-(EBADF : Int)) }
  | some isEnd =>
    let (calls, result, isEnd) := readdirFrom codes fh accepts replies fuel 0 isEnd 0
    { mount := { s with dirs := s.dirs.insert fh isEnd }, calls := calls, result := result }

/-- `releasedir`. The iterator is closed with its last owner. -/
def releasedir (fh : Nat) (code : Errno) (s : Mount) : Ran P :=
  if fh ≠ 0 ∧ fh ∈ s.dirs then
    { mount := { s with dirs := s.dirs.erase fh }
      calls := [(.dir fh, .close)]
      result := some (MirrorState.localResult code) }
  else { mount := s, result := some 0 }

/-- `mknod`. The file is opened, which creates it, and closed. -/
def mknod (path : P) (mode : Nat) (creation : Creation) (s : Mount) : Ran P :=
  if isReg mode = false then { mount := s, result := some (-(EOPNOTSUPP : Int)) }
  else
    match creation with
    | .made =>
      { mount := s, calls := [(.own, .openFile path O_CREAT), (.own, .close)], result := some 0 }
    | .rpcException code =>
      { mount := s
        calls := [(.own, .openFile path O_CREAT)]
        result := some (MirrorState.localResult code) }
    | .exception =>
      { mount := s, calls := [(.own, .openFile path O_CREAT)], result := some (-1) }

/-- `open`, with `create_file_impl`. -/
def openFile (path : P) (flags : Nat) (creation : Creation) (s : Mount) : Ran P :=
  let nid := s.index + 1
  let calls := [(.own, .openFile path flags)]
  match creation with
  | .made =>
    { mount := { s with index := nid, files := s.files.insert nid 0 }
      calls := calls
      result := some 0
      fh := some nid }
  | .rpcException code =>
    { mount := { s with index := nid }
      calls := calls
      result := some (MirrorState.localResult code) }
  | .exception => { mount := { s with index := nid }, calls := calls, result := some (-1) }

def release (fh : Nat) (code : Errno) (s : Mount) : Ran P :=
  if fh ≠ 0 ∧ fh ∈ s.files then
    { mount := { s with files := s.files.erase fh }
      calls := [(.file fh, .close)]
      result := some (MirrorState.localResult code) }
  else { mount := s, result := some 0 }

/-- The loop of `read_write_impl` from call `k` on, with the offset of the file. A round
gets further by a byte at least, so that there are no more rounds than bytes. -/
def readWriteFrom (call : Nat → Request P) (fh len : Nat) (replies : Nat → Reply) :
    Nat → Nat → Nat → Int → List (Via × Request P) × Int × Int
  | 0, _, cur, offset => ([], (Int32.ofNat cur).toInt, offset)
  | fuel + 1, k, cur, offset =>
    if len ≤ cur then ([], (Int32.ofNat cur).toInt, offset)
    else
      let next := (replies k).count
      if (replies k).code ≠ 0 then
        ([(.file fh, call cur)], MirrorState.localResult (replies k).code, offset)
      else if next = 0 then ([(.file fh, call cur)], (Int32.ofNat cur).toInt, offset)
      else
        let (calls, rest) := readWriteFrom call fh len replies fuel (k + 1) (cur + next)
          (offset + next)
        ((.file fh, call cur) :: calls, rest)

def readWriteImpl (call : Nat → Request P) (fh len : Nat) (off : Int) (replies : Nat → Reply)
    (s : Mount) : Ran P :=
  match s.files[fh]? with
  | none => { mount := s, result := some (-1) }
  | some offset =>
    if offset = off then
      let (calls, result, offset) := readWriteFrom call fh len replies len 0 0 off
      { mount := { s with files := s.files.insert fh offset }
        calls := calls
        result := some result }
    else if (replies 0).code ≠ 0 then
      { mount := s
        calls := [(.file fh, .seek off)]
        result := some (MirrorState.localResult (replies 0).code) }
    else
      let (calls, result, offset) := readWriteFrom call fh len replies len 1 0 off
      { mount := { s with files := s.files.insert fh offset }
        calls := (.file fh, .seek off) :: calls
        result := some result }

def read (fh len : Nat) : Int → (Nat → Reply) → Mount → Ran P :=
  readWriteImpl (fun cur => .read (len - cur)) fh len

def write (fh : Nat) (buf : List UInt8) : Int → (Nat → Reply) → Mount → Ran P :=
  readWriteImpl (fun cur => .write (buf.drop cur)) fh buf.length

def flush (fh : Nat) (code : Errno) (s : Mount) : Ran P :=
  match s.files[fh]? with
  | none => { mount := s, result := some 0 }
  | some _ =>
    { mount := s
      calls := [(.file fh, .flush)]
      result := some (MirrorState.localResult code) }

def Exists (s : Mount) : Via → Prop
  | .fs => s.fs ≠ none
  | .file fh => fh ∈ s.files
  | .dir fh => fh ∈ s.dirs
  | .own => True

end Mount

/-! ## Runs -/

/-- The functions in `fuse_operations`, as they are called and answered. -/
inductive FuseOp (P : Type)
  | getattr (path : P) (code : Errno)
  | opendir (path : P) (reply : Reply)
  | releasedir (fh : Nat) (code : Errno)
  | readdir (fh : Nat) (accepts : Nat → Bool) (replies : Nat → Reply) (fuel : Nat)
  | rename (path newname : P) (code : Errno)
  | mkdir (path : P) (code : Errno)
  | rmdir (path : P) (code : Errno)
  | unlink (path : P) (code : Errno)
  | mknod (path : P) (mode : Nat) (creation : Creation)
  | openFile (path : P) (flags : Nat) (creation : Creation)
  | release (fh : Nat) (code : Errno)
  | read (fh len : Nat) (off : Int) (replies : Nat → Reply)
  | write (fh : Nat) (buf : List UInt8) (off : Int) (replies : Nat → Reply)
  | flush (fh : Nat) (code : Errno)
  | truncate (path : P) (offset : Int) (code : Errno)
  | chown
  | chmod (path : P) (mode : Nat) (code : Errno)
  | utime (path : P) (actime modtime : Nat) (code : Errno)

namespace FuseOp

variable {P : Type} (codes : RpcCodes)

def run (s : Mount) : FuseOp P → Ran P
  | .getattr path code => s.getattr path code
  | .opendir path reply => s.opendir path reply
  | .releasedir fh code => s.releasedir fh code
  | .readdir fh accepts replies fuel => s.readdir codes fh accepts replies fuel
  | .rename path newname code => s.rename path newname code
  | .mkdir path code => s.mkdir path code
  | .rmdir path code => s.rmdir path code
  | .unlink path code => s.unlink path code
  | .mknod path mode creation => s.mknod path mode creation
  | .openFile path flags creation => s.openFile path flags creation
  | .release fh code => s.release fh code
  | .read fh len off replies => s.read fh len off replies
  | .write fh buf off replies => s.write fh buf off replies
  | .flush fh code => s.flush fh code
  | .truncate path offset code => s.truncate path offset code
  | .chown => s.chown
  | .chmod path mode code => s.chmod path mode code
  | .utime path actime modtime code => s.utime path actime modtime code

/-- The interface that a function is for. `chown` and the two that release a handle can do
without. -/
def via : FuseOp P → Option Via
  | .getattr _ _ => some .fs
  | .opendir _ _ => some .fs
  | .releasedir _ _ => none
  | .readdir fh _ _ _ => some (.dir fh)
  | .rename _ _ _ => some .fs
  | .mkdir _ _ => some .fs
  | .rmdir _ _ => some .fs
  | .unlink _ _ => some .fs
  | .mknod _ _ _ => some .own
  | .openFile _ _ _ => some .own
  | .release _ _ => none
  | .read fh _ _ _ => some (.file fh)
  | .write fh _ _ _ => some (.file fh)
  | .flush fh _ => some (.file fh)
  | .truncate _ _ _ => some .fs
  | .chown => none
  | .chmod _ _ _ => some .fs
  | .utime _ _ _ _ => some .fs

end FuseOp

inductive Event (P : Type)
  /-- `init_app` -/
  | init (a : Attempt)
  /-- The timer comes to its end. -/
  | retried (a : Attempt)
  /-- `on_disconnect` -/
  | dropped
  | op (o : FuseOp P)
  /-- `destroy_app` -/
  | destroy

/-- A mount, from before `init_app` on. -/
def mountMachine (P : Type) (codes : RpcCodes) : Machine Mount (Event P) where
  init := {}
  step s
    | .init a =>
      if s.phase = .unmounted then some ({ s with phase := .mounted }.tryConnect a) else none
    | .retried a =>
      if s.phase = .mounted ∧ s.retry then some ({ s with retry := false }.tryConnect a) else none
    | .dropped => if s.phase = .mounted then some s.startRetry else none
    | .op o => if s.phase = .mounted then some (o.run codes s).mount else none
    | .destroy => if s.phase = .mounted then some { s with phase := .destroyed } else none

variable {P : Type} {codes : RpcCodes}

/-- Everything a function goes through is there; and what it is for is there, or it returns
an error. -/
structure RunsOrFails (s : Mount) (o : FuseOp P) (ran : Ran P) : Prop where
  calls : ∀ c ∈ ran.calls, s.Exists c.1
  fails : ∀ via, o.via = some via → s.Exists via ∨ ∃ r < 0, ran.result = some r

def UsesConnection (codes : RpcCodes) (s : Mount) : Event P → Mount → Prop
  | .op o, _ => RunsOrFails s o (o.run codes s)
  | _, _ => True

/-- Removing and creating are for a mount that has been connected, and flushing for a file
that is open. -/
def Fitting (s : Mount) : Event P → Prop
  | .op (.unlink _ _) => s.fs ≠ none
  | .op (.rmdir _ _) => s.fs ≠ none
  | .op (.mkdir _ _) => s.fs ≠ none
  | .op (.flush fh _) => fh ∈ s.files
  | _ => True

section Functions

variable {s : Mount} {o : FuseOp P} {ran : Ran P}

theorem RunsOrFails.of_exists {via : Via} (hexists : s.Exists via)
    (hvia : o.via = some via) (hcalls : ∀ c ∈ ran.calls, c.1 = via) :
    RunsOrFails s o ran where
  calls := by
    intro c hc
    rw [hcalls c hc]
    exact hexists
  fails := by
    intro v hv
    cases hvia.symm.trans hv
    exact .inl hexists

/-- A function that does not get to a call. -/
theorem RunsOrFails.of_error {r : Int} (hcalls : ran.calls = []) (hresult : ran.result = some r)
    (hneg : r < 0) : RunsOrFails s o ran where
  calls := by
    intro c hc
    rw [hcalls] at hc
    cases hc
  fails := fun _ _ => .inr ⟨r, hneg, hresult⟩

theorem localResult_EIO_neg : MirrorState.localResult EIO < 0 := by decide

theorem runsOrFails_ask_iff {req : Request P} {code : Errno} (hvia : o.via = some .fs) :
    RunsOrFails s o (s.ask req code) ↔ s.fs ≠ none := by
  constructor
  · intro hruns hunset
    have hcalls : (s.ask req code).calls = [(.fs, req)] := by rw [Mount.ask, hunset]
    have hcall : (Via.fs, req) ∈ (s.ask req code).calls := by
      rw [hcalls]
      exact List.mem_singleton_self _
    exact hruns.calls _ hcall hunset
  · intro hset
    obtain ⟨hdl, hfs⟩ := Option.ne_none_iff_exists'.mp hset
    have hexists : s.Exists .fs := hset
    apply RunsOrFails.of_exists hexists hvia
    intro c hc
    rw [Mount.ask, hfs] at hc
    rw [List.mem_singleton.mp hc]

theorem runsOrFails_tested {req : Request P} {code : Errno} (hvia : o.via = some .fs) :
    RunsOrFails s o (s.tested req code) := by
  cases hfs : s.fs with
  | none =>
      have hran : s.tested req code =
          { mount := s, result := some (MirrorState.localResult EIO) } := by
        rw [Mount.tested, hfs]
      rw [hran]
      exact RunsOrFails.of_error rfl rfl localResult_EIO_neg
  | some hdl =>
      have hran : s.tested req code = s.ask req code := by rw [Mount.tested, hfs]
      rw [hran, runsOrFails_ask_iff hvia, hfs]
      exact Option.some_ne_none hdl

theorem runsOrFails_opendir (path : P) (reply : Reply) :
    RunsOrFails s (.opendir path reply) (s.opendir path reply) := by
  cases hfs : s.fs with
  | none =>
      apply RunsOrFails.of_error _ _ localResult_EIO_neg
      · rw [Mount.opendir, hfs]
      · rw [Mount.opendir, hfs]
  | some hdl =>
      have hset : s.Exists .fs := by
        change s.fs ≠ none
        rw [hfs]
        exact Option.some_ne_none hdl
      constructor
      · intro c hc
        rw [Mount.opendir, hfs] at hc
        dsimp only at hc
        split at hc
        · rw [List.mem_singleton.mp hc]
          exact hset
        · rcases List.mem_pair.mp hc with rfl | rfl
          · exact hset
          · trivial
      · intro v hv
        cases hv
        exact .inl hset

theorem via_readdirFrom (fh : Nat) (accepts : Nat → Bool) (replies : Nat → Reply)
    (fuel k : Nat) (isEnd : Bool) (localResult : Int) (c : Via × Request P)
    (hc : c ∈ (Mount.readdirFrom codes fh accepts replies fuel k isEnd localResult).1) :
    c.1 = .dir fh := by
  induction fuel generalizing k isEnd localResult with
  | zero => cases hc
  | succ fuel ih =>
      rw [Mount.readdirFrom] at hc
      split at hc
      · cases hc
      · split at hc
        · cases hc
        · split at hc
          · cases hc
          · rcases List.mem_cons.mp hc with rfl | hrest
            · rfl
            · exact ih _ _ _ hrest

theorem runsOrFails_readdir (fh : Nat) (accepts : Nat → Bool) (replies : Nat → Reply)
    (fuel : Nat) :
    RunsOrFails s (.readdir fh accepts replies fuel : FuseOp P)
      (s.readdir codes fh accepts replies fuel) := by
  cases hdir : s.dirs[fh]? with
  | none =>
      apply RunsOrFails.of_error (r := -(EBADF : Int)) _ _ (by decide)
      · rw [Mount.readdir, hdir]
      · rw [Mount.readdir, hdir]
  | some isEnd =>
      have hexists : s.Exists (.dir fh) := (Table.mem_iff_exists s.dirs fh).mpr ⟨isEnd, hdir⟩
      apply RunsOrFails.of_exists hexists rfl
      intro c hc
      rw [Mount.readdir, hdir] at hc
      exact via_readdirFrom fh accepts replies fuel 0 isEnd 0 c hc

theorem via_readWriteFrom (call : Nat → Request P) (fh len : Nat) (replies : Nat → Reply)
    (fuel k cur : Nat) (offset : Int) (c : Via × Request P)
    (hc : c ∈ (Mount.readWriteFrom call fh len replies fuel k cur offset).1) :
    c.1 = .file fh := by
  induction fuel generalizing k cur offset with
  | zero => cases hc
  | succ fuel ih =>
      rw [Mount.readWriteFrom] at hc
      dsimp only at hc
      split at hc
      · cases hc
      · split at hc
        · rw [List.mem_singleton.mp hc]
        · split at hc
          · rw [List.mem_singleton.mp hc]
          · rcases List.mem_cons.mp hc with rfl | hrest
            · rfl
            · exact ih _ _ _ hrest

theorem runsOrFails_readWriteImpl (call : Nat → Request P) (fh len : Nat) (off : Int)
    (replies : Nat → Reply) (hvia : o.via = some (.file fh)) :
    RunsOrFails s o (s.readWriteImpl call fh len off replies) := by
  cases hfile : s.files[fh]? with
  | none =>
      apply RunsOrFails.of_error (r := -1) _ _ (by decide)
      · rw [Mount.readWriteImpl, hfile]
      · rw [Mount.readWriteImpl, hfile]
  | some offset =>
      have hexists : s.Exists (.file fh) := (Table.mem_iff_exists s.files fh).mpr ⟨offset, hfile⟩
      apply RunsOrFails.of_exists hexists hvia
      intro c hc
      rw [Mount.readWriteImpl, hfile] at hc
      dsimp only at hc
      split at hc
      · exact via_readWriteFrom call fh len replies len 0 0 off c hc
      · split at hc
        · rw [List.mem_singleton.mp hc]
        · rcases List.mem_cons.mp hc with rfl | hrest
          · rfl
          · exact via_readWriteFrom call fh len replies len 1 0 off c hrest

theorem runsOrFails_flush_iff (fh : Nat) (code : Errno) :
    RunsOrFails s (.flush fh code : FuseOp P) (s.flush fh code) ↔ fh ∈ s.files := by
  constructor
  · intro hruns
    by_contra hmissing
    rcases hruns.fails _ rfl with hexists | ⟨r, hneg, hresult⟩
    · exact hmissing hexists
    · rw [Mount.flush, (Table.not_mem_iff s.files fh).mp hmissing] at hresult
      cases hresult
      exact Int.lt_irrefl 0 hneg
  · intro hmem
    obtain ⟨offset, hfile⟩ := (Table.mem_iff_exists s.files fh).mp hmem
    have hexists : s.Exists (.file fh) := hmem
    apply RunsOrFails.of_exists hexists rfl
    intro c hc
    rw [Mount.flush, hfile] at hc
    rw [List.mem_singleton.mp hc]

theorem RunsOrFails.of_calls (hvia : o.via = none)
    (hcalls : ∀ c ∈ ran.calls, s.Exists c.1) : RunsOrFails s o ran where
  calls := hcalls
  fails := by
    intro v hv
    cases hvia.symm.trans hv

theorem runsOrFails_release (fh : Nat) (code : Errno) :
    RunsOrFails s (.release fh code : FuseOp P) (s.release fh code) := by
  apply RunsOrFails.of_calls rfl
  intro c hc
  rw [Mount.release] at hc
  split at hc
  next hknown =>
    rw [List.mem_singleton.mp hc]
    exact hknown.2
  next => cases hc

theorem runsOrFails_releasedir (fh : Nat) (code : Errno) :
    RunsOrFails s (.releasedir fh code : FuseOp P) (s.releasedir fh code) := by
  apply RunsOrFails.of_calls rfl
  intro c hc
  rw [Mount.releasedir] at hc
  split at hc
  next hknown =>
    rw [List.mem_singleton.mp hc]
    exact hknown.2
  next => cases hc

theorem RunsOrFails.of_own (hvia : o.via = some .own) (hcalls : ∀ c ∈ ran.calls, c.1 = .own) :
    RunsOrFails s o ran := by
  have hexists : s.Exists .own := trivial
  exact .of_exists hexists hvia hcalls

theorem runsOrFails_mknod (path : P) (mode : Nat) (creation : Creation) :
    RunsOrFails s (.mknod path mode creation) (s.mknod path mode creation) := by
  apply RunsOrFails.of_own rfl
  intro c hc
  unfold Mount.mknod at hc
  split at hc
  · cases hc
  · cases creation with
    | made =>
        rcases List.mem_pair.mp hc with rfl | rfl
        · rfl
        · rfl
    | rpcException code => rw [List.mem_singleton.mp hc]
    | exception => rw [List.mem_singleton.mp hc]

theorem runsOrFails_openFile (path : P) (flags : Nat) (creation : Creation) :
    RunsOrFails s (.openFile path flags creation) (s.openFile path flags creation) := by
  apply RunsOrFails.of_own rfl
  intro c hc
  have hcalls : (s.openFile path flags creation).calls = [(.own, .openFile path flags)] := by
    cases creation <;> rfl
  rw [hcalls] at hc
  rw [List.mem_singleton.mp hc]

theorem usesConnection_iff_fitting (s : Mount) (e : Event P) (s' : Mount) :
    UsesConnection codes s e s' ↔ Fitting s e := by
  cases e with
  | op o =>
      cases o with
      | unlink path code => exact runsOrFails_ask_iff rfl
      | rmdir path code => exact runsOrFails_ask_iff rfl
      | mkdir path code => exact runsOrFails_ask_iff rfl
      | flush fh code => exact runsOrFails_flush_iff fh code
      | getattr path code => exact iff_of_true (runsOrFails_tested rfl) trivial
      | rename path newname code => exact iff_of_true (runsOrFails_tested rfl) trivial
      | truncate path offset code => exact iff_of_true (runsOrFails_tested rfl) trivial
      | chmod path mode code => exact iff_of_true (runsOrFails_tested rfl) trivial
      | utime path actime modtime code => exact iff_of_true (runsOrFails_tested rfl) trivial
      | opendir path reply => exact iff_of_true (runsOrFails_opendir path reply) trivial
      | releasedir fh code => exact iff_of_true (runsOrFails_releasedir fh code) trivial
      | readdir fh accepts replies fuel =>
          exact iff_of_true (runsOrFails_readdir fh accepts replies fuel) trivial
      | mknod path mode creation =>
          exact iff_of_true (runsOrFails_mknod path mode creation) trivial
      | openFile path flags creation =>
          exact iff_of_true (runsOrFails_openFile path flags creation) trivial
      | release fh code => exact iff_of_true (runsOrFails_release fh code) trivial
      | read fh len off replies =>
          exact iff_of_true (runsOrFails_readWriteImpl _ fh len off replies rfl) trivial
      | write fh buf off replies =>
          exact iff_of_true (runsOrFails_readWriteImpl _ fh buf.length off replies rfl) trivial
      | chown =>
          apply iff_of_true _ trivial
          apply RunsOrFails.of_calls rfl
          intro c hc
          cases hc
  | init a => exact Iff.rfl
  | retried a => exact Iff.rfl
  | dropped => exact Iff.rfl
  | destroy => exact Iff.rfl

end Functions

/-- An attempt that makes the interface. -/
def Event.Connects : Event P → Prop
  | .init (.created _) => True
  | .retried (.created _) => True
  | _ => False

theorem Mount.fs_tryConnect (s : Mount) (a : Attempt) :
    (s.tryConnect a).fs ≠ none ↔ s.fs ≠ none ∨ ∃ hdl, a = .created hdl := by
  cases a with
  | refused => simp [tryConnect, startRetry]
  | notCreated => simp [tryConnect, startRetry]
  | created hdl => simp [tryConnect]

section Untouched

variable (s : Mount)

theorem Mount.fs_ask (req : Request P) (code : Errno) : (s.ask req code).mount.fs = s.fs := by
  unfold Mount.ask
  split <;> rfl

theorem Mount.fs_tested (req : Request P) (code : Errno) :
    (s.tested req code).mount.fs = s.fs := by
  unfold Mount.tested
  split
  · rfl
  · exact s.fs_ask req code

theorem Mount.fs_opendir (path : P) (reply : Reply) : (s.opendir path reply).mount.fs = s.fs := by
  unfold Mount.opendir
  dsimp only
  split
  · rfl
  · split <;> rfl

theorem Mount.fs_readWriteImpl (call : Nat → Request P) (fh len : Nat) (off : Int)
    (replies : Nat → Reply) : (s.readWriteImpl call fh len off replies).mount.fs = s.fs := by
  unfold Mount.readWriteImpl
  split
  · rfl
  · split
    · rfl
    · split <;> rfl

theorem FuseOp.fs_run (o : FuseOp P) : (o.run codes s).mount.fs = s.fs := by
  cases o with
  | getattr path code => exact s.fs_tested _ code
  | rename path newname code => exact s.fs_tested _ code
  | truncate path offset code => exact s.fs_tested _ code
  | chmod path mode code => exact s.fs_tested _ code
  | utime path actime modtime code => exact s.fs_tested _ code
  | mkdir path code => exact s.fs_ask _ code
  | rmdir path code => exact s.fs_ask _ code
  | unlink path code => exact s.fs_ask _ code
  | opendir path reply => exact s.fs_opendir path reply
  | read fh len off replies => exact s.fs_readWriteImpl _ fh len off replies
  | write fh buf off replies => exact s.fs_readWriteImpl _ fh buf.length off replies
  | releasedir fh code =>
      change (s.releasedir fh code).mount.fs = s.fs
      unfold Mount.releasedir
      split <;> rfl
  | readdir fh accepts replies fuel =>
      change (s.readdir codes fh accepts replies fuel).mount.fs = s.fs
      unfold Mount.readdir
      split <;> rfl
  | mknod path mode creation =>
      change (s.mknod path mode creation).mount.fs = s.fs
      unfold Mount.mknod
      split
      · rfl
      · cases creation <;> rfl
  | openFile path flags creation =>
      cases creation <;> rfl
  | release fh code =>
      change (s.release fh code).mount.fs = s.fs
      unfold Mount.release
      split <;> rfl
  | flush fh code =>
      change (s.flush fh code).mount.fs = s.fs
      unfold Mount.flush
      split <;> rfl
  | chown => rfl

end Untouched

theorem fs_step {s s' : Mount} {e : Event P} (hstep : (mountMachine P codes).step s e = some s') :
    s'.fs ≠ none ↔ s.fs ≠ none ∨ e.Connects := by
  cases e with
  | init a =>
      obtain ⟨-, rfl⟩ := Machine.of_enabled hstep
      rw [Mount.fs_tryConnect]
      apply or_congr_right
      cases a <;> simp [Event.Connects]
  | retried a =>
      obtain ⟨-, rfl⟩ := Machine.of_enabled hstep
      rw [Mount.fs_tryConnect]
      apply or_congr_right
      cases a <;> simp [Event.Connects]
  | dropped =>
      obtain ⟨-, rfl⟩ := Machine.of_enabled hstep
      simp [Event.Connects, Mount.startRetry]
  | op o =>
      obtain ⟨-, rfl⟩ := Machine.of_enabled hstep
      rw [FuseOp.fs_run]
      simp [Event.Connects]
  | destroy =>
      obtain ⟨-, rfl⟩ := Machine.of_enabled hstep
      simp [Event.Connects]

/-- The interface is there from the first attempt on that succeeds: it is not lost with a
connection that drops, and a test of it is good for the call behind it. -/
theorem fs_runFrom {s s' : Mount} {es : List (Event P)}
    (hrun : (mountMachine P codes).runFrom s es = some s') :
    s'.fs ≠ none ↔ s.fs ≠ none ∨ ∃ e ∈ es, e.Connects := by
  induction es generalizing s with
  | nil =>
      cases hrun
      simp
  | cons e es ih =>
      rw [Machine.runFrom_cons, Option.bind_eq_some_iff] at hrun
      obtain ⟨middle, hstep, hrest⟩ := hrun
      rw [ih hrest, fs_step hstep, or_assoc]
      simp

/-- **Missing connections.** The functions of a run go through interfaces that are there, or
return errors, exactly when nothing is removed or created before an attempt to connect has
succeeded, and no file is flushed that is not open. -/
theorem usesConnection_iff (P : Type) (codes : RpcCodes) (es : List (Event P)) :
    (mountMachine P codes).Each (UsesConnection codes) es ↔
      (mountMachine P codes).Meets Fitting es := by
  have hkeep : ∀ (s : Mount) (e : Event P) (s' : Mount), True → Fitting s e →
      (mountMachine P codes).step s e = some s' → True := fun _ _ _ _ _ _ => trivial
  apply Machine.each_iff_meets trivial hkeep
  intro s e s' _ _
  exact usesConnection_iff_fitting s e s'

/-- The server is not there when the file system is mounted, and a file is removed. -/
theorem unlink_before_connect :
    ¬ ∀ es : List (Event (List Char)),
      (mountMachine (List Char) ⟨1, 2, by decide, by decide⟩).Each
        (UsesConnection ⟨1, 2, by decide, by decide⟩) es := by
  intro hall
  have heach := hall [.init .refused, .op (.unlink ['/', 'f'] 0)]
  have huses := ((heach _ rfl).2 _ rfl).1
  rw [usesConnection_iff_fitting] at huses
  exact huses rfl

end FerroRemote.Client.FuseMount

/-
# The offset mirror of the FUSE client

Every FUSE request names its own offset, while the agent's descriptor has a
position. The client keeps an offset of its own beside each open file and skips
the `seek` when it equals the one requested. What it keeps is right as long as
it learns of everything that moves the position.

The model takes a request from one remote call to the next, and a call on the
agent from one device operation to the next, so requests on one file may overlap
in any way. Requests that have ended are kept as history, with the content of the
file when they began and when they ended.
-/

import FerroRemote.Math.Machine
import FerroRemote.Agent.Kernel
import FerroRemote.Agent.FileTransfer

namespace FerroRemote.Client

open FerroRemote.Agent

/-- What a FUSE request wants to be transferred. -/
inductive Transfer
  | read (len : Nat)
  | write (data : List UInt8)
  deriving DecidableEq, Repr

namespace Transfer

def len : Transfer → Nat
  | .read len => len
  | .write data => data.length

/-- The block the next remote call is about, when `cur` bytes are done. `read`
puts the length into a 32-bit field and the agent cuts it; `write_impl` cuts the
data before it sends them. -/
def block : Transfer → Nat → Nat
  | .read len, cur => clampBlock ((len - cur) % UInt32.size)
  | .write data, cur => clampBlock (data.length - cur)

/-- What `read_impl` and `write_impl` return for an answer, and what `read_impl`
copies into the buffer. -/
def returned : Transfer → Nat → FileDataBlock → Nat × List UInt8
  | .read len, cur, res =>
    let length := if len - cur > res.data.length then res.data.length else len - cur
    (length, res.data.take length)
  | .write _, _, res => (res.length, [])

end Transfer

inductive FusePhase
  /-- The call of `seek` is under way. -/
  | seeking
  /-- It has been answered. -/
  | sought (res : Except Errno Unit)
  /-- At the head of the loop. -/
  | loop
  /-- The agent has transferred `done` bytes of a block. -/
  | device (done : Nat)
  /-- The call for a block has been answered. -/
  | answered (res : Except Errno FileDataBlock)

/-- A request in progress: the arguments and variables of `read_write_impl`. -/
structure FuseRequest where
  off : Nat
  op : Transfer
  cur : Nat
  /-- What has been read into the buffer. -/
  buf : List UInt8
  phase : FusePhase
  /-- The content of the file when the request began. -/
  before : List UInt8

structure Ended where
  off : Nat
  op : Transfer
  result : Int
  buf : List UInt8
  before : List UInt8
  after : List UInt8

/-- A file opened through FUSE: the descriptor on the agent, and the
`file_wrapper`. -/
structure MirrorState where
  file : DeviceFile
  /-- `offset_`. -/
  offset : Nat := 0
  requests : List FuseRequest := []
  ended : List Ended := []

/-- One step of a request, or of the agent on behalf of it. The number is the
request's place among those in progress. -/
inductive MirrorAction
  /-- `read` or `write` is called and looks at the offset. -/
  | begin (off : Nat) (op : Transfer)
  /-- The client goes on to its next remote call, or to its end. -/
  | advance (n : Nat)
  /-- The agent seeks. -/
  | seek (n : Nat)
  /-- A device operation transfers up to `k` bytes. -/
  | transfer (n k : Nat)
  /-- The call under way fails. -/
  | fail (n : Nat) (code : Errno)
  /-- The answer of a call that succeeded is lost, and the call fails. -/
  | lose (n : Nat) (code : Errno)

namespace MirrorState

/-- The beginning of `read_write_impl`. -/
def begin (s : MirrorState) (off : Nat) (op : Transfer) : MirrorState :=
  let phase := if s.offset ≠ off then FusePhase.seeking else .loop
  { s with requests := s.requests ++ [⟨off, op, 0, [], phase, s.file.content⟩] }

/-- The request at place `n` goes on as `r`. -/
def goOn (s : MirrorState) (n : Nat) (r : FuseRequest) : MirrorState :=
  { s with requests := s.requests.set n r }

/-- The request at place `n` returns. -/
def finish (s : MirrorState) (n : Nat) (r : FuseRequest) (result : Int) : MirrorState :=
  { s with
    requests := s.requests.eraseIdx n
    ended := s.ended ++ [⟨r.off, r.op, result, r.buf, r.before, s.file.content⟩] }

/-- `(int)(cur)`. -/
def toInt (cur : Nat) : Int := Int.bmod cur UInt32.size

/-- What `proto_error` and `channel_error` leave in `local_result`. -/
def localResult (code : Errno) : Int := -(code : Int)

/-- The client's part of `read_write_impl`, from one remote call to the next. -/
def advance (s : MirrorState) (n : Nat) (r : FuseRequest) : Option MirrorState :=
  match r.phase with
  | .sought (.error code) => some (s.finish n r (localResult code))
  | .sought (.ok ()) => some { s.goOn n { r with phase := .loop } with offset := r.off }
  | .loop =>
    if r.cur < r.op.len then
      -- a block of no bytes is answered without a device operation
      if r.op.block r.cur = 0 then some (s.goOn n { r with phase := .answered (.ok {}) })
      else some (s.goOn n { r with phase := .device 0 })
    else some (s.finish n r (toInt r.cur))
  | .answered (.error code) => some (s.finish n r (localResult code))
  | .answered (.ok res) =>
    let (next, bytes) := r.op.returned r.cur res
    if next = 0 then some (s.finish n r (toInt r.cur))
    else
      some { s.goOn n { r with cur := r.cur + next, buf := r.buf ++ bytes, phase := .loop } with
        offset := s.offset + next }
  | .seeking | .device _ => none

/-- One device operation of the agent's `read` or `write` for the request. -/
def transfer (s : MirrorState) (n : Nat) (r : FuseRequest) (k : Nat) : Option MirrorState :=
  match r.phase with
  | .device done =>
    if k ≤ r.op.block r.cur - done then
      match r.op with
      | .read _ =>
        let (data, file) := s.file.read k
        some { s.goOn n { r with phase := .answered (.ok { data := data }) } with file := file }
      | .write data =>
        let file := s.file.write ((data.drop (r.cur + done)).take k)
        -- the loop ends when the whole block is written
        let phase := if done + k = r.op.block r.cur then
            FusePhase.answered (.ok { length := done + k })
          else .device (done + k)
        some { s.goOn n { r with phase := phase } with file := file }
    else none
  | _ => none

/-- The call under way fails on the agent, or before it gets there. -/
def fail (s : MirrorState) (n : Nat) (r : FuseRequest) (code : Errno) : Option MirrorState :=
  match r.phase with
  | .seeking => some (s.goOn n { r with phase := .sought (.error code) })
  | .device _ => some (s.goOn n { r with phase := .answered (.error code) })
  | _ => none

/-- The call fails after the agent has done its work. -/
def lose (s : MirrorState) (n : Nat) (r : FuseRequest) (code : Errno) : Option MirrorState :=
  match r.phase with
  | .sought (.ok ()) => some (s.goOn n { r with phase := .sought (.error code) })
  | .answered (.ok _) => some (s.goOn n { r with phase := .answered (.error code) })
  | _ => none

/-- One step. An error code is not zero. -/
def step (s : MirrorState) : MirrorAction → Option MirrorState
  | .begin off op => some (s.begin off op)
  | .advance n => s.requests[n]?.bind fun r => s.advance n r
  | .seek n => s.requests[n]?.bind fun r =>
    match r.phase with
    | .seeking => some { s.goOn n { r with phase := .sought (.ok ()) } with file := s.file.seek r.off }
    | _ => none
  | .transfer n k => s.requests[n]?.bind fun r => s.transfer n r k
  | .fail n code => if 0 < code then s.requests[n]?.bind fun r => s.fail n r code else none
  | .lose n code => if 0 < code then s.requests[n]?.bind fun r => s.lose n r code else none

end MirrorState

/-- A file of some content, opened through FUSE. -/
def fuseFile (flags : Nat) (content : List UInt8) : Machine MirrorState MirrorAction where
  init := { file := .create content flags }
  step := MirrorState.step

/-- A read that succeeded returned the stretch of the file its result names, and
a write that succeeded changed the stretch its result names. -/
def Ended.Faithful (e : Ended) : Prop :=
  0 ≤ e.result →
    match e.op with
    | .read _ => ∃ r : Nat, e.result = r ∧ e.after = e.before ∧
        e.buf = Extent.readAt e.after e.off r ∧ e.buf.length = r
    | .write data => ∃ w : Nat, e.result = w ∧ w ≤ data.length ∧
        e.after = Extent.writeAt 0 e.before e.off (data.take w)

namespace MirrorState

/-- The cached offset is the position whenever no request is in progress, and all
requests that succeeded were right. -/
structure Mirrored (s : MirrorState) : Prop where
  idle : s.requests = [] → s.offset = s.file.position
  ended : ∀ e ∈ s.ended, e.Faithful

/-- Requests do not overlap, and have not transferred more than 32 bits can count;
with `O_APPEND` a write starts where the file ends; and a call that fails has not
moved the position. -/
def Undisturbed (s : MirrorState) : MirrorAction → Prop
  | .begin _ _ => s.requests = []
  | .advance n => ∀ r : FuseRequest, s.requests[n]? = some r → r.cur < UInt32.size
  | .transfer n k => ∀ (r : FuseRequest) (data : List UInt8), s.requests[n]? = some r →
      r.op = .write data → 0 < k → s.file.append = true → s.file.position = s.file.content.length
  | .fail n _ => ∀ (r : FuseRequest) (done : Nat), s.requests[n]? = some r →
      r.phase = .device done → done = 0
  | .lose n _ => ∀ r : FuseRequest, s.requests[n]? = some r → r.phase = .answered (.ok {})
  | _ => True

end MirrorState

/-! ## The invariant -/

namespace FuseRequest

/-- The request has been answered for `r.cur` bytes, and `m` more have been
transferred. -/
structure Reached (r : FuseRequest) (file : DeviceFile) (offset m : Nat) : Prop where
  offset : offset = r.off + r.cur
  position : file.position = r.off + r.cur + m
  within : r.cur + m ≤ r.op.len
  content : match r.op with
    | .read _ => file.content = r.before ∧ r.buf.length = r.cur ∧
        r.buf = Extent.readAt r.before r.off r.cur
    | .write data => file.content = Extent.writeAt 0 r.before r.off (data.take (r.cur + m))

structure Fresh (r : FuseRequest) (file : DeviceFile) : Prop where
  cur : r.cur = 0
  buf : r.buf = []
  content : file.content = r.before

/-- What is known of a request in each of its phases. -/
def Progress (r : FuseRequest) (file : DeviceFile) (offset : Nat) : Prop :=
  match r.phase with
  | .seeking => r.Fresh file ∧ offset = file.position
  | .sought (.error code) => 0 < code ∧ offset = file.position
  | .sought (.ok ()) => r.Fresh file ∧ file.position = r.off
  | .loop => r.Reached file offset 0
  | .device done => r.Reached file offset done ∧ ∀ len, r.op = .read len → done = 0
  | .answered (.error code) => 0 < code ∧ offset = file.position
  | .answered (.ok res) =>
    match r.op with
    | .read _ => r.Reached file offset res.data.length ∧
        res.data = Extent.readAt r.before (r.off + r.cur) res.data.length
    | .write _ => r.Reached file offset res.length

/-- A request that has got as far as before, in another phase. -/
theorem Reached.withPhase {r : FuseRequest} {file : DeviceFile} {offset m : Nat}
    (hreached : r.Reached file offset m) (phase : FusePhase) :
    { r with phase := phase }.Reached file offset m :=
  ⟨hreached.offset, hreached.position, hreached.within, hreached.content⟩

/-- When all that was transferred has been answered, the cached offset is right. -/
theorem Reached.offset_eq {r : FuseRequest} {file : DeviceFile} {offset : Nat}
    (hreached : r.Reached file offset 0) : offset = file.position :=
  hreached.offset.trans hreached.position.symm

theorem Fresh.reached {r : FuseRequest} {file : DeviceFile} (hfresh : r.Fresh file)
    (hposition : file.position = r.off) : r.Reached file r.off 0 := by
  obtain ⟨hcur, hbuf, hcontent⟩ := hfresh
  refine ⟨by rw [hcur]; rfl, by rw [hcur]; exact hposition, by rw [hcur]; exact Nat.zero_le _, ?_⟩
  cases hop : r.op with
  | read len =>
      simp only [hcur, hbuf]
      exact ⟨hcontent, rfl, (Extent.readAt_zero _ _).symm⟩
  | write data =>
      simp only [hcur]
      exact hcontent.trans (Extent.writeAt_nil _ _ _).symm

end FuseRequest

namespace MirrorState

/-- At most one request is in progress, and it has got where its phase says. -/
structure Kept (s : MirrorState) : Prop where
  alone : s.requests = [] ∧ s.offset = s.file.position ∨
    ∃ r, s.requests = [r] ∧ r.Progress s.file s.offset
  ended : ∀ e ∈ s.ended, e.Faithful

theorem kept_init (flags : Nat) (content : List UInt8) :
    Kept { file := .create content flags } where
  alone := .inl ⟨rfl, rfl⟩
  ended _ hmem := absurd hmem List.not_mem_nil

theorem Kept.mirrored {s : MirrorState} (hs : s.Kept) : s.Mirrored where
  ended := hs.ended
  idle hidle := by
    rcases hs.alone with ⟨-, hoffset⟩ | ⟨r, hone, -⟩
    · exact hoffset
    · rw [hone] at hidle
      cases hidle

/-- The request that takes a step is the only one. -/
theorem Kept.only {s : MirrorState} (hs : s.Kept) {n : Nat} {r : FuseRequest}
    (hr : s.requests[n]? = some r) :
    n = 0 ∧ s.requests = [r] ∧ r.Progress s.file s.offset := by
  rcases hs.alone with ⟨hnone, -⟩ | ⟨r', hone, hprogress⟩
  · rw [hnone] at hr
    cases hr
  · rw [hone, List.getElem?_singleton] at hr
    split at hr
    · next hn =>
        cases hr
        exact ⟨hn, hone, hprogress⟩
    · cases hr

/-- What the conversion to a signed number changes, below its modulus, becomes negative. -/
theorem bmod_cases {cur size : Nat} (hcur : cur < size) :
    Int.bmod cur size = cur ∨ Int.bmod cur size < 0 := by
  have hmod : (cur : Int) % size = cur := by
    rw [← Int.natCast_emod, Nat.mod_eq_of_lt hcur]
  rw [Int.bmod, hmod]
  split
  · exact .inl rfl
  · right
    omega

theorem Kept.goOn {s s' : MirrorState} (hs : s.Kept) {r' : FuseRequest}
    (hrequests : s'.requests = [r']) (hprogress : r'.Progress s'.file s'.offset)
    (hended : s'.ended = s.ended) : s'.Kept where
  alone := .inr ⟨r', hrequests, hprogress⟩
  ended := by
    rw [hended]
    exact hs.ended

theorem Kept.finish {s : MirrorState} (hs : s.Kept) {r : FuseRequest} {result : Int}
    (hone : s.requests = [r]) (hoffset : s.offset = s.file.position)
    (hfaithful : Ended.Faithful ⟨r.off, r.op, result, r.buf, r.before, s.file.content⟩) :
    (s.finish 0 r result).Kept := by
  constructor
  · left
    refine ⟨?_, hoffset⟩
    rw [MirrorState.finish, hone]
    rfl
  · intro e he
    rcases List.mem_append.mp he with hold | hnew
    · exact hs.ended e hold
    · rw [List.mem_singleton.mp hnew]
      exact hfaithful

theorem Kept.finishError {s : MirrorState} (hs : s.Kept) {r : FuseRequest} {code : Errno}
    (hone : s.requests = [r]) (hcode : 0 < code) (hoffset : s.offset = s.file.position) :
    (s.finish 0 r (localResult code)).Kept := by
  apply hs.finish hone hoffset
  intro hsuccess
  have hnegative : localResult code < 0 := Int.neg_neg_of_pos (Int.natCast_pos.mpr hcode)
  exact absurd hsuccess (Int.not_le.mpr hnegative)

theorem Kept.finishCur {s : MirrorState} (hs : s.Kept) {r : FuseRequest}
    (hone : s.requests = [r]) (hcur : r.cur < UInt32.size) (hreached : r.Reached s.file s.offset 0) :
    (s.finish 0 r (toInt r.cur)).Kept := by
  have hwithin : r.cur ≤ r.op.len := hreached.within
  have hwrap : toInt r.cur = r.cur ∨ toInt r.cur < 0 := bmod_cases hcur
  generalize toInt r.cur = result at hwrap ⊢
  apply hs.finish hone hreached.offset_eq
  intro hsuccess
  have hcontent := hreached.content
  have hresult : result = r.cur := by
    rcases hwrap with hexact | hnegative
    · exact hexact
    · exact absurd hsuccess (Int.not_le.mpr hnegative)
  rw [hresult]
  cases hop : r.op with
  | read len =>
      simp only [hop] at hcontent
      obtain ⟨hsame, hlength, hbuf⟩ := hcontent
      refine ⟨r.cur, rfl, hsame, ?_, hlength⟩
      show r.buf = Extent.readAt s.file.content r.off r.cur
      rw [hsame]
      exact hbuf
  | write data =>
      simp only [hop] at hcontent
      rw [hop] at hwithin
      exact ⟨r.cur, rfl, hwithin, hcontent⟩

theorem block_le (op : Transfer) (cur : Nat) : op.block cur ≤ op.len - cur := by
  cases op with
  | read len =>
      have hmod := Nat.mod_le (len - cur) UInt32.size
      simp only [Transfer.block, Transfer.len, clampBlock]
      split <;> omega
  | write data =>
      simp only [Transfer.block, Transfer.len, clampBlock]
      split <;> omega

theorem Kept.begin {s : MirrorState} (hs : s.Kept) {off : Nat} {op : Transfer}
    (hnone : s.requests = []) : (s.begin off op).Kept := by
  have hoffset : s.offset = s.file.position := hs.mirrored.idle hnone
  have hrequests : (s.begin off op).requests =
      [⟨off, op, 0, [], if s.offset ≠ off then .seeking else .loop, s.file.content⟩] := by
    rw [MirrorState.begin, hnone]
    rfl
  have hfresh : ∀ phase : FusePhase,
      FuseRequest.Fresh ⟨off, op, 0, [], phase, s.file.content⟩ s.file := fun _ => ⟨rfl, rfl, rfl⟩
  refine hs.goOn hrequests ?_ rfl
  by_cases hsame : s.offset = off
  · rw [if_neg (not_not.mpr hsame)]
    have hreached := (hfresh .loop).reached (hoffset.symm.trans hsame)
    rw [← hsame] at hreached ⊢
    exact hreached
  · rw [if_pos hsame]
    exact ⟨hfresh _, hoffset⟩

theorem goOn_requests {s : MirrorState} {r : FuseRequest} (hone : s.requests = [r])
    (r' : FuseRequest) : (s.goOn 0 r').requests = [r'] := by
  rw [MirrorState.goOn, hone]
  rfl

/-- The answer for a block of a read is counted: the agent has not answered more
than was asked for. -/
theorem Kept.countRead {s s' : MirrorState} (hs : s.Kept) {off len cur : Nat}
    {buf before : List UInt8} {res : FileDataBlock}
    (hone : s.requests = [⟨off, .read len, cur, buf, .answered (.ok res), before⟩])
    (hcur : cur < UInt32.size)
    (hreached : FuseRequest.Reached ⟨off, .read len, cur, buf, .answered (.ok res), before⟩
      s.file s.offset res.data.length)
    (hdata : res.data = Extent.readAt before (off + cur) res.data.length)
    (hstep : s.advance 0 ⟨off, .read len, cur, buf, .answered (.ok res), before⟩ = some s') :
    s'.Kept := by
  have hwithin : cur + res.data.length ≤ len := hreached.within
  have hreturned : (Transfer.read len).returned cur res = (res.data.length, res.data) := by
    have hmin : (if len - cur > res.data.length then res.data.length else len - cur) =
        res.data.length := by
      split <;> omega
    simp only [Transfer.returned, hmin, List.take_length]
  simp only [MirrorState.advance, hreturned] at hstep
  split at hstep
  · next hzero =>
      cases hstep
      rw [hzero] at hreached
      exact hs.finishCur hone hcur hreached
  · cases hstep
    obtain ⟨hsame, hlength, hbuf⟩ := hreached.content
    refine hs.goOn (goOn_requests hone _) ?_ rfl
    refine ⟨?_, ?_, hwithin, hsame, ?_, ?_⟩
    · show s.offset + res.data.length = off + (cur + res.data.length)
      rw [hreached.offset, Nat.add_assoc]
    · show s.file.position = off + (cur + res.data.length) + 0
      rw [hreached.position, Nat.add_zero, Nat.add_assoc]
    · show (buf ++ res.data).length = cur + res.data.length
      rw [List.length_append, hlength]
    · show buf ++ res.data = Extent.readAt before off (cur + res.data.length)
      rw [Extent.readAt_add, ← hdata]
      exact congrArg (· ++ res.data) hbuf

theorem Kept.countWrite {s s' : MirrorState} (hs : s.Kept) {off cur : Nat}
    {data buf before : List UInt8} {res : FileDataBlock}
    (hone : s.requests = [⟨off, .write data, cur, buf, .answered (.ok res), before⟩])
    (hcur : cur < UInt32.size)
    (hreached : FuseRequest.Reached ⟨off, .write data, cur, buf, .answered (.ok res), before⟩
      s.file s.offset res.length)
    (hstep : s.advance 0 ⟨off, .write data, cur, buf, .answered (.ok res), before⟩ = some s') :
    s'.Kept := by
  have hreturned : (Transfer.write data).returned cur res = (res.length, []) := rfl
  simp only [MirrorState.advance, hreturned] at hstep
  split at hstep
  · next hzero =>
      cases hstep
      rw [hzero] at hreached
      exact hs.finishCur hone hcur hreached
  · cases hstep
    refine hs.goOn (goOn_requests hone _) ?_ rfl
    refine ⟨?_, ?_, hreached.within, hreached.content⟩
    · show s.offset + res.length = off + (cur + res.length)
      rw [hreached.offset, Nat.add_assoc]
    · show s.file.position = off + (cur + res.length) + 0
      rw [hreached.position, Nat.add_zero, Nat.add_assoc]

theorem Kept.advance {s s' : MirrorState} (hs : s.Kept) {r : FuseRequest} (hone : s.requests = [r])
    (hcur : r.cur < UInt32.size) (hprogress : r.Progress s.file s.offset)
    (hstep : s.advance 0 r = some s') :
    s'.Kept := by
  obtain ⟨off, op, cur, buf, phase, before⟩ := r
  cases phase with
  | seeking => cases hstep
  | device done => cases hstep
  | sought res =>
      cases res with
      | error code =>
          cases hstep
          exact hs.finishError hone hprogress.1 hprogress.2
      | ok u =>
          cases hstep
          have hreached := (hprogress.1.reached hprogress.2).withPhase .loop
          exact hs.goOn (goOn_requests hone _) hreached rfl
  | loop =>
      simp only [MirrorState.advance] at hstep
      have hreached : FuseRequest.Reached _ s.file s.offset 0 := hprogress
      split at hstep
      · split at hstep
        · cases hstep
          refine hs.goOn (goOn_requests hone _) ?_ rfl
          cases op with
          | read len => exact ⟨hreached.withPhase _, rfl⟩
          | write data => exact hreached.withPhase _
        · cases hstep
          refine hs.goOn (goOn_requests hone _) ?_ rfl
          exact ⟨hreached.withPhase _, fun _ _ => rfl⟩
      · cases hstep
        exact hs.finishCur hone hcur hreached
  | answered res =>
      cases res with
      | error code =>
          cases hstep
          exact hs.finishError hone hprogress.1 hprogress.2
      | ok res =>
          cases op with
          | read len => exact hs.countRead hone hcur hprogress.1 hprogress.2 hstep
          | write data => exact hs.countWrite hone hcur hprogress hstep

/-- A device operation gives a stretch of the file to a read. -/
theorem Kept.transferRead {s s' : MirrorState} (hs : s.Kept) {off len cur done k : Nat}
    {buf before : List UInt8}
    (hone : s.requests = [⟨off, .read len, cur, buf, .device done, before⟩])
    (hreached : FuseRequest.Reached ⟨off, .read len, cur, buf, .device done, before⟩
      s.file s.offset done)
    (hdone : done = 0)
    (hstep : s.transfer 0 ⟨off, .read len, cur, buf, .device done, before⟩ k = some s') :
    s'.Kept := by
  subst hdone
  simp only [MirrorState.transfer] at hstep
  split at hstep
  · next hblock =>
      cases hstep
      obtain ⟨hsame, hlength, hbuf⟩ := hreached.content
      have hposition : s.file.position = off + cur := hreached.position
      have hasked : k ≤ len - cur := Nat.le_trans hblock (block_le (.read len) cur)
      have hshort : (Extent.readAt s.file.content s.file.position k).length ≤ k :=
        Extent.length_readAt_le _ _ _
      have hcur : cur ≤ len := hreached.within
      refine hs.goOn (goOn_requests hone _) ⟨⟨hreached.offset, ?_, ?_, hsame, hlength, hbuf⟩, ?_⟩ rfl
      · show s.file.position + (Extent.readAt s.file.content s.file.position k).length =
          off + cur + (Extent.readAt s.file.content s.file.position k).length
        exact congrArg (· + (Extent.readAt s.file.content s.file.position k).length) hposition
      · show cur + (Extent.readAt s.file.content s.file.position k).length ≤ len
        omega
      · show Extent.readAt s.file.content s.file.position k =
          Extent.readAt before (off + cur) (Extent.readAt s.file.content s.file.position k).length
        have hcontent : s.file.content = before := hsame
        rw [hcontent, hposition, Extent.readAt_length]
  · cases hstep

/-- A device operation of a write adds a piece to what has been written. -/
theorem Kept.transferWrite {s s' : MirrorState} (hs : s.Kept) {off cur done k : Nat}
    {data buf before : List UInt8}
    (hone : s.requests = [⟨off, .write data, cur, buf, .device done, before⟩])
    (hreached : FuseRequest.Reached ⟨off, .write data, cur, buf, .device done, before⟩
      s.file s.offset done)
    (hend : 0 < k → s.file.append = true → s.file.position = s.file.content.length)
    (hstep : s.transfer 0 ⟨off, .write data, cur, buf, .device done, before⟩ k = some s') :
    s'.Kept := by
  simp only [MirrorState.transfer] at hstep
  split at hstep
  · next hblock =>
      have hasked : k ≤ data.length - cur - done :=
        Nat.le_trans hblock (Nat.sub_le_sub_right (block_le (.write data) cur) done)
      have hsofar : cur + done ≤ data.length := hreached.within
      have hpiece : ((data.drop (cur + done)).take k).length = k := by
        rw [List.length_take, List.length_drop]
        omega
      have hwrite := s.file.write_of_at_position ((data.drop (cur + done)).take k)
        fun hnonempty happend => by
          apply hend _ happend
          rw [← hpiece]
          exact List.length_pos_iff.mpr hnonempty
      have hposition : s.file.position = off + cur + done := hreached.position
      have hcontent : s.file.content = Extent.writeAt 0 before off (data.take (cur + done)) :=
        hreached.content
      -- the piece begins where the stretch written so far ends
      have hwritten : (s.file.write ((data.drop (cur + done)).take k)).content =
          Extent.writeAt 0 before off (data.take (cur + (done + k))) := by
        have hstretch : (data.take (cur + done)).length = cur + done :=
          List.length_take_of_le hsofar
        have hat : s.file.position = off + (data.take (cur + done)).length := by
          rw [hstretch, hposition, Nat.add_assoc]
        rw [hwrite]
        show Extent.writeAt 0 s.file.content s.file.position ((data.drop (cur + done)).take k) = _
        rw [hat, hcontent, Extent.writeAt_append, ← List.take_add, Nat.add_assoc]
      have hmoved : (s.file.write ((data.drop (cur + done)).take k)).position =
          off + cur + (done + k) := by
        rw [hwrite]
        show s.file.position + ((data.drop (cur + done)).take k).length = _
        rw [hpiece, hposition, Nat.add_assoc]
      have hwithin : cur + (done + k) ≤ data.length := by omega
      have hnext : ∀ phase : FusePhase,
          FuseRequest.Reached ⟨off, .write data, cur, buf, phase, before⟩
            (s.file.write ((data.drop (cur + done)).take k)) s.offset (done + k) :=
        fun _ => ⟨hreached.offset, hmoved, hwithin, hwritten⟩
      cases hstep
      refine hs.goOn (goOn_requests hone _) ?_ rfl
      by_cases hwhole : done + k = (Transfer.write data).block cur
      · rw [if_pos hwhole]
        exact hnext _
      · rw [if_neg hwhole]
        refine ⟨hnext _, fun len hread => ?_⟩
        cases hread
  · cases hstep

theorem Kept.transfer {s s' : MirrorState} (hs : s.Kept) {r : FuseRequest} {k : Nat}
    (hone : s.requests = [r]) (hprogress : r.Progress s.file s.offset)
    (hend : ∀ data : List UInt8, r.op = .write data → 0 < k → s.file.append = true →
      s.file.position = s.file.content.length)
    (hstep : s.transfer 0 r k = some s') :
    s'.Kept := by
  obtain ⟨off, op, cur, buf, phase, before⟩ := r
  cases phase with
  | device done =>
      cases op with
      | read len => exact hs.transferRead hone hprogress.1 (hprogress.2 len rfl) hstep
      | write data => exact hs.transferWrite hone hprogress.1 (hend data rfl) hstep
  | seeking | sought _ | loop | answered _ => cases hstep

/-- A call that fails before the position has moved leaves the two in step. -/
theorem Kept.fail {s s' : MirrorState} (hs : s.Kept) {r : FuseRequest} {code : Errno}
    (hone : s.requests = [r]) (hprogress : r.Progress s.file s.offset)
    (hcode : 0 < code) (hunmoved : ∀ done : Nat, r.phase = .device done → done = 0)
    (hstep : s.fail 0 r code = some s') :
    s'.Kept := by
  obtain ⟨off, op, cur, buf, phase, before⟩ := r
  cases phase with
  | seeking =>
      cases hstep
      exact hs.goOn (goOn_requests hone _) ⟨hcode, hprogress.2⟩ rfl
  | device done =>
      cases hstep
      have hreached : FuseRequest.Reached _ s.file s.offset done := hprogress.1
      have hdone : done = 0 := hunmoved done rfl
      rw [hdone] at hreached
      exact hs.goOn (goOn_requests hone _) ⟨hcode, hreached.offset_eq⟩ rfl
  | sought _ | loop | answered _ => cases hstep

theorem Kept.lose {s s' : MirrorState} (hs : s.Kept) {r : FuseRequest} {code : Errno}
    (hone : s.requests = [r]) (hprogress : r.Progress s.file s.offset)
    (hcode : 0 < code) (hempty : r.phase = .answered (.ok {}))
    (hstep : s.lose 0 r code = some s') :
    s'.Kept := by
  obtain ⟨off, op, cur, buf, phase, before⟩ := r
  cases hempty
  cases hstep
  have hreached : FuseRequest.Reached ⟨off, op, cur, buf, .answered (.ok {}), before⟩
      s.file s.offset 0 := by
    cases op with
    | read len => exact hprogress.1
    | write data => exact hprogress
  exact hs.goOn (goOn_requests hone _) ⟨hcode, hreached.offset_eq⟩ rfl

theorem Kept.seek {s : MirrorState} (hs : s.Kept) {off cur : Nat} {op : Transfer}
    {buf before : List UInt8} (hone : s.requests = [⟨off, op, cur, buf, .seeking, before⟩])
    (hfresh : FuseRequest.Fresh ⟨off, op, cur, buf, .seeking, before⟩ s.file) :
    Kept { s.goOn 0 ⟨off, op, cur, buf, .sought (.ok ()), before⟩ with
      file := s.file.seek off } :=
  hs.goOn (goOn_requests hone _) ⟨⟨hfresh.cur, hfresh.buf, hfresh.content⟩, rfl⟩ rfl

theorem kept_step (s : MirrorState) (a : MirrorAction) (s' : MirrorState) (hs : s.Kept)
    (hguard : s.Undisturbed a) (hstep : s.step a = some s') : s'.Kept := by
  cases a with
  | begin off op =>
      cases hstep
      exact hs.begin hguard
  | advance n =>
      obtain ⟨r, hr, htaken⟩ := Option.bind_eq_some_iff.mp hstep
      obtain ⟨rfl, hone, hprogress⟩ := hs.only hr
      exact hs.advance hone (hguard r hr) hprogress htaken
  | seek n =>
      obtain ⟨r, hr, htaken⟩ := Option.bind_eq_some_iff.mp hstep
      obtain ⟨rfl, hone, hprogress⟩ := hs.only hr
      obtain ⟨off, op, cur, buf, phase, before⟩ := r
      cases phase with
      | seeking =>
          cases htaken
          exact hs.seek hone hprogress.1
      | sought _ | loop | device _ | answered _ => cases htaken
  | transfer n k =>
      obtain ⟨r, hr, htaken⟩ := Option.bind_eq_some_iff.mp hstep
      obtain ⟨rfl, hone, hprogress⟩ := hs.only hr
      exact hs.transfer hone hprogress (fun data => hguard r data hr) htaken
  | fail n code =>
      simp only [MirrorState.step] at hstep
      split at hstep
      · next hcode =>
          obtain ⟨r, hr, htaken⟩ := Option.bind_eq_some_iff.mp hstep
          obtain ⟨rfl, hone, hprogress⟩ := hs.only hr
          exact hs.fail hone hprogress hcode (fun done => hguard r done hr) htaken
      · cases hstep
  | lose n code =>
      simp only [MirrorState.step] at hstep
      split at hstep
      · next hcode =>
          obtain ⟨r, hr, htaken⟩ := Option.bind_eq_some_iff.mp hstep
          obtain ⟨rfl, hone, hprogress⟩ := hs.only hr
          exact hs.lose hone hprogress hcode (hguard r hr) htaken
      · cases hstep

end MirrorState

/-- **The offset mirror.** In every undisturbed run the cached offset is the
position whenever no request is in progress, and every request that succeeded
transferred the stretch it names. -/
theorem mirrored_of_undisturbed (flags : Nat) (content : List UInt8) (as : List MirrorAction)
    (hundisturbed : (fuseFile flags content).Meets MirrorState.Undisturbed as) :
    (fuseFile flags content).Along MirrorState.Mirrored as := by
  apply Machine.along_of_meets _ MirrorState.kept_step _ hundisturbed
  · exact MirrorState.kept_init flags content
  · intro s hs
    exact hs.mirrored

/-- A read of two bytes that takes two blocks is such a run. -/
theorem mirrored_two_blocks :
    (fuseFile 0 [1, 2, 3]).Along MirrorState.Mirrored
      [.begin 1 (.read 2), .seek 0, .advance 0, .advance 0, .transfer 0 1, .advance 0, .advance 0,
        .transfer 0 1, .advance 0, .advance 0] := by
  apply mirrored_of_undisturbed
  apply Machine.MeetsFrom.cons rfl
  · show ([] : List FuseRequest) = []
    rfl
  apply Machine.MeetsFrom.cons rfl trivial
  apply Machine.MeetsFrom.cons rfl
  · intro r hr
    cases hr
    decide
  apply Machine.MeetsFrom.cons rfl
  · intro r hr
    cases hr
    decide
  apply Machine.MeetsFrom.cons rfl
  · intro r data hr hwrite
    cases hr
    cases hwrite
  apply Machine.MeetsFrom.cons rfl
  · intro r hr
    cases hr
    decide
  apply Machine.MeetsFrom.cons rfl
  · intro r hr
    cases hr
    decide
  apply Machine.MeetsFrom.cons rfl
  · intro r data hr hwrite
    cases hr
    cases hwrite
  apply Machine.MeetsFrom.cons rfl
  · intro r hr
    cases hr
    decide
  apply Machine.MeetsFrom.cons rfl
  · intro r hr
    cases hr
    decide
  trivial

/-- A write whose device takes one byte and then fails: the position has moved,
and the cached offset has not. -/
theorem position_moves_on :
    ¬ (fuseFile 2 []).Along MirrorState.Mirrored
      [.begin 0 (.write [7, 8]), .advance 0, .transfer 0 1, .fail 0 5, .advance 0] := by
  apply Machine.not_along_of_run rfl
  intro hmirrored
  have hmoved : (0 : Nat) = 1 := hmirrored.idle rfl
  cases hmoved

end FerroRemote.Client

/-
# Posted calls and timers of a script

A script posts functions to be called later: at once, or when a timer has run out. Calls wait
in a strand and are made one after the other by the thread of the script. Timers are kept by
a number that the script holds as its handle; a timer that is taken out of the map is
destroyed, and its handler still runs, with an error. Handlers run in a thread of their own,
in any order and at any time after their timers are done.

A step of the module is taken as a whole. The source has no lock around the map of the timers,
which handlers and the script both change: steps of the two that overlap are not described.
-/

import FerroRemote.Lua.Objects
import FerroRemote.Math.Machine
import FerroRemote.Math.Table

namespace FerroRemote.Lua.EventQueue

structure Timeout where
  sec : Nat
  milli : Nat
  micro : Nat
  deriving DecidableEq, Repr

/-- The sum of the three durations in microseconds -/
def Timeout.total (t : Timeout) : Nat := t.sec * 1000000 + t.milli * 1000 + t.micro

section Argument

variable (unsigned : LuaNumber → Nat)

/-- What a pair of the table sets. Names and numbers that stand for nothing are left out. -/
def Timeout.set (t : Timeout) (f s : Obj) : Timeout :=
  match f, s with
  | .number key, .number value =>
      match unsigned key with
      | 1 => { t with sec := unsigned value }
      | 2 => { t with milli := unsigned value }
      | 3 => { t with micro := unsigned value }
      | _ => t
  | .string name, .number value =>
      if name = "seconds".toList then { t with sec := unsigned value }
      else if name = "sec".toList then { t with sec := unsigned value }
      else if name = "milliseconds".toList then { t with milli := unsigned value }
      else if name = "milli".toList then { t with milli := unsigned value }
      else if name = "microseconds".toList then { t with micro := unsigned value }
      else if name = "micro".toList then { t with micro := unsigned value }
      else t
  | _, _ => t

def Timeout.setAll (t : Timeout) : Pairs → Timeout
  | .nil => t
  | .cons f s rest => (t.set unsigned f s).setAll rest

/-- The second argument: a table, or a number of seconds -/
def timeoutOf : Option Obj → Timeout
  | some (.table list _) => (⟨0, 0, 0⟩ : Timeout).setAll unsigned list
  | some (.number n) => ⟨unsigned n, 0, 0⟩
  | _ => ⟨0, 0, 0⟩

end Argument

/-- A function with its arguments, all of them references to values -/
structure Call where
  callee : Value
  params : List Value
  deriving DecidableEq

/-- The wait of a `delayed_call`: it goes on until a time, or it is done with success or
with an error and its handler is to run. -/
inductive Progress
  | waiting
  | expired
  | aborted
  deriving DecidableEq, Repr

/-- What is bound to the handler of a timer, with the time it waits for -/
structure Wait where
  id : Nat
  call : Call
  deadline : Nat
  progress : Progress
  deriving DecidableEq

/-- A call in the strand, with the timer it comes from, which nothing reads -/
structure Posted where
  source : Option Nat
  call : Call
  deriving DecidableEq

/-- The module and the event caller. Each `delayed_call` has a number of its own; `timers` is
the map of the module, and `waits` what the I/O service has still to complete. -/
structure Queue where
  now : Nat
  index : Nat
  enabled : Bool
  alive : Bool
  working : Bool
  made : Nat
  timers : Table Nat
  waits : Table Wait
  strand : List Posted
  called : List Posted

namespace Queue

/-- A wait whose timer is destroyed: it is completed with an error if it still goes on. -/
def dropped (hit : Prop) [Decidable hit] (w : Wait) : Wait :=
  if hit ∧ w.progress = .waiting then { w with progress := .aborted } else w

def start : Queue where
  now := 0
  index := 100
  enabled := false
  alive := true
  working := true
  made := 0
  timers := ∅
  waits := ∅
  strand := []
  called := []

def nextIndex (q : Queue) : Nat × Queue := (q.index, { q with index := q.index + 1 })

def pushCall (q : Queue) (source : Option Nat) (call : Call) : Queue :=
  if q.enabled then { q with strand := q.strand ++ [⟨source, call⟩] } else q

/-- The destructor of a `delayed_call` -/
def destroy (q : Queue) (object : Nat) : Queue :=
  match q.waits[object]? with
  | none => q
  | some w => { q with waits := q.waits.insert object (dropped True w) }

/-- `del_timer`: the map holds the only reference to the timer. -/
def delTimer (q : Queue) (id : Nat) : Queue :=
  match q.timers[id]? with
  | none => q
  | some object => { q with timers := q.timers.erase id }.destroy object

/-- `add_timer`; what the map held under the number is destroyed. -/
def addTimer (q : Queue) (id : Nat) : Nat × Queue :=
  (q.made, { (q.delTimer id) with
    made := q.made + 1
    timers := (q.delTimer id).timers.insert id q.made })

/-- `err.message( )` of a timer that was destroyed -/
def canceled : Text := "Operation canceled".toList

/-- What the call gets in front of its arguments -/
def outcome : Progress → Value
  | .aborted => .string canceled
  | _ => .nil

def timerHandler (q : Queue) (object : Nat) (w : Wait) : Queue :=
  if q.working then
    if q.alive then
      (q.pushCall (some object) { w.call with
        params := outcome w.progress :: w.call.params }).delTimer w.id
    else q
  else q

/-- `lcall_timer_post` behind its second argument; the handle of the timer is its number. -/
def timerPost (q : Queue) (callee : Option Value) (timeout : Timeout) (params : List Value) :
    Nat × Queue :=
  match callee with
  | none => (0, q)
  | some callee =>
      let (id, q) := q.nextIndex
      let (object, q) := q.addTimer id
      (id, { q with
        waits := q.waits.insert object ⟨id, ⟨callee, params⟩, q.now + timeout.total, .waiting⟩ })

/-- `lcall_timer_post`, with the function, the argument that says how long, and those of the
function -/
def lcallTimerPost (unsigned : LuaNumber → Nat) (q : Queue) (callee : Option Value)
    (timeout : Option Obj) (params : List Value) : Nat × Queue :=
  q.timerPost callee (timeoutOf unsigned timeout) params

/-- `lcall_timer_cancel` -/
def timerCancel (q : Queue) (id : Nat) : Queue := if id ≠ 0 then q.delTimer id else q

/-- `deinit`, which destroys all timers -/
def deinit (q : Queue) : Queue :=
  { q with
    working := false
    timers := ∅
    waits := q.waits.map fun object w => dropped (q.timers[w.id]? = some object) w }

end Queue

inductive QueueAction
  | tick (elapsed : Nat)
  /-- Another module takes a number for a handle of its own. -/
  | index
  | post (call : Call)
  | timerPost (callee : Option Value) (timeout : Timeout) (params : List Value)
  | timerCancel (id : Nat)
  /-- The time of a timer has come. -/
  | expire (object : Nat)
  /-- The handler of a timer runs. -/
  | handle (object : Nat)
  /-- The next call of the strand is made. -/
  | call
  | setEnable (value : Bool)
  | deinit
  /-- The event caller is destroyed. -/
  | release
  deriving DecidableEq

def Queue.step (q : Queue) : QueueAction → Option Queue
  | .tick elapsed => some { q with now := q.now + elapsed }
  | .index => some q.nextIndex.2
  | .post call => some (q.pushCall none call)
  | .timerPost callee timeout params => some (q.timerPost callee timeout params).2
  | .timerCancel id => some (q.timerCancel id)
  | .expire object =>
      match q.waits[object]? with
      | none => none
      | some w =>
          if w.progress = .waiting ∧ w.deadline ≤ q.now then
            some { q with waits := q.waits.insert object { w with progress := .expired } }
          else none
  | .handle object =>
      match q.waits[object]? with
      | none => none
      | some w =>
          if w.progress = .waiting then none
          else some ({ q with waits := q.waits.erase object }.timerHandler object w)
  | .call =>
      match q.strand with
      | [] => none
      | p :: rest =>
          some { q with
            strand := rest
            called := if q.alive then q.called ++ [p] else q.called }
  | .setEnable value => some { q with enabled := value }
  | .deinit => some q.deinit
  | .release => some { q with alive := false }

def queueRuns : Machine Queue QueueAction where
  init := .start
  step := Queue.step

end FerroRemote.Lua.EventQueue

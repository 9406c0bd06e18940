/-
# The outputs of the logger

The logging subsystem owns an output for each name in `connections_`, and connects a
slot to the signal of the logger that has a plain pointer to the output. An output is
destroyed with its entry, and the entry disconnects the slot it has the handle of;
or by another output that takes its place, and then the handle is overwritten too,
which disconnects nothing.

All of it runs on the strand of the logger, with the records and the flushes between
the calls.
-/

import FerroRemote.Agent.LogQueue
import FerroRemote.Math.Numerals
import FerroRemote.Math.Signal

namespace FerroRemote.Agent

def stdoutName : String := "stdout"
def stdoutName2 : String := "-"
def stderrName : String := "stderr"
def syslogName : String := "syslog"

def isSyslog (path : String) : Bool := path == syslogName

def isStdout (path : String) : Bool := path == stdoutName || path == stdoutName2

def isStderr (path : String) : Bool := path == stderrName

namespace LogLevel

def toNat : LogLevel → Nat
  | zero => 0
  | error => 1
  | warning => 2
  | info => 3
  | debug => 4

/-- The table of `str2level`. -/
def levels : List (String × LogLevel) :=
  [("zer", zero), ("err", error), ("wrn", warning), ("inf", info), ("dbg", debug),
    ("zero", zero), ("error", error), ("warning", warning), ("info", info), ("debug", debug),
    ("z", zero), ("e", error), ("w", warning), ("i", info), ("d", debug),
    ("ZER", zero), ("ERR", error), ("WRN", warning), ("INF", info), ("DBG", debug),
    ("0", zero), ("1", error), ("2", warning), ("3", info), ("4", debug)]

/-- `str2level`. The text is compared as a C string, which ends before its first zero. -/
def str2level (str : List Char) (otherwise : LogLevel := info) : LogLevel :=
  (levels.lookup (String.ofList (str.takeWhile (· ≠ Char.ofNat 0)))).getD otherwise

end LogLevel

/-- What `str2logger` finds after the path. -/
structure LevelTexts where
  fromlvl : List Char := []
  tolvl : List Char := []
  deriving DecidableEq, Repr

namespace LevelTexts

/-- `to->assign`, where `to` is one of the two. -/
def assign (texts : LevelTexts) (second : Bool) (text : List Char) : LevelTexts :=
  if second then { texts with tolvl := text } else { texts with fromlvl := text }

/-- The loop of `str2logger`; `taken` is the text from `delim_pos` on. A bracket ends
the levels, and the loop goes on behind it. -/
def scan : (str taken : List Char) → (second foundInt : Bool) → LevelTexts → LevelTexts
  | [], taken, second, foundInt, texts => if foundInt then texts.assign second taken else texts
  | c :: str, taken, second, foundInt, texts =>
    if c = ']' then scan str [] true false (texts.assign second taken)
    else if c = '-' then scan str [] true foundInt (texts.assign second taken)
    else scan str (taken ++ [c]) second foundInt texts

end LevelTexts

def str2logger (str : String) : String × LevelTexts :=
  match splitLast '[' str.toList with
  | none => (str, {})
  | some (path, levels) => (String.ofList path, LevelTexts.scan levels [] false true {})

/-- The levels `add_logger` chooses; `level` is the one of the logger at the moment. -/
def LevelTexts.range (texts : LevelTexts) (level : LogLevel) : LogLevel × LogLevel :=
  if !texts.tolvl.isEmpty then
    (LogLevel.str2level texts.fromlvl .zero, LogLevel.str2level texts.tolvl)
  else if !texts.fromlvl.isEmpty then (.zero, LogLevel.str2level texts.fromlvl)
  else (.zero, level)

/-- Where an output writes to. The stream of a file that could not be opened is null. -/
inductive LogStream
  | cout
  | cerr
  | syslog
  | file (path : String) (isOpen : Bool)
  deriving DecidableEq, Repr

structure LogOutput where
  min : Nat
  max : Nat
  stream : LogStream
  deriving DecidableEq, Repr

namespace LogOutput

/-- The level of a record is in the range. -/
def takes (out : LogOutput) (inf : LogRecordInfo) : Bool := out.min ≤ inf.level ∧ inf.level ≤ out.max

def hasStream (out : LogOutput) : Bool :=
  match out.stream with
  | .file _ isOpen => isOpen
  | _ => true

end LogOutput

/-- `create_by_name`; `opens` tells whether a file at the path can be opened. -/
def createByName (path : String) (minlvl maxlvl : LogLevel) (opens : Bool) : LogOutput where
  min := minlvl.toNat
  max := maxlvl.toNat
  stream :=
    if isStdout path then .cout
    else if isStderr path then .cerr
    else if isSyslog path then .syslog
    else .file path opens

structure OutputConnection where
  connection : Nat
  output : Nat
  deriving DecidableEq, Repr

/-- What is done with an output. It is lost on one that was destroyed, and on one
without a stream. -/
inductive OutputUse
  | write (output : Nat) (call : Written)
  | flush (output : Nat)
  | lost (output : Nat)
  deriving DecidableEq, Repr

/-- `logging::impl`, with the signal of the logger. -/
structure LogOutputs where
  /-- `on_write`: the slots are bound to outputs. -/
  onWrite : Signal Nat := .silent
  /-- The outputs that exist. -/
  outputs : Table LogOutput := ∅
  /-- The number of the next output. -/
  next : Nat := 0
  /-- `connections_`. -/
  connections : Std.ExtTreeMap String OutputConnection compare := ∅
  /-- `syslog_`. -/
  syslog : Bool := false

/-- The name in `connections_` that a path is added under. -/
def connectionName (path : String) : String := if isStdout path then stdoutName else path

namespace LogOutputs

variable (s : LogOutputs)

/-- `add_logger` for a range of levels. The new output takes the place of the one the
name has, and its handle the place of the handle. -/
def addLogger (path : String) (minl maxl : LogLevel) (opens : Bool) : LogOutputs :=
  if isSyslog path && s.syslog then s
  else
    let name := connectionName path
    let (connection, signal) := s.onWrite.connect s.next
    let kept :=
      match s.connections[name]? with
      | none => s.outputs
      | some conn => s.outputs.erase conn.output
    { onWrite := signal
      outputs := kept.insert s.next (createByName path minl maxl opens)
      next := s.next + 1
      connections := s.connections.insert name { connection, output := s.next }
      syslog := s.syslog || isSyslog path }

/-- `add_logger_output`, with the level of the logger. -/
def addLoggerOutput (params : String) (level : LogLevel) (opens : Bool) : LogOutputs :=
  let (path, texts) := str2logger params
  let (minl, maxl) := texts.range level
  s.addLogger path minl maxl opens

def delLoggerOutput (name : String) : LogOutputs :=
  let s :=
    match s.connections[name]? with
    | none => s
    | some conn =>
      { s with
        onWrite := s.onWrite.disconnect (some conn.connection)
        outputs := s.outputs.erase conn.output
        connections := s.connections.erase name }
  { s with syslog := s.syslog && !isSyslog name }

/-- `log_output_slot`, which reads the levels of its output before it writes. -/
def logOutputSlot (call : Written) (out : Nat) : List OutputUse :=
  match s.outputs[out]? with
  | none => [.lost out]
  | some o =>
    if o.takes call.1 then if o.hasStream then [.write out call] else [.lost out] else []

def record (call : Written) : List OutputUse := s.onWrite.connected.flatMap (s.logOutputSlot call)

/-- The `flush` of an output. -/
def flush (out : Nat) : OutputUse :=
  match s.outputs[out]? with
  | none => .lost out
  | some o => if o.hasStream then .flush out else .lost out

def flushAll : List OutputUse := s.connections.toList.map fun entry => s.flush entry.2.output

end LogOutputs

/-- An output, with the name that was used to add it. -/
structure AddedOutput where
  name : String
  output : Nat
  min : Nat
  max : Nat
  deriving DecidableEq, Repr

/-- The outputs that were added and not deleted, nor replaced. -/
abbrev AddedOutputs := List AddedOutput

namespace AddedOutputs

variable (added : AddedOutputs)

/-- The syslog is added once. Any other output replaces the one of its name, and is
there if it can be written to. -/
def add (name : String) (number : Nat) (out : LogOutput) : AddedOutputs :=
  if isSyslog name && added.any (fun a => isSyslog a.name) then added
  else
    let others := added.filter fun a => connectionName a.name ≠ connectionName name
    if out.hasStream then others ++ [⟨name, number, out.min, out.max⟩] else others

/-- An output is deleted by the name it was added by, and by the one it has. -/
def del (name : String) : AddedOutputs :=
  added.filter fun a => a.name ≠ name ∧ connectionName a.name ≠ name

/-- The writes of a record: one to each output whose range has its level. -/
def writes (call : Written) : List OutputUse :=
  (added.filter fun a => a.min ≤ call.1.level ∧ call.1.level ≤ a.max).map fun a =>
    .write a.output call

def flushes : List OutputUse := added.map fun a => .flush a.output

end AddedOutputs

/-- What is called on the strand. A file may be opened or not each time it is tried,
and the level of the logger changes. -/
inductive LogOutputAction
  | addLoggerOutput (params : String) (level : LogLevel) (opens : Bool)
  | delLoggerOutput (name : String)
  | record (call : Written)
  | flushAll
  deriving Repr

/-- The subsystem, the outputs there should be, and what was done with outputs and
should have been. -/
structure LogOutputsRun where
  agent : LogOutputs := {}
  added : AddedOutputs := []
  used : List OutputUse := []
  due : List OutputUse := []

namespace LogOutputsRun

/-- The output that a call of `add_logger_output` makes. -/
def newOutput (params : String) (level : LogLevel) (opens : Bool) : LogOutput :=
  let range := (str2logger params).2.range level
  createByName (str2logger params).1 range.1 range.2 opens

def step (s : LogOutputsRun) : LogOutputAction → Option LogOutputsRun
  | .addLoggerOutput params level opens =>
    some { s with
      agent := s.agent.addLoggerOutput params level opens
      added := s.added.add (str2logger params).1 s.agent.next (newOutput params level opens) }
  | .delLoggerOutput name =>
    some { s with agent := s.agent.delLoggerOutput name, added := s.added.del name }
  | .record call =>
    some { s with used := s.used ++ s.agent.record call, due := s.due ++ s.added.writes call }
  | .flushAll =>
    some { s with
      used := s.used ++ s.agent.flushAll
      due := s.due ++ s.agent.flushAll.filter (· ∈ s.added.flushes) }

end LogOutputsRun

def logOutputs : Machine LogOutputsRun LogOutputAction where
  init := {}
  step := LogOutputsRun.step

end FerroRemote.Agent

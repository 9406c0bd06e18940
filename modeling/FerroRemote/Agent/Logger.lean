/-
# Log records

A record that passes the level of the logger is put into a queue together with
the moment and the level it was made at, and a `do_write` is posted for it to
the logger's strand. `do_write` takes the oldest record, splits its text where
the record asks for it, and calls the signal `on_write`.
-/

import Mathlib.Data.List.Basic

namespace FerroRemote.Agent

inductive LogLevel
  | zero
  | error
  | warning
  | info
  | debug
  deriving DecidableEq, Repr

/-- `lvl2proto`: a number that is no level is sent as `info`. -/
def lvl2proto : Nat → LogLevel
  | 0 => .zero
  | 1 => .error
  | 2 => .warning
  | 3 => .info
  | 4 => .debug
  | _ => .info

/-- `log_record_info`; the moment is given in microseconds since the epoch. -/
structure LogRecordInfo where
  level : Nat
  time : Int
  deriving DecidableEq, Repr

/-- `queue_element_info`. -/
structure QueueElement where
  info : LogRecordInfo
  data : String
  split : Bool
  deriving DecidableEq, Repr

/-- `boost::split( all, data, is_any_of( split_string ) )`. -/
def splitAny (splitString data : String) : List String :=
  (data.toList.splitOnP fun c => splitString.toList.contains c).map String.ofList

/-- What `do_write` calls the signal with, besides the info. -/
def loggerData (splitString : String) (e : QueueElement) : List String :=
  if e.split then splitAny splitString e.data else [e.data]

end FerroRemote.Agent

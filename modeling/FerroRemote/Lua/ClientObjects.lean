/-
# Objects of the Lua client

The modules `fs`, `gpio` and `logger` keep the objects of the scripts in maps from handles.
A script has full userdata with a handle in them, which it passes to `close` and
`subscribe`, and which the collector passes to `__gc`. A function makes one call of the
client-core at most; what that call answers is given with the call of the function, and so
is the address of the full userdata that the function may allocate.
-/

import FerroRemote.Lua.Library
import FerroRemote.Math.Table
import FerroRemote.Math.Machine

namespace FerroRemote.Lua

/-- `file_meta` and `iter_meta` of `fs`, and `meta_name` of `gpio` and of `logger` -/
inductive MetaName
  | file
  | iterator
  | gpio
  | logger
  deriving DecidableEq, Repr

/-- A full userdata of the client: its metatable, and the handle in its `meta_object`. The
null handle is zero. -/
structure MetaObject where
  name : MetaName
  hdl : Nat
  deriving DecidableEq, Repr

/-- How a function of a module ends: with results, or with an exception that leaves it. -/
inductive Answer
  | returned (values : List Value)
  | thrown (what : String)
  deriving DecidableEq, Repr

/-- The two results of a function that reports an error -/
def report (first : Value) (what : Text) : Answer := .returned [first, .string what]

structure EventInfo where
  callObject : Value
  parameters : List Value
  deriving DecidableEq, Repr

/-- `event_container`: `none` is a name without an entry, `some none` an entry without a
handler. -/
structure EventContainer where
  eventMap : Text → Option (Option EventInfo)

/-- `subscribe_info`, with the values that are pushed for `result_` -/
structure SubscribeInfo where
  failed : Bool
  result : List Value
  name : Text
  call : Option Value

namespace EventContainer

/-- The constructor: an entry for each name, without a handler -/
def ofNames (names : List Text) : EventContainer where
  eventMap name := if name ∈ names then some none else none

/-- `finfo->second = par` -/
def put (e : EventContainer) (name : Text) (par : Option EventInfo) : EventContainer where
  eventMap := Function.update e.eventMap name (some par)

end EventContainer

/-- `get_opt< std::string >` of an argument, where `numberText` is the text that Lua gives
to a number -/
def optString (numberText : LuaNumber → Text) : Option Value → Text
  | some (.string bytes) => bytes
  | some (.number n) => numberText n
  | _ => []

/-- What `subscribe` makes of the arguments behind the event name -/
def handlerOf (args : List Value) (shift : Nat) : Option EventInfo :=
  args[1 + shift]?.map fun call => ⟨call, args.drop (2 + shift)⟩

/-- `"Invalid event name '" + name + "'."` -/
def invalidName (name : Text) : Text :=
  "Invalid event name '".toList ++ name ++ "'.".toList

def EventContainer.subscribe (numberText : LuaNumber → Text) (e : EventContainer)
    (args : List Value) (shift : Nat) : SubscribeInfo × EventContainer :=
  let name := optString numberText args[shift]?
  let call := args[1 + shift]?
  match e.eventMap name with
  | none => (⟨true, [.boolean false, .string (invalidName name)], name, call⟩, e)
  | some _ => (⟨false, [.boolean true], name, call⟩, e.put name (handlerOf args shift))

/-- An object of the client-core, by whether it is registered for its events -/
structure CoreObject where
  registered : Bool
  deriving DecidableEq, Repr

/-- `module` of `fs`. Where an iterator stands plays no part here. -/
structure FsModule where
  iterators : Table Unit
  files : Table CoreObject
  fileEvents : Table EventContainer

structure GpioModule where
  devs : Table CoreObject
  events : Table EventContainer

structure LoggerModule where
  loggers : Table CoreObject
  events : Table EventContainer

/-- `index` is the next result of `next_index`. -/
structure LuaClient where
  index : Nat
  userdata : Table MetaObject
  fs : FsModule
  gpio : GpioModule
  logger : LoggerModule

/-- The events of a file, of which the client-core feeds the first -/
def fileEventNames : List Text := ["on_pollin".toList, "on_read".toList]

def gpioEventNames : List Text := ["on_changed".toList]

def loggerEventNames : List Text := ["on_write".toList]

def FsModule.close (fs : FsModule) (id : Nat) : FsModule :=
  if id ∈ fs.files then
    { fs with files := fs.files.erase id, fileEvents := fs.fileEvents.erase id }
  else if id ∈ fs.iterators then { fs with iterators := fs.iterators.erase id }
  else fs

/-- What remains of an object behind a call on it -/
def putObject (objects : Table CoreObject) (hdl : Nat) : Option CoreObject → Table CoreObject
  | some o => objects.insert hdl o
  | none => objects

/-- What `lcall_file_subscribe` does behind `subscribe`, in `fs` and in `gpio`: the event
that the client-core feeds is registered or unregistered. A device that is not there
throws in `get_dev_info`. Only what the registration throws is caught. -/
def follow (watched : Text) (si : SubscribeInfo) (object : Option CoreObject)
    (reply : Except String Unit) : Answer × Option CoreObject :=
  if si.name = watched then
    match object with
    | none => (.thrown "Bad handle value.", none)
    | some o =>
      match si.call, reply with
      | some _, .ok _ => (.returned si.result, some ⟨true⟩)
      | some _, .error what => (report .nil what.toList, some o)
      | none, .ok _ => (.returned si.result, some ⟨false⟩)
      | none, .error what => (.thrown what, some o)
  else (.returned si.result, object)

namespace LuaClient

/-- `luaL_testudata`: the address of a full userdata with the metatable -/
def testudata (c : LuaClient) (arg : Option Value) (name : MetaName) : Option Nat :=
  match arg with
  | some (.userdata ud) => if c.userdata[ud]?.map MetaObject.name = some name then some ud else none
  | _ => none

/-- `get_meta_object`, `get_object_hdl`: null when the argument has another metatable -/
def getMetaObject (c : LuaClient) (arg : Option Value) (name : MetaName) : Nat :=
  ((c.testudata arg name).bind fun ud => c.userdata[ud]?.map MetaObject.hdl).getD 0

/-- `push_object`: a new full userdata with a handle in it -/
def pushObject (c : LuaClient) (address : Nat) (hdl : Nat) (name : MetaName) :
    Answer × LuaClient :=
  (.returned [.userdata address], { c with userdata := c.userdata.insert address ⟨name, hdl⟩ })

/-- `new_file`: a handle, or what the client-core throws -/
def newFile (c : LuaClient) : Except String Unit → Except String Nat × LuaClient
  | .error what => (.error what, { c with index := c.index + 1 })
  | .ok _ =>
    (.ok c.index,
      { c with
        index := c.index + 1
        fs := { c.fs with
          files := c.fs.files.insert c.index ⟨false⟩
          fileEvents := c.fs.fileEvents.insert c.index (.ofNames fileEventNames) } })

def newFsIter (c : LuaClient) : Except String Unit → Except String Nat × LuaClient
  | .error what => (.error what, { c with index := c.index + 1 })
  | .ok _ =>
    (.ok c.index,
      { c with
        index := c.index + 1
        fs := { c.fs with iterators := c.fs.iterators.insert c.index () } })

/-- `clone_fs_iter`: a new handle, or null -/
def cloneFsIter (c : LuaClient) (hdl : Nat) (reply : Except String Unit) :
    Except String Nat × LuaClient :=
  if hdl ∈ c.fs.iterators then c.newFsIter reply else (.ok 0, c)

/-- `new_dev`, where the arguments of `export` go to the client-core -/
def newDev (c : LuaClient) : Except String Unit → Except String Nat × LuaClient
  | .error what => (.error what, { c with index := c.index + 1 })
  | .ok _ =>
    (.ok c.index,
      { c with
        index := c.index + 1
        gpio := ⟨c.gpio.devs.insert c.index ⟨false⟩,
          c.gpio.events.insert c.index (.ofNames gpioEventNames)⟩ })

/-- `try { m->push_object( L, m->new_..., meta ); } catch( ... )` -/
def pushNew (opened : Except String Nat × LuaClient) (address : Nat) (name : MetaName) :
    Answer × LuaClient :=
  match opened.1 with
  | .ok hdl => opened.2.pushObject address hdl name
  | .error what => (report .nil what.toList, opened.2)

variable (numberText : LuaNumber → Text)

/-- A second argument that is no string and no number opens nothing: the object has a null
handle. -/
def lcallFileOpen (c : LuaClient) (args : List Value) (reply : Except String Unit)
    (address : Nat) : Answer × LuaClient :=
  if optString numberText args[0]? = [] then (report .nil "Bad path.".toList, c)
  else
    match args[1]?.map Value.type with
    | none | some .string | some .number => pushNew (c.newFile reply) address .file
    | _ => c.pushObject address 0 .file

def lcallFsIterBegin (c : LuaClient) (reply : Except String Unit) (address : Nat) :
    Answer × LuaClient :=
  pushNew (c.newFsIter reply) address .iterator

/-- The handle of the clone is pushed as it is, a light userdata. -/
def lcallFsIterClone (c : LuaClient) (args : List Value) (reply : Except String Unit) :
    Answer × LuaClient :=
  let h := c.getMetaObject args[0]? .iterator
  if h = 0 then (report .nil "Bad handle.".toList, c)
  else
    match c.cloneFsIter h reply with
    | (.ok hdl, c) => (.returned [.lightuserdata hdl], c)
    | (.error what, c) => (report .nil what.toList, c)

def lcallExport (c : LuaClient) (reply : Except String Unit) (address : Nat) :
    Answer × LuaClient :=
  pushNew (c.newDev reply) address .gpio

/-- `add_object`: the handle is taken when the client-core has made the logger. -/
def lcallAddLogger (c : LuaClient) (reply : Except String Unit) (address : Nat) :
    Answer × LuaClient :=
  match reply with
  | .error what => (report .nil what.toList, c)
  | .ok _ =>
    { c with
      index := c.index + 1
      logger := ⟨c.logger.loggers.insert c.index ⟨false⟩,
        c.logger.events.insert c.index (.ofNames loggerEventNames)⟩ }.pushObject
      address c.index .logger

/-- What `fs::lcall_close` closes for an argument that is not a file: the iterator of the
first argument -/
def closeArgument (c : LuaClient) (first : Option Value) (fs : FsModule) (arg : Value) :
    FsModule :=
  let fhdl := c.getMetaObject (some arg) .file
  if fhdl = 0 then fs.close (c.getMetaObject first .iterator) else fs.close fhdl

/-- `fs::lcall_close`, for any number of arguments -/
def lcallFsClose (c : LuaClient) (args : List Value) : Answer × LuaClient :=
  (.returned [.boolean true], { c with fs := args.foldl (c.closeArgument args[0]?) c.fs })

/-- `gpio::lcall_close` -/
def lcallGpioClose (c : LuaClient) (args : List Value) : Answer × LuaClient :=
  (.returned [.boolean true],
    { c with
      gpio := { c.gpio with devs := c.gpio.devs.erase (c.getMetaObject args[0]? .gpio) } })

/-- `close_object` erases the address of the userdata. -/
def lcallLoggerClose (c : LuaClient) (args : List Value) : Answer × LuaClient :=
  match c.testudata args[0]? .logger with
  | some ud =>
    (.returned [.boolean true],
      { c with logger := ⟨c.logger.loggers.erase ud, c.logger.events.erase ud⟩ })
  | none => (.returned [.boolean true], c)

def lcallFileSubscribe (c : LuaClient) (args : List Value) (reply : Except String Unit) :
    Answer × LuaClient :=
  let h := c.getMetaObject args[0]? .file
  match c.fs.fileEvents[h]?, c.fs.files[h]? with
  | some e, some f =>
    let (si, e) := e.subscribe numberText args 1
    let (answer, f) := follow "on_pollin".toList si (some f) reply
    (answer,
      { c with
        fs := { c.fs with
          files := putObject c.fs.files h f
          fileEvents := c.fs.fileEvents.insert h e } })
  | _, _ => (report .nil "Bad handle.".toList, c)

/-- `gpio::lcall_file_subscribe` looks for the device behind `subscribe`. -/
def lcallGpioSubscribe (c : LuaClient) (args : List Value) (reply : Except String Unit) :
    Answer × LuaClient :=
  let h := c.getMetaObject args[0]? .gpio
  match c.gpio.events[h]? with
  | some e =>
    let (si, e) := e.subscribe numberText args 1
    let (answer, dev) := follow "on_changed".toList si c.gpio.devs[h]? reply
    (answer,
      { c with gpio := ⟨putObject c.gpio.devs h dev, c.gpio.events.insert h e⟩ })
  | none => (report .nil "Bad handle.".toList, c)

/-- `logger::lcall_subscribe` catches what `unsubscribe` throws. -/
def lcallLoggerSubscribe (c : LuaClient) (args : List Value) (reply : Except String Unit) :
    Answer × LuaClient :=
  match c.testudata args[0]? .logger with
  | none => (report .nil "Bad logger.".toList, c)
  | some _ =>
    let h := c.getMetaObject args[0]? .logger
    match c.logger.events[h]?, c.logger.loggers[h]? with
    | some e, some lgr =>
      let (si, e) := e.subscribe numberText args 1
      let (answer, lgr) := follow "on_write".toList si (some lgr) reply
      let c := { c with logger := ⟨putObject c.logger.loggers h lgr, c.logger.events.insert h e⟩ }
      match answer with
      | .returned values => (.returned values, c)
      | .thrown what => (report .nil what.toList, c)
    | _, _ => (report .nil "Bad logger.".toList, c)

end LuaClient

/-- The functions that the modules give to the scripts -/
inductive LuaFunction
  | fileOpen
  | fsIterBegin
  | fsIterClone
  | fsClose
  | fileSubscribe
  | gpioExport
  | gpioClose
  | gpioSubscribe
  | addLogger
  | loggerClose
  | loggerSubscribe
  deriving DecidableEq, Repr

/-- A script calls a function, or the collector takes the full userdata at an address. -/
inductive LuaAction
  | call (function : LuaFunction) (args : List Value) (reply : Except String Unit)
    (address : Nat)
  | collect (address : Nat)

/-- The function that closes: `close`, and `__gc` in the metatable -/
def MetaName.closing : MetaName → LuaFunction
  | .file | .iterator => .fsClose
  | .gpio => .gpioClose
  | .logger => .loggerClose

namespace LuaClient

variable (numberText : LuaNumber → Text)

def call (c : LuaClient) (args : List Value) (reply : Except String Unit) (address : Nat) :
    LuaFunction → Answer × LuaClient
  | .fileOpen => c.lcallFileOpen numberText args reply address
  | .fsIterBegin => c.lcallFsIterBegin reply address
  | .fsIterClone => c.lcallFsIterClone args reply
  | .fsClose => c.lcallFsClose args
  | .fileSubscribe => c.lcallFileSubscribe numberText args reply
  | .gpioExport => c.lcallExport reply address
  | .gpioClose => c.lcallGpioClose args
  | .gpioSubscribe => c.lcallGpioSubscribe numberText args reply
  | .addLogger => c.lcallAddLogger reply address
  | .loggerClose => c.lcallLoggerClose args
  | .loggerSubscribe => c.lcallLoggerSubscribe numberText args reply

/-- What the collector calls for a full userdata, which is gone afterwards -/
def gc (c : LuaClient) (address : Nat) (m : MetaObject) : Answer × LuaClient :=
  let out := c.call numberText [.userdata address] (.ok ()) 0 m.name.closing
  (out.1, { out.2 with userdata := out.2.userdata.erase address })

/-- How an action ends, when it can happen: a new userdata is at an address that is free,
and is collected once. -/
def perform (c : LuaClient) : LuaAction → Option (Answer × LuaClient)
  | .call function args reply address =>
    if address ≠ 0 ∧ address ∉ c.userdata then
      some (c.call numberText args reply address function)
    else none
  | .collect address => c.userdata[address]?.map (c.gc numberText address)

/-- `index_` starts at 100. -/
def init : LuaClient := ⟨100, ∅, ⟨∅, ∅, ∅⟩, ⟨∅, ∅⟩, ⟨∅, ∅⟩⟩

end LuaClient

/-- Runs of scripts and of the collector -/
def luaRuns (numberText : LuaNumber → Text) : Machine LuaClient LuaAction where
  init := .init
  step c a := (c.perform numberText a).map Prod.snd

end FerroRemote.Lua

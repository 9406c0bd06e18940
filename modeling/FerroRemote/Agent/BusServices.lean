/-
# The i2c and spi services of the agent

Instances of these services count their handles themselves, in 32 bits and from
100 on. The i2c service inserts into a map, which keeps what is there; the spi
service stores through an `index_map`, which replaces it.
-/

import FerroRemote.Agent.Services

namespace FerroRemote.Agent

/-- An `index_map` with 32-bit indexes. -/
structure IndexMap (V : Type) where
  /-- `map_`. -/
  map : Table V := ∅
  /-- `id_`. -/
  id : Nat := 0

namespace IndexMap

variable {V : Type}

def nextId (m : IndexMap V) : Nat := (m.id + 1) % UInt32.size

def set (m : IndexMap V) (value : V) : Nat × IndexMap V :=
  (m.nextId, { map := m.map.insert m.nextId value, id := m.nextId })

def del (m : IndexMap V) (id : Nat) : IndexMap V := { m with map := m.map.erase id }

end IndexMap

/-- An `i2c_helper`. -/
structure I2cHelper where
  id : Nat
  bus : Nat

/-- An `i2c_inst_impl`. -/
structure I2cInstance where
  /-- `devices_`. -/
  devices : Table I2cHelper := ∅
  /-- `index_`. -/
  index : Nat := 100

namespace I2cInstance

def nextIndex (i2c : I2cInstance) : Nat := (i2c.index + 1) % UInt32.size

/-- `i2c_inst_impl::open`; `made` is the exception of the helper's constructor or
of setting its address. -/
def i2cOpen (i2c : I2cInstance) (s : AgentState) (bus : Nat) (made : Option Error) :
    Except Error Nat × AgentState × I2cInstance :=
  let nextHdl := i2c.nextIndex
  match made with
  | some err => (.error err, s, { i2c with index := nextHdl })
  | none =>
    (.ok nextHdl, { s with born := s.born + 1 },
      { devices := i2c.devices.insertIfNew nextHdl ⟨s.born, bus⟩, index := nextHdl })

/-- `i2c_inst_impl::close`. -/
def i2cClose (i2c : I2cInstance) (hdl : Nat) : I2cInstance :=
  { i2c with devices := i2c.devices.erase hdl }

end I2cInstance

/-- A `spi_info` with the helper it holds. -/
structure SpiInfo where
  id : Nat
  bus : Nat
  channel : Nat
  /-- `speed_`. -/
  speed : Nat := 0

/-- `proto_impl::open`; `made` is the exception of the helper's constructor or of
its `setup`. -/
def spiOpen (files : IndexMap SpiInfo) (s : AgentState) (bus channel : Nat) (made : Option Error) :
    Except Error Nat × AgentState × IndexMap SpiInfo :=
  match made with
  | some err => (.error err, s, files)
  | none =>
    let (hdl, files) := files.set ⟨s.born, bus, channel, 0⟩
    (.ok hdl, { s with born := s.born + 1 }, files)

/-- The table of a new instance. -/
def spiFiles : IndexMap SpiInfo where
  id := 100

end FerroRemote.Agent

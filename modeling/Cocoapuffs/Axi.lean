import Cocoapuffs.Wishbone

/-!
# The AXI bus

The host and peripheral halves of the bus, the beats that are handed over on its
five channels, and what is assumed of a slave.  One instant is one rising edge of
the clock.
-/

namespace Cocoapuffs

namespace Axi

/-- `axi.host.aw_type`. -/
structure AwType where
  valid : Bool
  addr : BitVec 32
  id : BitVec 4
  len : BitVec 8
  burst : BitVec 2
deriving DecidableEq

/-- `axi.host.w_type`. -/
structure WType where
  valid : Bool
  data : BitVec 32
  strb : BitVec 4
  last : Bool
deriving DecidableEq

/-- `axi.host.ar_type`. -/
structure ArType where
  valid : Bool
  addr : BitVec 32
  id : BitVec 4
  len : BitVec 8
  burst : BitVec 2
deriving DecidableEq

/-- `axi.host.b_type` and `axi.host.r_type`. -/
structure ReadyType where
  ready : Bool
deriving DecidableEq

/-- `axi.host.bus_type`. -/
structure HostBus where
  aw : AwType
  w : WType
  b : ReadyType
  ar : ArType
  r : ReadyType
deriving DecidableEq

/-- `axi.host.new_bus_type`; its payload is unknown. -/
def HostBus.new : HostBus :=
  ⟨⟨false, 0, 0, 0, 0⟩, ⟨false, 0, 0, false⟩, ⟨false⟩, ⟨false, 0, 0, 0, 0⟩, ⟨false⟩⟩

/-- `axi.per.b_type`, as far as it is read. -/
structure BType where
  valid : Bool
deriving DecidableEq

/-- `axi.per.r_type`, as far as it is read. -/
structure RType where
  valid : Bool
  data : BitVec 32
deriving DecidableEq

/-- `axi.per.bus_type`. -/
structure PerBus where
  aw : ReadyType
  w : ReadyType
  b : BType
  ar : ReadyType
  r : RType
deriving DecidableEq

section Lists

variable (host : Nat → HostBus) (per : Nat → PerBus)

/-- The handshakes of the write address channel. -/
def awBeats : Nat → List (BitVec 32) :=
  Trace.history fun n =>
    if (host n).aw.valid && (per n).aw.ready then some (host n).aw.addr else none

/-- The handshakes of the write data channel. -/
def wBeats : Nat → List (BitVec 32 × BitVec 4) :=
  Trace.history fun n =>
    if (host n).w.valid && (per n).w.ready then some ((host n).w.data, (host n).w.strb) else none

/-- The handshakes of the write response channel. -/
def bBeats : Nat → List Unit :=
  Trace.history fun n => if (per n).b.valid && (host n).b.ready then some () else none

/-- The handshakes of the read address channel. -/
def arBeats : Nat → List (BitVec 32) :=
  Trace.history fun n =>
    if (host n).ar.valid && (per n).ar.ready then some (host n).ar.addr else none

/-- The handshakes of the read data channel. -/
def rBeats : Nat → List (BitVec 32) :=
  Trace.history fun n =>
    if (per n).r.valid && (host n).r.ready then some (per n).r.data else none

/-- A slave that takes what stays valid, and answers each address once, after it
and its data have been taken. -/
structure Slave : Prop where
  awReady : Trace.LeadsTo (fun n => (host n).aw.valid = true)
    fun n => (host n).aw.valid = true → (per n).aw.ready = true
  wReady : Trace.LeadsTo (fun n => (host n).w.valid = true)
    fun n => (host n).w.valid = true → (per n).w.ready = true
  arReady : Trace.LeadsTo (fun n => (host n).ar.valid = true)
    fun n => (host n).ar.valid = true → (per n).ar.ready = true
  b_after : ∀ n, (per n).b.valid = true →
    (bBeats host per n).length < (awBeats host per n).length ∧
      (bBeats host per n).length < (wBeats host per n).length
  b_held : ∀ n, (per n).b.valid = true → (host n).b.ready = false →
    (per (n + 1)).b.valid = true
  b_answers : Trace.LeadsTo
    (fun n => (bBeats host per n).length < (awBeats host per n).length ∧
      (bBeats host per n).length < (wBeats host per n).length)
    fun n => (per n).b.valid = true
  r_after : ∀ n, (per n).r.valid = true →
    (rBeats host per n).length < (arBeats host per n).length
  r_held : ∀ n, (per n).r.valid = true → (host n).r.ready = false →
    (per (n + 1)).r = (per n).r
  r_answers : Trace.LeadsTo
    (fun n => (rBeats host per n).length < (arBeats host per n).length)
    fun n => (per n).r.valid = true

end Lists

end Axi

end Cocoapuffs

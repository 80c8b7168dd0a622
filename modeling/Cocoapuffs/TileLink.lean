import Cocoapuffs.Wishbone

/-!
# TileLink channels

The records of `tl.types` and its opcodes, as far as the converters read or
drive them.
-/

namespace Cocoapuffs

namespace TileLink

abbrev opPutFullData : BitVec 3 := 0b000
abbrev opPutPartialData : BitVec 3 := 0b001
abbrev opArithmeticData : BitVec 3 := 0b010
abbrev opLogicalData : BitVec 3 := 0b011
abbrev opGet : BitVec 3 := 0b100
abbrev opIntent : BitVec 3 := 0b101
abbrev opAcquireBlock : BitVec 3 := 0b110
abbrev opAcquirePerm : BitVec 3 := 0b111

abbrev paramArithMin : BitVec 3 := 0b000
abbrev paramArithMax : BitVec 3 := 0b001
abbrev paramArithMinu : BitVec 3 := 0b010
abbrev paramArithMaxu : BitVec 3 := 0b011
abbrev paramArithAdd : BitVec 3 := 0b100

abbrev paramLogicXor : BitVec 3 := 0b000
abbrev paramLogicOr : BitVec 3 := 0b001
abbrev paramLogicAnd : BitVec 3 := 0b010
abbrev paramLogicSwap : BitVec 3 := 0b011

abbrev opAccessAck : BitVec 3 := 0b000
abbrev opAccessAckData : BitVec 3 := 0b001
abbrev opGrant : BitVec 3 := 0b100
abbrev opGrantData : BitVec 3 := 0b101

/-- `a_type`: one beat of the request channel. -/
structure AType where
  opcode : BitVec 3
  param : BitVec 3
  size : BitVec 3
  source : BitVec 8
  address : BitVec 32
  mask : BitVec 4
  data : BitVec 32
  corrupt : Bool
  valid : Bool
deriving DecidableEq

def AType.new : AType := ⟨0, 0, 0, 0, 0, 0, 0, false, false⟩

/-- `d_type`: one beat of the response channel. -/
structure DType where
  opcode : BitVec 3
  param : BitVec 3
  size : BitVec 3
  source : BitVec 8
  sink : BitVec 8
  data : BitVec 32
  corrupt : Bool
  valid : Bool
deriving DecidableEq

def DType.new : DType := ⟨0, 0, 0, 0, 0, 0, false, false⟩

/-- `b_type`: the probe channel, never driven. -/
structure BType where
  opcode : BitVec 3
  param : BitVec 3
  size : BitVec 3
  source : BitVec 8
  address : BitVec 32
  mask : BitVec 4
  data : BitVec 32
  corrupt : Bool
  valid : Bool
deriving DecidableEq

def BType.new : BType := ⟨0, 0, 0, 0, 0, 0, 0, false, false⟩

/-- `c_type`: the release channel. -/
structure CType where
  opcode : BitVec 3
  param : BitVec 3
  size : BitVec 3
  source : BitVec 8
  address : BitVec 32
  data : BitVec 32
  corrupt : Bool
  valid : Bool
deriving DecidableEq

def CType.new : CType := ⟨0, 0, 0, 0, 0, 0, false, false⟩

/-- `e_type`: the grant acknowledge channel. -/
structure EType where
  sink : BitVec 8
  valid : Bool
deriving DecidableEq

def EType.new : EType := ⟨0, false⟩

/-- `host_type`: what an uncached master drives. -/
structure HostType where
  a : AType
  dReady : Bool
deriving DecidableEq

/-- `per_type`: what an uncached slave drives. -/
structure PerType where
  aReady : Bool
  d : DType
deriving DecidableEq

def PerType.new : PerType := ⟨false, DType.new⟩

/-- `host_type_c`: what a cached master drives. -/
structure HostTypeC where
  a : AType
  c : CType
  e : EType
  bReady : Bool
  dReady : Bool
deriving DecidableEq

def isPut (opcode : BitVec 3) : Bool :=
  opcode == opPutFullData || opcode == opPutPartialData

def isAtomic (opcode : BitVec 3) : Bool :=
  opcode == opArithmeticData || opcode == opLogicalData

end TileLink

end Cocoapuffs

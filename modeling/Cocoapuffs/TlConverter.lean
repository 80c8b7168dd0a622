import Cocoapuffs.TileLink

/-!
# The TileLink to Wishbone converters

The entities `tl_uh2wblite` and `tl_c2wblite` are two copies of one state
machine.  They differ in the opcodes that are read from the bus with a rolling
address, in an opcode answered without a bus access, and in the opcode and data
of the response; `Profile` holds these differences.
-/

namespace Cocoapuffs

namespace TlConverter

open TileLink

/-- What distinguishes the two converters. -/
structure Profile where
  /-- Opcodes answered by reads at `get_address`. -/
  isRead : BitVec 3 → Bool
  /-- Opcodes answered without a bus access. -/
  isPerm : BitVec 3 → Bool
  respOpcode : BitVec 3 → BitVec 3
  /-- Does the response carry `saved_wb_dat`? -/
  respData : BitVec 3 → Bool
  put_apart : ∀ opcode, isPut opcode = true →
    isRead opcode = false ∧ isPerm opcode = false ∧ respData opcode = false
  atomic_apart : ∀ opcode, isAtomic opcode = true →
    isRead opcode = false ∧ isPerm opcode = false ∧ respData opcode = true
  read_apart : ∀ opcode, isRead opcode = true →
    isPerm opcode = false ∧ respData opcode = true

/-- The profile of `tl_uh2wblite`. -/
def uhProfile : Profile where
  isRead opcode := opcode == opGet
  isPerm _ := false
  respOpcode opcode :=
    if opcode == opGet || opcode == opArithmeticData || opcode == opLogicalData
    then opAccessAckData else opAccessAck
  respData opcode :=
    opcode == opGet || opcode == opArithmeticData || opcode == opLogicalData
  put_apart := by decide
  atomic_apart := by decide
  read_apart := by decide

/-- The profile of `tl_c2wblite`. -/
def cProfile : Profile where
  isRead opcode := opcode == opGet || opcode == opAcquireBlock
  isPerm opcode := opcode == opAcquirePerm
  respOpcode opcode :=
    if opcode == opAcquireBlock then opGrantData
    else if opcode == opAcquirePerm then opGrant
    else if opcode == opGet || opcode == opArithmeticData || opcode == opLogicalData
    then opAccessAckData else opAccessAck
  respData opcode :=
    opcode == opAcquireBlock || opcode == opGet ||
      opcode == opArithmeticData || opcode == opLogicalData
  put_apart := by decide
  atomic_apart := by decide
  read_apart := by decide

/-- `state_t`. -/
inductive Phase where
  | idle
  | aWait
  | wbRdWait
  | alu
  | wbWrWait
  | tlResp
deriving DecidableEq

/-- The signals common to the two architectures. -/
structure Core where
  state : Phase
  savedA : AType
  savedWbDat : BitVec 32
  beatCount : BitVec 8
  getAddress : BitVec 32
  aReady : Bool
  d : DType
  wbO : HostBus
deriving DecidableEq

/-- The ports that the common state machine reads at one instant; `clk` says
whether the clock rises. -/
structure Inputs where
  clk : Bool
  rst : Bool
  a : AType
  dReady : Bool
  wbI : PerBus
deriving DecidableEq

def maskedValue (val : BitVec 32) (sel : BitVec 4) : BitVec 32 :=
  val &&& laneMask sel

def getTotalBeats (size : BitVec 3) : BitVec 8 :=
  if size.toNat ≤ 2 then 1 else 1#8 <<< (size.toNat - 2)

/-- The combinational process that drives `alu_res`. -/
def aluRes (savedA : AType) (savedWbDat : BitVec 32) : BitVec 32 :=
  if savedA.opcode == opArithmeticData then
    if savedA.param == paramArithMin then
      if savedWbDat.slt savedA.data then savedWbDat else savedA.data
    else if savedA.param == paramArithMax then
      if savedA.data.slt savedWbDat then savedWbDat else savedA.data
    else if savedA.param == paramArithMinu then
      if savedWbDat.ult savedA.data then savedWbDat else savedA.data
    else if savedA.param == paramArithMaxu then
      if savedA.data.ult savedWbDat then savedWbDat else savedA.data
    else if savedA.param == paramArithAdd then savedWbDat + savedA.data
    else savedA.data
  else if savedA.opcode == opLogicalData then
    if savedA.param == paramLogicXor then savedWbDat ^^^ savedA.data
    else if savedA.param == paramLogicOr then savedWbDat ||| savedA.data
    else if savedA.param == paramLogicAnd then savedWbDat &&& savedA.data
    else if savedA.param == paramLogicSwap then savedA.data
    else savedA.data
  else savedA.data

namespace Core

/-- The reset branch; the data registers keep what they hold. -/
def reset (s : Core) : Core :=
  { s with
    state := .idle
    aReady := false
    d := DType.new
    wbO := HostBus.new
    beatCount := 0 }

/-- `IDLE`. -/
def idleEdge (p : Profile) (i : Inputs) (s v : Core) : Core :=
  if i.a.valid && s.aReady then
    let v := { v with
      aReady := false
      savedA := i.a
      beatCount := getTotalBeats i.a.size }
    if p.isRead i.a.opcode then
      { v with getAddress := i.a.address, state := .wbRdWait }
    else if p.isPerm i.a.opcode then { v with state := .tlResp }
    else if isAtomic i.a.opcode then { v with state := .wbRdWait }
    else { v with state := .wbWrWait }
  else { v with aReady := true }

/-- `A_WAIT`. -/
def aWaitEdge (i : Inputs) (s v : Core) : Core :=
  if i.a.valid && s.aReady then
    let v := { v with aReady := false, savedA := i.a }
    if isAtomic i.a.opcode then { v with state := .wbRdWait }
    else { v with state := .wbWrWait }
  else { v with aReady := true }

/-- `WB_RD_WAIT`. -/
def wbRdWaitEdge (p : Profile) (i : Inputs) (s v : Core) : Core :=
  let v := { v with
    wbO.adr := if p.isRead s.savedA.opcode then s.getAddress else s.savedA.address
    wbO.we := false
    wbO.sel := 0b1111 }
  if i.wbI.ack then
    { v with
      savedWbDat := i.wbI.rdt
      state := if p.isRead s.savedA.opcode then .tlResp else .alu }
  else { v with wbO.cyc := true }

/-- `WB_WR_WAIT`. -/
def wbWrWaitEdge (i : Inputs) (s v : Core) : Core :=
  let v :=
    if isAtomic s.savedA.opcode then
      { v with
        wbO.adr := s.savedA.address
        wbO.we := true
        wbO.sel := s.savedA.mask
        wbO.dat := (s.savedWbDat &&& ~~~maskedValue 0xffffffff s.savedA.mask) |||
          maskedValue (aluRes s.savedA s.savedWbDat) s.savedA.mask }
    else
      { v with
        wbO.adr := s.savedA.address
        wbO.we := isPut s.savedA.opcode
        wbO.sel := s.savedA.mask
        wbO.dat := s.savedA.data }
  if i.wbI.ack then
    let v := if isAtomic s.savedA.opcode then v else { v with savedWbDat := i.wbI.rdt }
    if isPut s.savedA.opcode then
      if 1 < s.beatCount then
        { v with beatCount := s.beatCount - 1, state := .aWait }
      else { v with state := .tlResp }
    else { v with state := .tlResp }
  else { v with wbO.cyc := true }

/-- `TL_RESP`. -/
def tlRespEdge (p : Profile) (i : Inputs) (s v : Core) : Core :=
  let v := { v with
    d.valid := true
    d.opcode := p.respOpcode s.savedA.opcode
    d.data := if p.respData s.savedA.opcode then s.savedWbDat else 0
    d.size := s.savedA.size
    d.source := s.savedA.source
    d.sink := 0
    d.corrupt := false }
  if i.dReady then
    if isPut s.savedA.opcode then { v with state := .idle }
    else if 1 < s.beatCount then
      let v := { v with beatCount := s.beatCount - 1 }
      if p.isRead s.savedA.opcode then
        { v with getAddress := s.getAddress + 4, state := .wbRdWait }
      else { v with state := .aWait }
    else { v with state := .idle }
  else v

/-- The clocked process on a rising edge out of reset. -/
def edge (p : Profile) (i : Inputs) (s : Core) : Core :=
  -- Default assignments
  let v := { s with wbO.cyc := false, aReady := false, d.valid := false }
  match s.state with
  | .idle => idleEdge p i s v
  | .aWait => aWaitEdge i s v
  | .wbRdWait => wbRdWaitEdge p i s v
  | .alu => { v with state := .wbWrWait }
  | .wbWrWait => wbWrWaitEdge i s v
  | .tlResp => tlRespEdge p i s v

/-- One instant. -/
def step (p : Profile) (i : Inputs) (s : Core) : Core :=
  if i.clk then
    if i.rst then s.reset else s.edge p i
  else s

end Core

end TlConverter

namespace TlUh2wblite

open TileLink TlConverter

abbrev State := Core

structure Inputs where
  clk : Bool
  rst : Bool
  tlI : HostType
  wbI : PerBus
deriving DecidableEq

def Inputs.core (i : Inputs) : TlConverter.Inputs :=
  ⟨i.clk, i.rst, i.tlI.a, i.tlI.dReady, i.wbI⟩

/-- The entity `tl_uh2wblite`. -/
def step (i : Inputs) (s : State) : State := Core.step uhProfile i.core s

end TlUh2wblite

namespace TlC2wblite

open TileLink TlConverter

/-- `tl_c2wblite` adds the ports of the C, E and B channels. -/
structure State where
  core : Core
  b : BType
  cReady : Bool
  eReady : Bool
deriving DecidableEq

structure Inputs where
  clk : Bool
  rst : Bool
  tlI : HostTypeC
  wbI : PerBus
deriving DecidableEq

def Inputs.core (i : Inputs) : TlConverter.Inputs :=
  ⟨i.clk, i.rst, i.tlI.a, i.tlI.dReady, i.wbI⟩

def State.reset (s : State) : State := ⟨s.core.reset, BType.new, false, false⟩

/-- The entity `tl_c2wblite`. -/
def step (i : Inputs) (s : State) : State :=
  if i.clk then
    if i.rst then s.reset
    else { s with core := s.core.edge cProfile i.core, cReady := true, eReady := true }
  else s

theorem step_core (i : Inputs) (s : State) :
    (step i s).core = Core.step cProfile i.core s.core := by
  cases clk : i.clk <;> cases rst : i.rst <;>
    simp [step, Core.step, Inputs.core, clk, rst, State.reset]

end TlC2wblite

end Cocoapuffs

import Cocoapuffs.TlPort

/-!
# The Ethernet register stub

The entity `tl_ethernet`, without its constant PHY outputs: every captured
request is answered from three registers, and may write them.
-/

namespace Cocoapuffs

namespace TlEthernet

open TileLink

/-- `state_t`. -/
inductive StateT where
  | idle
  | respond
deriving DecidableEq

structure Registers where
  mdioData : BitVec 32
  rxFifoData : BitVec 32
  txFifoData : BitVec 32
deriving DecidableEq

def Registers.zero : Registers := ⟨0, 0, 0⟩

structure State where
  state : StateT
  savedA : AType
  registers : Registers
  tlO : PerType
deriving DecidableEq

/-- The ports at one edge. -/
structure Inputs where
  rst : Bool
  tlI : HostType

def State.reset (s : State) : State :=
  { s with state := .idle, tlO := PerType.new, registers := Registers.zero }

/-- The register writes of a captured beat. -/
def Registers.write (baseAddress : BitVec 32) (a : AType) (r : Registers) : Registers :=
  if isPut a.opcode then
    if a.address = baseAddress + 4 then { r with mdioData := a.data }
    else if a.address = baseAddress + 16 then
      { r with txFifoData := a.data, rxFifoData := a.data }
    else r
  else r

/-- The data of the response to a read. -/
def Registers.read (baseAddress : BitVec 32) (address : BitVec 32) (r : Registers) : BitVec 32 :=
  if address = baseAddress + 4 then r.mdioData
  else if address = baseAddress + 32 then r.rxFifoData
  else 0

/-- The process on a rising edge of `clk`, with generic `BASE_ADDRESS`. -/
def step (baseAddress : BitVec 32) (i : Inputs) (s : State) : State :=
  if i.rst then s.reset
  else
    let v := { s with tlO := { aReady := false, d := { s.tlO.d with valid := false } } }
    match s.state with
    | .idle =>
        if i.tlI.a.valid then
          { v with
            savedA := i.tlI.a
            state := .respond
            registers := s.registers.write baseAddress i.tlI.a }
        else { v with tlO := { v.tlO with aReady := true } }
    | .respond =>
        let d : DType := { s.tlO.d with
          valid := true
          source := s.savedA.source
          size := s.savedA.size
          corrupt := false
          opcode := if s.savedA.opcode = opGet then opAccessAckData else opAccessAck
          data :=
            if s.savedA.opcode = opGet then s.registers.read baseAddress s.savedA.address
            else 0 }
        { v with
          tlO := { v.tlO with d := d }
          state := if i.tlI.dReady then .idle else .respond }

/-- The stub as a port. -/
def State.port (s : State) : TlPort.Port where
  phase :=
    match s.state with
    | .idle => .idle
    | .respond => .respond
  tlO := s.tlO

/-- A write of one of the registers. -/
inductive RegisterWrite where
  | mdio (data : BitVec 32)
  | fifo (data : BitVec 32)
deriving DecidableEq

def RegisterWrite.apply (r : Registers) : RegisterWrite → Registers
  | mdio data => { r with mdioData := data }
  | fifo data => { r with txFifoData := data, rxFifoData := data }

/-- The register write that a beat asks for. -/
def registerWrite (baseAddress : BitVec 32) (a : AType) : Option RegisterWrite :=
  if isPut a.opcode then
    if a.address = baseAddress + 4 then some (.mdio a.data)
    else if a.address = baseAddress + 16 then some (.fifo a.data)
    else none
  else none

theorem write_eq_apply (baseAddress : BitVec 32) (a : AType) (r : Registers) :
    r.write baseAddress a =
      (registerWrite baseAddress a).toList.foldl RegisterWrite.apply r := by
  unfold Registers.write registerWrite
  split
  · split
    · rfl
    · split <;> rfl
  · rfl

section Lists

variable (baseAddress : BitVec 32) (start : State) (inputs : Nat → Inputs)

/-- The states after a reset. -/
abbrev states : Nat → State := Trace.run (step baseAddress) start.reset inputs

abbrev ports (n : Nat) : TlPort.Port := (states baseAddress start inputs n).port

/-- The register writes made. -/
def registerWrites : Nat → List RegisterWrite :=
  Trace.history fun n =>
    if (states baseAddress start inputs n).state = .idle ∧ (inputs n).tlI.a.valid
    then registerWrite baseAddress (inputs n).tlI.a
    else none

variable {start} {inputs} (noReset : ∀ n, (inputs n).rst = false)
include noReset

theorem runs (start : State) :
    TlPort.Runs (ports baseAddress start inputs) fun n => (inputs n).tlI where
  phase := rfl
  tlO := rfl
  next n := by
    change TlPort.Step _ _ (step baseAddress (inputs n) (states baseAddress start inputs n)).port
    cases phase : (states baseAddress start inputs n).state with
    | idle =>
        cases raised : (inputs n).tlI.a.valid with
        | false =>
            apply TlPort.Step.wait _ raised <;>
              simp [State.port, step, noReset n, phase, raised]
        | true =>
            apply TlPort.Step.capture _ raised <;>
              simp [State.port, step, noReset n, phase, raised]
    | respond =>
        cases taken : (inputs n).tlI.dReady with
        | false =>
            apply TlPort.Step.hold _ taken <;>
              simp [State.port, step, noReset n, phase, taken]
        | true =>
            apply TlPort.Step.leave _ taken <;>
              simp [State.port, step, noReset n, phase, taken]

/-- The registers are what the register writes have made of them. -/
theorem registers_eq (start : State) (n : Nat) :
    (states baseAddress start inputs n).registers =
      (registerWrites baseAddress start inputs n).foldl RegisterWrite.apply Registers.zero := by
  induction n with
  | zero => rfl
  | succ n ih =>
      rw [registerWrites, Trace.history_succ, List.foldl_append, ← registerWrites, ← ih]
      change (step baseAddress (inputs n) (states baseAddress start inputs n)).registers = _
      cases phase : (states baseAddress start inputs n).state with
      | idle =>
          cases raised : (inputs n).tlI.a.valid with
          | false => simp [step, noReset n, phase, raised]
          | true => simp [step, noReset n, phase, raised, write_eq_apply]
      | respond => simp [step, noReset n, phase]

omit noReset in
/-- Each captured beat has made its register write. -/
theorem registerWrites_eq (start : State) (inputs : Nat → Inputs) (n : Nat) :
    registerWrites baseAddress start inputs n =
      (TlPort.captured (ports baseAddress start inputs) (fun n => (inputs n).tlI)
        n).filterMap (registerWrite baseAddress) := by
  have idle : ∀ n, (ports baseAddress start inputs n).phase = .idle ↔
      (states baseAddress start inputs n).state = .idle := by
    intro n
    cases phase : (states baseAddress start inputs n).state <;> simp [State.port, phase]
  induction n with
  | zero => rfl
  | succ n ih =>
      rw [registerWrites, Trace.history_succ, ← registerWrites, ih, TlPort.captured,
        Trace.history_succ, ← TlPort.captured, List.filterMap_append]
      simp only [idle]
      congr 1
      split
      · cases asked : registerWrite baseAddress (inputs n).tlI.a <;> simp [asked]
      · rfl

/-- Where an idle stub is ready and the master takes each response once, the
register writes are those of the accepted requests. -/
theorem executesOnce
    (master : TlPort.Master (ports baseAddress start inputs) fun n => (inputs n).tlI)
    (accepting : ∀ n,
      TlPort.Accepting (ports baseAddress start inputs) (fun n => (inputs n).tlI) n)
    (timely : ∀ n, TlPort.Timely (ports baseAddress start inputs) (fun n => (inputs n).tlI) n) :
    TlPort.ExecutesOnce (ports baseAddress start inputs) (fun n => (inputs n).tlI)
      (registerWrite baseAddress) (registerWrites baseAddress start inputs) := by
  have neverBusy : ∀ n, (ports baseAddress start inputs n).phase ≠ .busy := by
    intro n
    cases phase : (states baseAddress start inputs n).state <;> simp [State.port, phase]
  apply (runs baseAddress noReset start).executesOnce master accepting timely
  · exact fun n busy => absurd busy (neverBusy n)
  · intro n
    rw [registerWrites_eq]
  · intro n _
    rw [registerWrites_eq]

end Lists

end TlEthernet

end Cocoapuffs

import Cocoapuffs.FourPhase
import Cocoapuffs.Wishbone

/-!
# The Wishbone clock domain crossing

The entity `wb_cdc`: a host-side machine and a peripheral-side machine in two
clock domains, talking through a four-phase handshake.  An instant is any
moment at which one of the clocks, or both, may rise; both processes read the
signals as they were before it.
-/

namespace Cocoapuffs

namespace WbCdc

/-- `host_state_t`. -/
inductive HostState where
  | stHostIdle
  | stHostReq
  | stHostWaitAckLow
deriving DecidableEq, Repr

/-- `per_state_t`. -/
inductive PerState where
  | stPerIdle
  | stPerStart
  | stPerWait
  | stPerDone
deriving DecidableEq, Repr

/-- The signals driven by the host process. -/
structure HostDomain where
  hostState : HostState
  hostAdr : BitVec 32
  hostDat : BitVec 32
  hostSel : BitVec 4
  hostWe : Bool
  hostReq : Bool
  /-- `host_ack_q` and `host_ack_sync`. -/
  hostAckChain : SyncChain
  hostO : PerBus
deriving DecidableEq, Repr

/-- The signals driven by the peripheral process. -/
structure PerDomain where
  perState : PerState
  /-- `per_req_q` and `per_req_sync`. -/
  perReqChain : SyncChain
  perAck : Bool
  perRdt : BitVec 32
  perO : HostBus
deriving DecidableEq, Repr

structure State where
  host : HostDomain
  per : PerDomain
deriving DecidableEq, Repr

/-- The ports at one instant; `clkHost` and `clkPer` say which clocks rise. -/
structure Inputs where
  clkHost : Bool
  clkPer : Bool
  rst : Bool
  hostI : HostBus
  perI : PerBus
deriving DecidableEq, Repr

def HostDomain.reset (host : HostDomain) : HostDomain :=
  { host with
    hostState := .stHostIdle
    hostReq := false
    hostAckChain := SyncChain.zero
    hostO := PerBus.new }

def PerDomain.reset (per : PerDomain) : PerDomain :=
  { per with
    perState := .stPerIdle
    perReqChain := SyncChain.zero
    perAck := false
    perO := HostBus.new }

/-- Both processes under reset; the data registers keep what they hold. -/
def State.reset (s : State) : State := ⟨s.host.reset, s.per.reset⟩

/-- The host process on a rising edge of `clk_host`. -/
def hostEdge (hostI : HostBus) (s : State) : HostDomain :=
  -- Synchronize per_ack to host domain
  let v := { s.host with hostAckChain := s.host.hostAckChain.shift s.per.perAck }
  match s.host.hostState with
  | .stHostIdle =>
      let v := { v with hostO.ack := false }
      if hostI.cyc then
        { v with
          hostAdr := hostI.adr
          hostDat := hostI.dat
          hostSel := hostI.sel
          hostWe := hostI.we
          hostReq := true
          hostState := .stHostReq }
      else v
  | .stHostReq =>
      if s.host.hostAckChain.sync then
        { v with
          hostO := ⟨s.per.perRdt, true⟩
          hostReq := false
          hostState := .stHostWaitAckLow }
      else v
  | .stHostWaitAckLow =>
      if s.host.hostAckChain.sync then
        { v with hostO.ack := true }
      else
        { v with hostO.ack := false, hostState := .stHostIdle }

/-- The peripheral process on a rising edge of `clk_per`. -/
def perEdge (perI : PerBus) (s : State) : PerDomain :=
  -- Synchronize host_req to peripheral domain
  let v := { s.per with perReqChain := s.per.perReqChain.shift s.host.hostReq }
  match s.per.perState with
  | .stPerIdle =>
      if s.per.perReqChain.sync then
        { v with
          perO := ⟨s.host.hostAdr, s.host.hostDat, s.host.hostSel, s.host.hostWe, true⟩
          perState := .stPerStart }
      else { v with perO.cyc := false }
  | .stPerStart =>
      if perI.ack then
        { v with
          perRdt := perI.rdt
          perAck := true
          perO.cyc := false
          perState := .stPerWait }
      else { v with perO.cyc := true }
  | .stPerWait =>
      let v := { v with perO.cyc := false }
      if s.per.perReqChain.sync then v
      else { v with perAck := false, perState := .stPerIdle }
  | .stPerDone => { v with perState := .stPerIdle }

/-- One instant of the entity. -/
def step (i : Inputs) (s : State) : State :=
  if i.rst then s.reset
  else
    { host := if i.clkHost then hostEdge i.hostI s else s.host
      per := if i.clkPer then perEdge i.perI s else s.per }

/-- The request held in the host domain's registers. -/
def State.held (s : State) : Request :=
  ⟨s.host.hostAdr, s.host.hostDat, s.host.hostSel, s.host.hostWe⟩

/-! ### The handshake -/

/-- The levels exchanged by the two processes. -/
def State.link (s : State) : FourPhase where
  req := s.host.hostReq
  reqChain := s.per.perReqChain
  ack := s.per.perAck
  ackChain := s.host.hostAckChain

/-- How the two state machines go with the handshake levels. -/
structure Control (s : State) : Prop where
  settled : s.link.Settled
  req : s.host.hostReq = decide (s.host.hostState = .stHostReq)
  hostAck : s.host.hostO.ack = decide (s.host.hostState = .stHostWaitAckLow)
  withdrawn : s.host.hostState = .stHostIdle → s.host.hostAckChain.sync = false
  perAck : s.per.perAck = decide (s.per.perState = .stPerWait)
  cyc : s.per.perO.cyc = decide (s.per.perState = .stPerStart)
  seen : s.per.perState = .stPerStart → s.per.perReqChain.sync = true
  notDone : s.per.perState ≠ .stPerDone

theorem control_reset (s : State) : Control s.reset where
  settled := FourPhase.zero_settled
  req := rfl
  hostAck := rfl
  withdrawn _ := rfl
  perAck := rfl
  cyc := rfl
  seen started := by cases started
  notDone := by simp [State.reset, PerDomain.reset]

section Edges

variable {s : State} (control : Control s)
include control

/-- While the peripheral serves a request the host is waiting for it. -/
theorem Control.hostReq_of_start (started : s.per.perState = .stPerStart) :
    s.host.hostState = .stHostReq := by
  have up : s.link.req = true := control.settled.req_of_seen
    (control.seen started) (by simp [State.link, control.perAck, started])
  simpa [State.link, control.req] using up

/-- A request seen by an idle peripheral is the host's current one. -/
theorem Control.hostReq_of_seen (idle : s.per.perState = .stPerIdle)
    (seen : s.per.perReqChain.sync = true) : s.host.hostState = .stHostReq := by
  have up : s.link.req = true := control.settled.req_of_seen
    seen (by simp [State.link, control.perAck, idle])
  simpa [State.link, control.req] using up

/-- An acknowledge seen by a waiting host was given by the peripheral. -/
theorem Control.perWait_of_answered (waiting : s.host.hostState = .stHostReq)
    (answered : s.host.hostAckChain.sync = true) :
    s.per.perState = .stPerWait := by
  have given : s.link.ack = true := control.settled.ack_of_answered
    (by simp [State.link, control.req, waiting]) answered
  simpa [State.link, control.perAck] using given

/-- An acknowledge given to a waiting host stays until the host answers. -/
theorem Control.seen_of_perWait (waiting : s.host.hostState = .stHostReq)
    (answered : s.per.perState = .stPerWait) :
    s.per.perReqChain.sync = true :=
  control.settled.seen_of_ack (by simp [State.link, control.req, waiting])
    (by simp [State.link, control.perAck, answered])

/-- With the host idle the whole handshake is at rest. -/
theorem Control.link_of_idle (idle : s.host.hostState = .stHostIdle) :
    s.link = FourPhase.zero :=
  control.settled.low_of_withdrawn (by simp [State.link, control.req, idle])
    (control.withdrawn idle)

theorem Control.perIdle_of_idle (idle : s.host.hostState = .stHostIdle) :
    s.per.perState = .stPerIdle := by
  have ackLow : s.per.perAck = false :=
    congrArg FourPhase.ack (control.link_of_idle idle)
  have perAck := control.perAck
  have notDone := control.notDone
  have notStart : s.per.perState ≠ .stPerStart := fun started => by
    rw [control.hostReq_of_start started] at idle
    cases idle
  cases phase : s.per.perState <;> simp_all

private theorem link_step (i : Inputs) (noReset : i.rst = false) :
    FourPhase.Step s.link (step i s).link := by
  have withdrawn := control.withdrawn
  have seen := control.seen
  have req := control.req
  have perAck := control.perAck
  constructor
  · by_cases tick : i.clkHost
    · cases phase : s.host.hostState <;>
        by_cases cyc : i.hostI.cyc <;> by_cases level : s.host.hostAckChain.sync <;>
        simp_all [State.link, step, hostEdge]
    · simp [State.link, step, noReset, tick]
  · by_cases tick : i.clkPer
    · right
      cases phase : s.per.perState <;>
        by_cases ack : i.perI.ack <;> by_cases level : s.per.perReqChain.sync <;>
        simp [State.link, step, noReset, tick, perEdge, phase, ack, level]
    · simp [State.link, step, noReset, tick]
  · by_cases tick : i.clkPer
    · cases phase : s.per.perState <;>
        by_cases ack : i.perI.ack <;> by_cases level : s.per.perReqChain.sync <;>
        simp_all [State.link, step, perEdge]
    · simp [State.link, step, noReset, tick]
  · by_cases tick : i.clkHost
    · right
      cases phase : s.host.hostState <;>
        by_cases cyc : i.hostI.cyc <;> by_cases level : s.host.hostAckChain.sync <;>
        simp [State.link, step, noReset, tick, hostEdge, phase, cyc, level]
    · simp [State.link, step, noReset, tick]

theorem Control.step (i : Inputs) (noReset : i.rst = false) :
    Control (step i s) where
  settled := control.settled.step (link_step control i noReset)
  req := by
    have req := control.req
    by_cases tick : i.clkHost
    · cases phase : s.host.hostState <;> simp_all [WbCdc.step, hostEdge] <;>
        split <;> simp_all
    · simpa [WbCdc.step, noReset, tick] using req
  hostAck := by
    have hostAck := control.hostAck
    by_cases tick : i.clkHost
    · cases phase : s.host.hostState <;> simp_all [WbCdc.step, hostEdge] <;>
        split <;> simp_all
    · simpa [WbCdc.step, noReset, tick] using hostAck
  withdrawn := by
    -- The last stage goes low with the request down, so the ring is at rest.
    have atRest : s.host.hostReq = false → s.host.hostAckChain.sync = false →
        s.host.hostAckChain.q1 = false := fun down low =>
      congrArg (fun link => link.ackChain.q1)
        (control.settled.low_of_withdrawn down low)
    have withdrawn := control.withdrawn
    have req := control.req
    by_cases tick : i.clkHost
    · cases phase : s.host.hostState <;> simp_all [WbCdc.step, hostEdge] <;>
        split <;> simp_all
    · simpa [WbCdc.step, noReset, tick] using withdrawn
  perAck := by
    have perAck := control.perAck
    by_cases tick : i.clkPer
    · cases phase : s.per.perState <;> simp_all [WbCdc.step, perEdge] <;>
        split <;> simp_all
    · simpa [WbCdc.step, noReset, tick] using perAck
  cyc := by
    have cyc := control.cyc
    have notDone := control.notDone
    by_cases tick : i.clkPer
    · cases phase : s.per.perState <;> simp_all [WbCdc.step, perEdge] <;>
        split <;> simp_all
    · simpa [WbCdc.step, noReset, tick] using cyc
  seen := by
    have perAck := control.perAck
    have stays : s.per.perState ≠ .stPerWait → s.per.perReqChain.sync = true →
        s.per.perReqChain.q1 = true := fun unanswered seen =>
      control.settled.q1_of_seen
        (control.settled.req_of_seen seen (by simpa [State.link, perAck] using unanswered))
        seen
    have seen := control.seen
    by_cases tick : i.clkPer
    · cases phase : s.per.perState <;> simp_all [WbCdc.step, perEdge] <;>
        split <;> simp_all
    · simpa [WbCdc.step, noReset, tick] using seen
  notDone := by
    have notDone := control.notDone
    by_cases tick : i.clkPer
    · cases phase : s.per.perState <;> simp_all [WbCdc.step, perEdge] <;>
        split <;> simp_all
    · simpa [WbCdc.step, noReset, tick] using notDone

end Edges

end WbCdc

end Cocoapuffs

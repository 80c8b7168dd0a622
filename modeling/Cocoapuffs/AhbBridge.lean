import Cocoapuffs.Ahb
import Cocoapuffs.FourPhase

/-!
# The AHB to Wishbone bridge

The entity `ahb2wb_bridge`: an AHB slave and a Wishbone host in two clock
domains, talking through a four-phase handshake.
-/

namespace Cocoapuffs

namespace AhbBridge

open Ahb

/-- `ahb_state_t`. -/
inductive AhbState where
  | ahbIdle
  | ahbDataPhase
  | ahbWaitAck
  | ahbCleanup
deriving DecidableEq

/-- `wb_state_t`. -/
inductive WbState where
  | wbIdle
  | wbStart
  | wbWait
  | wbDone
deriving DecidableEq

/-- The signals driven by the AHB process. -/
structure AhbDomain where
  ahbState : AhbState
  ahbHaddr : BitVec 32
  ahbHwdata : BitVec 32
  ahbHwrite : Bool
  ahbHready : Bool
  ahbHrdata : BitVec 32
  ahbReq : Bool
  /-- `ahb_ack_q` and `ahb_ack_sync`. -/
  ahbAckChain : SyncChain
  ahbSel : BitVec 4
deriving DecidableEq

/-- The signals driven by the Wishbone process. -/
structure WbDomain where
  wbState : WbState
  /-- `wb_req_q` and `wb_req_sync`. -/
  wbReqChain : SyncChain
  wbAck : Bool
  wbAdr : BitVec 32
  wbDat : BitVec 32
  wbWe : Bool
  wbCyc : Bool
  wbHrdataReg : BitVec 32
  wbSel : BitVec 4
deriving DecidableEq

structure State where
  ahb : AhbDomain
  wb : WbDomain
deriving DecidableEq

/-- The ports at one instant. -/
structure Inputs where
  clkAhb : Bool
  clkWb : Bool
  rst : Bool
  ahbsi : SlvIn
  wbi : PerBus

def State.ahbso (s : State) : SlvOut := ⟨s.ahb.ahbHready, s.ahb.ahbHrdata⟩

def State.wbo (s : State) : HostBus :=
  ⟨s.wb.wbAdr, s.wb.wbDat, s.wb.wbSel, s.wb.wbWe, s.wb.wbCyc⟩

/-- The byte strobes of an address phase. -/
def strobes (hsize : BitVec 3) (haddr : BitVec 32) : BitVec 4 :=
  match hsize.extractLsb' 0 2 with
  | 0b00 =>
      match haddr.extractLsb' 0 2 with
      | 0b00 => 0b0001
      | 0b01 => 0b0010
      | 0b10 => 0b0100
      | _ => 0b1000
  | 0b01 => if haddr.getLsbD 1 = false then 0b0011 else 0b1100
  | _ => 0b1111

def AhbDomain.reset (ahb : AhbDomain) : AhbDomain :=
  { ahb with
    ahbState := .ahbIdle
    ahbReq := false
    ahbHready := true
    ahbAckChain := SyncChain.zero }

def WbDomain.reset (wb : WbDomain) : WbDomain :=
  { wb with
    wbState := .wbIdle
    wbAck := false
    wbReqChain := SyncChain.zero
    wbCyc := false }

def State.reset (s : State) : State := ⟨s.ahb.reset, s.wb.reset⟩

/-- The AHB process on a rising edge of `clk_ahb` out of reset. -/
def ahbEdge (index : Nat) (ahbsi : SlvIn) (s : State) : AhbDomain :=
  -- Synchronize WB ack to AHB domain
  let v := { s.ahb with ahbAckChain := s.ahb.ahbAckChain.shift s.wb.wbAck }
  match s.ahb.ahbState with
  | .ahbIdle =>
      if ahbsi.starts index then
        let v := { v with
          ahbHaddr := ahbsi.haddr
          ahbHwrite := ahbsi.hwrite
          ahbSel := strobes ahbsi.hsize ahbsi.haddr
          ahbHready := false }
        if ahbsi.hwrite then { v with ahbState := .ahbDataPhase }
        else { v with ahbReq := true, ahbState := .ahbWaitAck }
      else v
  | .ahbDataPhase =>
      { v with ahbHwdata := ahbsi.hwdata, ahbReq := true, ahbState := .ahbWaitAck }
  | .ahbWaitAck =>
      if s.ahb.ahbAckChain.sync then
        { v with ahbHrdata := s.wb.wbHrdataReg, ahbReq := false, ahbState := .ahbCleanup }
      else v
  | .ahbCleanup =>
      if s.ahb.ahbAckChain.sync then v
      else { v with ahbHready := true, ahbState := .ahbIdle }

/-- The Wishbone process on a rising edge of `clk_wb` out of reset. -/
def wbEdge (wbi : PerBus) (s : State) : WbDomain :=
  -- Synchronize AHB request to WB domain
  let v := { s.wb with wbReqChain := s.wb.wbReqChain.shift s.ahb.ahbReq }
  match s.wb.wbState with
  | .wbIdle =>
      if s.wb.wbReqChain.sync then
        { v with
          wbAdr := s.ahb.ahbHaddr
          wbWe := s.ahb.ahbHwrite
          wbDat := s.ahb.ahbHwdata
          wbSel := s.ahb.ahbSel
          wbState := .wbStart }
      else v
  | .wbStart => { v with wbCyc := true, wbState := .wbWait }
  | .wbWait =>
      if wbi.ack then
        { v with wbCyc := false, wbHrdataReg := wbi.rdt, wbAck := true, wbState := .wbDone }
      else v
  | .wbDone =>
      if s.wb.wbReqChain.sync then v
      else { v with wbAck := false, wbState := .wbIdle }

/-- One instant of the entity with generic `HSEL_INDEX`. -/
def step (index : Nat) (i : Inputs) (s : State) : State where
  ahb :=
    if i.clkAhb then if i.rst then s.ahb.reset else ahbEdge index i.ahbsi s else s.ahb
  wb := if i.clkWb then if i.rst then s.wb.reset else wbEdge i.wbi s else s.wb

/-! ### The handshake -/

/-- The levels exchanged by the two processes. -/
def State.link (s : State) : FourPhase where
  req := s.ahb.ahbReq
  reqChain := s.wb.wbReqChain
  ack := s.wb.wbAck
  ackChain := s.ahb.ahbAckChain

/-- How the two state machines go with the handshake levels. -/
structure Control (s : State) : Prop where
  settled : s.link.Settled
  req : s.ahb.ahbReq = decide (s.ahb.ahbState = .ahbWaitAck)
  hready : s.ahb.ahbHready = decide (s.ahb.ahbState = .ahbIdle)
  withdrawn : s.ahb.ahbState = .ahbIdle ∨ s.ahb.ahbState = .ahbDataPhase →
    s.ahb.ahbAckChain.sync = false
  ack : s.wb.wbAck = decide (s.wb.wbState = .wbDone)
  cyc : s.wb.wbCyc = decide (s.wb.wbState = .wbWait)
  seen : s.wb.wbState = .wbStart ∨ s.wb.wbState = .wbWait → s.wb.wbReqChain.sync = true

theorem control_reset (s : State) : Control s.reset where
  settled := FourPhase.zero_settled
  req := rfl
  hready := rfl
  withdrawn _ := rfl
  ack := rfl
  cyc := rfl
  seen started := by rcases started with h | h <;> cases h

section Edges

variable {s : State} (control : Control s)
include control

/-- While the Wishbone side serves a request the AHB side waits for it. -/
theorem Control.waitAck_of_busy (busy : s.wb.wbState = .wbStart ∨ s.wb.wbState = .wbWait) :
    s.ahb.ahbState = .ahbWaitAck := by
  have unanswered : s.link.ack = false := by
    rcases busy with h | h <;> simp [State.link, control.ack, h]
  have up : s.link.req = true := control.settled.req_of_seen (control.seen busy) unanswered
  simpa [State.link, control.req] using up

theorem Control.waitAck_of_seen (idle : s.wb.wbState = .wbIdle)
    (seen : s.wb.wbReqChain.sync = true) : s.ahb.ahbState = .ahbWaitAck := by
  have up : s.link.req = true := control.settled.req_of_seen seen
    (by simp [State.link, control.ack, idle])
  simpa [State.link, control.req] using up

theorem Control.done_of_answered (waiting : s.ahb.ahbState = .ahbWaitAck)
    (answered : s.ahb.ahbAckChain.sync = true) : s.wb.wbState = .wbDone := by
  have given : s.link.ack = true := control.settled.ack_of_answered
    (by simp [State.link, control.req, waiting]) answered
  simpa [State.link, control.ack] using given

theorem Control.seen_of_done (waiting : s.ahb.ahbState = .ahbWaitAck)
    (done : s.wb.wbState = .wbDone) : s.wb.wbReqChain.sync = true :=
  control.settled.seen_of_ack (by simp [State.link, control.req, waiting])
    (by simp [State.link, control.ack, done])

/-- Before a request is raised the whole handshake is at rest. -/
theorem Control.link_of_quiet
    (quiet : s.ahb.ahbState = .ahbIdle ∨ s.ahb.ahbState = .ahbDataPhase) :
    s.link = FourPhase.zero := by
  refine control.settled.low_of_withdrawn ?_ (control.withdrawn quiet)
  rcases quiet with h | h <;> simp [State.link, control.req, h]

theorem Control.wbIdle_of_quiet
    (quiet : s.ahb.ahbState = .ahbIdle ∨ s.ahb.ahbState = .ahbDataPhase) :
    s.wb.wbState = .wbIdle := by
  have low : s.wb.wbAck = false := congrArg FourPhase.ack (control.link_of_quiet quiet)
  have ack := control.ack
  have busy := control.waitAck_of_busy
  cases phase : s.wb.wbState <;> rcases quiet with h | h <;> simp_all

private theorem bridge_link_step (index : Nat) (i : Inputs) (noReset : i.rst = false) :
    FourPhase.Step s.link (step index i s).link := by
  have withdrawn := control.withdrawn
  have seen := control.seen
  have req := control.req
  have ack := control.ack
  constructor
  · by_cases tick : i.clkAhb
    · cases phase : s.ahb.ahbState <;> by_cases starts : i.ahbsi.starts index <;>
        by_cases write : i.ahbsi.hwrite <;> by_cases level : s.ahb.ahbAckChain.sync <;>
        simp_all [State.link, step, ahbEdge]
    · simp [State.link, step, tick]
  · by_cases tick : i.clkWb
    · right
      cases phase : s.wb.wbState <;>
        by_cases given : i.wbi.ack <;> by_cases level : s.wb.wbReqChain.sync <;>
        simp [State.link, step, noReset, tick, wbEdge, phase, given, level]
    · simp [State.link, step, tick]
  · by_cases tick : i.clkWb
    · cases phase : s.wb.wbState <;>
        by_cases given : i.wbi.ack <;> by_cases level : s.wb.wbReqChain.sync <;>
        simp_all [State.link, step, wbEdge]
    · simp [State.link, step, tick]
  · by_cases tick : i.clkAhb
    · right
      cases phase : s.ahb.ahbState <;> by_cases starts : i.ahbsi.starts index <;>
        by_cases write : i.ahbsi.hwrite <;> by_cases level : s.ahb.ahbAckChain.sync <;>
        simp [State.link, step, noReset, tick, ahbEdge, phase, starts, write, level]
    · simp [State.link, step, tick]

theorem Control.step (index : Nat) (i : Inputs) (noReset : i.rst = false) :
    Control (step index i s) where
  settled := control.settled.step (bridge_link_step control index i noReset)
  req := by
    have req := control.req
    by_cases tick : i.clkAhb
    · cases phase : s.ahb.ahbState <;> simp_all [AhbBridge.step, ahbEdge] <;>
        (repeat' split) <;> simp_all
    · simpa [AhbBridge.step, tick] using req
  hready := by
    have hready := control.hready
    by_cases tick : i.clkAhb
    · cases phase : s.ahb.ahbState <;> simp_all [AhbBridge.step, ahbEdge] <;>
        (repeat' split) <;> simp_all
    · simpa [AhbBridge.step, tick] using hready
  withdrawn := by
    -- The last stage goes low with the request down, so the ring is at rest.
    have atRest : s.ahb.ahbReq = false → s.ahb.ahbAckChain.sync = false →
        s.ahb.ahbAckChain.q1 = false := fun down low =>
      congrArg (fun link => link.ackChain.q1)
        (control.settled.low_of_withdrawn down low)
    have withdrawn := control.withdrawn
    have req := control.req
    by_cases tick : i.clkAhb
    · cases phase : s.ahb.ahbState <;> simp_all [AhbBridge.step, ahbEdge] <;>
        (repeat' split) <;> simp_all
    · simpa [AhbBridge.step, tick] using withdrawn
  ack := by
    have ack := control.ack
    by_cases tick : i.clkWb
    · cases phase : s.wb.wbState <;> simp_all [AhbBridge.step, wbEdge] <;>
        split <;> simp_all
    · simpa [AhbBridge.step, tick] using ack
  cyc := by
    have cyc := control.cyc
    by_cases tick : i.clkWb
    · cases phase : s.wb.wbState <;> simp_all [AhbBridge.step, wbEdge] <;>
        split <;> simp_all
    · simpa [AhbBridge.step, tick] using cyc
  seen := by
    have ack := control.ack
    have stays : s.wb.wbState ≠ .wbDone → s.wb.wbReqChain.sync = true →
        s.wb.wbReqChain.q1 = true := fun unanswered seen =>
      control.settled.q1_of_seen
        (control.settled.req_of_seen seen (by simpa [State.link, ack] using unanswered))
        seen
    have seen := control.seen
    by_cases tick : i.clkWb
    · cases phase : s.wb.wbState <;> simp_all [AhbBridge.step, wbEdge] <;>
        split <;> simp_all
    · simpa [AhbBridge.step, tick] using seen

end Edges

end AhbBridge

end Cocoapuffs

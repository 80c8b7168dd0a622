import Cocoapuffs.Rv32Ddr3exec
import Cocoapuffs.WbMuxBram
import Cocoapuffs.AhbBridgeBus
import Cocoapuffs.ClockEdges

/-!
# The RAM of the NOEL-V board

SERV and the NOEL-V share the RAM behind `ram_mux`: SERV on Wishbone, the NOEL-V over
the AHB bridge, in the simulated board.  One instant is a rising edge of `clk100`, of
`clk50` or of both.
-/

namespace Cocoapuffs

namespace NoelvRam

open Rv32Ddr3exec (ramSim)
open ClockEdges (edge)

def ramMuxPorts : Nat := 2

instance : NeZero ramMuxPorts := ⟨by decide⟩

/-- The port of SERV. -/
def serv : Fin ramMuxPorts := ⟨0, by decide⟩

/-- The port of the NOEL-V. -/
def noelv : Fin ramMuxPorts := ⟨1, by decide⟩

structure Inputs where
  clk100 : Bool
  clk50 : Bool
  reset : Bool
  /-- What SERV puts on the bus, in the addresses of the RAM. -/
  ram0WbHost : HostBus
  noelvAhbsi : Ahb.SlvIn

structure State where
  ramMux : WbMux.Reg ramMuxPorts
  ram0 : Bram.State ramSim
  noelvBridge : AhbBridge.State

/-- `ram_mux_host_ports`. -/
def State.ramMuxHostPorts (s : State) (i : Inputs) (port : Fin ramMuxPorts) : HostBus :=
  if port = serv then i.ram0WbHost else s.noelvBridge.wbo

/-- `ram_mux_per_ports`. -/
def State.ramMuxPerPorts (s : State) : Fin ramMuxPorts → PerBus :=
  WbMux.perPorts s.ramMux s.ram0.wbo

/-- `ram0_wb_host_muxed`. -/
def State.ram0WbHostMuxed (s : State) (i : Inputs) : HostBus :=
  WbMux.hostPort s.ramMux (s.ramMuxHostPorts i)

/-- The ports of `noelv_bridge`. -/
def State.bridgeInputs (s : State) (i : Inputs) : AhbBridge.Inputs :=
  ⟨i.clk50, i.clk100, i.reset, i.noelvAhbsi, s.ramMuxPerPorts noelv⟩

/-- `HSEL_INDEX`. -/
def hselIndex : Nat := 1

/-- One instant. -/
def step (i : Inputs) (s : State) : State where
  ramMux :=
    if i.clk100 then WbMux.comb i.reset (s.ramMuxHostPorts i) s.ram0.wbo s.ramMux else s.ramMux
  ram0 := if i.clk100 then Bram.step i.reset (s.ram0WbHostMuxed i) s.ram0 else s.ram0
  noelvBridge := AhbBridge.step hselIndex (s.bridgeInputs i) s.noelvBridge

/-- The board after a reset, which leaves the RAM as it is. -/
def State.reset (s : State) : State := ⟨WbMux.regZero, s.ram0.reset, s.noelvBridge.reset⟩

section Runs

variable (powerUp : State) (inputs : Nat → Inputs)

abbrev states : Nat → State := Trace.run step powerUp.reset inputs

def bridgeInputs (n : Nat) : AhbBridge.Inputs := (states powerUp inputs n).bridgeInputs (inputs n)

def clk100 (n : Nat) : Bool := (inputs n).clk100

/-- The multiplexer with what goes on around it, at the edges of its clock. -/
noncomputable def muxInputs (k : Nat) : WbMux.Inputs ramMuxPorts :=
  let n := edge (clk100 inputs) k
  ⟨(inputs n).reset, (states powerUp inputs n).ramMuxHostPorts (inputs n),
    (states powerUp inputs n).ram0.wbo⟩

/-- The word that an address is for. -/
def cell (adr : BitVec 32) : Option (Fin ramSim.memWords) :=
  if ramSim.decoder.Decodes adr then some (ramSim.wordOf adr) else none

/-- The RAM as bytes, at the edges of its clock. -/
noncomputable def bytes (k : Nat) : Fin ramSim.memWords → Fin 4 → BitVec 8 :=
  (states powerUp inputs (edge (clk100 inputs) k)).ram0.mem.bytes

/-- The transfers that the NOEL-V has completed, each with its read data. -/
def completed : Nat → List (Ahb.Transfer × BitVec 32) :=
  AhbBridge.completed hselIndex powerUp.noelvBridge (bridgeInputs powerUp inputs)

/-- What SERV and the bus of the NOEL-V do. -/
structure Buses : Prop where
  noReset : ∀ n, (inputs n).reset = false
  wbClock : Trace.Recurs fun n => clk100 inputs n = true
  ahbClock : Trace.Recurs fun n => (inputs n).clk50 = true
  /-- SERV changes at the edges of `clk100` only, -/
  servStill : ∀ n, (inputs n).clk100 = false →
    (inputs (n + 1)).ram0WbHost = (inputs n).ram0WbHost
  /-- holds a request until its acknowledge, -/
  servHeld : ∀ n, (inputs n).clk100 = true → (inputs n).ram0WbHost.cyc = true →
    ((states powerUp inputs n).ramMuxPerPorts serv).ack = false →
    (inputs (n + 1)).ram0WbHost = (inputs n).ram0WbHost
  /-- and withdraws it then. -/
  servDropped : ∀ n, (inputs n).clk100 = true →
    ((states powerUp inputs n).ramMuxPerPorts serv).ack = true →
    (inputs (n + 1)).ram0WbHost.cyc = false
  /-- `hready` is that of the bridge while it owns the data phase. -/
  owned : ∀ n, (AhbBridge.transfer hselIndex (bridgeInputs powerUp inputs) n).isSome →
    (inputs n).noelvAhbsi.hready = (states powerUp inputs n).noelvBridge.ahbso.hready
  /-- The master holds its address phase until it is accepted -/
  addrHeld : ∀ n, (inputs n).noelvAhbsi.starts hselIndex = true →
    ¬ AhbBridge.Advances (bridgeInputs powerUp inputs) n →
    (inputs (n + 1)).noelvAhbsi.starts hselIndex = true ∧
      (inputs (n + 1)).noelvAhbsi.addressPhase = (inputs n).noelvAhbsi.addressPhase
  /-- and its write data during the data phase. -/
  dataHeld : ∀ n, (AhbBridge.transfer hselIndex (bridgeInputs powerUp inputs) n).isSome →
    ¬ AhbBridge.Advances (bridgeInputs powerUp inputs) n →
    (inputs (n + 1)).noelvAhbsi.hwdata = (inputs n).noelvAhbsi.hwdata
  /-- No other slave waits when an address phase for the idle bridge is on the bus. -/
  qualified : ∀ n, AhbBridge.Qualified hselIndex powerUp.noelvBridge
    (bridgeInputs powerUp inputs) n
  /-- All addresses are in the window of the RAM. -/
  mapped : ∀ n, ((states powerUp inputs n).ram0WbHostMuxed (inputs n)).cyc = true →
    ramSim.decoder.Decodes ((states powerUp inputs n).ram0WbHostMuxed (inputs n)).adr

variable {powerUp inputs}

/-! ### The parts of the board -/

theorem noelvBridge_states (n : Nat) : (states powerUp inputs n).noelvBridge =
    AhbBridge.states hselIndex powerUp.noelvBridge (bridgeInputs powerUp inputs) n := by
  induction n with
  | zero => rfl
  | succ n ih =>
      change AhbBridge.step _ _ (states powerUp inputs n).noelvBridge = _
      rw [ih]
      rfl

theorem bridge_noReset (buses : Buses powerUp inputs) (n : Nat) :
    (bridgeInputs powerUp inputs n).rst = false :=
  buses.noReset n

theorem port_cases : ∀ port, port = serv ∨ port = noelv := by
  decide

section Buses

variable (buses : Buses powerUp inputs)
include buses

theorem Buses.ticks (k : Nat) : (inputs (edge (clk100 inputs) k)).clk100 = true :=
  ClockEdges.clk_edge buses.wbClock k

theorem Buses.ramMux_states (k : Nat) :
    (states powerUp inputs (edge (clk100 inputs) k)).ramMux =
      WbMux.states (muxInputs powerUp inputs) k :=
  ClockEdges.run_edge buses.wbClock WbMux.step (fun n => (states powerUp inputs n).ramMux)
    (fun n => ⟨(inputs n).reset, (states powerUp inputs n).ramMuxHostPorts (inputs n),
      (states powerUp inputs n).ram0.wbo⟩) (fun _ => rfl) k

/-- What a port sees at an edge. -/
theorem Buses.perPorts_eq (k : Nat) (port : Fin ramMuxPorts) :
    WbMux.perPortsAt (muxInputs powerUp inputs) k port =
      (states powerUp inputs (edge (clk100 inputs) k)).ramMuxPerPorts port := by
  rw [WbMux.perPortsAt, ← buses.ramMux_states]
  rfl

theorem Buses.shared_eq (k : Nat) : WbMuxShared.shared (muxInputs powerUp inputs) k =
    (states powerUp inputs (edge (clk100 inputs) k)).ram0WbHostMuxed
      (inputs (edge (clk100 inputs) k)) := by
  rw [WbMuxShared.shared, ← buses.ramMux_states]
  rfl

/-- What SERV has on the bus at the next edge. -/
theorem Buses.serv_next (k : Nat) :
    (inputs (edge (clk100 inputs) (k + 1))).ram0WbHost =
      (inputs (edge (clk100 inputs) k + 1)).ram0WbHost :=
  ClockEdges.at_next (x := fun n => (inputs n).ram0WbHost) buses.wbClock buses.servStill k

omit buses in
/-- The bridge's side of the bus changes at the edges of `clk100` only. -/
theorem wbo_still (n : Nat) (quiet : (inputs n).clk100 = false) :
    (states powerUp inputs (n + 1)).noelvBridge.wbo =
      (states powerUp inputs n).noelvBridge.wbo := by
  have wb : (states powerUp inputs (n + 1)).noelvBridge.wb =
      (states powerUp inputs n).noelvBridge.wb := by
    rw [noelvBridge_states, noelvBridge_states]
    exact AhbBridge.wb_still _ _ quiet
  simp only [AhbBridge.State.wbo, wb]

/-- What the bridge has on the bus at the next edge. -/
theorem Buses.noelv_next (k : Nat) :
    (states powerUp inputs (edge (clk100 inputs) (k + 1))).noelvBridge.wbo =
      (states powerUp inputs (edge (clk100 inputs) k + 1)).noelvBridge.wbo :=
  ClockEdges.at_next (x := fun n => (states powerUp inputs n).noelvBridge.wbo) buses.wbClock
    wbo_still k

theorem Buses.noelv_held (k : Nat)
    (raised : ((muxInputs powerUp inputs k).hostPorts noelv).cyc = true)
    (unacked : (WbMux.perPortsAt (muxInputs powerUp inputs) k noelv).ack = false) :
    (muxInputs powerUp inputs (k + 1)).hostPorts noelv =
      (muxInputs powerUp inputs k).hostPorts noelv := by
  refine (buses.noelv_next k).trans ?_
  rw [noelvBridge_states, AhbBridge.wbo_held _ _ (bridge_noReset buses), ← noelvBridge_states]
  · rfl
  · rw [← noelvBridge_states]
    exact raised
  · rintro ⟨-, acks⟩
    rw [buses.perPorts_eq] at unacked
    exact Bool.false_ne_true (unacked.symm.trans acks)

theorem Buses.hosts : WbMuxShared.Hosts (muxInputs powerUp inputs) where
  noReset k := buses.noReset _
  held k port raised unacked := by
    rcases port_cases port with rfl | rfl
    · rw [buses.perPorts_eq] at unacked
      exact (buses.serv_next k).trans (buses.servHeld _ (buses.ticks k) raised unacked)
    · exact buses.noelv_held k raised unacked
  dropped k port raised acks := by
    rw [buses.perPorts_eq] at acks
    rcases port_cases port with rfl | rfl
    · exact (congrArg HostBus.cyc (buses.serv_next k)).trans
        (buses.servDropped _ (buses.ticks k) acks)
    · refine (congrArg HostBus.cyc (buses.noelv_next k)).trans ?_
      rw [noelvBridge_states]
      refine AhbBridge.wbo_dropped _ _ (bridge_noReset buses) ?_ (buses.ticks k) acks
      rw [← noelvBridge_states]
      exact raised

/-! ### The RAM on the bus -/

omit buses in
/-- The RAM at an edge. -/
noncomputable def ram0 (powerUp : State) (inputs : Nat → Inputs) (k : Nat) : Bram.State ramSim :=
  (states powerUp inputs (edge (clk100 inputs) k)).ram0

omit buses in
theorem ram0_still (n : Nat) (quiet : (inputs n).clk100 = false) :
    (states powerUp inputs (n + 1)).ram0 = (states powerUp inputs n).ram0 := by
  change (if (inputs n).clk100 = true then _ else (states powerUp inputs n).ram0) = _
  rw [quiet, if_neg Bool.false_ne_true]

theorem Buses.ram0_first : ram0 powerUp inputs 0 = powerUp.ram0.reset :=
  ClockEdges.at_first (x := fun n => (states powerUp inputs n).ram0) buses.wbClock
    ram0_still

theorem Buses.ram0_next (k : Nat) : ram0 powerUp inputs (k + 1) =
    Bram.step false (WbMuxShared.shared (muxInputs powerUp inputs) k)
      (ram0 powerUp inputs k) := by
  refine (ClockEdges.at_next (x := fun n => (states powerUp inputs n).ram0) buses.wbClock
    ram0_still k).trans ?_
  change (if (inputs (edge (clk100 inputs) k)).clk100 = true then Bram.step _ _ _ else _) = _
  rw [buses.ticks, if_pos rfl, buses.noReset, buses.shared_eq]
  rfl

theorem Buses.behind :
    WbMuxBram.Behind (muxInputs powerUp inputs) (ram0 powerUp inputs) where
  hosts := buses.hosts
  start := by rw [buses.ram0_first]; rfl
  next := buses.ram0_next
  responds _ := rfl
  window k raised := by
    rw [buses.shared_eq] at raised ⊢
    exact buses.mapped _ raised

theorem Buses.linearizes :
    WbMuxShared.Linearizes (muxInputs powerUp inputs) cell (bytes powerUp inputs) :=
  buses.hosts.linearizes (buses.behind.memory fun _ decodes => if_pos decodes)

/-! ### The bridge on the bus -/

/-- The bridge is served. -/
theorem Buses.serves : Serves (fun n => (bridgeInputs powerUp inputs n).clkWb)
    (fun n => (AhbBridge.states hselIndex powerUp.noelvBridge (bridgeInputs powerUp inputs) n).wbo)
    fun n => (bridgeInputs powerUp inputs n).wbi := by
  intro n raised
  -- The request is still there at the next edge, and is acknowledged at a later one.
  obtain ⟨k, after, quiet⟩ := ClockEdges.exists_edge buses.wbClock n
  have same := ClockEdges.still (x := fun n => (states powerUp inputs n).noelvBridge.wbo)
    wbo_still after quiet
  have waiting : ((muxInputs powerUp inputs k).hostPorts noelv).cyc = true := by
    simp only [← noelvBridge_states] at raised
    exact (congrArg HostBus.cyc same).trans raised
  obtain ⟨m, later, -, acks⟩ := buses.hosts.served buses.behind.answers waiting
  rw [buses.perPorts_eq] at acks
  exact ⟨_, after.trans (ClockEdges.edge_mono buses.wbClock later), buses.ticks m, acks⟩

theorem Buses.sharedBus : AhbBridge.SharedBus hselIndex powerUp.noelvBridge
    (bridgeInputs powerUp inputs) where
  noReset := buses.noReset
  ahbClock := buses.ahbClock
  wbClock := buses.wbClock
  owned n busy := by
    rw [← noelvBridge_states]
    exact buses.owned n busy
  addrHeld := buses.addrHeld
  dataHeld := buses.dataHeld
  serves := buses.serves

/-- The acknowledges of the bridge are its Wishbone exchanges. -/
theorem Buses.exchanges_eq (k : Nat) :
    AhbBridge.wbExchanges hselIndex powerUp.noelvBridge (bridgeInputs powerUp inputs)
        (edge (clk100 inputs) k) =
      ((WbMuxShared.acked (muxInputs powerUp inputs) k).filter fun event =>
        event.1 = noelv).map fun event => event.2 := by
  rw [← buses.hosts.exchanges_port, AhbBridge.wbExchanges, exchanges, exchanges,
    ClockEdges.history_edge buses.wbClock]
  · congr 1
    funext j
    have ticks : (bridgeInputs powerUp inputs (edge (clk100 inputs) j)).clkWb = true :=
      buses.ticks j
    rw [ticks, ← noelvBridge_states, buses.perPorts_eq]
    rfl
  · intro n quiet
    have low : (bridgeInputs powerUp inputs n).clkWb = false := quiet
    rw [low]
    rfl

/-- The transfers of the NOEL-V are acknowledged in order, all the completed ones and
perhaps the current one. -/
theorem Buses.transfers (k : Nat) :
    (((WbMuxShared.acked (muxInputs powerUp inputs) k).filter fun event =>
        event.1 = noelv).map fun event => (event.2.1.normal, event.2.2)) =
      (completed powerUp inputs (edge (clk100 inputs) k)).map
          (fun exchange => (AhbBridge.request exchange.1, exchange.2)) ++
        AhbBridge.openExchange
          (AhbBridge.transfer hselIndex (bridgeInputs powerUp inputs) (edge (clk100 inputs) k))
          (states powerUp inputs (edge (clk100 inputs) k)).noelvBridge.answered := by
  have bridged := AhbBridge.exchanges_eq buses.sharedBus buses.qualified (edge (clk100 inputs) k)
  rw [buses.exchanges_eq, List.map_map] at bridged
  rw [noelvBridge_states]
  exact bridged

end Buses

/-- What it means for SERV and the NOEL-V to share the RAM. -/
structure SharesRam (powerUp : State) (inputs : Nat → Inputs) : Prop where
  /-- The two are linearized, -/
  linearizes : WbMuxShared.Linearizes (muxInputs powerUp inputs) cell (bytes powerUp inputs)
  /-- no request waits eight cycles of `clk100`, -/
  bounded : ∀ k port, ((muxInputs powerUp inputs k).hostPorts port).cyc = true →
    ∃ m, k ≤ m ∧ m < k + 8 ∧ (WbMux.perPortsAt (muxInputs powerUp inputs) m port).ack = true
  /-- and the bridge carries out the transfers of the NOEL-V, -/
  bridges : AhbBridge.BridgesTransfers hselIndex powerUp.noelvBridge (bridgeInputs powerUp inputs)
  /-- which the RAM executes in their order. -/
  transfers : ∀ k,
    (((WbMuxShared.acked (muxInputs powerUp inputs) k).filter fun event =>
        event.1 = noelv).map fun event => (event.2.1.normal, event.2.2)) =
      (completed powerUp inputs (edge (clk100 inputs) k)).map
          (fun exchange => (AhbBridge.request exchange.1, exchange.2)) ++
        AhbBridge.openExchange
          (AhbBridge.transfer hselIndex (bridgeInputs powerUp inputs) (edge (clk100 inputs) k))
          (states powerUp inputs (edge (clk100 inputs) k)).noelvBridge.answered
  /-- A load of the NOEL-V comes after its earlier transfers and returns, byte by byte,
  the last value that it or SERV has written. -/
  loads : ∀ k before t data after,
    completed powerUp inputs (edge (clk100 inputs) k) = before ++ (t, data) :: after →
    t.addr.hwrite = false →
    ∃ earlier request later,
      WbMuxShared.acked (muxInputs powerUp inputs) k =
        earlier ++ (noelv, request, data) :: later ∧
      ((earlier.filter fun event => event.1 = noelv).map fun event => event.2.1.normal) =
        before.map (fun exchange => AhbBridge.request exchange.1) ∧
      ∀ index, cell t.addr.haddr = some index → ∀ lane, byteLane data lane =
        (LaneMemory.lastWritten index lane
            (earlier.filterMap fun event => WbFabric.access cell event.2.1)).getD
          (powerUp.ram0.mem.bytes index lane)

theorem normal_read {request : Request} {t : Ahb.Transfer} (read : t.addr.hwrite = false)
    (normal : request.normal = AhbBridge.request t) :
    request.we = false ∧ request.adr = t.addr.haddr := by
  have weLow : request.we = false := by
    by_contra high
    have we := congrArg Request.we normal
    simp [Request.normal, show request.we = true by simpa using high, AhbBridge.request, read] at we
  have adr := congrArg Request.adr normal
  exact ⟨weLow, by simpa [Request.normal, weLow, AhbBridge.request] using adr⟩

/-- SERV and the NOEL-V share the RAM. -/
theorem noelv_shares_ram (powerUp : State) (inputs : Nat → Inputs)
    (buses : Buses powerUp inputs) : SharesRam powerUp inputs where
  linearizes := buses.linearizes
  bounded k port raised := buses.hosts.served buses.behind.answers raised
  bridges := AhbBridge.bridgesTransfers buses.sharedBus buses.qualified
  transfers := buses.transfers
  loads k before t data after split read := by
    have transfers := buses.transfers k
    rw [split, List.map_append, List.map_cons, List.append_assoc, List.cons_append] at transfers
    obtain ⟨mine, others, whole, before_eq, rest⟩ := List.map_eq_append_iff.mp transfers
    obtain ⟨⟨port, request, data'⟩, tail, rfl, same, -⟩ := List.map_eq_cons_iff.mp rest
    obtain ⟨normal, rfl⟩ := Prod.mk.inj same
    obtain ⟨first, second, acked, first_eq, second_eq⟩ := List.filter_eq_append_iff.mp whole
    obtain ⟨between, later, rfl, foreign, port_eq, -⟩ := List.filter_eq_cons_iff.mp second_eq
    obtain rfl : port = noelv := of_decide_eq_true port_eq
    rw [← List.append_assoc] at acked
    refine ⟨first ++ between, request, later, acked, ?_, fun index mapped lane => ?_⟩
    · rw [List.filter_append, List.filter_eq_nil_iff.mpr foreign, List.append_nil, first_eq]
      have firsts := congrArg (List.map Prod.fst) before_eq
      simpa [List.map_map, Function.comp_def] using firsts
    · obtain ⟨reads, adr⟩ := normal_read read normal
      have initial : bytes powerUp inputs 0 = powerUp.ram0.mem.bytes := by
        change (ram0 powerUp inputs 0).mem.bytes = _
        rw [buses.ram0_first]
        rfl
      rw [← initial]
      exact buses.linearizes.read k _ _ _ _ _ index acked reads
        (adr ▸ mapped) lane

end Runs

/-! ### SERV stores a halfword and the NOEL-V loads the word -/

/-- The board as a simulator leaves it before reset. -/
def powerUp : State :=
  ⟨WbMux.regZero, ⟨MmregDecoder.zeroReg, fun _ => 0⟩, AhbBridge.powerUp⟩

/-- SERV stores the halfword `0xcafe` to `0x40000`, and the NOEL-V loads the word from
there.  `clk50` rises with every other edge of `clk100`. -/
def storeLoad (n : Nat) : Inputs where
  clk100 := true
  clk50 := n % 2 == 0
  reset := false
  ram0WbHost := if n < 3 then ⟨0x40000, 0xba11cafe, 0b0011, true, true⟩ else HostBus.new
  noelvAhbsi :=
    { hsel := fun index => decide (index = 1 ∧ n < 1)
      haddr := 0x40000
      hwrite := false
      htrans := Ahb.htransNonseq
      hsize := 2
      hwdata := 0
      hready := decide (n < 1 ∨ 29 ≤ n) }

theorem storeLoad_unselected {n : Nat} (late : 1 ≤ n) :
    (bridgeInputs powerUp storeLoad n).ahbsi.starts hselIndex = false := by
  change (storeLoad n).noelvAhbsi.starts hselIndex = false
  simp [storeLoad, Ahb.SlvIn.starts, show ¬ n < 1 by omega]

theorem storeLoad_transfer {n : Nat} (late : 31 ≤ n) :
    AhbBridge.transfer hselIndex (bridgeInputs powerUp storeLoad) n = none := by
  induction n, late using Nat.le_induction with
  | base => decide +kernel
  | succ n late free =>
      by_cases advances : AhbBridge.Advances (bridgeInputs powerUp storeLoad) n
      · rw [AhbBridge.transfer_of_advance hselIndex advances, storeLoad_unselected (by omega)]
        rfl
      · exact AhbBridge.transfer_none_of_stay advances free

theorem lt_of_storeLoad_transfer {n : Nat}
    (owned : (AhbBridge.transfer hselIndex (bridgeInputs powerUp storeLoad) n).isSome) :
    n < 31 := by
  by_contra late
  simp [storeLoad_transfer (n := n) (by omega)] at owned

/-- The bridge when it has answered. -/
def answered : AhbBridge.State := (states powerUp storeLoad 31).noelvBridge

theorem answered_rests (i : AhbBridge.Inputs) (clkWb : i.clkWb = true) (rst : i.rst = false)
    (unselected : i.ahbsi.starts hselIndex = false) :
    AhbBridge.step hselIndex i answered = answered := by
  have ahbIdle : answered.ahb.ahbState = .ahbIdle := by decide +kernel
  have wbIdle : answered.wb.wbState = .wbIdle := by decide +kernel
  have unseen : answered.wb.wbReqChain.sync = false := by decide +kernel
  cases clkAhb : i.clkAhb
  all_goals
    simp only [AhbBridge.step, AhbBridge.ahbEdge, AhbBridge.wbEdge, clkAhb, clkWb, rst,
      unselected, ahbIdle, wbIdle, unseen, if_true, Bool.false_eq_true, if_false]
    decide +kernel

/-- From here on the bus is free. -/
theorem storeLoad_rest (n : Nat) (late : 31 ≤ n) :
    (states powerUp storeLoad n).ramMux.state = .idle ∧
      (states powerUp storeLoad n).noelvBridge = answered := by
  induction n, late using Nat.le_induction with
  | base => exact ⟨by decide +kernel, rfl⟩
  | succ n late ih =>
      obtain ⟨idle, bridge⟩ := ih
      have low : ∀ port, ((states powerUp storeLoad n).ramMuxHostPorts (storeLoad n) port).cyc =
          false := by
        intro port
        rcases port_cases port with rfl | rfl
        · simp [State.ramMuxHostPorts, storeLoad, show ¬ n < 3 by omega, HostBus.new]
        · rw [State.ramMuxHostPorts, if_neg (by decide), bridge]
          decide +kernel
      constructor
      · change (WbMux.comb false _ _ (states powerUp storeLoad n).ramMux).state = _
        simp [WbMux.comb, idle, low]
      · change AhbBridge.step _ _ (states powerUp storeLoad n).noelvBridge = _
        rw [bridge]
        exact answered_rests _ rfl rfl (storeLoad_unselected (by omega))

theorem storeLoad_buses : Buses powerUp storeLoad where
  noReset _ := rfl
  wbClock n := ⟨n, le_rfl, rfl⟩
  ahbClock n := ⟨2 * n, by omega, by simp [storeLoad]⟩
  servStill n quiet := by cases quiet
  servHeld n tick raised := by
    have early : n < 3 := by
      by_contra late
      simp [storeLoad, late, HostBus.new] at raised
    clear tick
    revert raised
    revert n early
    decide +kernel
  servDropped n tick acks := by
    by_cases early : n < 2
    · clear tick
      revert acks
      revert n early
      decide +kernel
    · simp [storeLoad, show ¬ n + 1 < 3 by omega, HostBus.new]
  owned n owned := by
    have early := lt_of_storeLoad_transfer owned
    revert owned
    revert n early
    decide +kernel
  addrHeld n starts := by
    have early : n < 1 := by
      by_contra late
      exact Bool.false_ne_true ((storeLoad_unselected (n := n) (by omega)).symm.trans starts)
    revert starts
    revert n early
    decide +kernel
  dataHeld n _ _ := rfl
  qualified n _ _ starts := by
    have early : n < 1 := by
      by_contra late
      rw [storeLoad_unselected (by omega)] at starts
      cases starts
    obtain rfl : n = 0 := by omega
    rfl
  mapped n raised := by
    have early : n < 31 := by
      by_contra late
      rw [State.ram0WbHostMuxed, WbMux.hostPort, (storeLoad_rest n (by omega)).1] at raised
      cases raised
    revert raised
    revert n early
    decide +kernel

theorem noelv_shares_ram_storeLoad :
    completed powerUp storeLoad 31 =
        [(⟨⟨0x40000, false, 2⟩, 0⟩, 0xcafe)] ∧
      SharesRam powerUp storeLoad :=
  ⟨by decide +kernel, noelv_shares_ram powerUp storeLoad storeLoad_buses⟩

end NoelvRam

end Cocoapuffs

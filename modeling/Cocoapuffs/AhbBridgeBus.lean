import Cocoapuffs.AhbBridgeTransfer

/-!
# The bridge on a shared bus and on its own

An idle bridge captures an address phase without looking at the bus `hready`.
Where every such capture is one that the bus accepts, the bridge produces one
Wishbone cycle for each accepted transfer.  A bridge that is the only slave to
insert wait states always captures in time, and is a byte memory in AHB order.
-/

namespace Cocoapuffs

theorem Request.apply_normal (request : Request) (memory : WordMemory) :
    request.normal.apply memory = request.apply memory := by
  cases write : request.we <;> simp [normal, apply, write]

theorem Request.applyAll_map_normal (memory : WordMemory) (requests : List Request) :
    Request.applyAll memory (requests.map Request.normal) =
      Request.applyAll memory requests := by
  rw [applyAll, List.foldl_map]
  simp only [Request.apply_normal]
  rfl

namespace AhbBridge

open Ahb

/-- What it means to carry out the transfers of the bus. -/
structure BridgesTransfers (index : Nat) (start : State) (inputs : Nat → Inputs) : Prop where
  /-- The transfers are the accepted address phases. -/
  accounted : ∀ n, accepted (fun n => (inputs n).clkAhb) (fun n => (inputs n).ahbsi) index n =
    (completed index start inputs n).map (fun exchange => exchange.1.addr) ++
      ((transfer index inputs n).map Transfer.addr).toList
  /-- A Wishbone cycle carries the transfer whose data phase is on the bus, -/
  carries : ∀ n, (states index start inputs n).wbo.cyc = true →
    ∃ t, transfer index inputs n = some t ∧
      (states index start inputs n).wbo.request.normal = request t
  /-- and does not change while it lasts. -/
  stable : ∀ n, (states index start inputs n).wbo.cyc = true →
    (states index start inputs (n + 1)).wbo.cyc = true →
    (states index start inputs (n + 1)).wbo = (states index start inputs n).wbo
  /-- The cycles are those of the transfers, each once and in order: all the
  completed ones, and perhaps the current one. -/
  once : ∀ n,
    (completed index start inputs n).map (fun exchange => request exchange.1) <+:
        (wbRequests index start inputs n).map Request.normal ∧
      (wbRequests index start inputs n).map Request.normal <+:
        (completed index start inputs n).map (fun exchange => request exchange.1) ++
          ((transfer index inputs n).map request).toList
  /-- Every accepted transfer completes. -/
  completes : ∀ n, ∃ m, n ≤ m ∧
    (accepted (fun n => (inputs n).clkAhb) (fun n => (inputs n).ahbsi) index n).length ≤
      (completed index start inputs m).length

section SharedBus

variable {index : Nat} {start : State} {inputs : Nat → Inputs}
  (bus : SharedBus index start inputs) (qualified : ∀ n, Qualified index start inputs n)

theorem accounted (index : Nat) (start : State) (inputs : Nat → Inputs) (n : Nat) :
    accepted (fun n => (inputs n).clkAhb) (fun n => (inputs n).ahbsi) index n =
      (completed index start inputs n).map (fun exchange => exchange.1.addr) ++
        ((transfer index inputs n).map Transfer.addr).toList := by
  rw [accepted_eq fun n => (states index start inputs n).ahbso, transfer, current,
    Option.map_map]
  congr 1
  cases dataPhase (fun n => (inputs n).clkAhb) (fun n => (inputs n).ahbsi) index n <;> rfl

include bus qualified

theorem advance_of_transfer :
    Trace.LeadsTo (fun n => (transfer index inputs n).isSome) (Advances inputs) := by
  intro n owned
  by_contra never
  push Not at never
  have same : ∀ m, n ≤ m → transfer index inputs m = transfer index inputs n := by
    intro m le
    induction m, le using Nat.le_induction with
    | base => rfl
    | succ m le ih => exact (transfer_of_stay bus (never m le)).trans ih
  have waits : Trace.LeadsTo
      (fun n => (states index start inputs n).ahb.ahbState = .ahbDataPhase)
      (fun n => (states index start inputs n).ahb.ahbState = .ahbWaitAck) := by
    refine Trace.LeadsTo.of_recurs bus.ahbClock (fun n data quiet => ?_)
      (fun n data tick => ?_)
    · rcases ahbMove_states index start bus.noReset n <;> simp_all
    · rcases ahbMove_states index start bus.noReset n <;> simp_all
  have ends := (cleanup_of_waitAck bus).trans (idle_of_cleanup bus)
  obtain ⟨first, le, idle⟩ : ∃ m, n ≤ m ∧
      (states index start inputs m).ahb.ahbState = .ahbIdle := by
    cases phase : (states index start inputs n).ahb.ahbState with
    | ahbIdle => exact ⟨n, le_rfl, phase⟩
    | ahbDataPhase => exact waits.trans ends n phase
    | ahbWaitAck => exact ends n phase
    | ahbCleanup => exact idle_of_cleanup bus n phase
  have stays : ∀ m, first ≤ m → (states index start inputs m).ahb.ahbState = .ahbIdle := by
    intro m after
    induction m, after using Nat.le_induction with
    | base => exact idle
    | succ m after ih => exact (stays_idle bus (qualified m) (never m (by omega)) ih).1
  obtain ⟨edge, after, tick⟩ := bus.ahbClock first
  refine never edge (by omega) ⟨tick, ?_⟩
  rw [bus.owned edge (by rw [same edge (by omega)]; exact owned)]
  simp [State.ahbso, (control_states index start bus.noReset edge).hready, stays edge after]

theorem wbRequests_normal (n : Nat) :
    ∃ begun, begun <+: ((transfer index inputs n).map request).toList ∧
      (wbRequests index start inputs n).map Request.normal =
        (completed index start inputs n).map (fun exchange => request exchange.1) ++ begun := by
  have control := control_states index start bus.noReset n
  have owns := owns_states bus qualified n
  have exchanged : (wbExchanges index start inputs n).map (fun exchange => exchange.1.normal) =
      (completed index start inputs n).map (fun exchange => request exchange.1) ++
        (openExchange (transfer index inputs n)
          (states index start inputs n).answered).map Prod.fst := by
    have pairs := congrArg (List.map Prod.fst) (exchanges_eq bus qualified n)
    simpa [List.map_append, List.map_map, Function.comp_def] using pairs
  rw [wbRequests_eq index start bus.noReset n, List.map_append, List.map_map,
    Function.comp_def, exchanged, List.append_assoc]
  refine ⟨_, ?_, rfl⟩
  cases cyc : (states index start inputs n).wbo.cyc with
  | true =>
      have busy : (states index start inputs n).wb.wbState = .wbWait := by
        simpa [State.wbo, control.cyc] using cyc
      have waiting := control.waitAck_of_busy (Or.inr busy)
      obtain ⟨t, owned, same⟩ := owns.wait waiting
      have unanswered : (states index start inputs n).answered = none := by
        simp [State.answered, waiting, busy]
      rw [unanswered, openExchange_none, owned, owns.busy (Or.inr busy)]
      simp [same]
  | false =>
      cases transfer index inputs n <;> cases (states index start inputs n).answered <;>
        simp [openExchange]

theorem bridgesTransfers : BridgesTransfers index start inputs where
  accounted := accounted index start inputs
  carries n cyc := by
    have control := control_states index start bus.noReset n
    have owns := owns_states bus qualified n
    have busy : (states index start inputs n).wb.wbState = .wbWait := by
      simpa [State.wbo, control.cyc] using cyc
    rw [owns.busy (Or.inr busy)]
    exact owns.wait (control.waitAck_of_busy (Or.inr busy))
  stable n cyc cyc' := by
    have high := (control_states index start bus.noReset n).cyc
    have high' := (control_states index start bus.noReset (n + 1)).cyc
    simp only [State.wbo, high, high', decide_eq_true_eq] at cyc cyc'
    rcases wbMove_states index start bus.noReset n <;> simp_all
  once n := by
    obtain ⟨begun, current, begun_eq⟩ := wbRequests_normal bus qualified n
    rw [begun_eq]
    exact ⟨List.prefix_append _ _, (List.prefix_append_right_inj _).mpr current⟩
  completes n := by
    cases owned : transfer index inputs n with
    | none =>
        refine ⟨n, le_rfl, ?_⟩
        rw [accounted index start inputs n, owned]
        simp
    | some t =>
        obtain ⟨m, le, advances⟩ := advance_of_transfer bus qualified n (by simp [owned])
        have grown := (Trace.history_prefix (fun n =>
          if (inputs n).clkAhb && ((inputs n).ahbsi.hready && (inputs n).ahbsi.starts index)
          then some (inputs n).ahbsi.addressPhase else none) le).length_le
        refine ⟨m + 1, by omega, grown.trans ?_⟩
        change (accepted (fun n => (inputs n).clkAhb) (fun n => (inputs n).ahbsi) index
          m).length ≤ _
        rw [accounted index start inputs m, completed_succ_of_advance index start advances]
        cases transfer index inputs m <;> simp

end SharedBus

/-- In every run in which an idle bridge only sees address phases that the bus
accepts, the bridge carries out the transfers of the bus. -/
theorem ahbBridge_bridgesTransfers (index : Nat) (start : State) (inputs : Nat → Inputs)
    (bus : SharedBus index start inputs)
    (qualified : ∀ n, Qualified index start inputs n) :
    BridgesTransfers index start inputs :=
  bridgesTransfers bus qualified

/-! ### A store with and without another slave's wait state before it -/

/-- Registers as a simulator leaves them before reset. -/
def powerUp : State :=
  ⟨⟨.ahbIdle, 0, 0, false, true, 0, false, SyncChain.zero, 0⟩,
    ⟨.wbIdle, SyncChain.zero, false, 0, 0, false, false, 0, 0⟩⟩

/-- A store of `0xbeef` to `0x100`, in the pipeline behind a store of `0xaaaa`
to another slave, which may insert one wait state.  Both clocks rise together. -/
def storeAfter (wait : Bool) (n : Nat) : Inputs :=
  let accept := if wait then 2 else 1
  { clkAhb := true
    clkWb := true
    rst := false
    ahbsi :=
      { hsel := fun _ => decide (1 ≤ n ∧ n ≤ accept)
        haddr := 0x100
        hwrite := true
        htrans := htransNonseq
        hsize := 2
        hwdata := if n ≤ accept then 0xaaaa else 0xbeef
        hready := decide (n < 1 ∨ n = accept ∨ 22 ≤ n) }
    wbi := ⟨0, decide (n = 9)⟩ }

theorem storeAfter_unselected (wait : Bool) {n : Nat} (le : 3 ≤ n) :
    (storeAfter wait n).ahbsi.starts 0 = false := by
  have late : ¬ n ≤ 2 ∧ ¬ n ≤ 1 := by omega
  cases wait <;> simp [storeAfter, SlvIn.starts, late]

theorem storeAfter_rest (wait : Bool) {n : Nat} (le : 24 ≤ n) :
    states 0 powerUp (storeAfter wait) n = states 0 powerUp (storeAfter wait) 24 := by
  refine Trace.run_at_rest rfl (fun n le => ?_) le
  have idle : (states 0 powerUp (storeAfter wait) 24).ahb.ahbState = .ahbIdle := by
    cases wait <;> decide +kernel
  have unacked : (storeAfter wait n).wbi = (storeAfter wait 24).wbi := by
    simp [storeAfter, show n ≠ 9 by omega]
  have same : step 0 (storeAfter wait n) (states 0 powerUp (storeAfter wait) 24) =
      step 0 (storeAfter wait 24) (states 0 powerUp (storeAfter wait) 24) := by
    simp only [step, ahbEdge, idle, unacked, storeAfter_unselected wait (n := n) (by omega),
      storeAfter_unselected wait (n := 24) (by decide)]
    rfl
  rw [same]
  cases wait <;> decide +kernel

theorem storeAfter_transfer (wait : Bool) {n : Nat} (le : 23 ≤ n) :
    transfer 0 (storeAfter wait) n = none := by
  obtain ⟨n, rfl⟩ := Nat.exists_eq_add_of_le' (show 1 ≤ n by omega)
  have ready : (storeAfter wait n).ahbsi.hready = true := by
    simp [storeAfter, show 22 ≤ n by omega]
  rw [transfer_of_advance 0 ⟨rfl, ready⟩, storeAfter_unselected wait (by omega)]
  simp

theorem lt_of_storeAfter_transfer (wait : Bool) {n : Nat}
    (owned : (transfer 0 (storeAfter wait) n).isSome) : n < 23 := by
  by_contra late
  simp [storeAfter_transfer wait (n := n) (by omega)] at owned

theorem storeAfter_sharedBus (wait : Bool) :
    SharedBus 0 powerUp (storeAfter wait) where
  noReset _ := rfl
  ahbClock n := ⟨n, le_rfl, rfl⟩
  wbClock n := ⟨n, le_rfl, rfl⟩
  owned n owned := by
    have early := lt_of_storeAfter_transfer wait owned
    revert owned
    revert n early
    cases wait <;> decide +kernel
  addrHeld n starts := by
    have early : n < 3 := by
      by_contra late
      simp [storeAfter_unselected wait (n := n) (by omega)] at starts
    revert starts
    revert n early
    cases wait <;> decide +kernel
  dataHeld n owned := by
    have early := lt_of_storeAfter_transfer wait owned
    revert owned
    revert n early
    cases wait <;> decide +kernel
  serves := by
    apply Serves.of_rest 24
    · intro n late
      rw [storeAfter_rest wait late]
      cases wait <;> decide +kernel
    · cases wait <;> decide +kernel

theorem ahbBridge_bridgesTransfers_atOnce :
    wbRequests 0 powerUp (storeAfter false) 24 = [⟨0x100, 0xbeef, 0xf, true⟩] ∧
      BridgesTransfers 0 powerUp (storeAfter false) := by
  refine ⟨by decide +kernel, ahbBridge_bridgesTransfers 0 powerUp (storeAfter false)
    (storeAfter_sharedBus false) fun n tick idle starts => ?_⟩
  have early : n < 3 := by
    by_contra late
    simp [storeAfter_unselected false (n := n) (by omega)] at starts
  revert tick idle starts
  revert n early
  decide +kernel

/-- Behind a wait state the bridge captures too soon, and stores the data of the
other slave. -/
theorem ahbBridge_wait_stale :
    wbRequests 0 powerUp (storeAfter true) 24 = [⟨0x100, 0xaaaa, 0xf, true⟩] ∧
      SharedBus 0 powerUp (storeAfter true) ∧
      ¬ BridgesTransfers 0 powerUp (storeAfter true) := by
  refine ⟨by decide +kernel, storeAfter_sharedBus true, fun bridges => ?_⟩
  have once := (bridges.once 24).1
  revert once
  decide +kernel

/-! ### The bridge as the only slave that waits -/

/-- The bus of a bridge whose own `hready` is the bus `hready`. -/
structure SoleSlave (index : Nat) (start : State) (inputs : Nat → Inputs) : Prop where
  noReset : ∀ n, (inputs n).rst = false
  ahbClock : Trace.Recurs fun n => (inputs n).clkAhb = true
  wbClock : Trace.Recurs fun n => (inputs n).clkWb = true
  ready : ∀ n, (inputs n).ahbsi.hready = (states index start inputs n).ahbso.hready
  addrHeld : ∀ n, (inputs n).ahbsi.starts index = true → ¬ Advances inputs n →
    (inputs (n + 1)).ahbsi.starts index = true ∧
      (inputs (n + 1)).ahbsi.addressPhase = (inputs n).ahbsi.addressPhase
  dataHeld : ∀ n, (transfer index inputs n).isSome → ¬ Advances inputs n →
    (inputs (n + 1)).ahbsi.hwdata = (inputs n).ahbsi.hwdata
  serves : Serves (fun n => (inputs n).clkWb) (fun n => (states index start inputs n).wbo)
    fun n => (inputs n).wbi

/-- What it means to be a byte memory in AHB order. -/
structure ByteMemory (index : Nat) (start : State) (inputs : Nat → Inputs) : Prop where
  bridges : BridgesTransfers index start inputs
  /-- `hready` rises when the current transfer's cycle has been acknowledged, -/
  ready_acked : ∀ n, (states index start inputs n).ahbso.hready = false →
    (states index start inputs (n + 1)).ahbso.hready = true →
    ∃ t, transfer index inputs n = some t ∧
      (wbExchanges index start inputs n).map (fun exchange => exchange.1.normal) =
        (completed index start inputs n).map (fun exchange => request exchange.1) ++
          [request t]
  /-- and `hrdata` is what came with that acknowledge. -/
  returned : ∀ n,
    (completed index start inputs n).map (fun exchange => (request exchange.1, exchange.2)) <+:
      (wbExchanges index start inputs n).map
        fun exchange => (exchange.1.normal, exchange.2)
  /-- With a word memory behind the bridge, each byte that a read returns is the
  last one stored to its address. -/
  read : ∀ (memory : Nat → WordMemory),
    MemorySlave (fun n => (inputs n).clkWb) (fun n => (states index start inputs n).wbo)
      (fun n => (inputs n).wbi) memory →
    ∀ n before t data after,
      completed index start inputs n = before ++ (t, data) :: after →
      (∀ exchange ∈ before, exchange.1.addr.Aligned) → t.addr.hwrite = false →
      ∀ lane, byteLane data lane =
        (LaneMemory.lastWritten (wordIndex t.addr.haddr) lane
            (before.map fun exchange => exchange.1.access)).getD
          ((memory 0).bytes (wordIndex t.addr.haddr) lane)

theorem strobes_table : ∀ (hsize : BitVec 3) (low : BitVec 2) (lane : Fin 4),
    hsize.toNat ≤ 2 → low.toNat % 2 ^ hsize.toNat = 0 →
    (match hsize.extractLsb' 0 2 with
      | 0b00 =>
          match low with
          | 0b00 => (0b0001 : BitVec 4)
          | 0b01 => 0b0010
          | 0b10 => 0b0100
          | _ => 0b1000
      | 0b01 => if low.getLsbD 1 = false then 0b0011 else 0b1100
      | _ => 0b1111).getLsbD lane =
      decide (low.toNat ≤ lane ∧ lane < low.toNat + 2 ^ hsize.toNat) := by
  decide +kernel

theorem request_access {t : Transfer} (aligned : t.addr.Aligned) :
    (request t).access = t.access := by
  obtain ⟨small, divides⟩ := aligned
  have low : (t.addr.haddr.extractLsb' 0 2).toNat = t.addr.haddr.toNat % 4 := by
    simp [BitVec.extractLsb'_toNat]
  have bit : t.addr.haddr.getLsbD 1 = (t.addr.haddr.extractLsb' 0 2).getLsbD 1 := by
    simp
  have lowDivides :
      (t.addr.haddr.extractLsb' 0 2).toNat % 2 ^ t.addr.hsize.toNat = 0 := by
    have factor : 2 ^ t.addr.hsize.toNat ∣ 4 := Nat.pow_dvd_pow 2 small
    rw [low, Nat.mod_mod_of_dvd _ factor, divides]
  have sel : ∀ lane : Fin 4, (strobes t.addr.hsize t.addr.haddr).getLsbD lane =
      decide (t.addr.haddr.toNat % 4 ≤ lane ∧
        lane < t.addr.haddr.toNat % 4 + 2 ^ t.addr.hsize.toNat) := by
    intro lane
    have table := strobes_table _ _ lane small lowDivides
    rw [low, ← bit] at table
    exact table
  unfold Request.access Transfer.access request
  congr 1
  funext lane
  exact sel lane

section SoleSlave

variable {index : Nat} {start : State} {inputs : Nat → Inputs}

theorem SoleSlave.sharedBus (sole : SoleSlave index start inputs) :
    SharedBus index start inputs where
  noReset := sole.noReset
  ahbClock := sole.ahbClock
  wbClock := sole.wbClock
  owned n _ := sole.ready n
  addrHeld := sole.addrHeld
  dataHeld := sole.dataHeld
  serves := sole.serves

/-- The bridge's own `hready` qualifies every address phase it sees idle. -/
theorem SoleSlave.qualified (sole : SoleSlave index start inputs) (n : Nat) :
    Qualified index start inputs n := by
  intro _ idle _
  rw [sole.ready n]
  simp [State.ahbso, (control_states index start sole.noReset n).hready, idle]

theorem cleanup_of_ready (noReset : ∀ n, (inputs n).rst = false) {n : Nat}
    (low : (states index start inputs n).ahbso.hready = false)
    (high : (states index start inputs (n + 1)).ahbso.hready = true) :
    (states index start inputs n).ahb.ahbState = .ahbCleanup := by
  have hready := (control_states index start noReset n).hready
  have hready' := (control_states index start noReset (n + 1)).hready
  simp only [State.ahbso] at low high
  rcases ahbMove_states index start noReset n with
    ⟨state, _, _, _, _, _, _⟩ | ⟨_, idle, _, _, _, _⟩ | ⟨_, _, state, _, _⟩ |
    ⟨_, _, _, state, _, _⟩ | ⟨_, cleanup, _, _, _, _⟩
  · rw [hready', state, ← hready, low] at high
    cases high
  · simp [hready, idle] at low
  · simp [hready', state] at high
  · simp [hready', state] at high
  · exact cleanup

/-- A completed read returns the memory that the transfers before it have
left. -/
theorem completed_read (bus : SharedBus index start inputs)
    (qualified : ∀ n, Qualified index start inputs n) {memory : Nat → WordMemory}
    (slave : MemorySlave (fun n => (inputs n).clkWb)
      (fun n => (states index start inputs n).wbo) (fun n => (inputs n).wbi) memory)
    {n : Nat} {before after : List (Transfer × BitVec 32)} {t : Transfer} {data : BitVec 32}
    (split : completed index start inputs n = before ++ (t, data) :: after)
    (read : t.addr.hwrite = false) :
    data = (Request.applyAll (memory 0) (before.map fun exchange => request exchange.1)).word
      t.addr.haddr := by
  have exchanged := exchanges_eq bus qualified n
  rw [split, List.map_append, List.map_cons, List.append_assoc, List.cons_append] at exchanged
  obtain ⟨earlier, rest, whole, earlier_eq, rest_eq⟩ := List.map_eq_append_iff.mp exchanged
  obtain ⟨⟨r, d⟩, later, rfl, same, _⟩ := List.map_eq_cons_iff.mp rest_eq
  obtain ⟨normal, rfl⟩ := Prod.mk.inj same
  have weLow : r.we = false := by
    have we := congrArg Request.we normal
    by_contra high
    simp [Request.normal, show r.we = true by simpa using high, request, read] at we
  have adr : r.adr = t.addr.haddr := by
    have adr := congrArg Request.adr normal
    simpa [Request.normal, weLow, request] using adr
  have requests : (earlier.map Prod.fst).map Request.normal =
      before.map fun exchange => request exchange.1 := by
    have firsts := congrArg (List.map Prod.fst) earlier_eq
    simpa [List.map_map, Function.comp_def] using firsts
  rw [← requests, Request.applyAll_map_normal, ← adr]
  exact slave.exchange_read n whole weLow

/-- A bridge that is the only slave to wait is a byte memory in AHB order. -/
theorem ahbBridge_byteMemory (index : Nat) (start : State) (inputs : Nat → Inputs)
    (sole : SoleSlave index start inputs) : ByteMemory index start inputs where
  bridges := bridgesTransfers sole.sharedBus sole.qualified
  ready_acked n low high := by
    have cleanup := cleanup_of_ready sole.noReset low high
    obtain ⟨t, owned⟩ := (owns_states sole.sharedBus sole.qualified n).cleanup cleanup
    have exchanged := congrArg (List.map Prod.fst)
      (exchanges_eq sole.sharedBus sole.qualified n)
    refine ⟨t, owned, ?_⟩
    simpa [List.map_map, Function.comp_def, owned, State.answered, cleanup, openExchange]
      using exchanged
  returned n := by
    rw [exchanges_eq sole.sharedBus sole.qualified n]
    exact List.prefix_append _ _
  read memory slave n before t data after split aligned read lane := by
    rw [completed_read sole.sharedBus sole.qualified slave split read]
    have bytes := Request.applyAll_bytes (memory 0)
      (before.map fun exchange => request exchange.1) (wordIndex t.addr.haddr) lane
    have accesses : (before.map fun exchange => request exchange.1).map Request.access =
        before.map fun exchange => exchange.1.access := by
      rw [List.map_map]
      exact List.map_congr_left fun exchange mem => request_access (aligned exchange mem)
    rw [accesses] at bytes
    exact bytes

end SoleSlave

/-- A store of the byte at `0x101`, and a load of its word in the pipeline behind
it. -/
def storeLoad (n : Nat) : Inputs where
  clkAhb := true
  clkWb := true
  rst := false
  ahbsi :=
    { hsel := fun _ => decide (1 ≤ n ∧ n ≤ 22)
      haddr := if n ≤ 1 then 0x101 else 0x100
      hwrite := decide (n ≤ 1)
      htrans := htransNonseq
      hsize := if n ≤ 1 then 0 else 2
      hwdata := 0xab00
      hready := decide (n ≤ 1 ∨ n = 22 ∨ 43 ≤ n) }
  wbi := ⟨if n ≤ 20 then 0 else 0xabfe, decide (n = 9 ∨ n = 30)⟩

theorem storeLoad_late {n : Nat} (le : 43 ≤ n) : storeLoad n = storeLoad 43 := by
  have late : ¬ n ≤ 22 ∧ ¬ n ≤ 20 ∧ ¬ n ≤ 1 ∧ n ≠ 22 ∧ n ≠ 9 ∧ n ≠ 30 := by omega
  simp [storeLoad, late, le]

theorem storeLoad_rest {n : Nat} (le : 43 ≤ n) :
    states 0 powerUp storeLoad n = states 0 powerUp storeLoad 43 := by
  refine Trace.run_at_rest rfl (fun n le => ?_) le
  rw [storeLoad_late le]
  decide +kernel

theorem storeLoad_soleSlave : SoleSlave 0 powerUp storeLoad where
  noReset _ := rfl
  ahbClock n := ⟨n, le_rfl, rfl⟩
  wbClock n := ⟨n, le_rfl, rfl⟩
  ready n := by
    by_cases early : n < 43
    · revert n early
      decide +kernel
    · rw [storeLoad_rest (by omega), storeLoad_late (by omega)]
      decide +kernel
  addrHeld n starts := by
    have early : n < 43 := by
      by_contra late
      rw [storeLoad_late (by omega)] at starts
      revert starts
      decide +kernel
    revert starts
    revert n early
    decide +kernel
  dataHeld n _ _ := rfl
  serves := by
    apply Serves.of_rest 43
    · intro n late
      rw [storeLoad_rest late]
      decide +kernel
    · decide +kernel

theorem ahbBridge_byteMemory_storeLoad :
    completed 0 powerUp storeLoad 44 =
        [(⟨⟨0x101, true, 0⟩, 0xab00⟩, 0), (⟨⟨0x100, false, 2⟩, 0⟩, 0xabfe)] ∧
      ByteMemory 0 powerUp storeLoad :=
  ⟨by decide +kernel, ahbBridge_byteMemory 0 powerUp storeLoad storeLoad_soleSlave⟩

end AhbBridge

end Cocoapuffs

import Cocoapuffs.Tl2wb
import Cocoapuffs.TlEthernet

/-!
# Which requests the single-beat ports execute

Neither `tl2wb` nor `tl_ethernet` looks at its own `a_ready` when it takes a
request.  Their accepted requests are the executed ones as long as no request is
valid in an idle cycle without `a_ready`.
-/

namespace Cocoapuffs

namespace TlPort

open TileLink

/-- Both ports execute the accepted requests, each once, in every run in which
idle ports are ready for what they see and each response is taken once. -/
theorem tlPorts_executeOnce (start : Tl2wb.State) (inputs : Nat → Tl2wb.Inputs)
    (baseAddress : BitVec 32) (ethernetStart : TlEthernet.State)
    (ethernetInputs : Nat → TlEthernet.Inputs) :
    ((∀ n, (inputs n).rst = false) → Tl2wb.AnsweringSlave start inputs →
      Master (Tl2wb.ports start inputs) (fun n => (inputs n).tlI) →
      (∀ n, Accepting (Tl2wb.ports start inputs) (fun n => (inputs n).tlI) n) →
      (∀ n, Timely (Tl2wb.ports start inputs) (fun n => (inputs n).tlI) n) →
      ExecutesOnce (Tl2wb.ports start inputs) (fun n => (inputs n).tlI)
        (fun a => some (Tl2wb.request a)) (Tl2wb.wbRequests start inputs)) ∧
    ((∀ n, (ethernetInputs n).rst = false) →
      Master (TlEthernet.ports baseAddress ethernetStart ethernetInputs)
        (fun n => (ethernetInputs n).tlI) →
      (∀ n, Accepting (TlEthernet.ports baseAddress ethernetStart ethernetInputs)
        (fun n => (ethernetInputs n).tlI) n) →
      (∀ n, Timely (TlEthernet.ports baseAddress ethernetStart ethernetInputs)
        (fun n => (ethernetInputs n).tlI) n) →
      ExecutesOnce (TlEthernet.ports baseAddress ethernetStart ethernetInputs)
          (fun n => (ethernetInputs n).tlI) (TlEthernet.registerWrite baseAddress)
          (TlEthernet.registerWrites baseAddress ethernetStart ethernetInputs) ∧
        ∀ n, (TlEthernet.states baseAddress ethernetStart ethernetInputs n).registers =
          (TlEthernet.registerWrites baseAddress ethernetStart ethernetInputs n).foldl
            TlEthernet.RegisterWrite.apply TlEthernet.Registers.zero) := by
  constructor
  · intro noReset slave master accepting timely
    exact Tl2wb.executesOnce noReset slave master accepting timely
  · intro noReset master accepting timely
    exact ⟨TlEthernet.executesOnce baseAddress noReset master accepting timely,
      TlEthernet.registers_eq baseAddress noReset ethernetStart⟩

/-! ### A second request that comes early -/

def put (data : BitVec 32) (valid : Bool) : AType :=
  ⟨opPutFullData, 0, 2, 1, 0x40, 0xf, data, false, valid⟩

/-- A store of 1 that is accepted at once, and a store of 2 from the next cycle on. -/
def stores (n : Nat) : HostType :=
  ⟨if n ≤ 1 then put 1 (decide (n = 1)) else put 2 true, true⟩

theorem stores_master {port : Nat → Port} (ready : (port 1).tlO.aReady = true) :
    Master port stores where
  held n valid unready := by
    rcases Nat.lt_or_ge n 2 with early | late
    · interval_cases n
      · simp [stores, put] at valid
      · simp [ready] at unready
    · have past : ¬ n ≤ 1 ∧ ¬ n + 1 ≤ 1 := by omega
      simp [stores, past]
  takes n _ := ⟨n, le_rfl, rfl⟩

/-- A store of a byte, and a load of its word ten cycles later. -/
def storeLoad (n : Nat) : HostType :=
  ⟨if n ≤ 6 then ⟨opPutPartialData, 0, 2, 1, 0x40, 0b0010, 0xab00, false, decide (n = 1)⟩
    else ⟨opGet, 0, 2, 2, 0x40, 0b1111, 0, false, decide (n = 12)⟩, true⟩

theorem storeLoad_valid {n : Nat} (valid : (storeLoad n).a.valid = true) : n = 1 ∨ n = 12 := by
  by_cases early : n ≤ 6
  · left
    simpa [storeLoad, early] using valid
  · right
    simpa [storeLoad, early] using valid

theorem storeLoad_master {port : Nat → Port} (first : (port 1).tlO.aReady = true)
    (second : (port 12).tlO.aReady = true) : Master port storeLoad where
  held n valid unready := by
    rcases storeLoad_valid valid with rfl | rfl
    · simp [first] at unready
    · simp [second] at unready
  takes n _ := ⟨n, le_rfl, rfl⟩

theorem storeLoad_accepting {port : Nat → Port} (first : (port 1).tlO.aReady = true)
    (second : (port 12).tlO.aReady = true) (n : Nat) : Accepting port storeLoad n := by
  intro _ valid
  rcases storeLoad_valid valid with rfl | rfl
  · exact first
  · exact second

def tl2wbPowerUp : Tl2wb.State := ⟨.idle, put 0 false, 0, PerType.new, HostBus.new⟩

section Loop

variable (host : Nat → HostType)

/-- The slave acknowledges in the cycle in which it sees `cyc`. -/
def tl2wbDrive (n : Nat) (s : Tl2wb.State) : Tl2wb.Inputs :=
  ⟨false, host n, ⟨0, s.wbO.cyc⟩⟩

def tl2wbLoop : Nat → Tl2wb.State :=
  Trace.closedLoop Tl2wb.step tl2wbPowerUp.reset (tl2wbDrive host)

def tl2wbInputs (n : Nat) : Tl2wb.Inputs :=
  tl2wbDrive host n (tl2wbLoop host n)

theorem tl2wbInputs_states (n : Nat) :
    Tl2wb.states tl2wbPowerUp (tl2wbInputs host) n = tl2wbLoop host n :=
  Trace.run_closedLoop Tl2wb.step tl2wbPowerUp.reset (tl2wbDrive host) n

theorem tl2wbInputs_slave : Tl2wb.AnsweringSlave tl2wbPowerUp (tl2wbInputs host) where
  ack_cyc n ack := by
    rw [tl2wbInputs_states]
    exact ack
  serves n cyc := by
    have raised : (Tl2wb.states tl2wbPowerUp (tl2wbInputs host) n).wbO.cyc = true := cyc
    rw [tl2wbInputs_states] at raised
    exact ⟨n, le_rfl, rfl, raised⟩

def ethernetPowerUp : TlEthernet.State := ⟨.idle, put 0 false, TlEthernet.Registers.zero, PerType.new⟩

def ethernetInputs (n : Nat) : TlEthernet.Inputs := ⟨false, host n⟩

end Loop

theorem tlPorts_executeOnce_storeLoad :
    (Tl2wb.wbRequests tl2wbPowerUp (tl2wbInputs storeLoad) 20 =
        [⟨0x40, 0xab00, 0b0010, true⟩, ⟨0x40, 0, 0b1111, false⟩] ∧
      ExecutesOnce (Tl2wb.ports tl2wbPowerUp (tl2wbInputs storeLoad)) storeLoad
        (fun a => some (Tl2wb.request a)) (Tl2wb.wbRequests tl2wbPowerUp (tl2wbInputs storeLoad))) ∧
      TlEthernet.registerWrites 0x3c ethernetPowerUp (ethernetInputs storeLoad) 20 =
          [.mdio 0xab00] ∧
        ExecutesOnce (TlEthernet.ports 0x3c ethernetPowerUp (ethernetInputs storeLoad)) storeLoad
          (TlEthernet.registerWrite 0x3c)
          (TlEthernet.registerWrites 0x3c ethernetPowerUp (ethernetInputs storeLoad)) := by
  obtain ⟨bridge, ethernet⟩ := tlPorts_executeOnce tl2wbPowerUp (tl2wbInputs storeLoad) 0x3c
    ethernetPowerUp (ethernetInputs storeLoad)
  refine ⟨⟨by decide +kernel, ?_⟩, by decide +kernel, ?_⟩
  · have first : (Tl2wb.ports tl2wbPowerUp (tl2wbInputs storeLoad) 1).tlO.aReady = true := by
      decide +kernel
    have second : (Tl2wb.ports tl2wbPowerUp (tl2wbInputs storeLoad) 12).tlO.aReady = true := by
      decide +kernel
    exact bridge (fun _ => rfl) (tl2wbInputs_slave storeLoad) (storeLoad_master first second)
      (storeLoad_accepting first second)
      ((Tl2wb.runs (fun _ => rfl) tl2wbPowerUp).timely_of_ready fun _ => rfl)
  · have first :
        (TlEthernet.ports 0x3c ethernetPowerUp (ethernetInputs storeLoad) 1).tlO.aReady = true := by
      decide +kernel
    have second :
        (TlEthernet.ports 0x3c ethernetPowerUp (ethernetInputs storeLoad) 12).tlO.aReady = true := by
      decide +kernel
    exact (ethernet (fun _ => rfl) (storeLoad_master first second)
      (storeLoad_accepting first second)
      ((TlEthernet.runs 0x3c (fun _ => rfl) ethernetPowerUp).timely_of_ready fun _ => rfl)).1

/-- A request raised while the one before it is served is executed without ever
being accepted. -/
theorem tlPorts_early_unaccepted :
    (Tl2wb.AnsweringSlave tl2wbPowerUp (tl2wbInputs stores) ∧
      Master (Tl2wb.ports tl2wbPowerUp (tl2wbInputs stores)) stores ∧
      ¬ ExecutesOnce (Tl2wb.ports tl2wbPowerUp (tl2wbInputs stores)) stores
        (fun a => some (Tl2wb.request a)) (Tl2wb.wbRequests tl2wbPowerUp (tl2wbInputs stores))) ∧
    (Master (TlEthernet.ports 0x3c ethernetPowerUp (ethernetInputs stores)) stores ∧
      ¬ ExecutesOnce (TlEthernet.ports 0x3c ethernetPowerUp (ethernetInputs stores)) stores
        (TlEthernet.registerWrite 0x3c)
        (TlEthernet.registerWrites 0x3c ethernetPowerUp (ethernetInputs stores))) := by
  refine ⟨⟨tl2wbInputs_slave stores, stores_master rfl, fun executes => ?_⟩,
    stores_master rfl, fun executes => ?_⟩
  · have never := executes.never_more 12
    revert never
    decide +kernel
  · have never := executes.never_more 12
    revert never
    decide +kernel

end TlPort

end Cocoapuffs

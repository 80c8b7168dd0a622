import Cocoapuffs.Wishbone

/-!
# The interrupt of the Wishbone UART

The registers of `wb_uart` between the bus, the two FIFOs and the UART core,
whose outputs may be anything.  One instant is one cycle of `clk`.
-/

namespace Cocoapuffs

namespace WbUart

structure Generics where
  uartAddress : BitVec 32

/-- `fifo_out_t`. -/
structure FifoOut where
  readData : BitVec 8
  full : Bool
  empty : Bool

/-- What the process `comb` sees in a cycle, but for its own registers. -/
structure Inputs where
  reset : Bool
  wb : HostBus
  rdFifoOut : FifoOut
  wrFifoOut : FifoOut
  dataStreamInAck : Bool

/-- `reg_t`. -/
structure Reg where
  busIsRead : Bool
  busIsWrite : Bool
  busDIn : BitVec 8
  busDOut : BitVec 8
  busAck : Bool
  wrUartEn : Bool
  rdFifoRead : Bool
  wrFifoWrite : Bool
  wrUartStrobe : Bool
  rxWasEmpty : Bool
  txWasEmpty : Bool
deriving DecidableEq

/-- `reg_t_new`. -/
def Reg.new : Reg where
  busIsRead := false
  busIsWrite := false
  busDIn := 0
  busDOut := 0
  busAck := false
  wrUartEn := false
  rdFifoRead := false
  wrFifoWrite := false
  wrUartStrobe := false
  rxWasEmpty := true
  txWasEmpty := true

section Comb

variable (g : Generics) (i : Inputs)

/-- A read or a write is on the bus. -/
def busIs (write : Bool) : Bool :=
  i.wb.adr == g.uartAddress && i.wb.cyc && i.wb.sel.getLsbD 0 && i.wb.we == write

/-- `irq`. -/
def Reg.irq (r : Reg) : Bool :=
  r.rxWasEmpty && !i.rdFifoOut.empty || r.txWasEmpty && !i.wrFifoOut.empty

/-- `wb_outputs`. -/
def wbOutputs : PerBus where
  rdt := 0x00000#20 ++ BitVec.ofBool i.wrFifoOut.full ++ BitVec.ofBool i.wrFifoOut.empty ++
    BitVec.ofBool i.rdFifoOut.full ++ BitVec.ofBool i.rdFifoOut.empty ++ i.rdFifoOut.readData
  ack := busIs g i true || busIs g i false

/-- `rd_fifo_in.read_en`. -/
def rdFifoReadEn : Bool := busIs g i false && !i.rdFifoOut.empty

/-- `wr_uart_strobe` in the next cycle. -/
def Reg.strobe (r : Reg) : Bool :=
  if i.wrFifoOut.empty then false else r.wrUartStrobe || !i.wrFifoOut.empty

/-- `rin`: all but the strobe is built from the defaults. -/
def Reg.comb (r : Reg) : Reg :=
  if i.reset then Reg.new
  else
    { Reg.new with
      rxWasEmpty := i.rdFifoOut.empty
      txWasEmpty := i.wrFifoOut.empty
      busIsWrite := busIs g i true
      busDIn := if busIs g i true then i.wb.dat.setWidth 8 else 0
      wrFifoWrite := busIs g i true && !i.wrFifoOut.full
      busIsRead := busIs g i false
      busDOut := if busIs g i false then i.rdFifoOut.readData else 0
      rdFifoRead := busIs g i false && !i.rdFifoOut.empty
      wrUartEn := i.dataStreamInAck
      wrUartStrobe := r.strobe i }

end Comb

section Definitions

variable (g : Generics) (start : Reg) (inputs : Nat → Inputs)

def states : Nat → Reg := Trace.run (fun i r => r.comb g i) start inputs

def irq (n : Nat) : Bool := (states g start inputs n).irq (inputs n)

def rxEmpty (n : Nat) : Bool := (inputs n).rdFifoOut.empty

def txEmpty (n : Nat) : Bool := (inputs n).wrFifoOut.empty

/-- The FIFOs have the reset in common with the registers, and it empties them. -/
structure Emptied : Prop where
  rx : ∀ n, (inputs n).reset = true → rxEmpty inputs n = true
  tx : ∀ n, (inputs n).reset = true → txEmpty inputs n = true

/-- There has been a reset before this cycle, which is not one itself. -/
def AfterReset (n : Nat) : Prop :=
  (inputs n).reset = false ∧ ∃ m, m < n ∧ (inputs m).reset = true

/-- Between this cycle and the next the receive FIFO ceases to be empty. -/
def ReceiveStarts (n : Nat) : Prop :=
  rxEmpty inputs n = true ∧ rxEmpty inputs (n + 1) = false

/-- Between this cycle and the next the transmit FIFO becomes empty. -/
def TransmitEnds (n : Nat) : Prop :=
  txEmpty inputs n = false ∧ txEmpty inputs (n + 1) = true

/-- Between this cycle and the next the transmit FIFO ceases to be empty. -/
def TransmitStarts (n : Nat) : Prop :=
  txEmpty inputs n = true ∧ txEmpty inputs (n + 1) = false

/-- The interrupts are those that the entity documents. -/
def Documented : Prop :=
  ∀ n, AfterReset inputs (n + 1) →
    (irq g start inputs (n + 1) = true ↔ ReceiveStarts inputs n ∨ TransmitEnds inputs n)

end Definitions

section Runs

variable (g : Generics) (start : Reg) {inputs : Nat → Inputs} (emptied : Emptied inputs)
include emptied

theorem was_empty (n : Nat) :
    (states g start inputs (n + 1)).rxWasEmpty = rxEmpty inputs n ∧
      (states g start inputs (n + 1)).txWasEmpty = txEmpty inputs n := by
  change ((states g start inputs n).comb g (inputs n)).rxWasEmpty = _ ∧
    ((states g start inputs n).comb g (inputs n)).txWasEmpty = _
  rw [Reg.comb]
  cases reset : (inputs n).reset with
  | false => exact ⟨rfl, rfl⟩
  | true => exact ⟨(emptied.rx n reset).symm, (emptied.tx n reset).symm⟩

theorem irq_iff (n : Nat) :
    irq g start inputs (n + 1) = true ↔ ReceiveStarts inputs n ∨ TransmitStarts inputs n := by
  obtain ⟨rxBefore, txBefore⟩ := was_empty g start emptied n
  rw [irq, Reg.irq, rxBefore, txBefore, ReceiveStarts, TransmitStarts]
  simp only [rxEmpty, txEmpty, Bool.or_eq_true, Bool.and_eq_true, Bool.not_eq_true']

end Runs

/-- The interrupts are the documented ones in just those runs in which the
transmit FIFO neither becomes empty nor ceases to be so, unless reception starts
in the same cycle. -/
theorem documented_iff (g : Generics) (start : Reg) (inputs : Nat → Inputs)
    (emptied : Emptied inputs) :
    Documented g start inputs ↔ ∀ n, AfterReset inputs (n + 1) →
      ReceiveStarts inputs n ∨ txEmpty inputs (n + 1) = txEmpty inputs n := by
  refine forall₂_congr fun n _ => ?_
  rw [irq_iff g start emptied, TransmitStarts, TransmitEnds]
  by_cases receives : ReceiveStarts inputs n
  · simp only [receives, true_or]
  · simp only [receives, false_or]
    cases txEmpty inputs n <;> cases txEmpty inputs (n + 1) <;> simp

/-- One character is received, and read two cycles later. -/
def receiving (n : Nat) : Inputs where
  reset := n == 0
  wb := HostBus.new
  rdFifoOut := ⟨0x41, false, n < 2 || 4 ≤ n⟩
  wrFifoOut := ⟨0, false, true⟩
  dataStreamInAck := false

theorem emptied_receiving : Emptied receiving where
  rx n reset := by
    obtain rfl : n = 0 := beq_iff_eq.mp reset
    rfl
  tx _ _ := rfl

theorem documented_iff_receiving :
    irq ⟨0x40000010⟩ Reg.new receiving 2 = true ∧ irq ⟨0x40000010⟩ Reg.new receiving 4 = false ∧
      Documented ⟨0x40000010⟩ Reg.new receiving :=
  ⟨by decide, by decide, (documented_iff _ _ receiving emptied_receiving).mpr fun _ _ => .inr rfl⟩

/-- One character is written to the transmit FIFO, and taken two cycles later. -/
def sending (n : Nat) : Inputs where
  reset := n == 0
  wb := HostBus.new
  rdFifoOut := ⟨0, false, true⟩
  wrFifoOut := ⟨0x41, false, n < 2 || 4 ≤ n⟩
  dataStreamInAck := n == 4

/-- The interrupt comes when the FIFO is filled, and none when it is empty again. -/
theorem sending_interrupts :
    Emptied sending ∧ irq ⟨0x40000010⟩ Reg.new sending 2 = true ∧
      irq ⟨0x40000010⟩ Reg.new sending 4 = false ∧ TransmitEnds sending 3 ∧
      ¬ Documented ⟨0x40000010⟩ Reg.new sending := by
  have ends : TransmitEnds sending 3 := ⟨by decide, by decide⟩
  have silent : irq ⟨0x40000010⟩ Reg.new sending 4 = false := by decide
  have emptied : Emptied sending := by
    constructor <;> intro n reset <;> obtain rfl : n = 0 := beq_iff_eq.mp reset <;> rfl
  refine ⟨emptied, by decide, silent, ends, fun documented => ?_⟩
  have raised := (documented 3 ⟨by decide, 0, by decide, by decide⟩).mpr (.inr ends)
  rw [silent] at raised
  cases raised

end WbUart

end Cocoapuffs

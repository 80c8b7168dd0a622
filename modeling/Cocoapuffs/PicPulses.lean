import Cocoapuffs.Pic

/-!
# Pulses at the interrupt controller

The entity `pic` under any accesses of the bus.  A register write has its effect
in the cycle after the one in which it is issued, and then overrides the lines.
-/

namespace Cocoapuffs

namespace Pic

variable {g : Generics}

/-- What comes in at one edge. -/
structure Ports (g : Generics) where
  wbi : HostBus
  irqi : BitVec g.lines

section Pulses

variable (ports : Nat → Ports g)

/-- The controller from its reset on. -/
def trace : Nat → State g :=
  Trace.run (fun i s => step false i.wbi i.irqi s) ⟨MmregDecoder.zeroReg, 0, 0⟩ ports

/-- A pulse of an enabled line. -/
structure Arrives (n i : Nat) : Prop where
  enabled : (trace ports n).mask.getLsbD i = true
  pulse : (ports n).irqi.getLsbD i = true

/-- A write of the interrupt register is issued that has not the line's bit. -/
structure ClearIssued (n i : Nat) : Prop where
  writes : MmregDecoder.Writes g.decoder (ports n).wbi (trace ports n).decoder0
  index : g.decoder.index (ports n).wbi.adr = 1
  bit : (ports n).wbi.dat.getLsbD i = false

/-- The interrupt is in the register, in what is read of it, and on `irqo`. -/
structure State.Pending (s : State g) (i : Nat) : Prop where
  irqs : s.irqs.getLsbD i = true
  rdt : s.decoder0.index = 1 → s.wbo.rdt.getLsbD i = true
  irqo : s.irqo = true

/-- The interrupt of a pulse is pending from the next cycle on, until a write
issued after the pulse clears it. -/
def Keeps (n i : Nat) : Prop :=
  Arrives ports n i → ∀ m, n < m → (∀ k, n < k → k + 1 < m → ¬ ClearIssued ports k i) →
    (trace ports m).Pending i

variable {ports}

theorem trace_succ (n : Nat) :
    trace ports (n + 1) = step false (ports n).wbi (ports n).irqi (trace ports n) :=
  rfl

theorem decoder_trace (n : Nat) : (trace ports (n + 1)).decoder0 =
    MmregDecoder.comb g.decoder false (ports n).wbi (trace ports n).decoder0 :=
  rfl

theorem ClearIssued.decoder {n i : Nat} (clear : ClearIssued ports n i) :
    (trace ports (n + 1)).decoder0 = ⟨.wait1, (ports n).wbi.dat, 1, true, true⟩ := by
  have control := MmregDecoder.control_of_runs
    (r := fun n => (trace ports n).decoder0) decoder_trace rfl n
  rw [decoder_trace, clear.writes.comb control, clear.index]

theorem ClearIssued.irqs {n i : Nat} (clear : ClearIssued ports n i) :
    (trace ports (n + 2)).irqs.getLsbD i = false := by
  rw [trace_succ, step, clear.decoder]
  simp [clear.bit]

theorem clearIssued_of_write {n i : Nat} (write : (trace ports n).decoder0.write = true)
    (index : (trace ports n).decoder0.index = 1)
    (bit : (trace ports n).decoder0.data.getLsbD i = false) :
    ∃ k, k + 1 = n ∧ ClearIssued ports k i := by
  obtain ⟨k, before, -, writes, held⟩ :=
    MmregDecoder.writes_of_runs (r := fun n => (trace ports n).decoder0) decoder_trace rfl write
  rw [held] at index bit
  exact ⟨k, before, writes, index, bit⟩

/-- A pulse is captured, and what is in the register stays, unless a write takes
it away. -/
theorem irqs_succ {n i : Nat} (uncleared : ∀ k, k + 1 = n → ¬ ClearIssued ports k i)
    (arrived : (trace ports n).irqs.getLsbD i = true ∨ Arrives ports n i) :
    (trace ports (n + 1)).irqs.getLsbD i = true := by
  have small : i < g.lines := by
    rcases arrived with present | arrives
    · exact BitVec.lt_of_getLsbD present
    · exact BitVec.lt_of_getLsbD arrives.pulse
  rw [trace_succ, step, if_neg Bool.false_ne_true]
  by_cases written : ((trace ports n).decoder0.write &&
      (trace ports n).decoder0.index == 1) = true
  · obtain ⟨write, index⟩ := Bool.and_eq_true _ _ |>.mp written
    simp only [written, if_true, BitVec.getLsbD_setWidth, small, decide_true, Bool.true_and]
    by_contra bit
    obtain ⟨k, before, clear⟩ :=
      clearIssued_of_write write (beq_iff_eq.mp index) (Bool.eq_false_iff.mpr bit)
    exact uncleared k before clear
  · simp only [written, Bool.false_eq_true, if_false, BitVec.getLsbD_or, BitVec.getLsbD_and]
    rcases arrived with present | arrives
    · rw [present, Bool.true_or]
    · rw [arrives.enabled, arrives.pulse, Bool.and_self, Bool.or_true]

theorem State.pending_of_irqs {s : State g} {i : Nat} (irqs : s.irqs.getLsbD i = true) :
    s.Pending i where
  irqs := irqs
  rdt index := by
    have small := BitVec.lt_of_getLsbD irqs
    have fits := g.fits
    simp [State.wbo, State.regi, index, irqs, show i < 32 by omega]
  irqo := by
    rw [State.irqo, bne_iff_ne]
    intro zero
    simp [zero] at irqs

/-- A pulse is kept except where a write of the interrupt register without its
bit is issued with it or in the cycle before. -/
theorem pic_keepsPulse_iff (n i : Nat) : Keeps ports n i ↔
    (Arrives ports n i → ∀ k, k = n ∨ k + 1 = n → ¬ ClearIssued ports k i) := by
  constructor
  · rintro keeps arrives k when clear
    have gone := clear.irqs
    have pending : (trace ports (k + 2)).Pending i := by
      rcases when with rfl | rfl
      · exact keeps arrives (k + 2) (by omega) fun later after before => by omega
      · exact keeps arrives (k + 2) (by omega) fun later after before => by omega
    rw [pending.irqs] at gone
    cases gone
  · intro safe arrives m lt uncleared
    apply State.pending_of_irqs
    induction m, lt using Nat.le_induction with
    | base => exact irqs_succ (fun k before => safe arrives k (.inr before)) (.inr arrives)
    | succ m lt ih =>
        have present := ih fun k after before => uncleared k after (by omega)
        refine irqs_succ (fun k before => ?_) (.inl present)
        rcases Nat.lt_or_ge n k with after | until_
        · exact uncleared k after (by omega)
        · exact safe arrives k (by omega)

end Pulses

/-- Both lines of the controller are enabled.  In cycle 4 the first has a pulse,
which is cleared by a write issued in cycle 6; in cycle 7, as the write has its
effect, the second has a pulse. -/
def pulseAtClear (n : Nat) : Ports twoLines where
  wbi :=
    if n ≤ 1 then ⟨0x40000030, 0b11, 0xf, true, true⟩
    else ⟨0x40000034, 0, 0xf, true, n == 6 || n == 7⟩
  irqi := if n = 4 then 0b01 else if n = 7 then 0b10 else 0

/-- The pulse of the second line is lost. -/
theorem pic_drops_pulse : ¬ ∀ (g : Generics) (ports : Nat → Ports g) (n i : Nat),
    Keeps ports n i := by
  intro claim
  have arrives : Arrives pulseAtClear 7 1 := ⟨by decide +kernel, by decide +kernel⟩
  have pending := claim twoLines pulseAtClear 7 1 arrives 8 (by decide)
    fun k after before => by omega
  have gone : (trace pulseAtClear 8).irqs.getLsbD 1 = false := by decide +kernel
  rw [pending.irqs] at gone
  cases gone

end Pic

end Cocoapuffs

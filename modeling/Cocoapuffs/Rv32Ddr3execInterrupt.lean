import Cocoapuffs.Rv32Ddr3exec

/-!
# The timer interrupt of the board `rv32_ddr3exec`

From a store that sets the counter, over the pulse of the timer and the interrupt
controller, to the interrupt line of the processor.
-/

namespace Cocoapuffs

namespace Rv32Ddr3exec

variable {g : Generics}

section Definitions

variable (powerUp : State g) (inputs : Nat → Inputs)

/-- The register store that is acknowledged in a cycle. -/
def store (unit : Unit) (n : Nat) : Option (Nat × BitVec 32) :=
  if (response powerUp inputs n).ack then
    (device g unit).registerWrite (bus powerUp inputs n).request
  else none

/-- `cpu0_timer_irq`. -/
def cpu0TimerIrq (n : Nat) : Bool := (states powerUp inputs n).pic0.irqo

/-- The buses and the lines as the timer and the controller see them. -/
def timerPorts (n : Nat) : Timer.Ports := ⟨false, bus powerUp inputs n⟩

def picPorts (n : Nat) : Pic.Ports pic :=
  ⟨bus powerUp inputs n, (states powerUp inputs n).pic0Irqi (inputs n)⟩

/-- The interrupt of the timer is there, for the processor and for a load of the
register. -/
structure Interrupts (n : Nat) : Prop where
  line : cpu0TimerIrq powerUp inputs n = true
  load : (response powerUp inputs n).ack = true →
    (bus powerUp inputs n).adr = pic.baseAddress + 4 →
      (response powerUp inputs n).rdt.getLsbD 0 = true

end Definitions

section Runs

variable {powerUp : State g} {inputs : Nat → Inputs} (processor : Processor powerUp inputs)
include processor

theorem Processor.timer0_states (n : Nat) : (states powerUp inputs n).timer0 =
    Timer.states timer (timerPorts powerUp inputs) n := by
  induction n with
  | zero => rfl
  | succ n ih =>
      change Timer.step timer ⟨(inputs n).reset, _⟩ (states powerUp inputs n).timer0 = _
      rw [processor.noReset, processor.cpu0HostOut_eq, ih]
      rfl

theorem Processor.pic0_states (n : Nat) : (states powerUp inputs n).pic0 =
    Pic.trace (picPorts powerUp inputs) n := by
  induction n with
  | zero => rfl
  | succ n ih =>
      change Pic.step (inputs n).reset _ _ (states powerUp inputs n).pic0 = _
      rw [processor.noReset, processor.cpu0HostOut_eq, ih]
      rfl

theorem Processor.store_eq (unit : Unit) (n : Nat) : store powerUp inputs unit n =
    WbFabric.strobe ((states powerUp inputs n).decoder unit) :=
  (processor.fabric.strobe_eq n unit).symm

omit processor in
theorem strobe_eq_some {r : MmregDecoder.Reg} {index : Nat} {data : BitVec 32} :
    WbFabric.strobe r = some (index, data) ↔
      r.write = true ∧ r.index = index ∧ r.data = data := by
  rw [WbFabric.strobe, Option.ite_none_right_eq_some, Option.some_inj, Prod.mk.injEq]

/-- A store that is acknowledged was issued in the cycle before. -/
theorem Processor.issued_of_store {n index : Nat} {data : BitVec 32}
    (stored : store powerUp inputs .timer0 n = some (index, data)) :
    ∃ k, k + 1 = n ∧ Timer.Issued timer (timerPorts powerUp inputs) k index ∧
      (bus powerUp inputs k).dat = data := by
  rw [processor.store_eq, strobe_eq_some, State.decoder, processor.timer0_states] at stored
  obtain ⟨write, rfl, rfl⟩ := stored
  obtain ⟨k, before, issued, held⟩ := Timer.issued_of_write write
  exact ⟨k, before, issued, held.symm⟩

theorem Processor.store_of_issued {n index : Nat}
    (issued : Timer.Issued timer (timerPorts powerUp inputs) n index) :
    store powerUp inputs .timer0 (n + 1) = some (index, (bus powerUp inputs n).dat) := by
  rw [processor.store_eq, strobe_eq_some, State.decoder, processor.timer0_states, issued.decoder]
  exact ⟨rfl, rfl, rfl⟩

theorem Processor.store_of_clearIssued {n i : Nat}
    (clear : Pic.ClearIssued (picPorts powerUp inputs) n i) :
    store powerUp inputs .pic0 (n + 1) = some (1, (bus powerUp inputs n).dat) := by
  rw [processor.store_eq, strobe_eq_some, State.decoder, processor.pic0_states, clear.decoder]
  exact ⟨rfl, rfl, rfl⟩

/-- A count that is stored runs down and around, and the timer raises its line each time
it gets to zero, but for a store that lowers the line in that cycle. -/
theorem Processor.timer_irq {n rounds when : Nat} {count : BitVec 32}
    (set : store powerUp inputs .timer0 n = some (1, count))
    (expiry : when = n + 1 + (count.toNat + rounds * 2 ^ 32))
    (alone : ∀ m data, n < m → m ≤ when → store powerUp inputs .timer0 m ≠ some (1, data))
    (kept : ∀ data, store powerUp inputs .timer0 when = some (0, data) →
      data.getLsbD 0 = true) :
    (states powerUp inputs (when + 1)).timer0.irq = true := by
  obtain ⟨k, rfl, issued, rfl⟩ := processor.issued_of_store set
  have unissued : ∀ m, k < m → m + 1 ≤ when →
      ¬ Timer.Issued timer (timerPorts powerUp inputs) m 1 := fun m after before issued =>
    alone (m + 1) _ (by omega) before (processor.store_of_issued issued)
  have down := issued.count_add ((bus powerUp inputs k).dat.toNat + rounds * 2 ^ 32)
    fun m after before => ⟨rfl, unissued m after (by omega)⟩
  have zero : (Timer.states timer (timerPorts powerUp inputs) when).r.count = 0 := by
    rw [show when = k + 2 + ((bus powerUp inputs k).dat.toNat + rounds * 2 ^ 32) by omega, down]
    apply BitVec.eq_of_toNat_eq
    change ((bus powerUp inputs k).dat - _).toNat = 0
    rw [BitVec.toNat_sub, BitVec.toNat_ofNat]
    have small := (bus powerUp inputs k).dat.isLt
    omega
  rw [processor.timer0_states]
  refine (Timer.irq_succ_iff ⟨zero, rfl⟩).mpr fun m before late => ?_
  have stored := processor.store_of_issued late
  rw [before] at stored
  exact kept _ stored

/-- What the register has it keeps until a store takes it away. -/
theorem Processor.irqs_succ {n : Nat}
    (uncleared : ∀ data, store powerUp inputs .pic0 n = some (1, data) → data.getLsbD 0 = true)
    (arrived : (states powerUp inputs n).pic0.irqs.getLsbD 0 = true ∨
      (states powerUp inputs n).pic0.mask.getLsbD 0 = true ∧
        (states powerUp inputs n).timer0.irq = true) :
    (states powerUp inputs (n + 1)).pic0.irqs.getLsbD 0 = true := by
  rw [processor.pic0_states] at arrived ⊢
  apply Pic.irqs_succ
  · rintro k rfl clear
    have bit := uncleared _ (processor.store_of_clearIssued clear)
    have low := clear.bit
    change (bus powerUp inputs k).dat.getLsbD 0 = false at low
    rw [low] at bit
    cases bit
  · rcases arrived with present | ⟨enabled, pulse⟩
    · exact .inl present
    · refine .inr ⟨enabled, ?_⟩
      change (BitVec.ofBool _ ++ BitVec.ofBool (states powerUp inputs n).timer0.irq).getLsbD 0 = true
      rw [pulse, BitVec.getLsbD_append]
      rfl

/-- An interrupt that is pending is seen by the processor and by its loads. -/
theorem Processor.interrupts_of_irqs {n : Nat}
    (irqs : (states powerUp inputs n).pic0.irqs.getLsbD 0 = true) :
    Interrupts powerUp inputs n where
  line := (Pic.State.pending_of_irqs irqs).irqo
  load acks adr := by
    have answers : (device g .pic0).Answers (bus powerUp inputs n).adr := by
      rw [adr, answers_pic0]
      decide
    have mine := processor.fabric.ack_of_answers acks answers
    have latched := (processor.fabric.latched_of_ack mine).reg
    rw [processor.response_unit mine]
    refine (Pic.State.pending_of_irqs irqs).rdt ?_
    change ((states powerUp inputs n).decoder .pic0).index = 1
    rw [latched, adr]
    exact (by decide : pic.decoder.index (pic.baseAddress + 4) = 1)

end Runs

/-- A count that the processor stores becomes an interrupt each time it has run down,
and the interrupt stays until the processor clears it. -/
theorem timer_interrupts (powerUp : State g) (inputs : Nat → Inputs)
    (processor : Processor powerUp inputs) (n rounds when : Nat) (count : BitVec 32)
    (set : store powerUp inputs .timer0 n = some (1, count))
    (expiry : when = n + 1 + (count.toNat + rounds * 2 ^ 32))
    (alone : ∀ m data, n < m → m ≤ when → store powerUp inputs .timer0 m ≠ some (1, data))
    (kept : ∀ data, store powerUp inputs .timer0 when = some (0, data) → data.getLsbD 0 = true)
    (enabled : (states powerUp inputs (when + 1)).pic0.mask.getLsbD 0 = true)
    (m : Nat) (later : when + 1 < m)
    (uncleared : ∀ k data, when < k → k < m → store powerUp inputs .pic0 k = some (1, data) →
      data.getLsbD 0 = true) : Interrupts powerUp inputs m := by
  apply processor.interrupts_of_irqs
  induction m, later using Nat.le_induction with
  | base =>
      exact processor.irqs_succ (uncleared (when + 1) · (by omega) (by omega))
        (.inr ⟨enabled, processor.timer_irq set expiry alone kept⟩)
  | succ m later ih =>
      exact processor.irqs_succ (uncleared m · (by omega) (by omega))
        (.inl (ih fun k data after before => uncleared k data after (by omega)))

/-- The processor enables the timer's line, stores a count of ten, and clears the
interrupt of the timer. -/
def enableSet (n : Nat) : Inputs where
  reset := false
  ibusAdr := 0
  ibusCyc := false
  dbusHost :=
    if n ≤ 4 then ⟨0x40000030, 0b01, 0b1111, true, decide (n ≤ 3)⟩
    else if n ≤ 9 then ⟨0x40000024, 10, 0b1111, true, decide (n ≤ 8)⟩
    else ⟨0x40000020, 0, 0b1111, true, decide (n ≤ 13)⟩
  rdFifoOut := ⟨0, false, true⟩
  wrFifoOut := ⟨0, false, true⟩
  dataStreamInAck := false

theorem enableSet_processor : Processor powerUp enableSet where
  noReset _ := rfl
  held n port raised unacked := by
    have early : n < 14 := by
      simp only [enableSet, Inputs.hostPorts] at raised
      split at raised
      · cases raised
      · split at raised
        · omega
        · split at raised <;> simp at raised <;> omega
    revert port
    revert n
    decide +kernel
  dropped n port acks := by
    by_cases early : n < 14
    · revert port
      revert n
      decide +kernel
    · simp only [enableSet, Inputs.hostPorts]
      split
      · rfl
      · rw [if_neg (by omega), if_neg (by omega)]
        simp
        omega

theorem timer_interrupts_enableSet :
    store powerUp enableSet .timer0 13 = some (0, 0) ∧ cpu0TimerIrq powerUp enableSet 20 = false ∧
      Interrupts powerUp enableSet 21 ∧ Interrupts powerUp enableSet 24 := by
  have set : store powerUp enableSet .timer0 8 = some (1, 10) := by decide +kernel
  have alone : ∀ m data, 8 < m → m ≤ 19 → store powerUp enableSet .timer0 m ≠ some (1, data) := by
    intro m data after before same
    have count : (store powerUp enableSet .timer0 m).map Prod.fst ≠ some 1 := by
      interval_cases m <;> decide +kernel
    rw [same] at count
    exact count rfl
  have kept : store powerUp enableSet .timer0 19 = none := by decide +kernel
  have enabled : (states powerUp enableSet 20).pic0.mask.getLsbD 0 = true := by decide +kernel
  have quiet : ∀ k, 19 < k → k < 24 → store powerUp enableSet .pic0 k = none := by
    intro k after before
    interval_cases k <;> decide +kernel
  refine ⟨by decide +kernel, by decide +kernel, ?_, ?_⟩ <;>
    refine timer_interrupts powerUp enableSet enableSet_processor 8 0 19 10 set rfl alone
      (fun data stored => ?_) enabled _ (by decide) fun k data after before stored => ?_
  all_goals first
    | rw [kept] at stored
      cases stored
    | rw [quiet k after (by omega)] at stored
      cases stored

end Rv32Ddr3exec

end Cocoapuffs

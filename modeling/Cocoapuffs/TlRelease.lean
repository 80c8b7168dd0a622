import Cocoapuffs.TlCommands

/-!
# The release channel

What becomes of the beats of the C channel: the cached converter is always ready
for them, and none has an effect.
-/

namespace Cocoapuffs

namespace TlC2wblite

open TileLink TlConverter

/-- The opcode of a release with data. -/
abbrev opReleaseData : BitVec 3 := 0b111

section Runs

variable (start : State) (inputs : Nat → Inputs)

abbrev cores (n : Nat) : Core := (states start inputs n).core

abbrev coreInputs (n : Nat) : TlConverter.Inputs := (inputs n).core

/-- A release with data is accepted. -/
def Releases (n : Nat) : Prop :=
  (inputs n).clk = true ∧ (inputs n).tlI.c.valid = true ∧ (states start inputs n).cReady = true ∧
    (inputs n).tlI.c.opcode = opReleaseData

/-- A read of an address is taken. -/
def TakesRead (address : BitVec 32) (n : Nat) : Prop :=
  (inputs n).clk = true ∧ (cores start inputs n).Takes (coreInputs inputs n) ∧
    cProfile.isRead (inputs n).tlI.a.opcode = true ∧ (inputs n).tlI.a.address = address

/-- A word is written on the bus. -/
def Writes (address data : BitVec 32) (n : Nat) : Prop :=
  (inputs n).clk = true ∧ (inputs n).wbI.ack = true ∧
    (cores start inputs n).wbO = ⟨address, data, 0b1111, true, true⟩

/-- Released data is written before a later read of its address is answered. -/
def KeepsReleases : Prop :=
  ∀ released taken answered, Releases start inputs released → released < taken →
    TakesRead start inputs (inputs released).tlI.c.address taken →
    (delivered (cores start inputs) (coreInputs inputs) taken).length <
      (delivered (cores start inputs) (coreInputs inputs) answered).length →
    ∃ written, released ≤ written ∧ written < answered ∧
      Writes start inputs (inputs released).tlI.c.address (inputs released).tlI.c.data written

/-- The converter takes every beat of the C channel and does nothing with it. -/
structure IgnoresReleases (memory : Nat → WordMemory) : Prop where
  /-- From the first edge on it is ready for them, -/
  ready : ∀ edge n, edge < n → (inputs edge).clk = true → (states start inputs n).cReady = true
  /-- and none changes what it does on the other channels and the bus. -/
  unseen : ∀ inputs' : Nat → Inputs, (∀ n, (inputs' n).core = (inputs n).core) →
    ∀ n, cores start inputs' n = cores start inputs n
  /-- The response beats are those of the messages on the A channel, -/
  responses : ∀ n (messages : List (Message cProfile)),
    accepted (cores start inputs) (coreInputs inputs) n <+: messages.flatMap Message.beats →
    delivered (cores start inputs) (coreInputs inputs) n <+:
      (sequential (memory 0) messages).responses
  /-- and so is the memory. -/
  completes : ∀ n (messages : List (Message cProfile)),
    accepted (cores start inputs) (coreInputs inputs) n = messages.flatMap Message.beats →
    ∃ m, n ≤ m ∧
      accepted (cores start inputs) (coreInputs inputs) m =
        accepted (cores start inputs) (coreInputs inputs) n ∧
      delivered (cores start inputs) (coreInputs inputs) m =
        (sequential (memory 0) messages).responses ∧
      memory m = (sequential (memory 0) messages).memory

end Runs

section Run

variable {start : State} {inputs : Nat → Inputs} {memory : Nat → WordMemory}

theorem cReady_of_edge (noReset : ∀ n, (inputs n).rst = false) {edge n : Nat} (after : edge < n)
    (tick : (inputs edge).clk = true) : (states start inputs n).cReady = true := by
  induction n, after using Nat.le_induction with
  | base =>
      rw [states, Trace.run_succ]
      simp [step, tick, noReset edge]
  | succ n after ih =>
      rw [states, Trace.run_succ, ← states]
      cases later : (inputs n).clk with
      | true => simp [step, later, noReset n]
      | false => simpa [step, later] using ih

theorem cores_eq {inputs' : Nat → Inputs} (same : ∀ n, (inputs' n).core = (inputs n).core)
    (n : Nat) : cores start inputs' n = cores start inputs n := by
  induction n with
  | zero => rfl
  | succ n ih =>
      rw [cores, cores, states, states, Trace.run_succ, Trace.run_succ, step_core, step_core,
        same n]
      exact congrArg (Core.step cProfile (inputs n).core) ih

end Run

/-- Whatever is on the C channel, the converter is ready for it and carries out the
messages on the A channel. -/
theorem tlC2wblite_ignoresReleases (start : State) (inputs : Nat → Inputs)
    (memory : Nat → WordMemory) (noReset : ∀ n, (inputs n).rst = false)
    (clock : Trace.Recurs fun n => (inputs n).clk = true)
    (dReady : ∀ n, (inputs n).tlI.dReady = true)
    (slave : MemorySlave (fun n => (inputs n).clk) (fun n => (states start inputs n).core.wbO)
      (fun n => (inputs n).wbI) memory)
    (serves : Serves (fun n => (inputs n).clk) (fun n => (states start inputs n).core.wbO)
      fun n => (inputs n).wbI) : IgnoresReleases start inputs memory := by
  have honest : HonestBus (cores start inputs) (coreInputs inputs) (memory 0) :=
    .of_slave slave
  constructor
  · exact fun edge n after tick => cReady_of_edge noReset after tick
  · exact fun inputs' same n => cores_eq same n
  · exact fun n messages isPrefix =>
      (runs start noReset).delivered_sequential honest dReady isPrefix
  · intro n messages all
    obtain ⟨m, after, -, same, answered, done⟩ :=
      (runs start noReset).completes honest dReady clock serves all
    refine ⟨m, after, same, answered, ?_⟩
    rw [slave.memory_eq m, ← done]
    rfl

/-! ### A release, and a read of its address -/

def releaseData : CType := ⟨opReleaseData, 0, 2, 0, 0x40, 0xbeef, false, true⟩

/-- The slave holds `0xcafe` at the address. -/
def releaseThenGet (n : Nat) : Inputs where
  clk := true
  rst := false
  tlI :=
    ⟨⟨opGet, 0, 2, 2, 0x40, 0xf, 0, false, decide (n = 2)⟩,
      if n = 1 then releaseData else CType.new, EType.new, true, true⟩
  wbI := ⟨0xcafe, decide (n = 4)⟩

def cafe : WordMemory := fun _ => 0xcafe

def slaveMemory : Nat → WordMemory :=
  memoryTrace (fun _ => true) (fun n => (states powerUp releaseThenGet n).core.wbO)
    (fun n => (releaseThenGet n).wbI) cafe

theorem releaseThenGet_rest {n : Nat} (le : 8 ≤ n) :
    states powerUp releaseThenGet n = states powerUp releaseThenGet 8 := by
  refine Trace.run_at_rest rfl (fun n le => ?_) le
  have late : n ≠ 1 ∧ n ≠ 2 ∧ n ≠ 4 := by omega
  have quiet : releaseThenGet n = releaseThenGet 8 := by simp [releaseThenGet, late]
  rw [quiet]
  decide +kernel

theorem releaseThenGet_slave :
    MemorySlave (fun n => (releaseThenGet n).clk)
      (fun n => (states powerUp releaseThenGet n).core.wbO) (fun n => (releaseThenGet n).wbI)
      slaveMemory := by
  refine ⟨?_, ?_, fun _ => rfl⟩
  · rintro n - ack
    obtain rfl : n = 4 := by simpa [releaseThenGet] using ack
    decide +kernel
  · rintro n - ack -
    obtain rfl : n = 4 := by simpa [releaseThenGet] using ack
    decide +kernel

theorem releaseThenGet_serves :
    Serves (fun n => (releaseThenGet n).clk)
      (fun n => (states powerUp releaseThenGet n).core.wbO) fun n => (releaseThenGet n).wbI := by
  apply Serves.of_rest 8
  · intro n late
    rw [releaseThenGet_rest late]
    decide +kernel
  · decide +kernel

theorem tlC2wblite_ignoresReleases_then_reads :
    (delivered (cores powerUp releaseThenGet) (coreInputs releaseThenGet) 7).map DType.data =
        [0xcafe] ∧
      IgnoresReleases powerUp releaseThenGet slaveMemory :=
  ⟨by decide +kernel, tlC2wblite_ignoresReleases powerUp releaseThenGet slaveMemory
    (fun _ => rfl) (fun n => ⟨n, le_rfl, rfl⟩) (fun _ => rfl) releaseThenGet_slave
    releaseThenGet_serves⟩

/-- The release is accepted, and never written. -/
theorem tlC2wblite_not_keepsReleases :
    ¬ ∀ (start : State) (inputs : Nat → Inputs) (memory : Nat → WordMemory),
      (∀ n, (inputs n).rst = false) → (Trace.Recurs fun n => (inputs n).clk = true) →
      (∀ n, (inputs n).tlI.dReady = true) →
      MemorySlave (fun n => (inputs n).clk) (fun n => (states start inputs n).core.wbO)
        (fun n => (inputs n).wbI) memory →
      (Serves (fun n => (inputs n).clk) (fun n => (states start inputs n).core.wbO)
        fun n => (inputs n).wbI) →
      KeepsReleases start inputs := by
  intro claim
  have keeps := claim powerUp releaseThenGet slaveMemory (fun _ => rfl)
    (fun n => ⟨n, le_rfl, rfl⟩) (fun _ => rfl) releaseThenGet_slave releaseThenGet_serves
  have released : Releases powerUp releaseThenGet 1 := ⟨rfl, rfl, by decide +kernel, rfl⟩
  have taken : TakesRead powerUp releaseThenGet (releaseThenGet 1).tlI.c.address 2 :=
    ⟨rfl, by decide +kernel, rfl, rfl⟩
  obtain ⟨written, after, before, _, ack, bus⟩ :=
    keeps 1 2 7 released (by decide) taken (by decide +kernel)
  obtain rfl : written = 4 := by simpa [releaseThenGet] using ack
  exact absurd bus (by decide +kernel)

end TlC2wblite

end Cocoapuffs

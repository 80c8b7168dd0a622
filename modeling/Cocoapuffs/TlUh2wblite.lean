import Cocoapuffs.TlRun

/-!
# The uncached converter is a sequential word memory

The entity `tl_uh2wblite` in front of a word memory with an arbitrary
acknowledge latency, driven by a master that keeps `d_ready` high.
-/

namespace Cocoapuffs

namespace TlUh2wblite

open TileLink TlConverter

/-- The request beats taken before an instant. -/
def accepted (start : State) (inputs : Nat → Inputs) : Nat → List AType :=
  TlConverter.accepted (states start inputs) fun n => (inputs n).core

/-- The response beats delivered before an instant. -/
def delivered (start : State) (inputs : Nat → Inputs) : Nat → List DType :=
  TlConverter.delivered (states start inputs) fun n => (inputs n).core

/-- What it means for a trace to carry out its messages one after the other on
the memory. -/
structure RefinesMemory (start : State) (inputs : Nat → Inputs)
    (memory : Nat → WordMemory) : Prop where
  /-- The response beats are those of the sequential memory, in order, -/
  responses : ∀ n (messages : List (Message uhProfile)),
    accepted start inputs n <+: messages.flatMap Message.beats →
    delivered start inputs n <+: (sequential (memory 0) messages).responses
  /-- and all of them come before the next beat is taken. -/
  completes : ∀ n (messages : List (Message uhProfile)),
    accepted start inputs n = messages.flatMap Message.beats →
    ∃ m, n ≤ m ∧ accepted start inputs m = accepted start inputs n ∧
      delivered start inputs m = (sequential (memory 0) messages).responses
  /-- With the last response the memory is the sequential one. -/
  memory_eq : ∀ n (messages : List (Message uhProfile)),
    accepted start inputs n = messages.flatMap Message.beats →
    delivered start inputs n = (sequential (memory 0) messages).responses →
    memory n = (sequential (memory 0) messages).memory
  /-- Whoever waits for `a_ready` sees it. -/
  ready : ∀ n, ∃ m, n ≤ m ∧ (inputs m).clk = true ∧ (states start inputs m).aReady = true

section Memory

variable {start : State} {inputs : Nat → Inputs} {memory : Nat → WordMemory}
  (slave : MemorySlave (fun n => (inputs n).clk) (fun n => (states start inputs n).wbO)
    (fun n => (inputs n).wbI) memory)

include slave

theorem honestBus : HonestBus (states start inputs) (fun n => (inputs n).core) (memory 0) :=
  .of_slave slave

end Memory

/-- The converter refines a sequential word memory, for every latency of the
slave and every timing of the master's requests. -/
theorem tlUh2wblite_refines_memory (start : State) (inputs : Nat → Inputs)
    (memory : Nat → WordMemory) (noReset : ∀ n, (inputs n).rst = false)
    (clock : Trace.Recurs fun n => (inputs n).clk = true)
    (dReady : ∀ n, (inputs n).tlI.dReady = true)
    (slave : MemorySlave (fun n => (inputs n).clk) (fun n => (states start inputs n).wbO)
      (fun n => (inputs n).wbI) memory)
    (serves : Serves (fun n => (inputs n).clk) (fun n => (states start inputs n).wbO)
      fun n => (inputs n).wbI) :
    RefinesMemory start inputs memory where
  responses n messages isPrefix :=
    (runs start noReset).delivered_sequential (honestBus slave) dReady isPrefix
  completes n messages all := by
    obtain ⟨m, le, -, same, answered, -⟩ :=
      (runs start noReset).completes (honestBus slave) dReady clock serves all
    exact ⟨m, le, same, answered⟩
  memory_eq n messages all answered := by
    rw [slave.memory_eq n, ← (runs start noReset).done_of_answered
      (honestBus slave) dReady all answered]
    rfl
  ready n := by
    obtain ⟨m, le, ready⟩ := (runs start noReset).aReady_recurs (fun n _ _ => dReady n) clock
      (fun n tick _ ack => slave.ack_cyc n tick ack) serves n
    obtain ⟨k, le', ready', tick⟩ := (runs start noReset).tick_of_ready clock m ready
    exact ⟨k, le.trans le', tick, ready'⟩

/-- Registers as a simulator leaves them before reset. -/
def powerUp : State :=
  ⟨.idle, AType.new, 0, 0, 0, false, DType.new, HostBus.new⟩

/-- A word is written and read back; the slave takes one instant. -/
def writeRead (n : Nat) : Inputs where
  clk := true
  rst := false
  tlI :=
    ⟨if n ≤ 1 then ⟨opPutFullData, 0, 2, 1, 0x40, 0xf, 0xcafe, false, true⟩
      else ⟨opGet, 0, 2, 2, 0x40, 0xf, 0, false, decide (n ≤ 6)⟩, true⟩
  wbI := ⟨0xcafe, decide (n = 3 ∨ n = 8)⟩

theorem writeRead_rest {n : Nat} (le : 12 ≤ n) :
    states powerUp writeRead n = states powerUp writeRead 12 := by
  refine Trace.run_at_rest rfl (fun n le => ?_) le
  have late : ¬ n ≤ 1 ∧ ¬ n ≤ 6 ∧ ¬ (n = 3 ∨ n = 8) := by omega
  have quiet : writeRead n = writeRead 12 := by simp [writeRead, late]
  rw [quiet]
  decide

theorem tlUh2wblite_refines_memory_writeRead :
    (delivered powerUp writeRead 12).map DType.data = [0, 0xcafe] ∧
      RefinesMemory powerUp writeRead
        (memoryTrace (fun _ => true) (fun n => (states powerUp writeRead n).wbO)
          (fun n => (writeRead n).wbI) fun _ => 0) := by
  refine ⟨by decide, tlUh2wblite_refines_memory powerUp writeRead _ (fun _ => rfl)
    (fun n => ⟨n, le_rfl, rfl⟩) (fun _ => rfl) ⟨?_, ?_, fun _ => rfl⟩ ?_⟩
  · rintro n - ack
    have early : n < 12 := by simp [writeRead] at ack; omega
    revert ack
    revert n early
    decide
  · rintro n - ack read
    have early : n < 12 := by simp [writeRead] at ack; omega
    revert ack read
    revert n early
    decide
  · apply Serves.of_rest 12
    · intro n late
      rw [writeRead_rest late]
      decide
    · decide

end TlUh2wblite

end Cocoapuffs

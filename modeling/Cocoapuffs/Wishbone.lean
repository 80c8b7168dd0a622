import Cocoapuffs.Trace
import Cocoapuffs.LaneMemory
import Mathlib.Data.Fintype.Basic
import Mathlib.Tactic.FinCases
import Mathlib.Tactic.IntervalCases

/-!
# The Wishbone bus

The host and peripheral halves of the 32-bit bus, the byte-enabled word memory
that sits behind it, and what is assumed of a slave on a trace.
-/

namespace Cocoapuffs

/-- `wb.host.bus_type`: the signals from the host to a peripheral. -/
structure HostBus where
  adr : BitVec 32
  dat : BitVec 32
  sel : BitVec 4
  we : Bool
  cyc : Bool
deriving DecidableEq, Repr

/-- `wb.host.new_bus_type`. -/
def HostBus.new : HostBus := ⟨0, 0, 0, false, false⟩

/-- `wb.per.bus_type`: the signals from a peripheral to the host. -/
structure PerBus where
  rdt : BitVec 32
  ack : Bool
deriving DecidableEq, Repr

/-- `wb.per.new_bus_type`. -/
def PerBus.new : PerBus := ⟨0, false⟩

/-- What a host asks for while `cyc` is high. -/
structure Request where
  adr : BitVec 32
  dat : BitVec 32
  sel : BitVec 4
  we : Bool
deriving DecidableEq, Repr

def HostBus.request (bus : HostBus) : Request :=
  ⟨bus.adr, bus.dat, bus.sel, bus.we⟩

/-! ### Byte lanes -/

/-- Eight copies of each select bit. -/
def laneMask (sel : BitVec 4) : BitVec 32 :=
  let byte (lane : Nat) : BitVec 8 := if sel.getLsbD lane then 0xff#8 else 0#8
  byte 3 ++ byte 2 ++ byte 1 ++ byte 0

/-- The selected bytes of the new word over the other bytes of the old one. -/
def mergeLanes (sel : BitVec 4) (old new : BitVec 32) : BitVec 32 :=
  (old &&& ~~~laneMask sel) ||| (new &&& laneMask sel)

/-- One byte of a word. -/
def byteLane (word : BitVec 32) (lane : Fin 4) : BitVec 8 :=
  word.extractLsb' (8 * lane.val) 8

theorem getLsbD_laneMask : ∀ (sel : BitVec 4) (i : Fin 32),
    (laneMask sel).getLsbD i = sel.getLsbD (i / 8) := by
  decide

theorem getLsbD_mergeLanes (sel : BitVec 4) (old new : BitVec 32) {i : Nat} (bound : i < 32) :
    (mergeLanes sel old new).getLsbD i =
      if sel.getLsbD (i / 8) then new.getLsbD i else old.getLsbD i := by
  have mask := getLsbD_laneMask sel ⟨i, bound⟩
  simp only [mergeLanes, BitVec.getLsbD_or, BitVec.getLsbD_and, BitVec.getLsbD_not, mask, bound,
    decide_true, Bool.true_and]
  cases selected : sel.getLsbD (i / 8) <;> simp

theorem byteLane_mergeLanes (sel : BitVec 4) (old new : BitVec 32)
    (lane : Fin 4) :
    byteLane (mergeLanes sel old new) lane =
      if sel.getLsbD lane then byteLane new lane else byteLane old lane := by
  apply BitVec.eq_of_getLsbD_eq
  intro i bound
  have position : 8 * lane.val + i < 32 := by omega
  have quotient : (8 * lane.val + i) / 8 = lane.val := by omega
  simp only [byteLane, BitVec.getLsbD_extractLsb', getLsbD_mergeLanes sel old new position,
    quotient]
  split <;> simp only [BitVec.getLsbD_extractLsb']

/-! ### The memory behind the bus -/

/-- A word memory; the two low address bits do not reach it. -/
abbrev WordMemory := BitVec 30 → BitVec 32

def wordIndex (adr : BitVec 32) : BitVec 30 := adr.extractLsb' 2 30

/-- The word that a byte address falls into. -/
def WordMemory.word (memory : WordMemory) (adr : BitVec 32) : BitVec 32 :=
  memory (wordIndex adr)

/-- The memory after one served request. -/
def Request.apply (request : Request) (memory : WordMemory) : WordMemory :=
  if request.we then
    Function.update memory (wordIndex request.adr)
      (mergeLanes request.sel (memory.word request.adr) request.dat)
  else memory

theorem Request.apply_of_read {request : Request} (read : request.we = false)
    (memory : WordMemory) : request.apply memory = memory := by
  simp [apply, read]

/-- The memory as bytes. -/
def WordMemory.bytes (memory : WordMemory) : BitVec 30 → Fin 4 → BitVec 8 :=
  fun index lane => byteLane (memory index) lane

/-- The request as an access of the lane memory. -/
def Request.access (request : Request) :
    LaneMemory.Access (BitVec 30) (Fin 4) (BitVec 8) where
  index := wordIndex request.adr
  write := request.we
  sel lane := request.sel.getLsbD lane
  data lane := byteLane request.dat lane

theorem Request.apply_bytes (request : Request) (memory : WordMemory) :
    (request.apply memory).bytes = request.access.apply memory.bytes := by
  funext index lane
  by_cases write : request.we
  · by_cases same : wordIndex request.adr = index
    · subst index
      simp [apply, WordMemory.bytes, access, LaneMemory.Access.apply,
        LaneMemory.Access.touches, WordMemory.word, byteLane_mergeLanes, write]
    · simp [apply, WordMemory.bytes, access, LaneMemory.Access.apply,
        LaneMemory.Access.touches, write, same, Function.update_of_ne (Ne.symm same)]
  · simp [apply, WordMemory.bytes, access, LaneMemory.Access.apply,
      LaneMemory.Access.touches, write]

/-- The memory after a list of served requests, oldest first. -/
def Request.applyAll (memory : WordMemory) (requests : List Request) :
    WordMemory :=
  requests.foldl (fun memory request => request.apply memory) memory

@[simp]
theorem Request.applyAll_nil (memory : WordMemory) :
    Request.applyAll memory [] = memory :=
  rfl

@[simp]
theorem Request.applyAll_concat (memory : WordMemory) (requests : List Request)
    (request : Request) :
    Request.applyAll memory (requests ++ [request]) =
      request.apply (Request.applyAll memory requests) := by
  simp [applyAll]

/-- Byte by byte, the memory after a list of requests holds the last value
written. -/
theorem Request.applyAll_bytes (memory : WordMemory) (requests : List Request)
    (index : BitVec 30) (lane : Fin 4) :
    (Request.applyAll memory requests).bytes index lane =
      (LaneMemory.lastWritten index lane (requests.map Request.access)).getD
        (memory.bytes index lane) := by
  have replayed : (Request.applyAll memory requests).bytes =
      LaneMemory.replay memory.bytes (requests.map Request.access) := by
    induction requests generalizing memory with
    | nil => rfl
    | cons request requests ih =>
        change (Request.applyAll (request.apply memory) requests).bytes = _
        rw [ih, Request.apply_bytes]
        rfl
  rw [replayed, LaneMemory.replay_eq_lastWritten]

/-! ### Slaves on a trace -/

/-- A word memory on the bus: it acknowledges only a raised cycle, reads return
the addressed word, and the write of a cycle takes effect when it is
acknowledged.  Nothing is said about how long an acknowledge takes. -/
structure MemorySlave (clk : Nat → Bool) (bus : Nat → HostBus)
    (per : Nat → PerBus) (memory : Nat → WordMemory) : Prop where
  ack_cyc : ∀ n, clk n = true → (per n).ack = true → (bus n).cyc = true
  read : ∀ n, clk n = true → (per n).ack = true → (bus n).we = false →
    (per n).rdt = (memory n).word (bus n).adr
  next : ∀ n, memory (n + 1) =
    if clk n && (per n).ack then (bus n).request.apply (memory n) else memory n

/-- The acknowledged cycles, each with the data that came back. -/
def exchanges (clk : Nat → Bool) (bus : Nat → HostBus) (per : Nat → PerBus) :
    Nat → List (Request × BitVec 32) :=
  Trace.history fun n =>
    if clk n && ((bus n).cyc && (per n).ack) then some ((bus n).request, (per n).rdt)
    else none

/-- The requests of the acknowledged cycles. -/
def servedRequests (clk : Nat → Bool) (bus : Nat → HostBus) (per : Nat → PerBus) :
    Nat → List Request :=
  Trace.history fun n =>
    if clk n && ((bus n).cyc && (per n).ack) then some (bus n).request else none

section Slave

variable {clk : Nat → Bool} {bus : Nat → HostBus} {per : Nat → PerBus}

theorem servedRequests_eq_map (n : Nat) :
    servedRequests clk bus per n = (exchanges clk bus per n).map Prod.fst := by
  rw [exchanges, Trace.history_map, servedRequests]
  congr 1
  funext m
  split <;> rfl

/-- A host that holds a raised cycle until its acknowledge, and drops it then,
has every cycle served but the one it holds. -/
theorem pulses_eq_served (clk : Nat → Bool) (bus : Nat → HostBus) (per : Nat → PerBus)
    (held : ∀ n, (bus n).cyc = true → ¬ (clk n = true ∧ (per n).ack = true) →
      bus (n + 1) = bus n)
    (dropped : ∀ n, (bus n).cyc = true → clk n = true → (per n).ack = true →
      (bus (n + 1)).cyc = false) (n : Nat) :
    Trace.pulses (fun n => (bus n).cyc) (fun n => (bus n).request) n =
      servedRequests clk bus per n ++ if (bus n).cyc then [(bus n).request] else [] := by
  induction n with
  | zero => simp [Trace.pulses, servedRequests]
  | succ n ih =>
      by_cases answered : (bus n).cyc = true ∧ clk n = true ∧ (per n).ack = true
      · obtain ⟨cyc, tick, ack⟩ := answered
        have one : servedRequests clk bus per (n + 1) =
            servedRequests clk bus per n ++ [(bus n).request] :=
          Trace.history_succ_some (by simp [cyc, tick, ack])
        have low := dropped n cyc tick ack
        rw [Trace.pulses_succ_of_low low, ih, one]
        simp [cyc, low]
      · have none : servedRequests clk bus per (n + 1) = servedRequests clk bus per n := by
          refine Trace.history_succ_none (if_neg ?_)
          simp only [Bool.and_eq_true]
          exact fun now => answered ⟨now.2.1, now.1, now.2.2⟩
        rw [none]
        cases cyc : (bus n).cyc with
        | true =>
            have same := held n cyc (by simpa [cyc] using answered)
            rw [Trace.pulses_succ_of_high cyc, ih, same]
        | false =>
            rw [cyc, if_neg (by simp), List.append_nil] at ih
            rw [Trace.pulses, ih, cyc]
            simp

variable {memory : Nat → WordMemory} (slave : MemorySlave clk bus per memory)
include slave

/-- The memory is what the acknowledged requests have made of it. -/
theorem MemorySlave.memory_eq (n : Nat) :
    memory n = Request.applyAll (memory 0) (servedRequests clk bus per n) := by
  induction n with
  | zero => rfl
  | succ n ih =>
      rw [slave.next]
      by_cases ack : clk n = true ∧ (per n).ack = true
      · have cyc := slave.ack_cyc n ack.1 ack.2
        have one : servedRequests clk bus per (n + 1) =
            servedRequests clk bus per n ++ [(bus n).request] :=
          Trace.history_succ_some (by simp [ack, cyc])
        rw [one, Request.applyAll_concat, ← ih]
        simp [ack]
      · have none : servedRequests clk bus per (n + 1) = servedRequests clk bus per n := by
          refine Trace.history_succ_none (if_neg ?_)
          simp only [Bool.and_eq_true]
          exact fun now => ack ⟨now.1, now.2.2⟩
        rw [none, ← ih]
        simpa using fun tick now => absurd ⟨tick, now⟩ ack

/-- A read returns the word as the requests before it have left it. -/
theorem MemorySlave.exchange_read (n : Nat) {before after : List (Request × BitVec 32)}
    {request : Request} {data : BitVec 32}
    (split : exchanges clk bus per n = before ++ (request, data) :: after)
    (read : request.we = false) :
    data = (Request.applyAll (memory 0) (before.map Prod.fst)).word request.adr := by
  obtain ⟨m, _, seen, past⟩ := Trace.history_split split
  obtain ⟨⟨tick, _, ack⟩, exchange⟩ : (clk m = true ∧ (bus m).cyc = true ∧ (per m).ack = true) ∧
      ((bus m).request, (per m).rdt) = (request, data) := by
    simpa [Option.ite_none_right_eq_some, Bool.and_eq_true] using seen
  obtain ⟨rfl, rfl⟩ := Prod.mk.inj exchange
  have same : before.map Prod.fst = servedRequests clk bus per m := by
    rw [← past, servedRequests_eq_map, exchanges]
  rw [same, ← slave.memory_eq]
  exact slave.read m tick ack read

end Slave

/-- The memory behind a bus on which every acknowledged cycle is served. -/
def memoryTrace (clk : Nat → Bool) (bus : Nat → HostBus) (per : Nat → PerBus)
    (memory : WordMemory) : Nat → WordMemory
  | 0 => memory
  | n + 1 =>
      if clk n && (per n).ack
      then (bus n).request.apply (memoryTrace clk bus per memory n)
      else memoryTrace clk bus per memory n

/-- Every raised cycle is acknowledged in the end. -/
def Serves (clk : Nat → Bool) (bus : Nat → HostBus) (per : Nat → PerBus) : Prop :=
  Trace.LeadsTo (fun n => (bus n).cyc = true)
    (fun n => clk n = true ∧ (per n).ack = true)

theorem Serves.of_rest {clk : Nat → Bool} {bus : Nat → HostBus} {per : Nat → PerBus}
    (settled : Nat) (rest : ∀ n, settled ≤ n → (bus n).cyc = false)
    (answered : ∀ n < settled, (bus n).cyc = true →
      ∃ m < settled, n ≤ m ∧ clk m = true ∧ (per m).ack = true) : Serves clk bus per := by
  intro n high
  have early : n < settled := by
    by_contra late
    rw [rest n (Nat.le_of_not_lt late)] at high
    cases high
  obtain ⟨m, _, after, now⟩ := answered n early high
  exact ⟨m, after, now⟩

end Cocoapuffs

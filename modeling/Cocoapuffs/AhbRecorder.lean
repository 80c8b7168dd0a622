import Cocoapuffs.SlidingWindow
import Cocoapuffs.Trace
import Mathlib.Data.List.Flatten

/-!
# The AHB recorder

The entity `ahb_recorder`: it captures a record of every accepted transfer, and
streams the window of records out when `dump` rises.  One instant is one rising
edge of `clk`.
-/

namespace Cocoapuffs

namespace AhbRecorder

open SlidingWindow

/-- One record: `hwrite`, the cycle, `haddr` and `hwdata`. -/
abbrev Record := BitVec 97

/-- The signals at one edge. -/
structure Inputs where
  haddr : BitVec 32
  htrans : BitVec 2
  hwrite : Bool
  hready : Bool
  hwdata : BitVec 32
  dump : Bool
  txReady : Bool

inductive Phase where
  | sRec
  | sFetch
  | sEmit
deriving DecidableEq

structure State (addrBits : Nat) where
  mem : BitVec addrBits → Record
  wrPtr : BitVec addrBits
  rdPtr : BitVec addrBits
  dumpRem : BitVec (addrBits + 1)
  cycle : BitVec 32
  dumpPrev : Bool
  wrapped : Bool
  state : Phase
  recReg : Record
  charIdx : Nat

variable {k : Nat}

/-- The constant `last_char`. -/
def lastChar : Nat := 29

/-- Is a beat accepted? -/
def Inputs.accepts (i : Inputs) : Bool := i.htrans.getLsbD 1 && i.hready

/-- The record of a beat. -/
def State.record (s : State k) (i : Inputs) : Record :=
  BitVec.ofBool i.hwrite ++ s.cycle ++ i.haddr ++ i.hwdata

/-- Does `dump` rise? -/
def State.dumpEdge (s : State k) (i : Inputs) : Bool := i.dump && !s.dumpPrev

/-- The branch `S_REC`: the capture of a beat, and the snapshot at a dump edge. -/
def State.stepRec (i : Inputs) (s : State k) : State k :=
  { s with
    mem := if i.accepts then Function.update s.mem s.wrPtr (s.record i) else s.mem
    wrPtr :=
      if i.accepts then
        if s.wrPtr = BitVec.ofNat k (2 ^ k - 1) then 0 else s.wrPtr + 1
      else s.wrPtr
    wrapped := s.wrapped || i.accepts && s.wrPtr == BitVec.ofNat k (2 ^ k - 1)
    rdPtr := if s.dumpEdge i then if s.wrapped then s.wrPtr else 0 else s.rdPtr
    dumpRem :=
      if s.dumpEdge i then
        if s.wrapped then BitVec.ofNat (k + 1) (2 ^ k) else s.wrPtr.setWidth (k + 1)
      else s.dumpRem
    state := if s.dumpEdge i then .sFetch else .sRec }

/-- The branch `S_FETCH`. -/
def State.stepFetch (s : State k) : State k :=
  if s.dumpRem = 0 then { s with state := .sRec }
  else { s with recReg := s.mem s.rdPtr, charIdx := 0, state := .sEmit }

/-- The branch `S_EMIT`. -/
def State.stepEmit (i : Inputs) (s : State k) : State k :=
  if i.txReady then
    if s.charIdx = lastChar then
      { s with rdPtr := s.rdPtr + 1, dumpRem := s.dumpRem - 1, state := .sFetch }
    else { s with charIdx := s.charIdx + 1 }
  else s

/-- An edge at which `rstn` is low. -/
def State.reset (s : State k) : State k :=
  { s with
    wrPtr := 0
    rdPtr := 0
    dumpRem := 0
    cycle := 0
    dumpPrev := false
    wrapped := false
    charIdx := 0
    state := .sRec }

/-- An edge at which it is high. -/
def step (i : Inputs) (s : State k) : State k :=
  let next :=
    match s.state with
    | .sRec => s.stepRec i
    | .sFetch => s.stepFetch
    | .sEmit => s.stepEmit i
  { next with cycle := s.cycle + 1, dumpPrev := i.dump }

/-- The record that is captured at an edge. -/
def State.captured (s : State k) (i : Inputs) : Option Record :=
  if s.state = .sRec ∧ i.accepts then some (s.record i) else none

/-- The record whose last character is taken at an edge. -/
def State.sent (s : State k) (i : Inputs) : Option Record :=
  if s.state = .sEmit ∧ i.txReady ∧ s.charIdx = lastChar then some s.recReg else none

/-- The records in the buffer, oldest first. -/
def State.window (s : State k) : List Record :=
  if s.wrapped then read s.mem s.wrPtr (2 ^ k) else read s.mem 0 s.wrPtr.toNat

/-- The records that a dump has still to stream out. -/
def State.left (s : State k) : List Record :=
  if s.state = .sRec then [] else read s.mem s.rdPtr s.dumpRem.toNat

section Runs

variable (powerUp : State k) (inputs : Nat → Inputs)

/-- The states after a reset. -/
abbrev states : Nat → State k := Trace.run step powerUp.reset inputs

/-- The records accepted before an instant. -/
def accepted (n : Nat) : List Record :=
  Trace.history (fun j => (states powerUp inputs j).captured (inputs j)) n

/-- The records streamed out in so many cycles from an instant on. -/
def streamed (n count : Nat) : List Record :=
  Trace.history (fun j => (states powerUp inputs (n + j)).sent (inputs (n + j))) count

/-- A dump starts. -/
def DumpStarts (n : Nat) : Prop :=
  (states powerUp inputs n).state = .sRec ∧ (states powerUp inputs n).dumpEdge (inputs n)

/-- The dump that starts at `n` takes so many cycles at least. -/
def Dumping (n count : Nat) : Prop :=
  ∀ j, j < count → (states powerUp inputs (n + 1 + j)).state ≠ .sRec

/-- The dump that starts at `n` is over after so many cycles. -/
def DumpOver (n count : Nat) : Prop :=
  Dumping powerUp inputs n count ∧ (states powerUp inputs (n + 1 + count)).state = .sRec

/-- The dump that starts at `n` streams out the last records of the list. -/
structure Streams (n : Nat) (records : List Record) : Prop where
  /-- The records are streamed in their order, -/
  front : ∀ count, Dumping powerUp inputs n count →
    streamed powerUp inputs (n + 1) count <+: latest (2 ^ k) records
  /-- every one of them when the dump is over, -/
  whole : ∀ count, DumpOver powerUp inputs n count →
    streamed powerUp inputs (n + 1) count = latest (2 ^ k) records
  /-- which it is when the consumer has been ready often enough, -/
  ended : Trace.Recurs (fun m => (inputs m).txReady) → ∃ count, DumpOver powerUp inputs n count
  /-- and then the buffer has all the records it had. -/
  resumes : ∀ count, DumpOver powerUp inputs n count →
    (states powerUp inputs (n + 1 + count)).window =
      latest (2 ^ k) (accepted powerUp inputs (n + 1))

/-- The dump is the sliding window before or after a beat at the same edge. -/
def DumpsWindow (n : Nat) : Prop :=
  Streams powerUp inputs n (accepted powerUp inputs n) ∨
    Streams powerUp inputs n (accepted powerUp inputs (n + 1))

end Runs

/-! ### The window -/

/-- The buffer has the last of these records, the pointer is at the next slot, and
the flag is set from the first wrap on. -/
structure Recorded (s : State k) (records : List Record) : Prop where
  wrPtr : s.wrPtr = BitVec.ofNat k records.length
  wrapped : s.wrapped = decide (2 ^ k ≤ records.length)
  holds : Holds s.mem records

theorem recorded_reset (s : State k) : Recorded s.reset [] :=
  ⟨rfl, by simp [State.reset], Holds.nil _⟩

theorem wrPtr_succ (wrPtr : BitVec k) :
    (if wrPtr = BitVec.ofNat k (2 ^ k - 1) then 0 else wrPtr + 1) = wrPtr + 1 := by
  split_ifs with last
  · have positive := Nat.two_pow_pos k
    rw [last]
    apply BitVec.eq_of_toNat_eq
    simp [Nat.sub_add_cancel positive]
  · rfl

theorem wrapped_succ (n : Nat) :
    (decide (2 ^ k ≤ n) || BitVec.ofNat k n == BitVec.ofNat k (2 ^ k - 1)) =
      decide (2 ^ k ≤ n + 1) := by
  have positive := Nat.two_pow_pos k
  by_cases full : 2 ^ k ≤ n
  · simp [full, Nat.le_succ_of_le full]
  · have last : BitVec.ofNat k n = BitVec.ofNat k (2 ^ k - 1) ↔ 2 ^ k ≤ n + 1 := by
      rw [← BitVec.toNat_inj, BitVec.toNat_ofNat, BitVec.toNat_ofNat,
        Nat.mod_eq_of_lt (by omega), Nat.mod_eq_of_lt (by omega)]
      omega
    rw [Bool.eq_iff_iff]
    simp [full, last]

theorem Recorded.stepRec {s : State k} {records : List Record} (recorded : Recorded s records)
    (i : Inputs) :
    Recorded (s.stepRec i) (records ++ if i.accepts then [s.record i] else []) := by
  by_cases accepts : i.accepts = true
  · constructor
    · simp only [State.stepRec, accepts, if_true, wrPtr_succ, recorded.wrPtr]
      rw [List.length_append, List.length_singleton]
      exact (BitVec.ofNat_add _ 1).symm
    · simp only [State.stepRec, accepts, if_true, Bool.true_and, recorded.wrPtr,
        recorded.wrapped, wrapped_succ, List.length_append, List.length_singleton]
    · simp only [State.stepRec, accepts, if_true, recorded.wrPtr]
      exact recorded.holds.write _
  · simp only [Bool.not_eq_true] at accepts
    simp only [accepts, Bool.false_eq_true, if_false, List.append_nil]
    constructor
    · simp only [State.stepRec, accepts, Bool.false_eq_true, if_false, recorded.wrPtr]
    · simp only [State.stepRec, accepts, Bool.false_and, Bool.or_false, recorded.wrapped]
    · simp only [State.stepRec, accepts, Bool.false_eq_true, if_false]
      exact recorded.holds

theorem Recorded.stepFetch {s : State k} {records : List Record}
    (recorded : Recorded s records) : Recorded s.stepFetch records := by
  unfold State.stepFetch
  split_ifs
  · exact ⟨recorded.wrPtr, recorded.wrapped, recorded.holds⟩
  · exact ⟨recorded.wrPtr, recorded.wrapped, recorded.holds⟩

theorem Recorded.stepEmit {s : State k} {records : List Record}
    (recorded : Recorded s records) (i : Inputs) : Recorded (s.stepEmit i) records := by
  unfold State.stepEmit
  split_ifs
  · exact ⟨recorded.wrPtr, recorded.wrapped, recorded.holds⟩
  · exact ⟨recorded.wrPtr, recorded.wrapped, recorded.holds⟩
  · exact recorded

theorem Recorded.step {s : State k} {records : List Record} (recorded : Recorded s records)
    (i : Inputs) : Recorded (step i s) (records ++ (s.captured i).toList) := by
  cases phase : s.state with
  | sRec =>
      have captured : (s.captured i).toList = if i.accepts then [s.record i] else [] := by
        by_cases accepts : i.accepts = true <;> simp [State.captured, phase, accepts]
      have next := recorded.stepRec i
      rw [captured]
      simp only [AhbRecorder.step, phase]
      exact ⟨next.wrPtr, next.wrapped, next.holds⟩
  | sFetch =>
      have next := recorded.stepFetch
      simp only [AhbRecorder.step, phase, State.captured, reduceCtorEq, false_and, if_false,
        Option.toList_none, List.append_nil]
      exact ⟨next.wrPtr, next.wrapped, next.holds⟩
  | sEmit =>
      have next := recorded.stepEmit i
      simp only [AhbRecorder.step, phase, State.captured, reduceCtorEq, false_and, if_false,
        Option.toList_none, List.append_nil]
      exact ⟨next.wrPtr, next.wrapped, next.holds⟩

theorem recorded_states (powerUp : State k) (inputs : Nat → Inputs) (n : Nat) :
    Recorded (states powerUp inputs n) (accepted powerUp inputs n) := by
  induction n with
  | zero => exact recorded_reset powerUp
  | succ n ih =>
      rw [states, Trace.run_succ, accepted, Trace.history_succ]
      exact ih.step (inputs n)

/-- The slots from the pointer on, or the first ones, are the window. -/
theorem Recorded.window_eq {s : State k} {records : List Record}
    (recorded : Recorded s records) : s.window = latest (2 ^ k) records := by
  unfold State.window
  rw [recorded.wrapped, recorded.wrPtr]
  by_cases full : 2 ^ k ≤ records.length
  · rw [if_pos (by simpa using full), recorded.holds.read_full full]
  · have few : records.length < 2 ^ k := Nat.lt_of_not_le full
    rw [if_neg (by simpa using full), BitVec.toNat_ofNat, Nat.mod_eq_of_lt few,
      recorded.holds.read_partial few.le le_rfl, List.take_length,
      latest_of_length_le few.le]

/-! ### The stream -/

/-- The clock and the level of `dump` that an edge leaves. -/
def State.tick (s next : State k) (i : Inputs) : State k :=
  { next with cycle := s.cycle + 1, dumpPrev := i.dump }

theorem step_done {s : State k} (i : Inputs) (phase : s.state = .sFetch)
    (done : s.dumpRem = 0) : step i s = s.tick { s with state := .sRec } i := by
  simp only [step, phase, State.stepFetch, if_pos done, State.tick]

theorem step_fetch {s : State k} (i : Inputs) (phase : s.state = .sFetch)
    (more : s.dumpRem ≠ 0) :
    step i s =
      s.tick { s with recReg := s.mem s.rdPtr, charIdx := 0, state := .sEmit } i := by
  simp only [step, phase, State.stepFetch, if_neg more, State.tick]

theorem step_wait {s : State k} {i : Inputs} (phase : s.state = .sEmit)
    (busy : i.txReady = false) : step i s = s.tick s i := by
  simp only [step, phase, State.stepEmit, busy, Bool.false_eq_true, if_false, State.tick]

theorem step_char {s : State k} {i : Inputs} (phase : s.state = .sEmit)
    (ready : i.txReady = true) (more : s.charIdx ≠ lastChar) :
    step i s = s.tick { s with charIdx := s.charIdx + 1 } i := by
  simp only [step, phase, State.stepEmit, ready, if_true, if_neg more, State.tick]

theorem step_last {s : State k} {i : Inputs} (phase : s.state = .sEmit)
    (ready : i.txReady = true) (last : s.charIdx = lastChar) :
    step i s =
      s.tick { s with rdPtr := s.rdPtr + 1, dumpRem := s.dumpRem - 1, state := .sFetch } i := by
  simp only [step, phase, State.stepEmit, ready, if_true, if_pos last, State.tick]

/-- While a record is streamed out, it is the one the read pointer is at. -/
structure Emits (s : State k) : Prop where
  recReg : s.recReg = s.mem s.rdPtr
  dumpRem : s.dumpRem ≠ 0
  charIdx : s.charIdx ≤ lastChar

def Serves (s : State k) : Prop := s.state = .sEmit → Emits s

theorem Serves.step {s : State k} (serves : Serves s) (i : Inputs) : Serves (step i s) := by
  intro emitting
  cases phase : s.state with
  | sRec =>
      simp only [AhbRecorder.step, phase, State.stepRec] at emitting
      split at emitting <;> cases emitting
  | sFetch =>
      by_cases done : s.dumpRem = 0
      · rw [step_done i phase done] at emitting
        cases emitting
      · rw [step_fetch i phase done]
        exact ⟨rfl, done, Nat.zero_le _⟩
  | sEmit =>
      have emits := serves phase
      cases ready : i.txReady with
      | false =>
          rw [step_wait phase ready]
          exact ⟨emits.recReg, emits.dumpRem, emits.charIdx⟩
      | true =>
          by_cases last : s.charIdx = lastChar
          · rw [step_last phase ready last] at emitting
            cases emitting
          · rw [step_char phase ready last]
            exact ⟨emits.recReg, emits.dumpRem, Nat.lt_of_le_of_ne emits.charIdx last⟩

theorem serves_states (powerUp : State k) (inputs : Nat → Inputs) (n : Nat) :
    Serves (states powerUp inputs n) :=
  Trace.run_invariant Serves (fun emitting => by cases emitting)
    (fun m _ serves => serves.step (inputs m)) n

theorem toNat_sub_one {dumpRem : BitVec (k + 1)} (more : dumpRem ≠ 0) :
    dumpRem.toNat = (dumpRem - 1).toNat + 1 := by
  have positive : dumpRem.toNat ≠ 0 := fun zero => more (BitVec.eq_of_toNat_eq zero)
  have one : (1 : BitVec (k + 1)).toNat = 1 := by simp
  rw [BitVec.toNat_sub_of_le (by rw [BitVec.le_def, one]; omega), one]
  omega

/-- The record that the read pointer is at is the first of those that are left. -/
theorem left_eq_cons {s : State k} (dumping : s.state ≠ .sRec) (more : s.dumpRem ≠ 0) :
    s.left = s.mem s.rdPtr ::
      SlidingWindow.read s.mem (s.rdPtr + 1) (s.dumpRem - 1).toNat := by
  rw [State.left, if_neg dumping, toNat_sub_one more, SlidingWindow.read]

theorem sent_left {s : State k} (serves : Serves s) (dumping : s.state ≠ .sRec) (i : Inputs) :
    (s.sent i).toList ++ (step i s).left = s.left := by
  cases phase : s.state with
  | sRec => exact absurd phase dumping
  | sFetch =>
      by_cases done : s.dumpRem = 0
      · rw [step_done i phase done]
        simp [State.sent, State.left, State.tick, phase, done, SlidingWindow.read]
      · rw [step_fetch i phase done]
        simp [State.sent, State.left, State.tick, phase]
  | sEmit =>
      have emits := serves phase
      cases ready : i.txReady with
      | false =>
          rw [step_wait phase ready]
          simp [State.sent, State.left, State.tick, phase, ready]
      | true =>
          by_cases last : s.charIdx = lastChar
          · rw [left_eq_cons dumping emits.dumpRem, ← emits.recReg, step_last phase ready last]
            simp [State.sent, State.left, State.tick, phase, ready, last]
          · rw [step_char phase ready last]
            simp [State.sent, State.left, State.tick, phase, last]

/-- How many edges a dump has left to it, at most, at which it moves on. -/
def State.rank (s : State k) : Nat :=
  match s.state with
  | .sRec => 0
  | .sFetch => 32 * s.dumpRem.toNat + 1
  | .sEmit => 32 * (s.dumpRem - 1).toNat + 2 + (lastChar - s.charIdx)

theorem rank_step {s : State k} (serves : Serves s) (dumping : s.state ≠ .sRec) {i : Inputs}
    (ready : s.state = .sEmit → i.txReady = true) :
    (step i s).state = .sRec ∨ (step i s).state ≠ .sRec ∧ (step i s).rank < s.rank := by
  cases phase : s.state with
  | sRec => exact absurd phase dumping
  | sFetch =>
      by_cases done : s.dumpRem = 0
      · left
        rw [step_done i phase done]
        rfl
      · right
        have more := toNat_sub_one done
        rw [step_fetch i phase done]
        constructor
        · exact Phase.noConfusion
        · simp only [State.rank, State.tick, phase, lastChar]
          omega
  | sEmit =>
      right
      have inside := (serves phase).charIdx
      by_cases last : s.charIdx = lastChar
      · rw [step_last phase (ready phase) last]
        constructor
        · exact Phase.noConfusion
        · simp only [State.rank, State.tick, phase]
          omega
      · rw [step_char phase (ready phase) last]
        constructor
        · simp [State.tick, phase]
        · simp only [State.rank, State.tick, phase]
          omega

theorem leadsTo_over {start : State k} {inputs : Nat → Inputs} (serves : Serves start)
    (again : Trace.Recurs (fun m => (inputs m).txReady)) :
    Trace.LeadsTo (fun m => (Trace.run step start inputs m).state ≠ .sRec)
      (fun m => (Trace.run step start inputs m).state = .sRec) := by
  have serves : ∀ m, Serves (Trace.run step start inputs m) :=
    Trace.run_invariant Serves serves fun m _ serves => serves.step (inputs m)
  apply Trace.LeadsTo.of_rank fun m => (Trace.run step start inputs m).rank
  rintro bound m ⟨dumping, rank⟩
  cases phase : (Trace.run step start inputs m).state with
  | sRec => exact absurd phase dumping
  | sFetch =>
      have falls := rank_step (serves m) dumping (i := inputs m) (by simp [phase])
      rw [rank] at falls
      exact ⟨m + 1, Nat.le_succ m, falls⟩
  | sEmit =>
      have waits : Trace.LeadsTo
          (fun m => (Trace.run step start inputs m).state = .sEmit ∧
            (Trace.run step start inputs m).rank = bound)
          (fun m => (Trace.run step start inputs m).state = .sRec ∨
            (Trace.run step start inputs m).state ≠ .sRec ∧
              (Trace.run step start inputs m).rank < bound) := by
        apply Trace.LeadsTo.of_recurs again
        · rintro m ⟨emitting, same⟩ busy
          rw [Trace.run_succ, step_wait emitting (by simpa using busy)]
          exact ⟨emitting, same⟩
        · rintro m ⟨emitting, same⟩ ready
          rw [← same]
          exact rank_step (serves m) (by rw [emitting]; exact Phase.noConfusion) fun _ => ready
      exact waits m ⟨phase, rank⟩

section Dumps

variable {powerUp : State k} {inputs : Nat → Inputs} {n : Nat}

theorem streamed_left {count : Nat} (dumping : Dumping powerUp inputs n count) :
    streamed powerUp inputs (n + 1) count ++ (states powerUp inputs (n + 1 + count)).left =
      (states powerUp inputs (n + 1)).left := by
  induction count with
  | zero => rfl
  | succ count ih =>
      have before := ih fun j less => dumping j (by omega)
      have sends := sent_left (serves_states powerUp inputs (n + 1 + count))
        (dumping count (Nat.lt_succ_self _)) (inputs (n + 1 + count))
      rw [streamed, Trace.history_succ, List.append_assoc, ← before, ← sends]
      rfl

theorem streamed_of_over {count : Nat} (ended : DumpOver powerUp inputs n count) :
    streamed powerUp inputs (n + 1) count = (states powerUp inputs (n + 1)).left := by
  have parts := streamed_left ended.1
  rwa [State.left, if_pos ended.2, List.append_nil] at parts

theorem accepted_of_dumping {count : Nat} (dumping : Dumping powerUp inputs n count) :
    accepted powerUp inputs (n + 1 + count) = accepted powerUp inputs (n + 1) := by
  induction count with
  | zero => rfl
  | succ count ih =>
      rw [← ih fun j less => dumping j (by omega)]
      apply Trace.history_succ_none
      simp [State.captured, dumping count (Nat.lt_succ_self _)]

theorem over_of_recurs (again : Trace.Recurs (fun m => (inputs m).txReady)) (n : Nat) :
    ∃ count, DumpOver powerUp inputs n count := by
  have some_end : ∃ count, (states powerUp inputs (n + 1 + count)).state = .sRec := by
    by_cases ended : (states powerUp inputs (n + 1)).state = .sRec
    · exact ⟨0, ended⟩
    · obtain ⟨m, after, done⟩ :=
        leadsTo_over (serves_states powerUp inputs 0) again (n + 1) ended
      exact ⟨m - (n + 1), by rwa [Nat.add_sub_cancel' after]⟩
  classical
  exact ⟨Nat.find some_end, fun j less => Nat.find_min some_end less, Nat.find_spec some_end⟩

theorem streams_of_left {records : List Record}
    (left : (states powerUp inputs (n + 1)).left = latest (2 ^ k) records) :
    Streams powerUp inputs n records := by
  constructor
  · intro count dumping
    rw [← left, ← streamed_left dumping]
    exact List.prefix_append _ _
  · intro count ended
    rw [streamed_of_over ended, left]
  · exact fun again => over_of_recurs again n
  · intro count ended
    rw [(recorded_states powerUp inputs _).window_eq, accepted_of_dumping ended.1]

/-- What a dump starts with: the slots from the pointer on, or the first ones. -/
theorem left_of_starts (starts : DumpStarts powerUp inputs n) :
    (states powerUp inputs (n + 1)).left =
      if (states powerUp inputs n).wrapped then
        SlidingWindow.read (states powerUp inputs (n + 1)).mem (states powerUp inputs n).wrPtr
          (2 ^ k)
      else
        SlidingWindow.read (states powerUp inputs (n + 1)).mem 0
          (states powerUp inputs n).wrPtr.toNat := by
  obtain ⟨phase, edge⟩ := starts
  have small : 2 ^ k < 2 ^ (k + 1) := Nat.pow_lt_pow_succ (by decide)
  rw [states, Trace.run_succ]
  cases full : (states powerUp inputs n).wrapped with
  | false => simp [State.left, step, phase, State.stepRec, edge, full]
  | true =>
      have whole : (BitVec.ofNat (k + 1) (2 ^ k)).toNat = 2 ^ k := by
        rw [BitVec.toNat_ofNat, Nat.mod_eq_of_lt small]
      simp only [State.left, step, phase, State.stepRec, edge, full, if_true, reduceCtorEq,
        if_false, whole]

/-- A dump that starts while no beat is accepted, or before the first wrap, is the
window of the records accepted before. -/
theorem streams_of_quiet (starts : DumpStarts powerUp inputs n)
    (quiet : (states powerUp inputs n).wrapped = true → (inputs n).accepts = false) :
    Streams powerUp inputs n (accepted powerUp inputs n) := by
  have recorded := recorded_states powerUp inputs n
  have next := recorded_states powerUp inputs (n + 1)
  apply streams_of_left
  rw [left_of_starts starts, recorded.wrapped, recorded.wrPtr]
  by_cases full : 2 ^ k ≤ (accepted powerUp inputs n).length
  · have missed : (states powerUp inputs n).captured (inputs n) = none := by
      simp [State.captured, quiet (by simp [recorded.wrapped, full])]
    have same : accepted powerUp inputs (n + 1) = accepted powerUp inputs n :=
      Trace.history_succ_none missed
    rw [same] at next
    rw [if_pos (by simpa using full), next.holds.read_full full]
  · have few : (accepted powerUp inputs n).length < 2 ^ k := Nat.lt_of_not_le full
    obtain ⟨last, eq⟩ : accepted powerUp inputs n <+: accepted powerUp inputs (n + 1) :=
      Trace.history_prefix _ (Nat.le_succ n)
    have one_more : (accepted powerUp inputs (n + 1)).length ≤ 2 ^ k := by
      rw [accepted, Trace.history_succ, List.length_append]
      cases (states powerUp inputs n).captured (inputs n) with
      | none => exact few.le
      | some record => exact few
    rw [if_neg (by simpa using full), BitVec.toNat_ofNat, Nat.mod_eq_of_lt few,
      next.holds.read_partial one_more (by rw [← eq, List.length_append]; omega),
      ← eq, List.take_left, latest_of_length_le few.le]

end Dumps

/-- If no beat is accepted at a dump edge once the window has wrapped, every dump is
the sliding window. -/
theorem dumpsWindow (powerUp : State k) (inputs : Nat → Inputs)
    (quiet : ∀ n, DumpStarts powerUp inputs n → (states powerUp inputs n).wrapped = true →
      (inputs n).accepts = false) :
    ∀ n, DumpStarts powerUp inputs n → DumpsWindow powerUp inputs n :=
  fun n starts => .inl (streams_of_quiet starts (quiet n starts))

/-- A buffer of two records before the reset. -/
def blank : State 1 := ⟨fun _ => 0, 0, 0, 0, 0, false, false, .sRec, 0, 0⟩

/-- Three beats in a row, and a dump. -/
def threeBeats (dumpAt n : Nat) : Inputs :=
  ⟨BitVec.ofNat 32 n, if n ≤ 2 then 0b10 else 0b00, false, true, 0, n == dumpAt, true⟩

theorem dumpsWindow_after_beats :
    DumpStarts blank (threeBeats 4) 4 ∧ DumpsWindow blank (threeBeats 4) 4 := by
  have starts : DumpStarts blank (threeBeats 4) 4 := by
    unfold DumpStarts
    decide +kernel
  refine ⟨starts, dumpsWindow blank (threeBeats 4) ?_ 4 starts⟩
  rintro n ⟨_, edge⟩ _
  have late : n = 4 := by
    simp only [State.dumpEdge, threeBeats, Bool.and_eq_true, beq_iff_eq] at edge
    exact edge.1
  subst late
  rfl

/-- A dump at the edge of the third beat streams the newest record out first. -/
theorem dumpsWindow_not_at_beat :
    ¬ ∀ (k : Nat), 0 < k → ∀ (powerUp : State k) (inputs : Nat → Inputs) (n : Nat),
      DumpStarts powerUp inputs n → DumpsWindow powerUp inputs n := by
  intro claim
  have window := claim 1 (by decide) blank (threeBeats 2) 2
    (by unfold DumpStarts; decide +kernel)
  have differs : ∀ records, Streams blank (threeBeats 2) 2 records →
      (states blank (threeBeats 2) 3).left = latest 2 records := by
    intro records streams
    obtain ⟨count, ended⟩ := streams.ended fun m => ⟨m, le_rfl, rfl⟩
    rw [← streamed_of_over ended]
    exact streams.whole count ended
  rcases window with streams | streams
  · exact absurd (differs _ streams) (by decide +kernel)
  · exact absurd (differs _ streams) (by decide +kernel)

end AhbRecorder

end Cocoapuffs

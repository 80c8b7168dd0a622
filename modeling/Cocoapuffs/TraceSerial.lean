import Cocoapuffs.AhbDecode
import Cocoapuffs.UartTx

/-!
# The recorder and its serial line

On the NOEL-V board `rec_recorder` hands its dumps to `rec_serializer`, which
sends them over the line `rec_txd`; a dump is asked for by a key or by the other
processor.  One instant is one rising edge of `clk50` with `noelv_reset_n` high,
and the run begins with a reset.
-/

namespace Cocoapuffs

namespace TraceSerial

open AhbRecorder (Record Serves lastChar)
open AhbTrace (line bytesLeft handed)
open SlidingWindow (latest latest_of_length_le)

/-- The snooped bus, the debounced key, and the bit of `perctl_reg`. -/
structure Inputs where
  haddr : BitVec 32
  htrans : BitVec 2
  hwrite : Bool
  hready : Bool
  hwdata : BitVec 32
  recDumpClean : Bool
  perctlReg2 : Bool

structure State (k : Nat) where
  recDumpServ : BitVec 2
  recDumpCleanD : Bool
  recDumpServD : Bool
  recRecorder : AhbRecorder.State k
  recSerializer : UartTx.State

variable {k : Nat}

/-- `rec_dump_trigger`: an edge of the key or of the synchronized bit. -/
def State.recDumpTrigger (s : State k) (i : Inputs) : Bool :=
  i.recDumpClean && !s.recDumpCleanD || s.recDumpServ.getLsbD 1 && !s.recDumpServD

/-- The ports of `rec_recorder`. -/
def State.recorderPorts (s : State k) (i : Inputs) : AhbRecorder.Inputs where
  haddr := i.haddr
  htrans := i.htrans
  hwrite := i.hwrite
  hready := i.hready
  hwdata := i.hwdata
  dump := s.recDumpTrigger i
  txReady := s.recSerializer.ready

/-- `rec_tx_data` and `rec_tx_valid`. -/
def State.offer (s : State k) : UartTx.Offer :=
  ⟨AhbTrace.txData s.recRecorder, AhbTrace.txValid s.recRecorder⟩

/-- One rising edge; the process `rec_serv_sync` has no reset. -/
def step (g : UartTx.Generics) (i : Inputs) (s : State k) : State k where
  recDumpServ := BitVec.ofBool (s.recDumpServ.getLsbD 0) ++ BitVec.ofBool i.perctlReg2
  recDumpCleanD := i.recDumpClean
  recDumpServD := s.recDumpServ.getLsbD 1
  recRecorder := AhbRecorder.step (s.recorderPorts i) s.recRecorder
  recSerializer := s.recSerializer.step g true s.offer

def State.reset (g : UartTx.Generics) (s : State k) : State k :=
  { s with
    recRecorder := s.recRecorder.reset
    recSerializer := s.recSerializer.step g false s.offer }

section Runs

variable (g : UartTx.Generics) (powerUp : State k) (inputs : Nat → Inputs)

abbrev states : Nat → State k := Trace.run (step g) (powerUp.reset g) inputs

def ports (n : Nat) : AhbRecorder.Inputs := (states g powerUp inputs n).recorderPorts (inputs n)

def offers (n : Nat) : UartTx.Offer := (states g powerUp inputs n).offer

/-- `rec_txd`. -/
def recTxd (n : Nat) : Bool := (states g powerUp inputs n).recSerializer.tx

/-- What a receiver at the end of the line has heard before an instant. -/
def heard : Nat → List (BitVec 8) :=
  Trace.history fun n =>
    (Trace.run (UartTx.Receiver.step g.div) ⟨true, none, 0⟩ (recTxd g powerUp inputs) n).received
      g.div (recTxd g powerUp inputs n)

/-- `rec_dump_trigger`. -/
def triggered (n : Nat) : Bool := (states g powerUp inputs n).recDumpTrigger (inputs n)

/-- The records accepted while the recorder was recording. -/
def accepted : Nat → List Record :=
  AhbRecorder.accepted powerUp.recRecorder (ports g powerUp inputs)

/-- What a dump at an instant consists of: the latest records; a beat at the
same edge takes the place of the oldest one of a full buffer. -/
def dumpAt (n : Nat) : List Record :=
  let records := latest (2 ^ k) (accepted g powerUp inputs n)
  let recorder := (states g powerUp inputs n).recRecorder
  if recorder.wrapped && (ports g powerUp inputs n).accepts then
    recorder.record (ports g powerUp inputs n) :: records.tail
  else records

/-- The dumps started before an instant. -/
def dumps : Nat → List (List Record) :=
  Trace.history fun n =>
    if (states g powerUp inputs n).recRecorder.state = .sRec ∧
        (states g powerUp inputs n).recRecorder.dumpEdge (ports g powerUp inputs n) then
      some (dumpAt g powerUp inputs n)
    else none

/-- The time of a frame, and of the edge that takes the byte. -/
def frame : Nat := 10 * g.div + 1

/-- Everything that is heard on the line is the dumps, line by line. -/
structure Transcribes : Prop where
  /-- A listener has heard a front part of the dumps' lines at any instant, -/
  front : ∀ n, heard g powerUp inputs n <+: (dumps g powerUp inputs n).flatten.flatMap line
  /-- all of them when half a stop bit has gone by since a dump was over, -/
  whole : ∀ n, (states g powerUp inputs n).recRecorder.state = .sRec →
    heard g powerUp inputs (1 + 9 * g.div + g.div / 2 + n) =
      (dumps g powerUp inputs n).flatten.flatMap line
  /-- and `ahb_trace_decode` makes an access of each of the records, -/
  decoded : ∀ n, (states g powerUp inputs n).recRecorder.state = .sRec →
    AhbTrace.decode (heard g powerUp inputs (1 + 9 * g.div + g.div / 2 + n)) =
      (dumps g powerUp inputs n).flatten.map fun r => (AhbTrace.groups r).output
  /-- for each of which it prints a line. -/
  printed : ∀ n, (states g powerUp inputs n).recRecorder.state = .sRec →
    AhbTrace.decodeText (heard g powerUp inputs (1 + 9 * g.div + g.div / 2 + n)) =
      (dumps g powerUp inputs n).flatten.flatMap fun r =>
        (AhbTrace.groups r).output.print ++ [HexText.newline]
  /-- A trigger that was low at the edge before starts a dump of a recording recorder. -/
  asked : ∀ n, (states g powerUp inputs n).recRecorder.state = .sRec →
    triggered g powerUp inputs n = true →
    (∀ m, m + 1 = n → triggered g powerUp inputs m = false) →
    dumps g powerUp inputs (n + 1) = dumps g powerUp inputs n ++ [dumpAt g powerUp inputs n]
  /-- A dump takes no longer than a full buffer needs on the line. -/
  ended : ∀ n, ∃ m, n ≤ m ∧ m ≤ n + (2 ^ k * (30 * frame g + 1) + frame g) ∧
    (states g powerUp inputs m).recRecorder.state = .sRec

end Runs

/-! ### The two components along a run -/

section Components

variable (g : UartTx.Generics) (powerUp : State k) (inputs : Nat → Inputs)

theorem recorder_states (n : Nat) : (states g powerUp inputs n).recRecorder =
    AhbRecorder.states powerUp.recRecorder (ports g powerUp inputs) n := by
  induction n with
  | zero => rfl
  | succ n ih =>
      change _ = AhbRecorder.step (ports g powerUp inputs n)
        (AhbRecorder.states powerUp.recRecorder (ports g powerUp inputs) n)
      rw [← ih]
      rfl

theorem states_succ_recRecorder (n : Nat) : (states g powerUp inputs (n + 1)).recRecorder =
    AhbRecorder.step (ports g powerUp inputs n) (states g powerUp inputs n).recRecorder :=
  rfl

theorem serializer_states (n : Nat) : (states g powerUp inputs n).recSerializer =
    UartTx.states g powerUp.recSerializer (offers g powerUp inputs) n := by
  induction n with
  | zero => rfl
  | succ n ih =>
      rw [UartTx.states, Trace.run_succ, ← UartTx.states, ← ih]
      rfl

theorem heard_eq (n : Nat) : heard g powerUp inputs n =
    Trace.history (UartTx.received g powerUp.recSerializer (offers g powerUp inputs)) n := by
  have line : recTxd g powerUp inputs =
      UartTx.tx g powerUp.recSerializer (offers g powerUp inputs) := by
    funext m
    rw [recTxd, serializer_states]
    rfl
  rw [heard, line]
  rfl

/-- The serializer takes the bytes that the recorder hands over. -/
theorem handed_eq (n : Nat) : handed (states g powerUp inputs n).recRecorder
    (ports g powerUp inputs n) =
      UartTx.accepted g powerUp.recSerializer (offers g powerUp inputs) n := by
  rw [UartTx.accepted, ← serializer_states]
  rfl

theorem recorded (n : Nat) : AhbRecorder.Recorded (states g powerUp inputs n).recRecorder
    (accepted g powerUp inputs n) := by
  rw [recorder_states]
  exact AhbRecorder.recorded_states _ _ n

theorem serves (n : Nat) : Serves (states g powerUp inputs n).recRecorder := by
  rw [recorder_states]
  exact AhbRecorder.serves_states _ _ n

end Components

/-! ### The text of the dumps -/

section Text

variable {g : UartTx.Generics} {powerUp : State k} {inputs : Nat → Inputs}

theorem accepted_succ (n : Nat) : accepted g powerUp inputs (n + 1) =
    accepted g powerUp inputs n ++
      ((states g powerUp inputs n).recRecorder.captured (ports g powerUp inputs n)).toList := by
  rw [recorder_states]
  rfl

/-- A buffer that takes another record over its oldest is read from that one on. -/
theorem read_replaced {mem : BitVec k → Record} {records : List Record} {record : Record}
    (full : 2 ^ k ≤ records.length) (holds : SlidingWindow.Holds mem (records ++ [record])) :
    SlidingWindow.read mem (BitVec.ofNat k records.length) (2 ^ k) =
      record :: (latest (2 ^ k) records).tail := by
  have positive := Nat.two_pow_pos k
  have length : (records ++ [record]).length = records.length + 1 := by simp
  have first : mem (BitVec.ofNat k records.length) = record := by
    rw [holds records.length (by omega) (by omega)]
    exact List.getElem_concat_length rfl _
  have next : BitVec.ofNat k records.length + 1 =
      BitVec.ofNat k (records.length + 1 - 2 ^ k) := by
    apply BitVec.eq_of_toNat_eq
    have wraps := Nat.mod_eq_sub_mod (show 2 ^ k ≤ records.length + 1 by omega)
    have one : BitVec.ofNat k records.length + 1 = BitVec.ofNat k (records.length + 1) :=
      (BitVec.ofNat_add _ 1).symm
    rw [one, BitVec.toNat_ofNat, BitVec.toNat_ofNat, wraps]
  have rest : SlidingWindow.read mem (BitVec.ofNat k (records.length + 1 - 2 ^ k)) (2 ^ k - 1) =
      ((records ++ [record]).drop (records.length + 1 - 2 ^ k)).take (2 ^ k - 1) :=
    holds.read_eq (by omega) (by omega)
  rw [← Nat.sub_add_cancel positive, SlidingWindow.read, first, next, Nat.sub_add_cancel positive,
    rest, latest, List.tail_drop, List.drop_append_of_le_length (by omega)]
  congr 1
  have place : records.length + 1 - 2 ^ k = records.length - 2 ^ k + 1 := by omega
  rw [place, List.take_append_of_le_length (by rw [List.length_drop]; omega)]
  exact List.take_of_length_le (by rw [List.length_drop]; omega)

/-- A dump starts with the records that it is to consist of. -/
theorem left_of_starts {n : Nat}
    (recording : (states g powerUp inputs n).recRecorder.state = .sRec)
    (edge : (states g powerUp inputs n).recRecorder.dumpEdge (ports g powerUp inputs n) = true) :
    (states g powerUp inputs (n + 1)).recRecorder.left = dumpAt g powerUp inputs n := by
  have now := recorded g powerUp inputs n
  have next := recorded g powerUp inputs (n + 1)
  have starts : AhbRecorder.DumpStarts powerUp.recRecorder (ports g powerUp inputs) n := by
    rw [AhbRecorder.DumpStarts, ← recorder_states]
    exact ⟨recording, edge⟩
  have left := AhbRecorder.left_of_starts starts
  simp only [← recorder_states] at left
  rw [left, dumpAt, now.wrapped, now.wrPtr]
  rw [accepted_succ] at next
  by_cases full : 2 ^ k ≤ (accepted g powerUp inputs n).length
  · rw [if_pos (by simpa using full)]
    cases accepts : (ports g powerUp inputs n).accepts with
    | false =>
        simp only [AhbRecorder.State.captured, accepts, Bool.false_eq_true, and_false, if_false,
          Option.toList_none, List.append_nil] at next
        rw [next.holds.read_full full, Bool.and_false, if_neg Bool.false_ne_true]
    | true =>
        simp only [AhbRecorder.State.captured, recording, accepts, and_self, if_true,
          Option.toList_some] at next
        rw [read_replaced full next.holds, decide_eq_true full, Bool.true_and, if_pos rfl]
  · have few : (accepted g powerUp inputs n).length < 2 ^ k := Nat.lt_of_not_le full
    have whole : (accepted g powerUp inputs n ++ ((states g powerUp inputs n).recRecorder.captured
        (ports g powerUp inputs n)).toList).length ≤ 2 ^ k := by
      rw [List.length_append]
      have one := Option.length_toList_le (o := (states g powerUp inputs n).recRecorder.captured
        (ports g powerUp inputs n))
      omega
    rw [if_neg (by simpa using full), decide_eq_false full, Bool.false_and,
      if_neg Bool.false_ne_true, BitVec.toNat_ofNat, Nat.mod_eq_of_lt few,
      next.holds.read_partial whole (by rw [List.length_append]; omega), List.take_left,
      latest_of_length_le few.le]

/-- What the recorder has handed over and what it has still to hand over are the
lines of the dumps. -/
theorem bytes_eq (n : Nat) :
    Trace.history (UartTx.accepted g powerUp.recSerializer (offers g powerUp inputs)) n ++
        bytesLeft (states g powerUp inputs n).recRecorder =
      (dumps g powerUp inputs n).flatten.flatMap line := by
  induction n with
  | zero => rfl
  | succ n ih =>
      rw [Trace.history_succ, ← handed_eq, dumps, Trace.history_succ, ← dumps]
      by_cases recording : (states g powerUp inputs n).recRecorder.state = .sRec
      · have silent : handed (states g powerUp inputs n).recRecorder (ports g powerUp inputs n) =
            none := by
          simp [handed, AhbTrace.txValid, recording]
        have before : bytesLeft (states g powerUp inputs n).recRecorder = [] := by
          simp only [bytesLeft, recording]
        rw [silent, Option.toList_none, List.append_nil]
        rw [before, List.append_nil] at ih
        cases edge : (states g powerUp inputs n).recRecorder.dumpEdge (ports g powerUp inputs n) with
        | false =>
            have still : (states g powerUp inputs (n + 1)).recRecorder.state = .sRec := by
              rw [states_succ_recRecorder]
              simp [AhbRecorder.step, AhbRecorder.State.stepRec, recording, edge]
            rw [ih, bytesLeft, still]
            simp
        | true =>
            have fetching : (states g powerUp inputs (n + 1)).recRecorder.state = .sFetch := by
              rw [states_succ_recRecorder]
              simp [AhbRecorder.step, AhbRecorder.State.stepRec, recording, edge]
            rw [ih, bytesLeft, fetching, if_pos ⟨recording, rfl⟩]
            simp only [left_of_starts recording edge, Option.toList_some, List.flatten_append,
              List.flatten_singleton, List.flatMap_append]
      · have hands := AhbTrace.handed_bytesLeft (serves g powerUp inputs n) recording
          (ports g powerUp inputs n)
        rw [if_neg fun starts => recording starts.1, Option.toList_none, List.append_nil, ← ih,
          List.append_assoc, states_succ_recRecorder, hands]

end Text

/-! ### The time of a dump -/

/-- The edges that a frame on the line still takes. -/
def remaining (div : Nat) : Option UartTx.Slot → Nat
  | none => 0
  | some slot => 10 * div - (slot.bit * div + slot.clock)

theorem remaining_nextSlot {div : Nat} {slot : UartTx.Slot} (bit : slot.bit < 10)
    (clock : slot.clock < div) (offer : Option (BitVec 8)) :
    remaining div (UartTx.nextSlot div offer (some slot)) + 1 = remaining div (some slot) := by
  have most : slot.bit * div ≤ 9 * div := Nat.mul_le_mul_right div (by omega)
  rw [UartTx.nextSlot]
  split_ifs with same another
  · simp only [remaining]
    omega
  · have next : (slot.bit + 1) * div ≤ 9 * div := Nat.mul_le_mul_right div (by omega)
    rw [Nat.succ_mul] at next
    simp only [remaining, Nat.succ_mul]
    omega
  · have last : slot.bit = 9 := by omega
    simp only [remaining, last]
    omega

/-- The edges that a dump still takes, at most. -/
def rank (div : Nat) (s : AhbRecorder.State k) (wait : Nat) : Nat :=
  match s.state with
  | .sRec => 0
  | .sFetch => s.dumpRem.toNat * (30 * (10 * div + 1) + 1) + wait + 1
  | .sEmit =>
      (s.dumpRem - 1).toNat * (30 * (10 * div + 1) + 1) + (30 - s.charIdx) * (10 * div + 1) +
        wait + 1

theorem rank_le {div wait : Nat} {s : AhbRecorder.State k} (serves : Serves s)
    (room : s.dumpRem.toNat ≤ 2 ^ k) (wait_le : wait ≤ 10 * div) :
    rank div s wait ≤ 2 ^ k * (30 * (10 * div + 1) + 1) + (10 * div + 1) := by
  unfold rank
  cases phase : s.state with
  | sRec => exact Nat.zero_le _
  | sFetch =>
      have most := Nat.mul_le_mul_right (30 * (10 * div + 1) + 1) room
      simp only
      omega
  | sEmit =>
      have more := AhbRecorder.toNat_sub_one (serves phase).dumpRem
      have most := Nat.mul_le_mul_right (30 * (10 * div + 1) + 1) (more ▸ room)
      have chars := Nat.mul_le_mul_right (10 * div + 1) (Nat.sub_le 30 s.charIdx)
      rw [Nat.succ_mul] at most
      simp only
      omega

section Time

variable {g : UartTx.Generics} {powerUp : State k} {inputs : Nat → Inputs}

/-- The frame on the line. -/
def serving (g : UartTx.Generics) (powerUp : State k) (inputs : Nat → Inputs) (n : Nat) :
    Option UartTx.Slot :=
  UartTx.serving (offers g powerUp inputs) g n

variable (g powerUp inputs) in
theorem ready_eq (n : Nat) : (ports g powerUp inputs n).txReady =
    (serving g powerUp inputs n).isNone := by
  have serves := UartTx.serves (g := g) powerUp.recSerializer (offers g powerUp inputs) n
  rw [ports, State.recorderPorts, serializer_states, serving]
  cases slot : UartTx.serving (offers g powerUp inputs) g n with
  | none =>
      rw [slot] at serves
      simp [UartTx.State.ready, serves.1]
  | some slot' =>
      rw [slot] at serves
      simp [UartTx.State.ready, serves.1]

theorem remaining_of_busy {n : Nat} {slot : UartTx.Slot}
    (busy : serving g powerUp inputs n = some slot) :
    remaining g.div (serving g powerUp inputs (n + 1)) + 1 =
      remaining g.div (serving g powerUp inputs n) := by
  obtain ⟨bit, clock, -⟩ := UartTx.accepted_of_slots g.div_pos busy
  rw [busy, ← remaining_nextSlot bit clock (offers g powerUp inputs n).byte, ← busy]
  rfl

variable (g powerUp inputs) in
theorem remaining_le (n : Nat) : remaining g.div (serving g powerUp inputs n) ≤ 10 * g.div := by
  unfold remaining
  split
  · exact Nat.zero_le _
  · exact Nat.sub_le _ _

theorem dumpRem_le (n : Nat) : (states g powerUp inputs n).recRecorder.dumpRem.toNat ≤ 2 ^ k := by
  induction n with
  | zero => exact Nat.zero_le _
  | succ n ih =>
      have serves := serves g powerUp inputs n
      rw [states_succ_recRecorder]
      cases phase : (states g powerUp inputs n).recRecorder.state with
      | sRec =>
          have pointer := (states g powerUp inputs n).recRecorder.wrPtr.isLt
          simp only [AhbRecorder.step, phase, AhbRecorder.State.stepRec]
          split_ifs
          · rw [BitVec.toNat_ofNat]
            exact Nat.mod_le _ _
          · rw [BitVec.toNat_setWidth]
            exact (Nat.mod_le _ _).trans pointer.le
          · exact ih
      | sFetch =>
          simp only [AhbRecorder.step, phase, AhbRecorder.State.stepFetch]
          split_ifs <;> exact ih
      | sEmit =>
          have more := AhbRecorder.toNat_sub_one (serves phase).dumpRem
          simp only [AhbRecorder.step, phase, AhbRecorder.State.stepEmit]
          split_ifs
          · simp only
            omega
          · exact ih
          · exact ih

theorem remaining_of_silent {n : Nat} (silent : (offers g powerUp inputs n).valid = false) :
    remaining g.div (serving g powerUp inputs (n + 1)) ≤
      remaining g.div (serving g powerUp inputs n) := by
  cases slot : serving g powerUp inputs n with
  | none =>
      have rest : serving g powerUp inputs (n + 1) = none := by
        change UartTx.nextSlot g.div (offers g powerUp inputs n).byte
          (serving g powerUp inputs n) = none
        rw [slot, UartTx.Offer.byte, silent]
        rfl
      rw [rest]
  | some busy =>
      rw [← slot]
      exact (Nat.lt_of_succ_le (remaining_of_busy slot).le).le

/-- A dump goes on at every edge, by a bit, a byte or a record. -/
theorem rank_falls {n : Nat}
    (dumping : (states g powerUp inputs n).recRecorder.state ≠ .sRec) :
    rank g.div (states g powerUp inputs (n + 1)).recRecorder
        (remaining g.div (serving g powerUp inputs (n + 1))) <
      rank g.div (states g powerUp inputs n).recRecorder
        (remaining g.div (serving g powerUp inputs n)) := by
  have ready := ready_eq g powerUp inputs n
  have later := remaining_le g powerUp inputs (n + 1)
  rw [states_succ_recRecorder]
  cases phase : (states g powerUp inputs n).recRecorder.state with
  | sRec => exact absurd phase dumping
  | sFetch =>
      have silent : (offers g powerUp inputs n).valid = false := by
        simp [offers, State.offer, AhbTrace.txValid, phase]
      have wait := remaining_of_silent silent
      by_cases done : (states g powerUp inputs n).recRecorder.dumpRem = 0
      · rw [AhbRecorder.step_done _ phase done]
        simp only [rank, AhbRecorder.State.tick, phase]
        omega
      · have more := AhbRecorder.toNat_sub_one done
        rw [AhbRecorder.step_fetch _ phase done]
        simp only [rank, AhbRecorder.State.tick, phase, more, Nat.succ_mul]
        omega
  | sEmit =>
      have emits := serves g powerUp inputs n phase
      have inside : (states g powerUp inputs n).recRecorder.charIdx ≤ 29 := emits.charIdx
      cases slot : serving g powerUp inputs n with
      | some busy =>
          have wait := remaining_of_busy slot
          rw [slot] at ready wait
          rw [AhbRecorder.step_wait phase ready]
          simp only [rank, AhbRecorder.State.tick, phase]
          omega
      | none =>
          rw [slot] at ready
          have free : remaining g.div none = 0 := rfl
          by_cases last : (states g powerUp inputs n).recRecorder.charIdx = lastChar
          · rw [AhbRecorder.step_last phase ready last]
            simp only [rank, AhbRecorder.State.tick, phase, last, lastChar, free]
            omega
          · have chars : (30 - (states g powerUp inputs n).recRecorder.charIdx) *
                (10 * g.div + 1) =
                (30 - ((states g powerUp inputs n).recRecorder.charIdx + 1)) * (10 * g.div + 1) +
                  (10 * g.div + 1) := by
              rw [← Nat.succ_mul]
              congr 1
              rw [lastChar] at last
              omega
            rw [AhbRecorder.step_char phase ready last]
            simp only [rank, AhbRecorder.State.tick, phase, chars, free]
            omega

/-- A byte is heard in the middle of its stop bit. -/
theorem heard_delay (n : Nat) : heard g powerUp inputs (1 + 9 * g.div + g.div / 2 + n) =
    Trace.history (UartTx.accepted g powerUp.recSerializer (offers g powerUp inputs)) n := by
  have half : g.div / 2 < g.div := Nat.div_lt_self g.div_pos (by decide)
  rw [heard_eq]
  refine Trace.history_delay (fun j early => ?_) (fun j => ?_) n
  · by_contra seen
    obtain ⟨byte, seen⟩ := Option.ne_none_iff_exists'.mp seen
    obtain ⟨-, -, before, place, -⟩ :=
      UartTx.accepted_of_slots g.div_pos ((UartTx.received_iff _ _ j byte).mp seen)
    simp only at place
    omega
  · ext byte
    have late : 1 + 9 * g.div + g.div / 2 + j = j + 1 + 9 * g.div + g.div / 2 := by omega
    rw [UartTx.received_iff, UartTx.accepted_iff, late]
    constructor
    · intro middle
      obtain ⟨-, -, before, place, free, offered⟩ := UartTx.accepted_of_slots g.div_pos middle
      simp only at place
      obtain rfl : j = before := by omega
      exact ⟨free, offered⟩
    · rintro ⟨free, offered⟩
      exact UartTx.slots_of_accepted g.div_pos free offered (by decide) half

theorem heard_whole {n : Nat}
    (recording : (states g powerUp inputs n).recRecorder.state = .sRec) :
    heard g powerUp inputs (1 + 9 * g.div + g.div / 2 + n) =
      (dumps g powerUp inputs n).flatten.flatMap line := by
  have nothing : bytesLeft (states g powerUp inputs n).recRecorder = [] := by
    simp only [bytesLeft, recording]
  rw [heard_delay, ← bytes_eq, nothing, List.append_nil]

end Time

/-- Whatever goes over the bus and whenever a dump is asked for, the line carries
the dumps and nothing else, and a reader of the line recovers the records. -/
theorem trace_transcribes (g : UartTx.Generics) (powerUp : State k) (inputs : Nat → Inputs) :
    Transcribes g powerUp inputs where
  front n := by
    have early : heard g powerUp inputs n <+:
        heard g powerUp inputs (1 + 9 * g.div + g.div / 2 + n) :=
      Trace.history_prefix _ (Nat.le_add_left _ _)
    rw [heard_delay] at early
    rw [← bytes_eq]
    exact early.trans (List.prefix_append _ _)
  whole _ recording := heard_whole recording
  decoded n recording := by
    rw [heard_whole recording, AhbTrace.decode_flatMap_line]
  printed n recording := by
    rw [heard_whole recording, AhbTrace.decodeText_flatMap_line]
  asked n recording trigger fresh := by
    have low : (states g powerUp inputs n).recRecorder.dumpPrev = false := by
      cases n with
      | zero => rfl
      | succ m => exact fresh m rfl
    have edge : (states g powerUp inputs n).recRecorder.dumpEdge (ports g powerUp inputs n) =
        true := by
      rw [AhbRecorder.State.dumpEdge, low, Bool.not_false, Bool.and_true]
      exact trigger
    exact Trace.history_succ_some (if_pos ⟨recording, edge⟩)
  ended n := by
    obtain ⟨m, after, soon, over_⟩ := Trace.reached_within (fun _ => True)
      (fun m => (states g powerUp inputs m).recRecorder.state = .sRec)
      (fun m => rank g.div (states g powerUp inputs m).recRecorder
        (remaining g.div (serving g powerUp inputs m)))
      (fun m _ dumping => ⟨trivial, rank_falls dumping⟩) (n := n) trivial
    have most := rank_le (serves g powerUp inputs n) (dumpRem_le n)
      (remaining_le g powerUp inputs n)
    exact ⟨m, after, soon.trans (Nat.add_le_add_left most n), over_⟩

end TraceSerial

end Cocoapuffs

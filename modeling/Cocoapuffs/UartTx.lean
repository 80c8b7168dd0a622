import Cocoapuffs.Trace
import Mathlib.Data.BitVec

/-!
# The serial transmitter

The entity `uart_tx`, and a receiver at the other end of its line.  One instant
is one rising edge of `clk`.
-/

namespace Cocoapuffs

namespace UartTx

/-- The frequency of the clock and the rate of the line. -/
structure Generics where
  clkFreqHz : Nat
  baudRate : Nat
  positive : 0 < baudRate
  enough : baudRate ≤ clkFreqHz

/-- Clock cycles per serial bit. -/
def Generics.div (g : Generics) : Nat := g.clkFreqHz / g.baudRate

theorem Generics.div_pos (g : Generics) : 0 < g.div :=
  Nat.div_pos g.enough g.positive

structure Offer where
  data : BitVec 8
  valid : Bool

structure State where
  cnt : Nat
  bitsLeft : Nat
  shifter : BitVec 10
  busy : Bool
deriving DecidableEq

def State.tx (s : State) : Bool := s.shifter.getLsbD 0

def State.ready (s : State) : Bool := !s.busy

/-- One rising edge. -/
def State.step (g : Generics) (rstn : Bool) (offer : Offer) (s : State) : State :=
  if !rstn then ⟨0, 0, BitVec.allOnes 10, false⟩
  else if !s.busy then
    if offer.valid then ⟨0, 10, 1#1 ++ offer.data ++ 0#1, true⟩
    else { s with shifter := BitVec.allOnes 10 }
  else if s.cnt = g.div - 1 then
    let shifted := { s with cnt := 0, shifter := 1#1 ++ s.shifter.extractLsb' 1 9 }
    if s.bitsLeft = 1 then { shifted with busy := false }
    else { shifted with bitsLeft := s.bitsLeft - 1 }
  else { s with cnt := s.cnt + 1 }

/-- A receiver that has been told how long a bit lasts. -/
structure Receiver where
  /-- The line at the edge before. -/
  line : Bool
  /-- How long ago the line fell, in the middle of a frame. -/
  count : Option Nat
  byte : BitVec 8
deriving DecidableEq

/-- One rising edge: the receiver waits for the line to fall, and then takes the
level in the middle of each bit. -/
def Receiver.step (div : Nat) (line : Bool) (r : Receiver) : Receiver :=
  match r.count with
  | none => { r with line := line, count := if r.line && !line then some 1 else none }
  | some count =>
      if div ≤ count && count % div == div / 2 then
        if count / div = 9 then { r with line := line, count := none }
        else
          { line := line, count := some (count + 1)
            byte := BitVec.ofBool line ++ r.byte.extractLsb' 1 7 }
      else { r with line := line, count := some (count + 1) }

/-- A byte is received in the middle of its stop bit, if that is one. -/
def Receiver.received (div : Nat) (line : Bool) (r : Receiver) : Option (BitVec 8) :=
  match r.count with
  | none => none
  | some count => if count == 9 * div + div / 2 && line then some r.byte else none

/-- A start bit, the data with the lowest bit first, and a stop bit. -/
def frameBit (byte : BitVec 8) (bit : Nat) : Bool :=
  if bit = 0 then false else if bit ≤ 8 then byte.getLsbD (bit - 1) else true

section Definitions

variable (g : Generics) (start : State) (offers : Nat → Offer)

/-- The registers along a run that begins with a reset. -/
def states : Nat → State :=
  Trace.run (fun offer s => s.step g true offer) (start.step g false (offers 0)) offers

def tx (n : Nat) : Bool := (states g start offers n).tx

/-- The byte that is accepted by an edge. -/
def accepted (n : Nat) : Option (BitVec 8) :=
  if (offers n).valid && (states g start offers n).ready then some (offers n).data else none

/-- The receiver, and the line high before the run. -/
def receivers : Nat → Receiver :=
  Trace.run (Receiver.step g.div) ⟨true, none, 0⟩ (tx g start offers)

def received (n : Nat) : Option (BitVec 8) :=
  (receivers g start offers n).received g.div (tx g start offers n)

/-- No frame is on the line. -/
def Between (k : Nat) : Prop :=
  ∀ n, (accepted g start offers n).isSome → ¬ (n < k ∧ k ≤ n + 10 * g.div)

/-- What is on the line: a frame for each accepted byte, and nothing else. -/
structure RoundTrip : Prop where
  /-- The transmitter is ready when no frame is on the line, and accepts a byte then. -/
  ready : ∀ k, (states g start offers k).ready = true ↔ Between g start offers k
  accepts : ∀ k, Between g start offers k →
    accepted g start offers k = if (offers k).valid then some (offers k).data else none
  frames : ∀ n byte, accepted g start offers n = some byte → ∀ bit clock, bit < 10 →
    clock < g.div → tx g start offers (n + 1 + bit * g.div + clock) = frameBit byte bit
  apart : ∀ n m, (accepted g start offers n).isSome → (accepted g start offers m).isSome →
    n < m → n + 10 * g.div < m
  rests : ∀ k, Between g start offers k → tx g start offers k = true
  recovers : ∀ n, Trace.history (received g start offers) (1 + 9 * g.div + g.div / 2 + n) =
    Trace.history (accepted g start offers) n

end Definitions

/-! ### The schedule -/

/-- The place in a frame: the bit on the line, and for how long it has been
there. -/
structure Slot where
  byte : BitVec 8
  bit : Nat
  clock : Nat

/-- The next place; without a frame, one for a byte that is on offer. -/
def nextSlot (div : Nat) (offer : Option (BitVec 8)) : Option Slot → Option Slot
  | none => offer.map fun byte => ⟨byte, 0, 0⟩
  | some slot =>
      if slot.clock + 1 < div then some { slot with clock := slot.clock + 1 }
      else if slot.bit + 1 < 10 then some ⟨slot.byte, slot.bit + 1, 0⟩
      else none

section Schedule

variable {div : Nat} (offer : Nat → Option (BitVec 8))

def slots (div : Nat) : Nat → Option Slot := Trace.run (nextSlot div) none offer

theorem slots_succ (n : Nat) :
    slots offer div (n + 1) = nextSlot div (offer n) (slots offer div n) :=
  rfl

variable {offer} (positive : 0 < div)
include positive

theorem slots_of_accepted {n : Nat} {byte : BitVec 8} (free : slots offer div n = none)
    (offered : offer n = some byte) {bit clock : Nat} (frame : bit < 10) (inside : clock < div) :
    slots offer div (n + 1 + bit * div + clock) = some ⟨byte, bit, clock⟩ := by
  have clocks : ∀ {bit : Nat}, slots offer div (n + 1 + bit * div) = some ⟨byte, bit, 0⟩ →
      ∀ clock, clock < div → slots offer div (n + 1 + bit * div + clock) =
        some ⟨byte, bit, clock⟩ := by
    intro bit first clock
    induction clock with
    | zero => exact fun _ => first
    | succ clock ih =>
        intro inside
        rw [← Nat.add_assoc, slots_succ, ih (by omega), nextSlot]
        exact if_pos inside
  refine clocks ?_ clock inside
  clear inside
  induction bit with
  | zero => rw [Nat.zero_mul, Nat.add_zero, slots_succ, free, offered]; rfl
  | succ bit ih =>
      have last := clocks (ih (by omega)) (div - 1) (by omega)
      have next : n + 1 + (bit + 1) * div = n + 1 + bit * div + (div - 1) + 1 := by
        rw [Nat.succ_mul]
        omega
      rw [next, slots_succ, last, nextSlot]
      simp only [Nat.sub_add_cancel positive, Nat.lt_irrefl, if_false, if_pos frame]

theorem accepted_of_slots {n : Nat} {slot : Slot} (serving : slots offer div n = some slot) :
    slot.bit < 10 ∧ slot.clock < div ∧ ∃ before, n = before + 1 + slot.bit * div + slot.clock ∧
      slots offer div before = none ∧ offer before = some slot.byte := by
  induction n generalizing slot with
  | zero => cases serving
  | succ n ih =>
      rw [slots_succ] at serving
      cases now : slots offer div n with
      | none =>
          rw [now] at serving
          obtain ⟨byte, offered, rfl⟩ := Option.map_eq_some_iff.mp serving
          exact ⟨Nat.zero_lt_succ 9, positive, n, by simp, now, offered⟩
      | some previous =>
          obtain ⟨frame, inside, before, place, free, offered⟩ := ih now
          rw [now, nextSlot] at serving
          split at serving
          · rename_i more
            cases serving
            exact ⟨frame, more, before, by simp only; omega, free, offered⟩
          · rename_i last
            split at serving
            · rename_i another
              cases serving
              refine ⟨another, positive, before, ?_, free, offered⟩
              simp only [Nat.succ_mul]
              omega
            · cases serving

end Schedule

/-! ### The transmitter keeps to the schedule -/

/-- The registers at a place in a frame, or between two frames. -/
def Serves : Option Slot → State → Prop
  | none, s => s.busy = false ∧ s.shifter = BitVec.allOnes 10
  | some slot, s => s.busy = true ∧ s.cnt = slot.clock ∧ s.bitsLeft = 10 - slot.bit ∧
      ∀ i, i < 10 → s.shifter.getLsbD i = frameBit slot.byte (slot.bit + i)

theorem frameBit_of_high {byte : BitVec 8} {bit : Nat} (high : 9 ≤ bit) :
    frameBit byte bit = true := by
  rw [frameBit, if_neg (by omega), if_neg (by omega)]

theorem loaded_frame (byte : BitVec 8) {i : Nat} (small : i < 10) :
    (1#1 ++ byte ++ 0#1).getLsbD i = frameBit byte i := by
  simp only [BitVec.getLsbD_append, frameBit]
  rcases Nat.eq_zero_or_pos i with rfl | positive
  · rfl
  · rw [if_neg (by omega)]
    by_cases data : i ≤ 8
    · rw [if_pos (by omega), if_neg (by omega), if_pos data]
    · obtain rfl : i = 9 := by omega
      rfl

theorem shifted_frame {shifter : BitVec 10} {byte : BitVec 8} {bit : Nat}
    (frame : ∀ i, i < 10 → shifter.getLsbD i = frameBit byte (bit + i)) {i : Nat} (small : i < 10) :
    (1#1 ++ shifter.extractLsb' 1 9).getLsbD i = frameBit byte (bit + 1 + i) := by
  rw [BitVec.getLsbD_append]
  by_cases inner : i < 9
  · rw [if_pos inner, BitVec.getLsbD_extractLsb', decide_eq_true inner, Bool.true_and,
      frame (1 + i) (by omega), Nat.add_assoc]
  · obtain rfl : i = 9 := by omega
    rw [if_neg inner, frameBit_of_high (by omega)]
    rfl

section Refinement

variable {g : Generics}

def Offer.byte (offer : Offer) : Option (BitVec 8) :=
  if offer.valid then some offer.data else none

theorem serves_step {slot : Option Slot} {s : State} (serves : Serves slot s)
    (inside : ∀ at_ ∈ slot, at_.bit < 10 ∧ at_.clock < g.div) (offer : Offer) :
    Serves (nextSlot g.div offer.byte slot) (s.step g true offer) := by
  cases slot with
  | none =>
      obtain ⟨free, ones⟩ := serves
      rw [State.step, if_neg (by decide), if_pos (by simp [free])]
      cases valid : offer.valid with
      | false =>
          simp only [nextSlot, Offer.byte, valid, Bool.false_eq_true, if_false, Option.map_none]
          exact ⟨free, rfl⟩
      | true =>
          simp only [nextSlot, Offer.byte, valid, if_true, Option.map_some]
          refine ⟨rfl, rfl, rfl, fun i small => ?_⟩
          rw [Nat.zero_add]
          exact loaded_frame offer.data small
  | some slot =>
      obtain ⟨busy, cnt, bitsLeft, frame⟩ := serves
      obtain ⟨bit, clock⟩ := inside slot rfl
      rw [State.step, if_neg (by decide), if_neg (by simp [busy]), nextSlot]
      by_cases last : s.cnt = g.div - 1
      · rw [if_pos last, if_neg (by omega)]
        by_cases final : s.bitsLeft = 1
        · rw [if_neg (by omega)]
          simp only [if_pos final]
          refine ⟨rfl, BitVec.eq_of_getLsbD_eq fun i small => ?_⟩
          rw [shifted_frame frame small, frameBit_of_high (by omega), BitVec.getLsbD_allOnes,
            decide_eq_true small]
        · rw [if_pos (by omega)]
          simp only [if_neg final]
          refine ⟨busy, rfl, ?_, fun i small => shifted_frame frame small⟩
          change s.bitsLeft - 1 = 10 - (slot.bit + 1)
          omega
      · rw [if_neg last, if_pos (by omega)]
        exact ⟨busy, congrArg Nat.succ cnt, bitsLeft, frame⟩

variable (start : State) (offers : Nat → Offer)

def serving (g : Generics) (n : Nat) : Option Slot := slots (fun m => (offers m).byte) g.div n

theorem serves (n : Nat) : Serves (serving offers g n) (states g start offers n) := by
  induction n with
  | zero => exact ⟨rfl, rfl⟩
  | succ n ih =>
      refine serves_step ih (fun slot at_ => ?_) (offers n)
      obtain ⟨frame, inside, -⟩ := accepted_of_slots g.div_pos at_
      exact ⟨frame, inside⟩

theorem tx_of_none {n : Nat} (rest : serving offers g n = none) : tx g start offers n = true := by
  have serves := serves (g := g) start offers n
  rw [rest] at serves
  rw [tx, State.tx, serves.2]
  rfl

theorem tx_of_some {n : Nat} {slot : Slot} (at_ : serving offers g n = some slot) :
    tx g start offers n = frameBit slot.byte slot.bit := by
  have serves := serves (g := g) start offers n
  rw [at_] at serves
  exact serves.2.2.2 0 (by decide)

theorem accepted_eq (n : Nat) : accepted g start offers n =
    if serving offers g n = none then (offers n).byte else none := by
  have serves := serves (g := g) start offers n
  cases slot : serving offers g n with
  | none =>
      rw [slot] at serves
      simp [accepted, State.ready, serves.1, Offer.byte]
  | some slot' =>
      rw [slot] at serves
      simp [accepted, State.ready, serves.1]

end Refinement

/-! ### The receiver follows the schedule -/

/-- How many bits of the data have been taken. -/
def Slot.taken (div : Nat) (slot : Slot) : Nat :=
  slot.bit - if slot.clock ≤ div / 2 then 1 else 0

/-- The frame has not been noticed yet, or its stop bit has been seen. -/
def Slot.Unwatched (div : Nat) (slot : Slot) : Prop :=
  slot.bit = 0 ∧ slot.clock = 0 ∨ slot.bit = 9 ∧ div / 2 < slot.clock

/-- The receiver at a place in a frame, or between two frames. -/
def Follows (div : Nat) : Option Slot → Receiver → Prop
  | none, r => r.line = true ∧ r.count = none
  | some slot, r =>
      slot.Unwatched div ∧ r.line = true ∧ r.count = none ∨
        ¬ slot.Unwatched div ∧ r.count = some (slot.bit * div + slot.clock) ∧
          ∀ j, j < slot.taken div →
            r.byte.getLsbD (8 - slot.taken div + j) = slot.byte.getLsbD j

section Receiving

variable {div : Nat} (positive : 0 < div)
include positive

theorem receiver_watching {r : Receiver} {bit clock : Nat} (inside : clock < div)
    (count : r.count = some (bit * div + clock)) (line : Bool) :
    r.step div line =
      if 1 ≤ bit ∧ clock = div / 2 then
        if bit = 9 then { r with line := line, count := none }
        else
          { line := line, count := some (bit * div + clock + 1)
            byte := BitVec.ofBool line ++ r.byte.extractLsb' 1 7 }
      else { r with line := line, count := some (bit * div + clock + 1) } := by
  have quotient : (bit * div + clock) / div = bit := by
    rw [Nat.mul_comm, Nat.mul_add_div positive, Nat.div_eq_of_lt inside, Nat.add_zero]
  have remainder : (bit * div + clock) % div = clock := by
    rw [Nat.mul_comm, Nat.mul_add_mod, Nat.mod_eq_of_lt inside]
  have whole : div ≤ bit * div + clock ↔ 1 ≤ bit := by
    constructor
    · intro le
      by_contra none
      obtain rfl : bit = 0 := by omega
      omega
    · intro some
      have := Nat.le_mul_of_pos_left div some
      omega
  simp only [Receiver.step, count, quotient, remainder, whole, Bool.and_eq_true,
    decide_eq_true_eq, beq_iff_eq]

/-- Until the middle of the stop bit there is another place that is watched. -/
theorem nextSlot_watched {slot : Slot} (frame : slot.bit < 10) (inside : slot.clock < div)
    (more : ¬ (slot.bit = 9 ∧ div / 2 ≤ slot.clock)) (offer : Option (BitVec 8)) :
    ∃ next, nextSlot div offer (some slot) = some next ∧ next.byte = slot.byte ∧
      ¬ next.Unwatched div ∧ next.bit * div + next.clock = slot.bit * div + slot.clock + 1 ∧
      next.taken div = slot.bit - if slot.clock < div / 2 then 1 else 0 := by
  have half : div / 2 < div := Nat.div_lt_self positive (by decide)
  by_cases same : slot.clock + 1 < div
  · refine ⟨{ slot with clock := slot.clock + 1 }, if_pos same, rfl, ?_, rfl, rfl⟩
    rintro (⟨-, zero⟩ | ⟨last, late⟩)
    · exact Nat.succ_ne_zero _ zero
    · exact more ⟨last, Nat.le_of_lt_succ late⟩
  · have another : slot.bit + 1 < 10 := by omega
    refine ⟨⟨slot.byte, slot.bit + 1, 0⟩, ?_, rfl, ?_, ?_, ?_⟩
    · rw [nextSlot, if_neg same, if_pos another]
    · rintro (⟨zero, -⟩ | ⟨-, late⟩)
      · exact Nat.succ_ne_zero _ zero
      · exact Nat.not_lt_zero _ late
    · simp only [Nat.succ_mul]
      omega
    · rw [Slot.taken, if_pos (Nat.zero_le _), if_neg (by omega)]
      rfl

omit positive in
theorem follows_last {slot : Slot} {r : Receiver} (last : slot.bit = 9)
    (late : div / 2 ≤ slot.clock) (high : r.line = true) (resting : r.count = none)
    (offer : Option (BitVec 8)) : Follows div (nextSlot div offer (some slot)) r := by
  rw [nextSlot]
  split
  · exact .inl ⟨.inr ⟨last, Nat.lt_succ_of_le late⟩, high, resting⟩
  · rw [if_neg (by omega)]
    exact ⟨high, resting⟩

/-- In a frame that the receiver watches it takes a bit in the middle of each. -/
theorem follows_watched {slot : Slot} {r : Receiver} (frame : slot.bit < 10)
    (clock : slot.clock < div) (watched : ¬ slot.Unwatched div)
    (count : r.count = some (slot.bit * div + slot.clock))
    (bits : ∀ j, j < slot.taken div →
      r.byte.getLsbD (8 - slot.taken div + j) = slot.byte.getLsbD j) (offer : Option (BitVec 8)) :
    Follows div (nextSlot div offer (some slot)) (r.step div (frameBit slot.byte slot.bit)) := by
  rw [receiver_watching positive clock count]
  by_cases stop : slot.bit = 9 ∧ div / 2 ≤ slot.clock
  · have middle : slot.clock = div / 2 := by
      by_contra late
      exact watched (.inr ⟨stop.1, by omega⟩)
    rw [if_pos ⟨by omega, middle⟩, if_pos stop.1]
    exact follows_last stop.1 stop.2 (frameBit_of_high stop.1.ge) rfl offer
  · obtain ⟨next, step, same, watched', place, taken⟩ :=
      nextSlot_watched positive frame clock stop offer
    rw [step]
    by_cases sample : 1 ≤ slot.bit ∧ slot.clock = div / 2
    · rw [if_pos sample, if_neg (by omega)]
      refine .inr ⟨watched', by rw [place], ?_⟩
      have before : slot.taken div = slot.bit - 1 := by
        rw [Slot.taken, if_pos sample.2.le]
      rw [taken, if_neg (by omega), Nat.sub_zero, same]
      rw [before] at bits
      intro j small
      rw [BitVec.getLsbD_append]
      by_cases old : j < slot.bit - 1
      · rw [if_pos (by omega), BitVec.getLsbD_extractLsb', decide_eq_true (by omega),
          Bool.true_and, ← bits j old]
        congr 1
        omega
      · obtain rfl : j = slot.bit - 1 := by omega
        rw [if_neg (by omega), show 8 - slot.bit + (slot.bit - 1) - 7 = 0 by omega, frameBit,
          if_neg (by omega), if_pos (by omega)]
        simp
    · rw [if_neg sample]
      refine .inr ⟨watched', by rw [place], ?_⟩
      have unchanged : next.taken div = slot.taken div := by
        rw [taken, Slot.taken]
        split <;> split <;> omega
      rw [unchanged, same]
      exact bits

theorem follows_step {slot : Option Slot} {r : Receiver} (follows : Follows div slot r)
    (inside : ∀ at_ ∈ slot, at_.bit < 10 ∧ at_.clock < div) (offer : Option (BitVec 8)) :
    Follows div (nextSlot div offer slot)
      (r.step div (slot.elim true fun at_ => frameBit at_.byte at_.bit)) := by
  cases slot with
  | none =>
      obtain ⟨high, resting⟩ := follows
      have still : r.step div true = { r with line := true, count := none } := by
        simp [Receiver.step, resting]
      change Follows div (nextSlot div offer none) (r.step div true)
      rw [still]
      cases offer with
      | none => exact ⟨rfl, rfl⟩
      | some byte => exact .inl ⟨.inl ⟨rfl, rfl⟩, rfl, rfl⟩
  | some slot =>
      obtain ⟨frame, clock⟩ := inside slot rfl
      change Follows div (nextSlot div offer (some slot)) (r.step div (frameBit slot.byte slot.bit))
      rcases follows with ⟨⟨first, now⟩ | ⟨last, late⟩, high, resting⟩ | ⟨watched, count, bits⟩
      · -- The line falls.
        obtain ⟨next, step, -, watched, place, taken⟩ :=
          nextSlot_watched positive frame clock (by omega) offer
        have falls : r.step div (frameBit slot.byte slot.bit) =
            { r with line := false, count := some 1 } := by
          simp [Receiver.step, resting, high, first, frameBit]
        rw [step, falls]
        refine .inr ⟨watched, ?_, fun j small => ?_⟩
        · rw [place, first, now, Nat.zero_mul]
        · rw [taken, first, Nat.zero_sub] at small
          exact absurd small (Nat.not_lt_zero j)
      · -- The rest of the stop bit.
        have still : r.step div (frameBit slot.byte slot.bit) =
            { r with line := true, count := none } := by
          simp [Receiver.step, resting, last, frameBit]
        rw [still]
        exact follows_last last late.le rfl rfl offer
      · exact follows_watched positive frame clock watched count bits offer

omit positive in
theorem follows_middle {r : Receiver} {byte : BitVec 8}
    (follows : Follows div (some ⟨byte, 9, div / 2⟩) r) :
    r.count = some (9 * div + div / 2) ∧ r.byte = byte := by
  have taken : Slot.taken div ⟨byte, 9, div / 2⟩ = 8 := by
    rw [Slot.taken, if_pos le_rfl]
    rfl
  rcases follows with ⟨⟨first, -⟩ | ⟨-, late⟩, -, -⟩ | ⟨-, count, bits⟩
  · cases first
  · exact absurd late (Nat.lt_irrefl _)
  · refine ⟨count, BitVec.eq_of_getLsbD_eq fun j small => ?_⟩
    rw [taken, Nat.sub_self] at bits
    simpa only [Nat.zero_add] using bits j small

theorem follows_count {slot : Option Slot} {r : Receiver} (follows : Follows div slot r)
    (count : r.count = some (9 * div + div / 2))
    (inside : ∀ at_, slot = some at_ → at_.clock < div) :
    ∃ byte, slot = some ⟨byte, 9, div / 2⟩ := by
  have half : div / 2 < div := Nat.div_lt_self positive (by decide)
  cases slot with
  | none =>
      rw [follows.2] at count
      cases count
  | some slot =>
      have clock := inside slot rfl
      rcases follows with ⟨-, -, resting⟩ | ⟨-, place, -⟩
      · rw [resting] at count
        cases count
      · have same : slot.bit * div + slot.clock = 9 * div + div / 2 :=
          Option.some.inj (place.symm.trans count)
        have bit : slot.bit = 9 := by
          have quotient := congrArg (· / div) same
          simpa only [Nat.mul_comm _ div, Nat.mul_add_div positive, Nat.div_eq_of_lt clock,
            Nat.div_eq_of_lt half, Nat.add_zero] using quotient
        rw [bit] at same
        refine ⟨slot.byte, ?_⟩
        rw [← Nat.add_left_cancel same, ← bit]

omit positive in
theorem Receiver.received_some {line : Bool} {r : Receiver} {byte : BitVec 8}
    (seen : r.received div line = some byte) :
    r.count = some (9 * div + div / 2) ∧ r.byte = byte := by
  rw [Receiver.received] at seen
  cases count : r.count with
  | none => simp [count] at seen
  | some ago =>
      simp only [count, Bool.and_eq_true, beq_iff_eq, Option.ite_none_right_eq_some,
        Option.some.injEq] at seen
      exact ⟨by rw [seen.1.1], seen.2⟩

end Receiving

/-! ### The round trip -/

section Run

variable {g : Generics} (start : State) (offers : Nat → Offer)

theorem tx_eq (n : Nat) : tx g start offers n =
    (serving offers g n).elim true fun at_ => frameBit at_.byte at_.bit := by
  cases at_ : serving offers g n with
  | none => exact tx_of_none start offers at_
  | some slot => exact tx_of_some start offers at_

theorem follows (n : Nat) :
    Follows g.div (serving offers g n) (receivers g start offers n) := by
  induction n with
  | zero => exact ⟨rfl, rfl⟩
  | succ n ih =>
      change Follows g.div (nextSlot g.div (offers n).byte (serving offers g n))
        ((receivers g start offers n).step g.div (tx g start offers n))
      rw [tx_eq]
      refine follows_step g.div_pos ih (fun slot at_ => ?_) _
      obtain ⟨frame, inside, -⟩ := accepted_of_slots g.div_pos at_
      exact ⟨frame, inside⟩

theorem received_iff (n : Nat) (byte : BitVec 8) : received g start offers n = some byte ↔
    serving offers g n = some ⟨byte, 9, g.div / 2⟩ := by
  have follows := follows (g := g) start offers n
  constructor
  · intro seen
    obtain ⟨count, same⟩ := Receiver.received_some seen
    obtain ⟨byte', at_⟩ := follows_count g.div_pos follows count fun slot at_ =>
      (accepted_of_slots g.div_pos at_).2.1
    rw [at_] at follows
    rw [at_, ← same, (follows_middle follows).2]
  · intro at_
    have line : tx g start offers n = true := tx_of_some start offers at_
    rw [at_] at follows
    obtain ⟨count, same⟩ := follows_middle follows
    simp [received, Receiver.received, count, line, same]

theorem accepted_iff (n : Nat) (byte : BitVec 8) : accepted g start offers n = some byte ↔
    serving offers g n = none ∧ (offers n).byte = some byte := by
  rw [accepted_eq]
  split
  · rename_i free
    simp only [free, true_and]
  · rename_i busy
    simp only [busy, false_and, reduceCtorEq]

theorem serving_of_accepted {n m : Nat} {byte : BitVec 8}
    (taken : accepted g start offers n = some byte) (after : n < m) (le : m ≤ n + 10 * g.div) :
    serving offers g m ≠ none := by
  obtain ⟨free, offered⟩ := (accepted_iff start offers n byte).mp taken
  have place : n + 1 + (m - n - 1) / g.div * g.div + (m - n - 1) % g.div = m := by
    have := Nat.div_add_mod (m - n - 1) g.div
    rw [Nat.mul_comm] at this
    omega
  have frame : (m - n - 1) / g.div < 10 := Nat.div_lt_of_lt_mul (by rw [Nat.mul_comm]; omega)
  have at_ := slots_of_accepted g.div_pos free offered frame (Nat.mod_lt (m - n - 1) g.div_pos)
  rw [place] at at_
  rw [serving, at_]
  exact Option.some_ne_none _

theorem between_iff (k : Nat) : Between g start offers k ↔ serving offers g k = none := by
  constructor
  · intro between
    cases at_ : serving offers g k with
    | none => rfl
    | some slot =>
        obtain ⟨frame, inside, before, place, free, offered⟩ := accepted_of_slots g.div_pos at_
        have taken := (accepted_iff start offers before slot.byte).mpr ⟨free, offered⟩
        have most : slot.bit * g.div ≤ 9 * g.div := Nat.mul_le_mul_right _ (by omega)
        exact absurd ⟨by omega, by omega⟩ (between before (by rw [taken]; rfl))
  · rintro free n taken ⟨after, le⟩
    obtain ⟨byte, taken⟩ := Option.isSome_iff_exists.mp taken
    exact serving_of_accepted start offers taken after le free

theorem ready_iff (k : Nat) :
    (states g start offers k).ready = true ↔ serving offers g k = none := by
  have serves := serves (g := g) start offers k
  cases at_ : serving offers g k with
  | none =>
      rw [at_] at serves
      simp [State.ready, serves.1]
  | some slot =>
      rw [at_] at serves
      simp [State.ready, serves.1]

/-- Each byte that is accepted goes out once, and is recovered in the middle of
its stop bit. -/
theorem round_trip (g : Generics) (start : State) (offers : Nat → Offer) :
    RoundTrip g start offers where
  frames n byte taken bit clock frame inside := by
    obtain ⟨free, offered⟩ := (accepted_iff start offers n byte).mp taken
    exact tx_of_some start offers (slots_of_accepted g.div_pos free offered frame inside)
  ready k := (ready_iff start offers k).trans (between_iff start offers k).symm
  accepts k between := by
    rw [accepted_eq, if_pos ((between_iff start offers k).mp between)]
    rfl
  apart n m first second less := by
    obtain ⟨byte, first⟩ := Option.isSome_iff_exists.mp first
    obtain ⟨byte', second⟩ := Option.isSome_iff_exists.mp second
    by_contra near
    exact serving_of_accepted start offers first less (by omega)
      ((accepted_iff start offers m byte').mp second).1
  rests k between := tx_of_none start offers ((between_iff start offers k).mp between)
  recovers n := by
    have half : g.div / 2 < g.div := Nat.div_lt_self g.div_pos (by decide)
    have origin : ∀ {k byte}, received g start offers k = some byte →
        ∃ before, k = before + 1 + 9 * g.div + g.div / 2 ∧
          accepted g start offers before = some byte := by
      intro k byte seen
      obtain ⟨-, -, before, place, free, offered⟩ :=
        accepted_of_slots g.div_pos ((received_iff start offers k byte).mp seen)
      exact ⟨before, place, (accepted_iff start offers before byte).mpr ⟨free, offered⟩⟩
    refine Trace.history_delay (fun k early => ?_) (fun k => ?_) n
    · by_contra seen
      obtain ⟨byte, seen⟩ := Option.ne_none_iff_exists'.mp seen
      obtain ⟨before, place, -⟩ := origin seen
      omega
    · ext byte
      constructor
      · intro seen
        obtain ⟨before, place, taken⟩ := origin seen
        obtain rfl : k = before := by omega
        exact taken
      · intro taken
        obtain ⟨free, offered⟩ := (accepted_iff start offers k byte).mp taken
        rw [received_iff,
          show 1 + 9 * g.div + g.div / 2 + k = k + 1 + 9 * g.div + g.div / 2 by omega]
        exact slots_of_accepted g.div_pos free offered (by decide) half

end Run

/-- Two clock cycles a bit. -/
def twoClocks : Generics := ⟨2, 1, by decide, by decide⟩

/-- Two bytes are on offer, one right after the other. -/
def twoBytes (n : Nat) : Offer := ⟨if n < 5 then 0x41 else 0x42, decide (n < 40)⟩

/-- The initial values of the registers. -/
def powerUp : State := ⟨0, 0, BitVec.allOnes 10, false⟩

theorem round_trip_twoBytes :
    Trace.history (accepted twoClocks powerUp twoBytes) 22 = [0x41, 0x42] ∧
      Trace.history (received twoClocks powerUp twoBytes) 42 = [0x41, 0x42] := by
  have taken : Trace.history (accepted twoClocks powerUp twoBytes) 22 = [0x41, 0x42] := by
    decide +kernel
  exact ⟨taken, ((round_trip twoClocks powerUp twoBytes).recovers 22).trans taken⟩

end UartTx

end Cocoapuffs

import Cocoapuffs.TlRun

/-!
# The 64-bit core on the 32-bit converter

The board cuts the packed 143-bit vector of the core's A channel down to the
32-bit record of the converter, and pads the D channel back to 81 bits.  A core
with one request, the converter and a word memory behind it form a closed system.
-/

namespace Cocoapuffs

namespace MuntjacTileLink

open TileLink TlConverter

/-! ### The packed channels -/

/-- `unpack_tl_a`; it does not drive `valid`. -/
def unpackTlA (packedA : BitVec 143) : AType where
  opcode := packedA.extractLsb' 140 3
  param := packedA.extractLsb' 137 3
  size := packedA.extractLsb' 133 3
  source := 0#4 ++ packedA.extractLsb' 129 4
  address := packedA.extractLsb' 73 32
  mask := packedA.extractLsb' 65 4
  data := packedA.extractLsb' 0 32
  corrupt := packedA.getLsbD 64
  valid := false

/-- `pack_tl_d`. -/
def packTlD (d : DType) : BitVec 81 :=
  d.opcode ++ d.param ++ (0#1 ++ d.size) ++ d.source.extractLsb' 0 4 ++ d.sink.extractLsb' 0 1 ++
    0#1 ++ BitVec.ofBool d.corrupt ++ (0#32 ++ d.data)

/-- `muntjac_tl_host`. -/
def muntjacTlHost (valid : Bool) (packedA : BitVec 143) (dReady : Bool) : HostTypeC :=
  ⟨{ unpackTlA packedA with valid := valid }, CType.new, EType.new, false, dReady⟩

/-- A beat of the core's A channel, most significant field first. -/
def packBeat (opcode param : BitVec 3) (size source : BitVec 4) (address : BitVec 56)
    (mask : BitVec 8) (corrupt : Bool) (data : BitVec 64) : BitVec 143 :=
  opcode ++ param ++ size ++ source ++ address ++ mask ++ BitVec.ofBool corrupt ++ data

/-- The data of a beat of the core's D channel. -/
def beatData (packedD : BitVec 81) : BitVec 64 := packedD.extractLsb' 0 64

/-- One byte of a beat. -/
def beatByte (data : BitVec 64) (lane : Nat) : BitVec 8 := data.extractLsb' (8 * lane) 8

/-- The fields of a beat that reach the converter. -/
theorem unpackTlA_packBeat (opcode param : BitVec 3) (size source : BitVec 4)
    (address : BitVec 56) (mask : BitVec 8) (corrupt : Bool) (data : BitVec 64) :
    unpackTlA (packBeat opcode param size source address mask corrupt data) =
      ⟨opcode, param, size.extractLsb' 0 3, 0#4 ++ source, address.extractLsb' 0 32,
        mask.extractLsb' 0 4, data.extractLsb' 0 32, corrupt, false⟩ := by
  -- The width is kept as a sum, which is what the lemmas on `++` see.
  have layout : ∀ start len,
      (packBeat opcode param size source address mask corrupt data).extractLsb' start len =
        BitVec.extractLsb' (n := 3 + 3 + 4 + 4 + 56 + 8 + 1 + 64) start len
          (opcode ++ param ++ size ++ source ++ address ++ mask ++ BitVec.ofBool corrupt ++
            data) :=
    fun _ _ => rfl
  have corruptBit : (packBeat opcode param size source address mask corrupt data).getLsbD 64 =
      corrupt := by
    change BitVec.getLsbD (w := 3 + 3 + 4 + 4 + 56 + 8 + 1 + 64)
      (opcode ++ param ++ size ++ source ++ address ++ mask ++ BitVec.ofBool corrupt ++ data) 64 =
        corrupt
    rw [BitVec.getLsbD_append, BitVec.getLsbD_append]
    simp
  simp (disch := decide) only [unpackTlA, corruptBit, layout,
    BitVec.extractLsb'_append_eq_of_le, BitVec.extractLsb'_append_eq_of_add_le, -Nat.reduceAdd]
  simp

theorem beatByte_packTlD (d : DType) {lane : Nat} (bound : lane < 8) :
    beatByte (beatData (packTlD d)) lane =
      if low : lane < 4 then byteLane d.data ⟨lane, low⟩ else 0 := by
  have padded : beatData (packTlD d) = 0#32 ++ d.data := by
    unfold beatData packTlD
    exact BitVec.extractLsb'_append_eq_right
  rw [padded, beatByte]
  split
  · exact BitVec.extractLsb'_append_eq_of_add_le (by omega)
  · have high : 32 ≤ 8 * lane := by omega
    calc (0#32 ++ d.data).extractLsb' (8 * lane) 8
        = (0#32).extractLsb' (8 * lane - 32) 8 := BitVec.extractLsb'_append_eq_of_le high
      _ = 0 := by simp

/-! ### The closed system -/

/-- The core's request that is still to be sent, the converter and the memory. -/
structure Soc where
  converter : TlC2wblite.State
  memory : WordMemory
  pending : List (BitVec 143)

/-- What the environment decides in a cycle: does the core offer its next beat, is it
ready for a response, does the memory acknowledge? -/
structure Choices where
  offers : Bool
  dReady : Bool
  acks : Bool

namespace Soc

/-- The beat on the core's A channel. -/
def packedA (s : Soc) : BitVec 143 := s.pending.headD 0

def tlI (choices : Choices) (s : Soc) : HostTypeC :=
  muntjacTlHost (choices.offers && !s.pending.isEmpty) s.packedA choices.dReady

/-- The memory acknowledges a raised cycle. -/
def wbI (choices : Choices) (s : Soc) : PerBus :=
  ⟨s.memory.word s.converter.core.wbO.adr, s.converter.core.wbO.cyc && choices.acks⟩

def inputs (choices : Choices) (s : Soc) : TlC2wblite.Inputs :=
  ⟨true, false, s.tlI choices, s.wbI choices⟩

/-- One cycle of `clk50`. -/
def step (choices : Choices) (s : Soc) : Soc where
  converter := TlC2wblite.step (s.inputs choices) s.converter
  memory :=
    if (s.wbI choices).ack then s.converter.core.wbO.request.apply s.memory else s.memory
  pending :=
    if (s.tlI choices).a.valid && s.converter.core.aReady then s.pending.tail else s.pending

end Soc

section Run

variable (start : TlC2wblite.State) (memory : WordMemory) (packed : List (BitVec 143))
  (choices : Nat → Choices)

/-- The system from a reset of the converter on. -/
def states : Nat → Soc := Trace.run Soc.step ⟨start.reset, memory, packed⟩ choices

abbrev cores (n : Nat) : Core := (states start memory packed choices n).converter.core

abbrev coreInputs (n : Nat) : TlConverter.Inputs :=
  ((states start memory packed choices n).inputs (choices n)).core

/-- The beats that the converter has taken. -/
abbrev taken (n : Nat) : List AType :=
  accepted (cores start memory packed choices) (coreInputs start memory packed choices) n

/-- The beats that the core has got on its D channel. -/
def received (n : Nat) : List (BitVec 81) :=
  (delivered (cores start memory packed choices) (coreInputs start memory packed choices) n).map
    packTlD

/-- The core and the memory never stop, and the core is ready for a response when one
comes. -/
structure Fair : Prop where
  offers : Trace.Recurs fun n => (choices n).offers = true
  acks : Trace.Recurs fun n => (choices n).acks = true
  dReady : ∀ n, (cores start memory packed choices n).state = .tlResp ∨
    (cores start memory packed choices n).d.valid = true → (choices n).dReady = true

end Run

section Runs

variable {start : TlC2wblite.State} {memory : WordMemory} {packed : List (BitVec 143)}
  {choices : Nat → Choices}

variable (start memory packed choices) in
theorem runs :
    Runs cProfile (cores start memory packed choices) (coreInputs start memory packed choices) where
  start := ⟨start.core, rfl⟩
  next _ := TlC2wblite.step_core _ _
  noReset _ := rfl

theorem slave :
    MemorySlave (fun n => (coreInputs start memory packed choices n).clk)
      (fun n => (cores start memory packed choices n).wbO)
      (fun n => (coreInputs start memory packed choices n).wbI)
      (fun n => (states start memory packed choices n).memory) where
  ack_cyc _ _ ack := ((Bool.and_eq_true _ _).mp ack).1
  read _ _ _ _ := rfl
  next _ := rfl

theorem clock : Trace.Recurs fun n => (coreInputs start memory packed choices n).clk = true :=
  fun n => ⟨n, le_rfl, rfl⟩

theorem Fair.serves (fair : Fair start memory packed choices) :
    Serves (fun n => (coreInputs start memory packed choices n).clk)
      (fun n => (cores start memory packed choices n).wbO)
      (fun n => (coreInputs start memory packed choices n).wbI) := by
  have held : Trace.LeadsTo (fun n => (cores start memory packed choices n).wbO.cyc = true)
      (fun n => (cores start memory packed choices n).wbO.cyc = true ∧
        (choices n).acks = true) := by
    apply Trace.LeadsTo.until_event fun n _ => fair.acks n
    intro n cyc silent
    have unanswered : (coreInputs start memory packed choices n).wbI.ack = false := by
      simpa [Soc.inputs, TlC2wblite.Inputs.core, Soc.wbI] using fun _ => by simpa using silent
    rw [(runs start memory packed choices).wbO_held cyc (by simp [unanswered])]
    exact cyc
  intro n cyc
  obtain ⟨m, after, high, acks⟩ := held n cyc
  exact ⟨m, after, rfl, by simp [Soc.inputs, TlC2wblite.Inputs.core, Soc.wbI, high, acks]⟩

/-- What a beat of the core is to the converter. -/
def offered (packedA : BitVec 143) : AType := { unpackTlA packedA with valid := true }

/-- The next beat is taken when the core offers it and `a_ready` is high. -/
theorem pending_succ (n : Nat) :
    (states start memory packed choices (n + 1)).pending =
      if (choices n).offers && (cores start memory packed choices n).aReady
      then (states start memory packed choices n).pending.tail
      else (states start memory packed choices n).pending := by
  have next : states start memory packed choices (n + 1) =
      (states start memory packed choices n).step (choices n) := rfl
  rw [next]
  cases pending : (states start memory packed choices n).pending with
  | nil => simp [Soc.step, pending]
  | cons p rest => simp [Soc.step, Soc.tlI, muntjacTlHost, pending]

variable (start memory packed choices) in
theorem taken_append_pending (n : Nat) :
    taken start memory packed choices n ++
      (states start memory packed choices n).pending.map offered = packed.map offered := by
  induction n with
  | zero => rfl
  | succ n ih =>
      rw [pending_succ]
      cases pending : (states start memory packed choices n).pending with
      | nil =>
          have none : taken start memory packed choices (n + 1) =
              taken start memory packed choices n :=
            Trace.history_succ_none (by
              simp [Soc.inputs, TlC2wblite.Inputs.core, Soc.tlI, muntjacTlHost, pending])
          simpa [none, pending] using ih
      | cons p rest =>
          rw [pending] at ih
          by_cases handshake : (choices n).offers = true ∧
              (cores start memory packed choices n).aReady = true
          · have one : taken start memory packed choices (n + 1) =
                taken start memory packed choices n ++ [offered p] :=
              Trace.history_succ_some (by
                simp [Soc.inputs, TlC2wblite.Inputs.core, Soc.tlI, muntjacTlHost, pending,
                  handshake, offered, Soc.packedA])
            simpa [one, handshake] using ih
          · have none : taken start memory packed choices (n + 1) =
                taken start memory packed choices n :=
              Trace.history_succ_none (by
                simpa [Soc.inputs, TlC2wblite.Inputs.core, Soc.tlI, muntjacTlHost, pending] using
                  handshake)
            rw [none, if_neg (by simpa using handshake)]
            exact ih

theorem aReady_until_handshake {n : Nat}
    (ready : (cores start memory packed choices n).aReady = true)
    (silent : (coreInputs start memory packed choices n).a.valid = false) :
    (cores start memory packed choices (n + 1)).aReady = true := by
  have offering := ((runs start memory packed choices).signals n).ready ready
  rw [(runs start memory packed choices).next_of_tick rfl, edge_offers offering]
  simp [Core.Takes, silent]

section Settles

variable (fair : Fair start memory packed choices)
include fair

theorem Fair.aReady_recurs :
    Trace.Recurs fun n => (cores start memory packed choices n).aReady = true :=
  (runs start memory packed choices).aReady_recurs
    (fun n _ state => fair.dReady n (Or.inl state)) clock
    (fun n tick _ => slave.ack_cyc n tick) fair.serves

theorem Fair.pending_shrinks (bound : Nat) :
    Trace.LeadsTo
      (fun n => (states start memory packed choices n).pending ≠ [] ∧
        (states start memory packed choices n).pending.length = bound)
      (fun n => (states start memory packed choices n).pending = [] ∨
        (states start memory packed choices n).pending ≠ [] ∧
          (states start memory packed choices n).pending.length < bound) := by
  have handshake : Trace.LeadsTo
      (fun n => (cores start memory packed choices n).aReady = true)
      (fun n => (cores start memory packed choices n).aReady = true ∧
        (choices n).offers = true) :=
    Trace.LeadsTo.until_event (fun n _ => fair.offers n) fun n ready low =>
      aReady_until_handshake ready (by
        simp [Soc.inputs, TlC2wblite.Inputs.core, Soc.tlI, muntjacTlHost, low])
  apply Trace.LeadsTo.of_event fun n => (cores start memory packed choices n).aReady = true ∧
    (choices n).offers = true
  · intro n _
    obtain ⟨m, after, ready⟩ := fair.aReady_recurs n
    obtain ⟨k, later, now⟩ := handshake m ready
    exact ⟨k, after.trans later, now⟩
  · intro n now quiet
    rw [pending_succ, if_neg (by simpa [and_comm] using quiet)]
    exact now
  · rintro n ⟨some, rfl⟩ ⟨ready, offers⟩
    rw [pending_succ, if_pos (by simp [ready, offers])]
    have shorter : (states start memory packed choices n).pending.tail.length <
        (states start memory packed choices n).pending.length := by
      have := List.length_pos_of_ne_nil some
      rw [List.length_tail]
      omega
    by_cases empty : (states start memory packed choices n).pending.tail = []
    · exact Or.inl empty
    · exact Or.inr ⟨empty, shorter⟩

/-- In the end all beats have been taken, and `a_ready` stays high. -/
theorem Fair.settles : ∃ settled, ∀ n, settled ≤ n →
    (states start memory packed choices n).pending = [] ∧
      (cores start memory packed choices n).aReady = true := by
  obtain ⟨empty, sent⟩ : ∃ n, (states start memory packed choices n).pending = [] := by
    by_cases now : (states start memory packed choices 0).pending = []
    · exact ⟨0, now⟩
    · obtain ⟨n, _, sent⟩ := Trace.LeadsTo.of_rank
        (fun n => (states start memory packed choices n).pending.length) fair.pending_shrinks 0 now
      exact ⟨n, sent⟩
  have stays : ∀ n, empty ≤ n → (states start memory packed choices n).pending = [] := by
    intro n after
    induction n, after using Nat.le_induction with
    | base => exact sent
    | succ n after ih => simp [pending_succ, ih]
  obtain ⟨settled, after, ready⟩ := fair.aReady_recurs empty
  refine ⟨settled, fun n later => ⟨stays n (after.trans later), ?_⟩⟩
  induction n, later using Nat.le_induction with
  | base => exact ready
  | succ n later ih =>
      apply aReady_until_handshake ih
      simp [Soc.inputs, TlC2wblite.Inputs.core, Soc.tlI, muntjacTlHost,
        stays n (after.trans later)]

/-- What the system comes to is the sequential meaning of the beats. -/
theorem Fair.outcome
    (admissible : Burst.Admissible cProfile (Burst.start memory) (packed.map offered)) :
    ∃ settled, ∀ n, settled ≤ n →
      received start memory packed choices n =
        ((packed.map offered).foldl (Burst.accept cProfile)
          (Burst.start memory)).outcome.responses.map packTlD ∧
      (states start memory packed choices n).memory =
        ((packed.map offered).foldl (Burst.accept cProfile)
          (Burst.start memory)).outcome.memory := by
  obtain ⟨settled, rest⟩ := fair.settles
  refine ⟨settled, fun n after => ?_⟩
  obtain ⟨sent, ready⟩ := rest n after
  have all : accepted (cores start memory packed choices) (coreInputs start memory packed choices)
      n = packed.map offered := by
    simpa [sent] using taken_append_pending start memory packed choices n
  have honest : HonestBus (cores start memory packed choices)
      (coreInputs start memory packed choices) memory := .of_slave slave
  have tracks := (runs start memory packed choices).tracks honest fair.dReady n (by
    rw [all]
    exact admissible)
  have signals := (runs start memory packed choices).signals n
  have outcome := (tracks.outcome_of_offering (signals.ready ready)).1
  rw [all] at outcome
  rw [outcome]
  constructor
  · simp [received, doneBefore, Core.onChannel, signals.ready_quiet ready]
  · exact slave.memory_eq n

end Settles

end Runs

end MuntjacTileLink

end Cocoapuffs

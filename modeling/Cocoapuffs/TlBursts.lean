import Cocoapuffs.TlUh2wblite

/-!
# Bursts at one address

In a TileLink burst every beat of a Put carries the address of the first one,
and beat `i` belongs `4 * i` bytes on.  The converters take the address of each
beat as it comes: such a burst is written to one word, beat over beat.
-/

namespace Cocoapuffs

theorem wordIndex_add (address : BitVec 32) (i : Nat) :
    wordIndex (address + 4 * BitVec.ofNat 32 i) = wordIndex address + BitVec.ofNat 30 i := by
  apply BitVec.eq_of_toNat_eq
  have bound := address.isLt
  have four : (4 : BitVec 32).toNat = 4 := rfl
  simp only [wordIndex, BitVec.extractLsb'_toNat, BitVec.toNat_add, BitVec.toNat_mul, four,
    BitVec.toNat_ofNat, Nat.shiftRight_eq_div_pow]
  omega

theorem wordIndex_add_ne (address : BitVec 32) {i : Nat} (pos : 0 < i) (few : i < 2 ^ 30) :
    wordIndex (address + 4 * BitVec.ofNat 32 i) ≠ wordIndex address := by
  rw [wordIndex_add]
  intro same
  have zero : BitVec.ofNat 30 i = 0 := by simpa using same
  have multiple := congrArg BitVec.toNat zero
  rw [BitVec.toNat_ofNat, Nat.mod_eq_of_lt few] at multiple
  exact absurd multiple pos.ne'

namespace TlConverter

open TileLink

/-- A Put of 8 to 128 bytes as TileLink has it: the control fields, the address
among them, are those of the first beat throughout. -/
structure PutBurst where
  head : AType
  tail : List AType
  put : isPut head.opcode = true
  long : 3 ≤ head.size.toNat
  count : tail.length + 1 = totalBeats head.size
  control : ∀ beat ∈ tail, beat.opcode = head.opcode ∧ beat.param = head.param ∧
    beat.size = head.size ∧ beat.source = head.source ∧ beat.address = head.address

namespace PutBurst

variable (b : PutBurst)

def beats : List AType := b.head :: b.tail

/-- Beat `i` is written `4 * i` bytes after the first one. -/
def Placed (writes : List Request) : Prop :=
  writes = b.beats.mapIdx fun i beat =>
    ⟨b.head.address + 4 * BitVec.ofNat 32 i, beat.data, beat.mask, true⟩

/-- The words hold what the beats had to write. -/
def ReadBack (words : List (BitVec 32)) : Prop :=
  ∀ (i : Nat) (beat : AType), b.beats[i]? = some beat →
    ∃ word, words[i]? = some word ∧ mergeLanes beat.mask word beat.data = word

/-- A request for the words of the burst. -/
def IsGet (get : AType) : Prop :=
  get.opcode = opGet ∧ get.size = b.head.size ∧ get.address = b.head.address

/-- The burst and a Get of its words are all that has been asked for, and all
response beats have been delivered: one to the Put, and the words. -/
structure Answered (core : Nat → Core) (inputs : Nat → Inputs) (get : AType) (n : Nat) : Prop where
  asked : accepted core inputs n = b.beats ++ [get]
  delivered : (delivered core inputs n).length = 1 + totalBeats b.head.size

/-- The burst rule on a trace. -/
def Obeyed (core : Nat → Core) (inputs : Nat → Inputs) (get : AType) : Prop :=
  ∀ n, b.Answered core inputs get n →
    b.Placed ((served core inputs n).filter Request.we) ∧
      b.ReadBack ((delivered core inputs n).tail.map DType.data)

/-- What one word becomes when all beats are written to it. -/
def stacked (old : BitVec 32) : BitVec 32 :=
  b.beats.foldl (fun word beat => mergeLanes beat.mask word beat.data) old

/-- The later beats leave of the first one what it wrote, and the words after it
hold what the later beats should have written. -/
def Coincides (memory : WordMemory) : Prop :=
  mergeLanes b.head.mask (b.stacked (memory.word b.head.address)) b.head.data =
      b.stacked (memory.word b.head.address) ∧
    ∀ (i : Nat) (beat : AType), b.tail[i]? = some beat →
      mergeLanes beat.mask (memory.word (b.head.address + 4 * BitVec.ofNat 32 (i + 1))) beat.data =
        memory.word (b.head.address + 4 * BitVec.ofNat 32 (i + 1))

theorem length_beats : b.beats.length = totalBeats b.head.size := b.count

theorem totalBeats_le : totalBeats b.head.size ≤ 32 := by
  have bound := b.head.size.isLt
  have grows : 2 ^ (b.head.size.toNat - 2) ≤ 2 ^ 5 :=
    Nat.pow_le_pow_right (by decide) (by omega)
  exact grows

theorem two_le_totalBeats : 2 ≤ totalBeats b.head.size := by
  have long := b.long
  have grows : 2 ^ 1 ≤ 2 ^ (b.head.size.toNat - 2) :=
    Nat.pow_le_pow_right (by decide) (by omega)
  exact grows

theorem address_eq {beat : AType} (mem : beat ∈ b.beats) : beat.address = b.head.address := by
  rcases List.mem_cons.mp mem with rfl | later
  · rfl
  · exact (b.control beat later).2.2.2.2

/-- The second beat is not written where it belongs. -/
theorem not_placed : ¬ b.Placed (b.beats.map putWrite) := by
  intro placed
  have two := b.two_le_totalBeats
  rw [← b.count] at two
  obtain ⟨second, rest, tail⟩ : ∃ second rest, b.tail = second :: rest :=
    List.exists_cons_of_length_pos (by omega)
  have same : second.address = b.head.address := b.address_eq (by simp [beats, tail])
  have moved := congrArg (fun writes => writes[1]?) placed
  simp only [beats, tail, List.map_cons, List.mapIdx_cons, List.getElem?_cons_succ,
    List.getElem?_cons_zero, Option.some.injEq, putWrite, Request.mk.injEq] at moved
  refine wordIndex_add_ne b.head.address Nat.one_pos (by decide) ?_
  exact congrArg wordIndex (moved.1.symm.trans same)

/-! ### The sequential run -/

/-- The burst as a message of a converter. -/
def message (p : Profile) : Message p where
  head := b.head
  tail := b.tail
  kind := .inr ⟨.inl b.put, b.count⟩
  control beat mem := by
    obtain ⟨opcode, param, size, source, -⟩ := b.control beat mem
    exact ⟨opcode, param, size, source⟩

end PutBurst

theorem foldl_putBeat (beats : List AType) (o : Outcome) :
    beats.foldl Outcome.putBeat o =
      ⟨Request.applyAll o.memory (beats.map putWrite), o.writes ++ beats.map putWrite,
        o.responses⟩ := by
  induction beats generalizing o with
  | nil => simp
  | cons beat beats ih =>
      rw [List.foldl_cons, ih]
      simp [Outcome.putBeat, Outcome.write, Request.applyAll]

theorem word_applyAll_putWrite (beats : List AType) (base : BitVec 32)
    (same : ∀ beat ∈ beats, beat.address = base) (memory : WordMemory) (address : BitVec 32) :
    (Request.applyAll memory (beats.map putWrite)).word address =
      if wordIndex address = wordIndex base then
        beats.foldl (fun word beat => mergeLanes beat.mask word beat.data) (memory.word base)
      else memory.word address := by
  induction beats generalizing memory with
  | nil =>
      by_cases here : wordIndex address = wordIndex base <;> simp [WordMemory.word, here]
  | cons beat beats ih =>
      obtain ⟨first, others⟩ := List.forall_mem_cons.mp same
      have step : Request.applyAll memory ((beat :: beats).map putWrite) =
          Request.applyAll ((putWrite beat).apply memory) (beats.map putWrite) := rfl
      rw [step, ih others, List.foldl_cons]
      by_cases here : wordIndex address = wordIndex base <;>
        simp [WordMemory.word, Request.apply, putWrite, first, here]

namespace PutBurst

variable (b : PutBurst) {p : Profile} {get : AType}

/-- A Get as a message of a converter that reads for it. -/
def getMessage (gets : p.isRead opGet = true) (isGet : b.IsGet get) : Message p where
  head := get
  tail := []
  kind := .inl ⟨by rw [isGet.1, gets], rfl⟩
  control beat mem := nomatch mem

/-- The memory after the burst. -/
def after (memory : WordMemory) : WordMemory :=
  Request.applyAll memory (b.beats.map putWrite)

theorem sequential_eq (gets : p.isRead opGet = true) (isGet : b.IsGet get) (memory : WordMemory) :
    sequential memory [b.message p, b.getMessage gets isGet] =
      ⟨b.after memory, b.beats.map putWrite, response p b.head 0 ::
        readBeats p get (b.after memory) b.head.address (totalBeats b.head.size)⟩ := by
  have notRead := (p.put_apart _ b.put).1
  have notAtomic := put_not_atomic b.put
  have read : p.isRead get.opcode = true := by rw [isGet.1, gets]
  have beats : (b.message p).beats = b.beats := rfl
  simp only [sequential, List.foldl_cons, List.foldl_nil, Outcome.message, beats, foldl_putBeat]
  simp [message, getMessage, notRead, notAtomic, read, Outcome.readBeat, Outcome.respond,
    isGet.2.1, isGet.2.2, after]

theorem flatMap_beats (gets : p.isRead opGet = true) (isGet : b.IsGet get) :
    [b.message p, b.getMessage gets isGet].flatMap Message.beats = b.beats ++ [get] := by
  simp [Message.beats, message, getMessage, beats]

theorem length_responses (gets : p.isRead opGet = true) (isGet : b.IsGet get)
    (memory : WordMemory) :
    (sequential memory [b.message p, b.getMessage gets isGet]).responses.length =
      1 + totalBeats b.head.size := by
  rw [b.sequential_eq, List.length_cons, readBeats_eq_map]
  simp [Nat.add_comm]

theorem word_after (memory : WordMemory) (address : BitVec 32) :
    (b.after memory).word address =
      if wordIndex address = wordIndex b.head.address then b.stacked (memory.word b.head.address)
      else memory.word address :=
  word_applyAll_putWrite b.beats b.head.address (fun _ => b.address_eq) memory address

theorem readBack_iff (gets : p.isRead opGet = true) (isGet : b.IsGet get) (memory : WordMemory) :
    b.ReadBack ((readBeats p get (b.after memory) b.head.address
        (totalBeats b.head.size)).map DType.data) ↔ b.Coincides memory := by
  have read : p.isRead get.opcode = true := by rw [isGet.1, gets]
  have carries := (p.read_apart _ read).2
  have words : ∀ i < totalBeats b.head.size,
      ((readBeats p get (b.after memory) b.head.address
        (totalBeats b.head.size)).map DType.data)[i]? =
        some ((b.after memory).word (b.head.address + 4 * BitVec.ofNat 32 i)) := by
    intro i bound
    simp [readBeats_eq_map, response, carries, bound]
  have first : (b.after memory).word (b.head.address + 4 * BitVec.ofNat 32 0) =
      b.stacked (memory.word b.head.address) := by
    rw [word_after]
    simp
  have later : ∀ i, i + 1 < totalBeats b.head.size →
      (b.after memory).word (b.head.address + 4 * BitVec.ofNat 32 (i + 1)) =
        memory.word (b.head.address + 4 * BitVec.ofNat 32 (i + 1)) := by
    intro i bound
    have few := b.totalBeats_le
    rw [word_after, if_neg (wordIndex_add_ne _ (Nat.succ_pos i) (by omega))]
  constructor
  · intro back
    refine ⟨?_, fun i beat here => ?_⟩
    · obtain ⟨word, found, kept⟩ := back 0 b.head rfl
      rw [words 0 (totalBeats_pos _), first] at found
      obtain rfl := Option.some.inj found
      exact kept
    · have bound : i + 1 < totalBeats b.head.size := by
        have := (List.getElem?_eq_some_iff.mp here).1
        have := b.count
        omega
      obtain ⟨word, found, kept⟩ := back (i + 1) beat here
      rw [words (i + 1) bound, later i bound] at found
      obtain rfl := Option.some.inj found
      exact kept
  · rintro ⟨head, tail⟩ i beat here
    have bound : i < totalBeats b.head.size := by
      rw [← b.length_beats]
      exact (List.getElem?_eq_some_iff.mp here).1
    refine ⟨_, words i bound, ?_⟩
    cases i with
    | zero =>
        obtain rfl : b.head = beat := by simpa [beats] using here
        rw [first]
        exact head
    | succ i =>
        rw [later i bound]
        exact tail i beat here

end PutBurst

section Run

variable {p : Profile} {core : Nat → Core} {inputs : Nat → Inputs} {memory : WordMemory}
  {b : PutBurst} {get : AType}

/-- A trace that has answered the burst and the Get has done what it should have
in sequence, with each beat at its own address. -/
theorem Runs.answered_burst (runs : Runs p core inputs) (gets : p.isRead opGet = true)
    (isGet : b.IsGet get) (honest : HonestBus core inputs memory)
    (dReady : ∀ n, (inputs n).dReady = true) {n : Nat} (answered : b.Answered core inputs get n) :
    (served core inputs n).filter Request.we = b.beats.map putWrite ∧
      (delivered core inputs n).tail = readBeats p get (b.after memory) b.head.address
        (totalBeats b.head.size) := by
  have all : accepted core inputs n =
      [b.message p, b.getMessage gets isGet].flatMap Message.beats := by
    rw [answered.asked, b.flatMap_beats]
  have responses : delivered core inputs n =
      (sequential memory [b.message p, b.getMessage gets isGet]).responses := by
    refine (runs.delivered_sequential honest dReady (by rw [all])).eq_of_length ?_
    rw [answered.delivered, b.length_responses]
  have done := runs.done_of_answered honest dReady all responses
  rw [b.sequential_eq] at done responses
  exact ⟨congrArg Outcome.writes done, by rw [responses, List.tail_cons]⟩

theorem Runs.answers_burst (runs : Runs p core inputs) (gets : p.isRead opGet = true)
    (isGet : b.IsGet get) (honest : HonestBus core inputs memory)
    (dReady : ∀ n, (inputs n).dReady = true) (clock : Trace.Recurs fun n => (inputs n).clk = true)
    (serves : Serves (fun n => (inputs n).clk) (fun n => (core n).wbO) fun n => (inputs n).wbI)
    {n : Nat} (asked : accepted core inputs n = b.beats ++ [get]) :
    ∃ m, n ≤ m ∧ b.Answered core inputs get m := by
  have all : accepted core inputs n =
      [b.message p, b.getMessage gets isGet].flatMap Message.beats := by
    rw [asked, b.flatMap_beats]
  obtain ⟨m, le, -, same, responses, -⟩ := runs.completes honest dReady clock serves all
  exact ⟨m, le, same.trans asked, by rw [responses, b.length_responses]⟩

/-- In either converter, on every trace that takes the beats of a burst and a
Get of its words, both are answered, never with the second beat where the burst
rule puts it; the words come back as written just if the burst coincides with
what is in the memory. -/
theorem putBurst_never_obeyed
    (runs : Runs uhProfile core inputs ∨ Runs cProfile core inputs) {memory : Nat → WordMemory}
    (clock : Trace.Recurs fun n => (inputs n).clk = true)
    (dReady : ∀ n, (inputs n).dReady = true)
    (slave : MemorySlave (fun n => (inputs n).clk) (fun n => (core n).wbO)
      (fun n => (inputs n).wbI) memory)
    (serves : Serves (fun n => (inputs n).clk) (fun n => (core n).wbO) fun n => (inputs n).wbI)
    (isGet : b.IsGet get) {n : Nat} (asked : accepted core inputs n = b.beats ++ [get]) :
    (∃ m, b.Answered core inputs get m) ∧ ¬ b.Obeyed core inputs get ∧
      ∀ m, b.Answered core inputs get m →
        ¬ b.Placed ((served core inputs m).filter Request.we) ∧
          (b.ReadBack ((delivered core inputs m).tail.map DType.data) ↔
            b.Coincides (memory 0)) := by
  have honest := HonestBus.of_slave slave
  obtain ⟨p, runs, gets⟩ : ∃ p, Runs p core inputs ∧ p.isRead opGet = true := by
    rcases runs with runs | runs
    · exact ⟨uhProfile, runs, rfl⟩
    · exact ⟨cProfile, runs, rfl⟩
  obtain ⟨m, -, answered⟩ := runs.answers_burst gets isGet honest dReady clock serves asked
  have each : ∀ m, b.Answered core inputs get m →
      ¬ b.Placed ((served core inputs m).filter Request.we) ∧
        (b.ReadBack ((delivered core inputs m).tail.map DType.data) ↔
          b.Coincides (memory 0)) := by
    intro m answered
    obtain ⟨writes, words⟩ := runs.answered_burst gets isGet honest dReady answered
    rw [writes, words, b.readBack_iff gets isGet]
    exact ⟨b.not_placed, Iff.rfl⟩
  exact ⟨⟨m, answered⟩, fun obeyed => (each m answered).1 (obeyed m answered).1, each⟩

end Run

end TlConverter

namespace TlUh2wblite

open TileLink TlConverter

/-- A beat at 0x40 of a message of eight bytes. -/
def beatAt40 (opcode : BitVec 3) (data : BitVec 32) : AType :=
  ⟨opcode, 0, 3, 1, 0x40, 0xf, data, false, true⟩

/-- Two words are written at one address and read back; the slave takes one
instant. -/
def heldBurst (n : Nat) : Inputs where
  clk := true
  rst := false
  tlI :=
    ⟨if n ≤ 1 then beatAt40 opPutFullData 0x11
      else if n ≤ 5 then beatAt40 opPutFullData 0x22
      else if n ≤ 10 then beatAt40 opGet 0
      else AType.new, true⟩
  wbI := ⟨if n = 12 then 0x22 else 0, n == 3 || n == 7 || n == 12 || n == 15⟩

abbrev heldCore (n : Nat) : Core := states powerUp heldBurst n

def twoWords : PutBurst where
  head := beatAt40 opPutFullData 0x11
  tail := [beatAt40 opPutFullData 0x22]
  put := rfl
  long := by decide
  count := rfl
  control := by decide

theorem heldBurst_rest {n : Nat} (le : 19 ≤ n) : heldCore n = heldCore 19 := by
  refine Trace.run_at_rest rfl (fun n le => ?_) le
  have late : ¬ n ≤ 1 ∧ ¬ n ≤ 5 ∧ ¬ n ≤ 10 ∧ n ≠ 12 ∧ n ≠ 3 ∧ n ≠ 7 ∧ n ≠ 15 := by omega
  have quiet : heldBurst n = heldBurst 19 := by simp [heldBurst, late]
  rw [quiet]
  decide +kernel

theorem heldBurst_early {n : Nat} (ack : (heldBurst n).wbI.ack = true) : n < 19 := by
  simp only [heldBurst, Bool.or_eq_true, beq_iff_eq] at ack
  omega

/-- The memory behind the converter, zero at first. -/
abbrev heldMemory : Nat → WordMemory :=
  memoryTrace (fun _ => true) (fun n => (heldCore n).wbO) (fun n => (heldBurst n).wbI) fun _ => 0

theorem heldBurst_slave :
    MemorySlave (fun _ => true) (fun n => (heldCore n).wbO) (fun n => (heldBurst n).wbI)
      heldMemory := by
  refine ⟨?_, ?_, fun _ => rfl⟩
  · rintro n - ack
    have early := heldBurst_early ack
    revert ack
    revert n early
    decide +kernel
  · rintro n - ack read
    have early := heldBurst_early ack
    revert ack read
    revert n early
    decide +kernel

theorem heldBurst_serves :
    Serves (fun _ => true) (fun n => (heldCore n).wbO) fun n => (heldBurst n).wbI := by
  apply Serves.of_rest 19
  · intro n late
    rw [heldBurst_rest late]
    decide +kernel
  · decide +kernel

theorem heldBurst_asked :
    accepted powerUp heldBurst 11 = twoWords.beats ++ [beatAt40 opGet 0] := by
  decide +kernel

theorem heldBurst_noReset (n : Nat) : (heldBurst n).rst = false := rfl

theorem heldBurst_isGet : twoWords.IsGet (beatAt40 opGet 0) := ⟨rfl, rfl, rfl⟩

theorem putBurst_never_obeyed_heldBurst :
    ¬ twoWords.Obeyed heldCore (fun n => (heldBurst n).core) (beatAt40 opGet 0) :=
  (putBurst_never_obeyed (.inl (runs powerUp heldBurst_noReset))
    (fun n => ⟨n, le_rfl, rfl⟩) (fun _ => rfl) heldBurst_slave heldBurst_serves heldBurst_isGet
    heldBurst_asked).2.1

/-- The Get returns the second word first. -/
theorem heldBurst_not_obeyed :
    (delivered powerUp heldBurst 19).map DType.data = [0, 0x22, 0] ∧
      ¬ ∀ inputs, MemorySlave (fun n => (inputs n).clk) (fun n => (states powerUp inputs n).wbO)
          (fun n => (inputs n).wbI) (memoryTrace (fun n => (inputs n).clk)
            (fun n => (states powerUp inputs n).wbO) (fun n => (inputs n).wbI) fun _ => 0) →
        twoWords.Obeyed (states powerUp inputs) (fun n => (inputs n).core)
          (beatAt40 opGet 0) := by
  refine ⟨by decide +kernel, fun claim => ?_⟩
  obtain ⟨-, back⟩ := claim heldBurst heldBurst_slave 19 ⟨by decide +kernel, by decide +kernel⟩
  obtain ⟨word, found, kept⟩ := back 0 twoWords.head rfl
  have second : ((TlConverter.delivered heldCore (fun n => (heldBurst n).core) 19).tail.map
      DType.data)[0]? = some 0x22 := by decide +kernel
  obtain rfl : word = 0x22 := by simpa using found.symm.trans second
  revert kept
  decide

end TlUh2wblite

end Cocoapuffs

import Cocoapuffs.TlUh2wblite

/-!
# Atomic operations on parts of a word

An atomic request of one or two bytes names its part of the word by the mask.
The converter operates on whole words and masks the result, so the bytes below
the part can carry into it and those above decide the comparisons.
-/

namespace Cocoapuffs

theorem succ_mod_ne {n k : Nat} (two : 1 < k) : (n + 1) % k ≠ n % k := by
  have bound := Nat.mod_lt n (Nat.zero_lt_of_lt two)
  rw [Nat.add_mod, Nat.mod_eq_of_lt two]
  rcases Nat.lt_or_ge (n % k + 1) k with less | wraps
  · rw [Nat.mod_eq_of_lt less]
    omega
  · have full : n % k + 1 = k := by omega
    rw [full, Nat.mod_self]
    omega

/-- A carry into the part is all that a sum of parts lacks. -/
theorem extractLsb'_add_iff (x y : BitVec 32) {start len : Nat} (inside : start + len ≤ 32)
    (pos : 0 < len) :
    (x + y).extractLsb' start len = x.extractLsb' start len + y.extractLsb' start len ↔
      x.toNat % 2 ^ start + y.toNat % 2 ^ start < 2 ^ start := by
  have split : 2 ^ 32 = 2 ^ start * 2 ^ (32 - start) := by
    rw [← Nat.pow_add]
    congr 1
    omega
  have low : 2 ^ len ∣ 2 ^ (32 - start) := Nat.pow_dvd_pow 2 (by omega)
  have sum : ((x + y).extractLsb' start len).toNat =
      (x.toNat / 2 ^ start + y.toNat / 2 ^ start +
        if 2 ^ start ≤ x.toNat % 2 ^ start + y.toNat % 2 ^ start then 1 else 0) % 2 ^ len := by
    rw [BitVec.extractLsb'_toNat, BitVec.toNat_add, Nat.shiftRight_eq_div_pow, split,
      Nat.mod_mul_right_div_self, Nat.mod_mod_of_dvd _ low, Nat.add_div (Nat.two_pow_pos start)]
  have parts : (x.extractLsb' start len + y.extractLsb' start len).toNat =
      (x.toNat / 2 ^ start + y.toNat / 2 ^ start) % 2 ^ len := by
    rw [BitVec.toNat_add, BitVec.extractLsb'_toNat, BitVec.extractLsb'_toNat,
      Nat.shiftRight_eq_div_pow, Nat.shiftRight_eq_div_pow, ← Nat.add_mod]
  rw [← BitVec.toNat_inj, sum, parts]
  by_cases carry : 2 ^ start ≤ x.toNat % 2 ^ start + y.toNat % 2 ^ start
  · rw [if_pos carry]
    exact ⟨fun same => absurd same (succ_mod_ne (Nat.one_lt_two_pow pos.ne')),
      fun less => absurd less (not_lt.mpr carry)⟩
  · rw [if_neg carry, Nat.add_zero]
    exact ⟨fun _ => not_le.mp carry, fun _ => rfl⟩

namespace TlConverter

open TileLink

/-- The atomic operations at any width. -/
def amoAt {w : Nat} (opcode param : BitVec 3) (old operand : BitVec w) : BitVec w :=
  if opcode = opArithmeticData then
    if param = paramArithMin then BitVec.ofInt w (min old.toInt operand.toInt)
    else if param = paramArithMax then BitVec.ofInt w (max old.toInt operand.toInt)
    else if param = paramArithMinu then BitVec.ofNat w (min old.toNat operand.toNat)
    else if param = paramArithMaxu then BitVec.ofNat w (max old.toNat operand.toNat)
    else if param = paramArithAdd then BitVec.ofNat w (old.toNat + operand.toNat)
    else operand
  else
    if param = paramLogicXor then old ^^^ operand
    else if param = paramLogicOr then old ||| operand
    else if param = paramLogicAnd then old &&& operand
    else operand

/-- An atomic request of at most a word, its mask selecting just its bytes. -/
structure PartRequest where
  a : AType
  atomic : isAtomic a.opcode = true
  size : a.size.toNat ≤ 2
  aligned : a.address.toNat % 2 ^ a.size.toNat = 0
  mask : ∀ lane < 4, a.mask.getLsbD lane =
    decide (a.address.toNat % 4 ≤ lane ∧ lane < a.address.toNat % 4 + 2 ^ a.size.toNat)

namespace PartRequest

variable (r : PartRequest)

/-- The position and the width of the part, in bits. -/
def start : Nat := 8 * (r.a.address.toNat % 4)

def width : Nat := 8 * 2 ^ r.a.size.toNat

/-- The part of a word that the request is about. -/
def part (word : BitVec 32) : BitVec r.width := word.extractLsb' r.start r.width

/-- The operation on the part, and nothing else. -/
structure Performs (old new : BitVec 32) : Prop where
  inactive : ∀ lane : Fin 4, r.a.mask.getLsbD lane = false → byteLane new lane = byteLane old lane
  active : r.part new = amoAt r.a.opcode r.a.param (r.part old) (r.part r.a.data)

/-- The parts differ from the words in no way that matters: a sum has no carry
into the part, and different parts compare as the words do. -/
structure Lanewise (old : BitVec 32) : Prop where
  signed : r.a.opcode = opArithmeticData →
    r.a.param = paramArithMin ∨ r.a.param = paramArithMax →
    r.part old = r.part r.a.data ∨ old.slt r.a.data = (r.part old).slt (r.part r.a.data)
  unsigned : r.a.opcode = opArithmeticData →
    r.a.param = paramArithMinu ∨ r.a.param = paramArithMaxu →
    r.part old = r.part r.a.data ∨ old.ult r.a.data = (r.part old).ult (r.part r.a.data)
  add : r.a.opcode = opArithmeticData → r.a.param = paramArithAdd →
    old.toNat % 2 ^ r.start + r.a.data.toNat % 2 ^ r.start < 2 ^ r.start

theorem inside : r.start + r.width ≤ 32 ∧ 0 < r.width := by
  have few := r.size
  have aligned := r.aligned
  unfold start width
  obtain size | size | size : r.a.size.toNat = 0 ∨ r.a.size.toNat = 1 ∨ r.a.size.toNat = 2 := by
    omega
  all_goals
    rw [size] at aligned ⊢
    omega

theorem mask_of_part {i : Nat} (bound : i < r.width) :
    r.a.mask.getLsbD ((r.start + i) / 8) = true := by
  have inside := r.inside
  unfold start width at *
  rw [r.mask _ (by omega), decide_eq_true_eq]
  omega

theorem part_mergeLanes (old new : BitVec 32) :
    r.part (mergeLanes r.a.mask old new) = r.part new := by
  apply BitVec.eq_of_getLsbD_eq
  intro i bound
  have inside := r.inside.1
  simp only [part, BitVec.getLsbD_extractLsb',
    getLsbD_mergeLanes r.a.mask old new (show r.start + i < 32 by omega), r.mask_of_part bound,
    if_true]

theorem part_ite (p : Bool) (x y : BitVec 32) :
    r.part (if p then x else y) = if p then r.part x else r.part y := by
  cases p <;> rfl

theorem ite_eq_ite_iff {w : Nat} (p q : Bool) (x y : BitVec w) :
    ((if p then x else y) = if q then x else y) ↔ x = y ∨ p = q := by
  cases p <;> cases q <;> simp [eq_comm]

theorem slt_comm {w : Nat} {x y : BitVec w} (ne : x ≠ y) : y.slt x = !x.slt y := by
  have apart : x.toInt ≠ y.toInt := fun same => ne (BitVec.toInt_inj.mp same)
  simp only [BitVec.slt_eq_decide, ← decide_not, decide_eq_decide]
  omega

theorem ult_comm {w : Nat} {x y : BitVec w} (ne : x ≠ y) : y.ult x = !x.ult y := by
  have apart : x.toNat ≠ y.toNat := fun same => ne (BitVec.toNat_inj.mp same)
  simp only [BitVec.ult, ← decide_not, decide_eq_decide]
  omega

/-- A comparison and its converse come out alike for parts that differ. -/
theorem converse_iff (less : {w : Nat} → BitVec w → BitVec w → Bool)
    (comm : ∀ {w : Nat} {x y : BitVec w}, x ≠ y → less y x = !less x y) (x y : BitVec 32) :
    r.part x = r.part y ∨ less y x = less (r.part y) (r.part x) ↔
      r.part x = r.part y ∨ less x y = less (r.part x) (r.part y) := by
  by_cases same : r.part x = r.part y
  · simp [same]
  · have differ : x ≠ y := fun eq => same (congrArg r.part eq)
    rw [comm differ, comm same, Bool.not_inj_iff]

theorem lanewise_iff (arithmetic : r.a.opcode = opArithmeticData) (old : BitVec 32) :
    r.Lanewise old ↔
      (r.a.param = paramArithMin ∨ r.a.param = paramArithMax →
        r.part old = r.part r.a.data ∨ old.slt r.a.data = (r.part old).slt (r.part r.a.data)) ∧
      (r.a.param = paramArithMinu ∨ r.a.param = paramArithMaxu →
        r.part old = r.part r.a.data ∨ old.ult r.a.data = (r.part old).ult (r.part r.a.data)) ∧
      (r.a.param = paramArithAdd →
        old.toNat % 2 ^ r.start + r.a.data.toNat % 2 ^ r.start < 2 ^ r.start) :=
  ⟨fun l => ⟨l.signed arithmetic, l.unsigned arithmetic, l.add arithmetic⟩,
    fun ⟨signed, unsigned, add⟩ => ⟨fun _ => signed, fun _ => unsigned, fun _ => add⟩⟩

theorem lanewise_of_logical (logical : r.a.opcode ≠ opArithmeticData) (old : BitVec 32) :
    r.Lanewise old :=
  ⟨fun arithmetic => absurd arithmetic logical, fun arithmetic => absurd arithmetic logical,
    fun arithmetic => absurd arithmetic logical⟩

theorem part_logical (logical : r.a.opcode ≠ opArithmeticData) (old : BitVec 32) :
    r.part (amo r.a.opcode r.a.param old r.a.data) =
      amoAt r.a.opcode r.a.param (r.part old) (r.part r.a.data) := by
  simp only [amo, amoAt, if_neg logical]
  split
  · exact BitVec.extractLsb'_xor
  · split
    · exact BitVec.extractLsb'_or
    · split
      · exact BitVec.extractLsb'_and
      · rfl

/-- The operation on the words does what it should to the part just if they
differ in no way that matters. -/
theorem part_amo_iff (old : BitVec 32) :
    r.part (amo r.a.opcode r.a.param old r.a.data) =
        amoAt r.a.opcode r.a.param (r.part old) (r.part r.a.data) ↔ r.Lanewise old := by
  by_cases arithmetic : r.a.opcode = opArithmeticData
  · rw [r.lanewise_iff arithmetic]
    have inside := r.inside
    obtain param | param | param | param | param | param :
        r.a.param = paramArithMin ∨ r.a.param = paramArithMax ∨ r.a.param = paramArithMinu ∨
          r.a.param = paramArithMaxu ∨ r.a.param = paramArithAdd ∨
          ∀ known ≤ paramArithAdd, r.a.param ≠ known := by
      generalize r.a.param = param
      revert param
      decide
    · rw [param, arithmetic]
      simp +decide [amo, amoAt, ofInt_min, part_ite, ite_eq_ite_iff]
    · rw [param, arithmetic]
      have converse := r.converse_iff BitVec.slt slt_comm old r.a.data
      simpa +decide [amo, amoAt, ofInt_max, part_ite, ite_eq_ite_iff] using converse
    · rw [param, arithmetic]
      simp +decide [amo, amoAt, ofNat_min, part_ite, ite_eq_ite_iff]
    · rw [param, arithmetic]
      have converse := r.converse_iff BitVec.ult ult_comm old r.a.data
      simpa +decide [amo, amoAt, ofNat_max, part_ite, ite_eq_ite_iff] using converse
    · rw [param, arithmetic]
      have carry := extractLsb'_add_iff old r.a.data inside.1 inside.2
      have sum {w : Nat} (x y : BitVec w) : BitVec.ofNat w (x.toNat + y.toNat) = x + y := by
        rw [BitVec.ofNat_add, BitVec.ofNat_toNat, BitVec.ofNat_toNat, BitVec.setWidth_eq,
          BitVec.setWidth_eq]
      simpa +decide only [amo, amoAt, part, sum, if_true, if_false, false_or, false_imp_iff,
        true_imp_iff, true_and] using carry
    · have min := param paramArithMin (by decide)
      have max := param paramArithMax (by decide)
      have minu := param paramArithMinu (by decide)
      have maxu := param paramArithMaxu (by decide)
      have add := param paramArithAdd (by decide)
      simp only [amo, amoAt, arithmetic, min, max, minu, maxu, add, if_true, if_false, or_false,
        false_imp_iff, and_true]
  · exact ⟨fun _ => r.lanewise_of_logical arithmetic old, fun _ => r.part_logical arithmetic old⟩

/-- What the write of the request makes of its word. -/
theorem performs_iff (memory : WordMemory) :
    r.Performs (memory.word r.a.address)
        (((atomicWrite r.a (memory.word r.a.address)).apply memory).word r.a.address) ↔
      r.Lanewise (memory.word r.a.address) := by
  have written : ((atomicWrite r.a (memory.word r.a.address)).apply memory).word r.a.address =
      mergeLanes r.a.mask (memory.word r.a.address) (mergeLanes r.a.mask (memory.word r.a.address)
        (amo r.a.opcode r.a.param (memory.word r.a.address) r.a.data)) := by
    simp [Request.apply, atomicWrite, WordMemory.word]
  rw [written, ← r.part_amo_iff]
  constructor
  · intro performs
    rw [← performs.active, r.part_mergeLanes, r.part_mergeLanes]
  · intro active
    refine ⟨fun lane inactive => ?_, ?_⟩
    · simp only [byteLane_mergeLanes, inactive, Bool.false_eq_true, if_false]
    · rw [r.part_mergeLanes, r.part_mergeLanes, active]

/-- The request as a message. -/
def message : Message uhProfile where
  head := r.a
  tail := []
  kind := by
    refine .inr ⟨.inr r.atomic, ?_⟩
    have small : r.a.size.toNat - 2 = 0 := Nat.sub_eq_zero_of_le r.size
    rw [totalBeats, small]
    rfl
  control beat mem := nomatch mem

end PartRequest

end TlConverter

namespace TlUh2wblite

open TileLink TlConverter

/-- After the given messages, an atomic request has been taken, and the
converter is ready for the next one. -/
structure AtomicDone (start : State) (inputs : Nat → Inputs) (messages : List (Message uhProfile))
    (r : PartRequest) (n : Nat) : Prop where
  asked : accepted start inputs n = messages.flatMap Message.beats ++ [r.a]
  ready : (states start inputs n).aReady = true

/-- An atomic request of at most a word, on whatever earlier messages have left
in memory, is carried out in the end; it does what it should to its word just
if the parts of the words differ from the words in no way that matters. -/
theorem tlUh2wblite_performs_iff (start : State) (inputs : Nat → Inputs)
    (memory : Nat → WordMemory) (noReset : ∀ n, (inputs n).rst = false)
    (clock : Trace.Recurs fun n => (inputs n).clk = true)
    (dReady : ∀ n, (inputs n).tlI.dReady = true)
    (slave : MemorySlave (fun n => (inputs n).clk) (fun n => (states start inputs n).wbO)
      (fun n => (inputs n).wbI) memory)
    (serves : Serves (fun n => (inputs n).clk) (fun n => (states start inputs n).wbO)
      fun n => (inputs n).wbI)
    (messages : List (Message uhProfile)) (r : PartRequest) {n : Nat}
    (asked : accepted start inputs n = messages.flatMap Message.beats ++ [r.a]) :
    (∃ m, n ≤ m ∧ AtomicDone start inputs messages r m) ∧
      ∀ m, AtomicDone start inputs messages r m →
        (r.Performs ((sequential (memory 0) messages).memory.word r.a.address)
            ((memory m).word r.a.address) ↔
          r.Lanewise ((sequential (memory 0) messages).memory.word r.a.address)) := by
  have honest := honestBus slave
  have beats : messages.flatMap Message.beats ++ [r.a] =
      (messages ++ [r.message]).flatMap Message.beats := by
    simp [Message.beats, PartRequest.message]
  constructor
  · obtain ⟨m, le, ready, same, -⟩ :=
      (runs start noReset).completes honest dReady clock serves (asked.trans beats)
    exact ⟨m, le, same.trans asked, ready⟩
  · intro m done
    have all := done.asked.trans beats
    have answered := (runs start noReset).answered_of_ready honest dReady all done.ready
    have outcome := (runs start noReset).done_of_answered honest dReady all answered
    have notRead := (uhProfile.atomic_apart _ r.atomic).1
    have after : memory m =
        (atomicWrite r.a ((sequential (memory 0) messages).memory.word r.a.address)).apply
          (sequential (memory 0) messages).memory := by
      have last : memory m = (sequential (memory 0) (messages ++ [r.message])).memory := by
        rw [slave.memory_eq m, ← outcome]
        rfl
      rw [last, sequential, List.foldl_append]
      simp only [List.foldl_cons, List.foldl_nil, Outcome.message, PartRequest.message, notRead,
        r.atomic, Message.beats]
      rfl
    rw [after]
    exact r.performs_iff _

/-- The signed minimum of a byte and one. -/
def minByte : PartRequest where
  a := ⟨opArithmeticData, paramArithMin, 0, 1, 0x40, 1, 1, false, true⟩
  atomic := rfl
  size := by decide
  aligned := rfl
  mask := by decide

/-- The request, to a memory that takes one instant and holds 0x80 everywhere. -/
def minRun (n : Nat) : Inputs where
  clk := true
  rst := false
  tlI := ⟨if n ≤ 1 then minByte.a else AType.new, true⟩
  wbI := ⟨0x80, n == 3 || n == 6⟩

abbrev minMemory : Nat → WordMemory :=
  memoryTrace (fun _ => true) (fun n => (states powerUp minRun n).wbO) (fun n => (minRun n).wbI)
    fun _ => 0x80

theorem minRun_rest {n : Nat} (le : 10 ≤ n) :
    states powerUp minRun n = states powerUp minRun 10 := by
  refine Trace.run_at_rest rfl (fun n le => ?_) le
  have late : ¬ n ≤ 1 ∧ n ≠ 3 ∧ n ≠ 6 := by omega
  have quiet : minRun n = minRun 10 := by simp [minRun, late]
  rw [quiet]
  decide +kernel

theorem minRun_early {n : Nat} (ack : (minRun n).wbI.ack = true) : n < 10 := by
  simp only [minRun, Bool.or_eq_true, beq_iff_eq] at ack
  omega

theorem minRun_slave :
    MemorySlave (fun _ => true) (fun n => (states powerUp minRun n).wbO)
      (fun n => (minRun n).wbI) minMemory := by
  refine ⟨?_, ?_, fun _ => rfl⟩
  · rintro n - ack
    have early := minRun_early ack
    revert ack
    revert n early
    decide +kernel
  · rintro n - ack read
    have early := minRun_early ack
    revert ack read
    revert n early
    decide +kernel

theorem minRun_serves :
    Serves (fun _ => true) (fun n => (states powerUp minRun n).wbO) fun n => (minRun n).wbI := by
  apply Serves.of_rest 10
  · intro n late
    rw [minRun_rest late]
    decide +kernel
  · decide +kernel

theorem minRun_asked : accepted powerUp minRun 2 = [] ++ [minByte.a] := by
  decide +kernel

theorem minRun_done : AtomicDone powerUp minRun [] minByte 10 :=
  ⟨by decide +kernel, by decide +kernel⟩

theorem tlUh2wblite_performs_iff_minRun :
    minByte.Performs 0x80 ((minMemory 10).word 0x40) ↔ minByte.Lanewise 0x80 :=
  (tlUh2wblite_performs_iff powerUp minRun minMemory (fun _ => rfl) (fun n => ⟨n, le_rfl, rfl⟩)
    (fun _ => rfl) minRun_slave minRun_serves [] minByte minRun_asked).2 10 minRun_done

/-- The byte 0x80, which is negative, becomes one. -/
theorem minRun_not_performs :
    ¬ ∀ (r : PartRequest) (inputs : Nat → Inputs) (memory : Nat → WordMemory),
      MemorySlave (fun n => (inputs n).clk) (fun n => (states powerUp inputs n).wbO)
        (fun n => (inputs n).wbI) memory →
      ∀ m, AtomicDone powerUp inputs [] r m →
        r.Performs ((memory 0).word r.a.address) ((memory m).word r.a.address) := by
  intro claim
  have active := (claim minByte minRun minMemory minRun_slave 10 minRun_done).active
  revert active
  decide +kernel

end TlUh2wblite

end Cocoapuffs

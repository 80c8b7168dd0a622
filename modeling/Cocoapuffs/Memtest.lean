import Mathlib.Data.BitVec
import Mathlib.Data.List.Infix

/-!
# The memory tests

`lib::Memtest` and `lib::TestWithC` in front of any memory.  What a memory
answers may depend on all accesses before, so that a memory may be faulty in any
way.
-/

namespace Cocoapuffs

namespace Memtest

inductive Access where
  | write (address value : BitVec 32)
  | read (address : BitVec 32)
deriving DecidableEq

/-- What a read returns after some accesses. -/
abbrev Memory := List Access → BitVec 32 → BitVec 32

/-- The arguments of the message about a cell,
`"mem: 0x08%x: expect: 0x%08x, actual: 0x%08x"`. -/
structure Mismatch where
  address : BitVec 32
  expected : BitVec 32
  actual : BitVec 32
deriving DecidableEq

/-- The accesses so far, and the messages. -/
structure State where
  accesses : List Access
  printed : List Mismatch

def cellOf (base : BitVec 32) (i : Nat) : BitVec 32 := base + BitVec.ofNat 32 (4 * i)

def kRamStart : BitVec 32 := 0x80000000

section Programs

variable (memory : Memory)

def write (address value : BitVec 32) (s : State) : State :=
  { s with accesses := s.accesses ++ [.write address value] }

def read (address : BitVec 32) (s : State) : BitVec 32 × State :=
  (memory s.accesses address, { s with accesses := s.accesses ++ [.read address] })

/-- `TestOneCell`. -/
def testOneCell (expected : BitVec 32) (cell : Nat) (s : State) : Bool × State :=
  let s := write (cellOf kRamStart cell) expected s
  let (actual, s) := read memory (cellOf kRamStart cell) s
  if actual ≠ expected then
    (false, { s with printed := s.printed ++ [⟨cellOf kRamStart cell, expected, actual⟩] })
  else (true, s)

/-- The loop of `TestWithC` from cell `i` on. -/
def testCells (value : BitVec 32) : Nat → Nat → Bool → State → Bool × State
  | _, 0, ret, s => (ret, s)
  | i, more + 1, ret, s =>
      let (passed, s) := testOneCell memory value i s
      testCells value (i + 1) more (if passed then false else ret) s

/-- `TestWithC`. -/
def testWithC (value : BitVec 32) (limit : Nat) (s : State) : Bool × State :=
  testCells memory value 0 limit true s

/-- `Result`. -/
structure Result where
  ok : Bool
  addr : BitVec 32
  expected : BitVec 32
  actual : BitVec 32
deriving DecidableEq

/-- The members of `Memtest`. -/
structure Config where
  baseAddress : BitVec 32
  basePattern : BitVec 32
  cellCount : BitVec 32

/-- The loop of `Memtest::Test` that writes the cells from `i` on. -/
def writeCells (m : Config) : Nat → Nat → State → State
  | _, 0, s => s
  | i, more + 1, s => writeCells m (i + 1) more (write (cellOf m.baseAddress i) m.basePattern s)

/-- The loop of `Memtest::Test` that reads them back. -/
def readCells (m : Config) : Nat → Nat → State → Result × State
  | _, 0, s => (⟨true, 0, 0, 0⟩, s)
  | i, more + 1, s =>
      let (v, s) := read memory (cellOf m.baseAddress i) s
      if v ≠ m.basePattern then (⟨false, cellOf m.baseAddress i, m.basePattern, v⟩, s)
      else readCells m (i + 1) more s

/-- `Memtest::Test`. -/
def test (m : Config) (s : State) : Result × State :=
  if m.cellCount = 0 then (⟨true, 0, 0, 0⟩, s)
  else
    let s := write m.baseAddress m.basePattern s
    let s := writeCells m 0 m.cellCount.toNat s
    readCells memory m 0 m.cellCount.toNat s

end Programs

/-! ### What the memory answers -/

section Answers

variable (memory : Memory)

/-- The accesses of `TestWithC` to the cells before `i`. -/
def cellAccesses (value : BitVec 32) (i : Nat) : List Access :=
  (List.range i).flatMap fun j =>
    [.write (cellOf kRamStart j) value, .read (cellOf kRamStart j)]

/-- The read that immediately follows the write of cell `i`. -/
def answer (value : BitVec 32) (before : List Access) (i : Nat) : BitVec 32 :=
  memory (before ++ cellAccesses value i ++ [.write (cellOf kRamStart i) value])
    (cellOf kRamStart i)

/-- The writes of `Memtest::Test`. -/
def allWrites (m : Config) : List Access :=
  .write m.baseAddress m.basePattern ::
    (List.range m.cellCount.toNat).map fun i => .write (cellOf m.baseAddress i) m.basePattern

/-- What is read back from cell `i` after all writes, and after the cells before
it. -/
def readback (m : Config) (before : List Access) (i : Nat) : BitVec 32 :=
  memory (before ++ allWrites m ++ (List.range i).map fun j => .read (cellOf m.baseAddress j))
    (cellOf m.baseAddress i)

/-- What the two tests are to report. -/
structure Truthful (value : BitVec 32) (limit : Nat) (m : Config) (s : State) : Prop where
  withC : (testWithC memory value limit s).1 = true ↔
    ∀ i, i < limit → answer memory value s.accesses i = value
  ok : (test memory m s).1.ok = true ↔
    ∀ i, i < m.cellCount.toNat → readback memory m s.accesses i = m.basePattern
  lowest : (test memory m s).1.ok = false → ∃ i, i < m.cellCount.toNat ∧
    (∀ j, j < i → readback memory m s.accesses j = m.basePattern) ∧
    readback memory m s.accesses i ≠ m.basePattern ∧
    (test memory m s).1 =
      ⟨false, cellOf m.baseAddress i, m.basePattern, readback memory m s.accesses i⟩

end Answers

/-! ### The loops -/

section Loops

variable (memory : Memory)

theorem cellAccesses_succ (value : BitVec 32) (i : Nat) : cellAccesses value (i + 1) =
    cellAccesses value i ++ [.write (cellOf kRamStart i) value, .read (cellOf kRamStart i)] := by
  simp [cellAccesses, List.range_succ]

theorem testOneCell_spec (value : BitVec 32) (i : Nat) (s : State) :
    ((testOneCell memory value i s).1 = true ↔
      memory (s.accesses ++ [.write (cellOf kRamStart i) value]) (cellOf kRamStart i) = value) ∧
    (testOneCell memory value i s).2.accesses = s.accesses ++
      [.write (cellOf kRamStart i) value, .read (cellOf kRamStart i)] := by
  simp only [testOneCell, read, write]
  by_cases same : memory (s.accesses ++ [.write (cellOf kRamStart i) value])
      (cellOf kRamStart i) = value
  · simp [same]
  · simp [same]

theorem testCells_iff (value : BitVec 32) (before : List Access) (more : Nat) {i : Nat}
    {ret : Bool} {s : State} (reached : s.accesses = before ++ cellAccesses value i) :
    (testCells memory value i more ret s).1 = true ↔
      ret = true ∧ ∀ j, i ≤ j → j < i + more → answer memory value before j ≠ value := by
  induction more generalizing i ret s with
  | zero => exact ⟨fun same => ⟨same, fun j le less => by omega⟩, And.left⟩
  | succ more ih =>
      obtain ⟨passes, accesses⟩ := testOneCell_spec memory value i s
      rw [reached] at passes
      rw [testCells, ih (by rw [accesses, reached, cellAccesses_succ, List.append_assoc])]
      constructor
      · rintro ⟨kept, later⟩
        have failed : (testOneCell memory value i s).1 = false := by
          by_contra passed
          rw [if_pos (by simpa using passed)] at kept
          cases kept
        refine ⟨by simpa [failed] using kept, fun j le less => ?_⟩
        rcases Nat.eq_or_lt_of_le le with rfl | after
        · intro same
          rw [passes.mpr same] at failed
          cases failed
        · exact later j after (by omega)
      · rintro ⟨kept, fails⟩
        have failed : (testOneCell memory value i s).1 = false := by
          by_contra passed
          exact fails i le_rfl (by omega) (passes.mp (by simpa using passed))
        exact ⟨by simpa [failed] using kept, fun j le less => fails j (by omega) (by omega)⟩

theorem testWithC_iff (value : BitVec 32) (limit : Nat) (s : State) :
    (testWithC memory value limit s).1 = true ↔
      ∀ i, i < limit → answer memory value s.accesses i ≠ value := by
  rw [testWithC, testCells_iff memory value s.accesses limit (by simp [cellAccesses])]
  constructor
  · rintro ⟨-, fails⟩ i less
    exact fails i (Nat.zero_le i) (by omega)
  · intro fails
    exact ⟨rfl, fun i _ less => fails i (by omega)⟩

theorem writeCells_accesses (m : Config) (more i : Nat) (s : State) :
    (writeCells m i more s).accesses = s.accesses ++
      (List.range' i more).map fun j => .write (cellOf m.baseAddress j) m.basePattern := by
  induction more generalizing i s with
  | zero => simp [writeCells]
  | succ more ih =>
      rw [writeCells, ih, List.range'_succ, List.map_cons, write, List.append_assoc,
        List.singleton_append]

/-- The loop stops at the first cell that fails. -/
theorem readCells_spec (m : Config) (before : List Access) (more : Nat) {i : Nat} {s : State}
    (reached : s.accesses = before ++ allWrites m ++
      (List.range i).map fun j => .read (cellOf m.baseAddress j))
    (good : ∀ j, j < i → readback memory m before j = m.basePattern) :
    ((readCells memory m i more s).1.ok = true ∧
        ∀ j, j < i + more → readback memory m before j = m.basePattern) ∨
      ∃ j, j < i + more ∧ (∀ k, k < j → readback memory m before k = m.basePattern) ∧
        readback memory m before j ≠ m.basePattern ∧
        (readCells memory m i more s).1 =
          ⟨false, cellOf m.baseAddress j, m.basePattern, readback memory m before j⟩ := by
  induction more generalizing i s with
  | zero => exact .inl ⟨rfl, good⟩
  | succ more ih =>
      have value : memory s.accesses (cellOf m.baseAddress i) = readback memory m before i := by
        rw [reached, readback]
      rw [readCells]
      simp only [read, value]
      by_cases same : readback memory m before i = m.basePattern
      · rw [if_neg (fun other => other same)]
        have good' : ∀ j, j < i + 1 → readback memory m before j = m.basePattern := by
          intro j less
          rcases Nat.lt_succ_iff_lt_or_eq.mp less with earlier | rfl
          · exact good j earlier
          · exact same
        have next := ih (i := i + 1)
          (s := { s with accesses := s.accesses ++ [.read (cellOf m.baseAddress i)] })
          (by simp [reached, List.range_succ]) good'
        rwa [Nat.add_assoc, Nat.add_comm 1] at next
      · rw [if_pos same]
        exact .inr ⟨i, by omega, good, same, rfl⟩

theorem test_spec (m : Config) (s : State) :
    ((test memory m s).1.ok = true ∧
        ∀ j, j < m.cellCount.toNat → readback memory m s.accesses j = m.basePattern) ∨
      ∃ j, j < m.cellCount.toNat ∧
        (∀ k, k < j → readback memory m s.accesses k = m.basePattern) ∧
        readback memory m s.accesses j ≠ m.basePattern ∧
        (test memory m s).1 =
          ⟨false, cellOf m.baseAddress j, m.basePattern, readback memory m s.accesses j⟩ := by
  by_cases none : m.cellCount = 0
  · rw [test, if_pos none]
    refine .inl ⟨rfl, fun j less => ?_⟩
    rw [none] at less
    exact absurd less (Nat.not_lt_zero j)
  · rw [test, if_neg none]
    have reached : (writeCells m 0 m.cellCount.toNat
        (write m.baseAddress m.basePattern s)).accesses = s.accesses ++ allWrites m ++
          (List.range 0).map fun j => .read (cellOf m.baseAddress j) := by
      rw [writeCells_accesses, ← List.range_eq_range']
      simp [write, allWrites]
    have read := readCells_spec memory m s.accesses m.cellCount.toNat reached
      fun j less => absurd less (Nat.not_lt_zero j)
    rwa [Nat.zero_add] at read

/-- `Memtest::Test` tells the truth, and `TestWithC` does when there is nothing to
test, or cells of both kinds. -/
theorem truthful_iff (memory : Memory) (value : BitVec 32) (limit : Nat) (m : Config) (s : State) :
    Truthful memory value limit m s ↔ limit = 0 ∨
      (∃ i, i < limit ∧ answer memory value s.accesses i = value) ∧
        ∃ i, i < limit ∧ answer memory value s.accesses i ≠ value := by
  constructor
  · intro truthful
    have withC := truthful.withC
    rw [testWithC_iff memory] at withC
    rcases Nat.eq_zero_or_pos limit with none | some
    · exact .inl none
    · refine .inr ⟨?_, ?_⟩
      · by_contra bad
        simp only [not_exists, not_and] at bad
        exact bad 0 some (withC.mp bad 0 some)
      · by_contra good
        simp only [not_exists, not_and, not_not] at good
        exact withC.mpr good 0 some (good 0 some)
  · intro condition
    constructor
    · rw [testWithC_iff memory]
      rcases condition with rfl | ⟨⟨i, inside, good⟩, j, inside', bad⟩
      · exact ⟨fun _ i less => absurd less (Nat.not_lt_zero i), fun _ i less =>
          absurd less (Nat.not_lt_zero i)⟩
      · exact ⟨fun fails => absurd good (fails i inside), fun passes =>
          absurd (passes j inside') bad⟩
    · rcases test_spec memory m s with ⟨ok, good⟩ | ⟨j, inside, -, bad, result⟩
      · exact ⟨fun _ => good, fun _ => ok⟩
      · rw [result]
        exact ⟨fun ok => absurd ok Bool.false_ne_true, fun good => absurd (good j inside) bad⟩
    · intro failed
      rcases test_spec memory m s with ⟨ok, -⟩ | found
      · rw [ok] at failed
        cases failed
      · exact found

end Loops

/-- A memory without a fault. -/
def faultless : Memory := fun accesses address =>
  accesses.foldl (fun value access =>
    match access with
    | .write address' value' => if address' = address then value' else value
    | .read _ => value) 0

/-- `TestWithC` rejects it. -/
theorem faultless_rejected :
    (testWithC faultless 0xAAAAAAAA 2 ⟨[], []⟩).1 = false ∧
      answer faultless 0xAAAAAAAA [] 0 = 0xAAAAAAAA ∧
      answer faultless 0xAAAAAAAA [] 1 = 0xAAAAAAAA ∧
      ¬ Truthful faultless 0xAAAAAAAA 2 ⟨kRamStart, 0, 0⟩ ⟨[], []⟩ := by
  have rejects : (testWithC faultless 0xAAAAAAAA 2 ⟨[], []⟩).1 = false := by decide
  have first : answer faultless 0xAAAAAAAA [] 0 = 0xAAAAAAAA := by decide
  have second : answer faultless 0xAAAAAAAA [] 1 = 0xAAAAAAAA := by decide
  refine ⟨rejects, first, second, fun truthful => ?_⟩
  have accepts := truthful.withC.mpr fun i less => by
    rcases Nat.lt_succ_iff_lt_or_eq.mp less with zero | rfl
    · obtain rfl : i = 0 := by omega
      exact first
    · exact second
  rw [rejects] at accepts
  cases accepts

end Memtest

end Cocoapuffs

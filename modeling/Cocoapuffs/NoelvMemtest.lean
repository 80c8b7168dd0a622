import Cocoapuffs.NoelvPrint

/-!
# The memory test of the NOEL-V

The program of `noelv_memtest`: every word of a region is given its own address, then all
are read back, and the first that is wrong is printed.
-/

namespace Cocoapuffs

namespace NoelvMemtest

open RiscV NoelvPrint HexText

inductive Label where
  | start
  | l1
  | l2
  | l3
  | fail
  | l4
  | putc
  | puthex32
  | phLoop
  | phDig
  | phEmit
deriving DecidableEq

/-- `MEM_START`. -/
def memStart : Nat := 0x80000

/-- `MEM_END`. -/
def memEnd : Nat := 0x92000

/-- `li a0, c; jal ra, putc` for each character. -/
def say (text : List Byte) : List (Line Label) :=
  text.flatMap fun c => [.code (.li .a0 c.toNat), .code (.jal .ra .putc)]

/-- "MEM OK\r\n" -/
def memOk : List Byte := [0x4D, 0x45, 0x4D, 0x20, 0x4F, 0x4B, 13, 10]

/-- "BAD " -/
def bad : List Byte := [0x42, 0x41, 0x44, 0x20]

/-- The start, up to the message of success. -/
def start : List (Line Label) :=
  [.label .start,
    .code .nop,
    .code (.li .t0 0xff9),
    .code (.slli .t0 .t0 20),
    .code (.li .t1 42),
    .code (.sw .t1 12 .t0),
    .code (.li .t1 0x3),
    .code (.sw .t1 8 .t0),
    .code (.mv .s0 .t0),
    -- Each word is given its own address.
    .code (.li .t3 memStart),
    .code (.li .t4 memEnd),
    .label .l1,
    .code (.sw .t3 0 .t3),
    .code (.addi .t3 .t3 4),
    .code (.bltu .t3 .t4 .l1),
    -- All are read back.
    .code (.li .t3 memStart),
    .label .l2,
    .code (.lw .t5 0 .t3),
    .code (.bne .t5 .t3 .fail),
    .code (.addi .t3 .t3 4),
    .code (.bltu .t3 .t4 .l2)]

/-- `mv a1, rs; jal ra, puthex32` -/
def sayWord (rs : Reg) : List (Line Label) := [.code (.mv .a1 rs), .code (.jal .ra .puthex32)]

def spin (name : Label) : List (Line Label) := [.label name, .code (.j name)]

def putc : List (Line Label) :=
  [.label .putc,
    .code (.lw .t1 4 .s0),
    .code (.andi .t1 .t1 0x2),
    .code (.beqz .t1 .putc),
    .code (.sw .a0 0 .s0),
    .code .ret]

def puthex32 : List (Line Label) :=
  [.label .puthex32,
    .code (.mv .s1 .ra),
    .code (.li .t2 8),
    .label .phLoop,
    .code (.srli .a0 .a1 28),
    .code (.andi .a0 .a0 0xf),
    .code (.li .t6 10),
    .code (.blt .a0 .t6 .phDig),
    .code (.addi .a0 .a0 (0x61 - 10)),
    .code (.j .phEmit),
    .label .phDig,
    .code (.addi .a0 .a0 0x30),
    .label .phEmit,
    .code (.jal .ra .putc),
    .code (.slli .a1 .a1 4),
    .code (.addi .t2 .t2 (-1)),
    .code (.bnez .t2 .phLoop),
    .code (.mv .ra .s1),
    .code .ret]

def listing : List (Line Label) :=
  start ++ say memOk ++ spin .l3 ++
    (.label .fail :: say bad) ++ sayWord .t3 ++ say [0x20] ++ sayWord .t5 ++ say [13, 10] ++
    spin .l4 ++ putc ++ puthex32

def code : List (Instr Nat) := assemble listing

/-- The APBUART. -/
def uart : BitVec 64 := 0xFF900000

theorem putc_listed : Putc code 54 := by
  constructor <;> decide +kernel

theorem puthex32_listed : Puthex32 code 59 54 .s1 := by
  constructor <;> decide +kernel

theorem memOk_listed : Message code 54 18 memOk := by
  decide +kernel

theorem bad_listed : Message code 54 35 bad := by
  decide +kernel

/-! ### The two loops -/

/-- The number of words. -/
def words : Nat := (memEnd - memStart) / 4

/-- The address of a word. -/
def adr (k : Nat) : Nat := memStart + 4 * k

/-- What the first loop does to some words. -/
def writes (first count : Nat) : List (Event 64) :=
  (List.range' first count).map fun k => .store (BitVec.ofNat 64 (adr k)) (BitVec.ofNat 32 (adr k))

/-- What the second loop does to some words if they are right. -/
def reads (first count : Nat) : List (Event 64) :=
  (List.range' first count).map fun k => .load (BitVec.ofNat 64 (adr k)) (BitVec.ofNat 32 (adr k))

/-- What comes before the second loop. -/
def written : List (Event 64) :=
  [.store (uart + 12) 42, .store (uart + 8) 3] ++ writes 0 words

/-- What the second loop reads from a word if those before it are right. -/
def got (env : Env 64) (k : Nat) : BitVec 32 :=
  env (written ++ reads 0 k) (BitVec.ofNat 64 (adr k))

def wrong (env : Env 64) (k : Nat) : Bool := got env k != BitVec.ofNat 32 (adr k)

/-- What the program prints. -/
def verdict (env : Env 64) : List Byte :=
  match (List.range' 0 words).find? (wrong env) with
  | none => memOk
  | some k =>
      bad ++ numeral hexDigit 8 (BitVec.ofNat 32 (adr k)) ++ [0x20] ++
        numeral hexDigit 8 (got env k) ++ [13, 10]

variable {env : Env 64}

theorem adr_succ (k : Nat) :
    BitVec.ofNat 64 (adr k) + BitVec.ofInt 64 4 = BitVec.ofNat 64 (adr (k + 1)) := by
  rw [show BitVec.ofInt 64 4 = BitVec.ofNat 64 4 from rfl, ← BitVec.ofNat_add]
  rfl

/-- The comparison that ends a loop. -/
theorem more_iff {k : Nat} (fits : k ≤ words) :
    Cond.holds .ltu (BitVec.ofNat 64 (adr k)) (BitVec.ofInt 64 memEnd) = decide (k < words) := by
  have limit : (BitVec.ofInt 64 memEnd).toNat = memEnd := by decide
  have small : adr k < 2 ^ 64 := by
    simp only [words, adr, memStart, memEnd] at fits ⊢
    omega
  rw [Cond.holds, BitVec.ult, limit, BitVec.toNat_ofNat, Nat.mod_eq_of_lt small]
  congr 1
  simp only [words, adr, memStart, memEnd, eq_iff_iff]
  omega

theorem setWidth_adr (k : Nat) :
    (BitVec.ofNat 64 (adr k)).setWidth 32 = BitVec.ofNat 32 (adr k) :=
  BitVec.setWidth_ofNat_of_le (by decide) _

/-- The first loop, with `count + 1` words left. -/
theorem writes_run (count first : Nat) (left : first + (count + 1) = words)
    (regs : Reg → BitVec 64) (events : List (Event 64))
    (at_ : regs .t3 = BitVec.ofNat 64 (adr first))
    (limit : regs .t4 = BitVec.ofInt 64 memEnd) :
    Runs code env ⟨10, regs, events⟩ fun t => t.pc = 13 ∧ Keeps [.t3] regs t.regs ∧
      t.events = events ++ writes first (count + 1) := by
  induction count generalizing first regs events with
  | zero =>
      refine Runs.sw rfl (by decide) (by decide) (BitVec.add_zero _ : regs .t3 + 0 = regs .t3) ?_
      refine Runs.addi rfl (by decide) (by decide) ?_
      rw [at_, setWidth_adr, adr_succ]
      have last : decide (first + 1 < words) = false := decide_eq_false (by omega)
      refine Runs.falls rfl rfl limit ((more_iff (by omega)).trans last) (Runs.now ?_)
      exact ⟨rfl, (Keeps.refl _ _).update (by decide), rfl⟩
  | succ count ih =>
      refine Runs.sw rfl (by decide) (by decide) (BitVec.add_zero _ : regs .t3 + 0 = regs .t3) ?_
      refine Runs.addi rfl (by decide) (by decide) ?_
      rw [at_, setWidth_adr, adr_succ]
      have more : decide (first + 1 < words) = true := decide_eq_true (by omega)
      refine Runs.taken rfl rfl limit ((more_iff (by omega)).trans more) ?_
      refine (ih (first + 1) (by omega) _ _ rfl (by exact limit)).mono fun t rest => ?_
      obtain ⟨pc, keeps, events'⟩ := rest
      refine ⟨pc, ((Keeps.refl _ regs).update (by decide)).trans keeps, ?_⟩
      rw [events', List.append_assoc]
      rfl

/-- The comparison of a word with its address. -/
theorem ne_iff {k : Nat} (fits : k < words) (value : BitVec 32) :
    Cond.holds .ne (value.signExtend 64) (BitVec.ofNat 64 (adr k)) =
      (value != BitVec.ofNat 32 (adr k)) := by
  have small : adr k < 2 ^ 31 := by
    simp only [words, adr, memStart, memEnd] at fits ⊢
    omega
  have same : value.signExtend 64 = BitVec.ofNat 64 (adr k) ↔ value = BitVec.ofNat 32 (adr k) := by
    constructor
    · intro equal
      have low := congrArg (BitVec.setWidth 32) equal
      rwa [setWidth_adr, setWidth_signExtend] at low
    · rintro rfl
      have positive : (BitVec.ofNat 32 (adr k)).msb = false := by
        rw [BitVec.msb_eq_false_iff_two_mul_lt, BitVec.toNat_ofNat]
        omega
      rw [BitVec.signExtend_eq_setWidth_of_msb_false positive]
      apply BitVec.eq_of_toNat_eq
      simp only [BitVec.toNat_setWidth, BitVec.toNat_ofNat]
      omega
  rw [Cond.holds, Bool.eq_iff_iff, bne_iff_ne, bne_iff_ne]
  exact not_congr same

theorem reads_succ (first : Nat) :
    reads 0 first ++
      [.load (BitVec.ofNat 64 (adr first)) (BitVec.ofNat 32 (adr first))] =
        reads 0 (first + 1) := by
  rw [reads, reads, List.range'_1_concat, Nat.zero_add, List.map_append]
  rfl

/-- Where the second loop ends. -/
def Checked (env : Env 64) (bad : Option Nat) (t : State 64) : Prop :=
  match bad with
  | none => t.pc = 18
  | some k => t.pc = 35 ∧ t.regs .t3 = BitVec.ofNat 64 (adr k) ∧
      t.regs .t5 = (got env k).signExtend 64

/-- A word is read. -/
theorem read {first : Nat} (fits : first < words) {regs : Reg → BitVec 64} {goal : State 64 → Prop}
    (at_ : regs .t3 = BitVec.ofNat 64 (adr first))
    (isWrong : wrong env first = true →
      Runs code env ⟨35, Function.update regs .t5 ((got env first).signExtend 64),
        written ++ reads 0 first ++ [.load (BitVec.ofNat 64 (adr first)) (got env first)]⟩ goal)
    (isRight : wrong env first = false →
      Runs code env ⟨17, Function.update (Function.update regs .t5 ((got env first).signExtend 64))
        .t3 (BitVec.ofNat 64 (adr (first + 1))), written ++ reads 0 (first + 1)⟩ goal) :
    Runs code env ⟨14, regs, written ++ reads 0 first⟩ goal := by
  refine Runs.lw rfl (by decide) (by decide) ((BitVec.add_zero _).trans at_) ?_
  have tests := ne_iff fits (got env first)
  cases isBad : wrong env first with
  | true => exact Runs.taken rfl rfl at_ (tests.trans isBad) (isWrong isBad)
  | false =>
      refine Runs.falls rfl rfl at_ (tests.trans isBad) (Runs.addi rfl (by decide) (by decide) ?_)
      have same : got env first = BitVec.ofNat 32 (adr first) := bne_eq_false_iff_eq.mp isBad
      have rest := isRight isBad
      rw [← reads_succ, ← same, ← List.append_assoc] at rest
      rw [Function.update_of_ne (by decide), at_, adr_succ]
      exact rest

theorem adr_ne_uart {k : Nat} (fits : k < words) : BitVec.ofNat 64 (adr k) ≠ uart := by
  intro same
  have equal := congrArg BitVec.toNat same
  have base : uart.toNat = 0xFF900000 := rfl
  rw [base, BitVec.toNat_ofNat] at equal
  simp only [words, adr, memStart, memEnd] at fits equal
  omega

theorem printed_memory (k : Nat) : printed uart (written ++ reads 0 k) = [] := by
  have silent : storedAt uart (writes 0 words) = [] := by
    rw [storedAt, writes, List.filterMap_map, List.filterMap_eq_nil_iff]
    intro k mem
    rw [List.mem_range'_1] at mem
    exact if_neg (adr_ne_uart (by omega))
  have loads : storedAt uart (reads 0 k) = [] := by
    rw [storedAt, reads, List.filterMap_map, List.filterMap_eq_nil_iff]
    exact fun _ _ => rfl
  have control : storedAt uart [.store (uart + 12) 42, .store (uart + 8) 3] = [] := by decide
  rw [printed, written, storedAt_append, storedAt_append, control, silent, loads]
  rfl

/-- When a word is wrong, its address and what has been read are in `t3` and `t5`. -/
theorem stopped {first : Nat} {regs : Reg → BitVec 64}
    (at_ : regs .t3 = BitVec.ofNat 64 (adr first)) :
    Checked env (some first) ⟨35, Function.update regs .t5 ((got env first).signExtend 64),
        written ++ reads 0 first ++ [.load (BitVec.ofNat 64 (adr first)) (got env first)]⟩ ∧
      Keeps [.t3, .t5] regs (Function.update regs .t5 ((got env first).signExtend 64)) ∧
      printed uart (written ++ reads 0 first ++
        [.load (BitVec.ofNat 64 (adr first)) (got env first)]) = [] := by
  refine ⟨⟨rfl, at_, rfl⟩, (Keeps.refl _ _).update (by decide), ?_⟩
  rw [printed_append, printed_memory, printed_load, List.append_nil]

/-- The second loop, with `count + 1` words left. -/
theorem reads_run (count first : Nat) (left : first + (count + 1) = words)
    (regs : Reg → BitVec 64) (at_ : regs .t3 = BitVec.ofNat 64 (adr first))
    (limit : regs .t4 = BitVec.ofInt 64 memEnd) :
    Runs code env ⟨14, regs, written ++ reads 0 first⟩ fun t =>
      Checked env ((List.range' first (count + 1)).find? (wrong env)) t ∧
        Keeps [.t3, .t5] regs t.regs ∧ printed uart t.events = [] := by
  induction count generalizing first regs with
  | zero =>
      refine read (by omega) at_ (fun isWrong => ?_) fun isRight => ?_
      · rw [List.range'_succ, List.find?_cons_of_pos isWrong]
        exact Runs.now (stopped at_)
      · have last : decide (first + 1 < words) = false := decide_eq_false (by omega)
        refine Runs.falls rfl rfl limit ((more_iff (by omega)).trans last) (Runs.now ?_)
        refine ⟨?_, ((Keeps.refl _ _).update (by decide)).update (by decide), printed_memory _⟩
        rw [List.range'_succ, List.find?_cons_of_neg (by simp [isRight])]
        rfl
  | succ count ih =>
      refine read (by omega) at_ (fun isWrong => ?_) fun isRight => ?_
      · rw [List.range'_succ, List.find?_cons_of_pos isWrong]
        exact Runs.now (stopped at_)
      · have more : decide (first + 1 < words) = true := decide_eq_true (by omega)
        refine Runs.taken rfl rfl limit ((more_iff (by omega)).trans more) ?_
        refine (ih (first + 1) (by omega) _ rfl (by exact limit)).mono fun t rest => ?_
        obtain ⟨checked, keeps, quiet⟩ := rest
        rw [List.range'_succ, List.find?_cons_of_neg (by simp [isRight])]
        exact ⟨checked, ((Keeps.update (Keeps.refl _ _) (by decide)).update (by decide)).trans keeps,
          quiet⟩

/-! ### The whole program -/

/-- What has happened when the second loop ends. -/
theorem checks (env : Env 64) (regs : Reg → BitVec 64) :
    Runs code env ⟨0, regs, []⟩ fun t =>
      Checked env ((List.range' 0 words).find? (wrong env)) t ∧ t.regs .s0 = uart ∧
        printed uart t.events = [] := by
  have base : (BitVec.ofInt 64 0xff9 <<< 20 : BitVec 64) = uart := by decide
  have size : words = words - 1 + 1 := by decide
  refine Runs.nop rfl (Runs.li rfl (by decide) (Runs.slli rfl (by decide) (by decide) ?_))
  rw [Function.update_idem, Function.update_self, base]
  refine Runs.li rfl (by decide) (Runs.sw rfl (by decide) (by decide) rfl ?_)
  refine Runs.li rfl (by decide) (Runs.sw rfl (by decide) (by decide) rfl ?_)
  refine Runs.mv rfl (by decide) (by decide) ?_
  refine Runs.li rfl (by decide) (Runs.li rfl (by decide) ?_)
  refine (writes_run (words - 1) 0 (by decide) _ _ rfl rfl).trans fun t wrote => ?_
  obtain ⟨at_, regs', events⟩ := t
  obtain ⟨pc, kept, before⟩ := wrote
  obtain rfl : at_ = 13 := pc
  obtain rfl : events = written ++ reads 0 0 := before.trans (List.append_nil _).symm
  have limit : regs' .t4 = BitVec.ofInt 64 memEnd := kept .t4 (by decide)
  have s0 : regs' .s0 = uart := kept .s0 (by decide)
  refine Runs.li rfl (by decide) ?_
  refine (reads_run (words - 1) 0 (by decide) _ rfl (by exact limit)).mono fun t rest => ?_
  obtain ⟨checked, keeps, quiet⟩ := rest
  exact ⟨checked, (keeps .s0 (by decide)).trans s0, quiet⟩

/-- All words are right. -/
theorem ok_prints (ready : Ready env uart) {regs : Reg → BitVec 64} (base : regs .s0 = uart)
    (events : List (Event 64)) :
    Prints code env uart ⟨18, regs, events⟩ 34 [.a0, .ra, .t1] memOk :=
  putc_listed.message memOk_listed (by decide) base events ready

theorem space_listed : Message code 54 45 [0x20] := by
  decide +kernel

theorem newline_listed : Message code 54 49 [13, 10] := by
  decide +kernel

/-- The registers that the message of failure changes. -/
abbrev scratch : List Reg := [.s1, .a0, .a1, .ra, .t1, .t2, .t6]

/-- A word is wrong. -/
theorem bad_prints (ready : Ready env uart) {regs : Reg → BitVec 64} (base : regs .s0 = uart)
    (events : List (Event 64)) :
    Prints code env uart ⟨35, regs, events⟩ 53 scratch
      (bad ++ numeral hexDigit 8 (regs .t3) ++ [0x20] ++ numeral hexDigit 8 (regs .t5) ++
        [13, 10]) := by
  have apart : Reg.s1 ∉ [.zero, .s0, .a0, .a1, .ra, .t1, .t2, .t6] := by decide
  simp only [List.append_assoc]
  refine Does.followedBy (putc_listed.message bad_listed (by decide) base events ready)
    (by decide) fun regs1 events1 kept1 => ?_
  have base1 : regs1 .s0 = uart := (kept1 .s0 (by decide)).trans base
  have address : regs1 .t3 = regs .t3 := kept1 .t3 (by decide)
  have value1 : regs1 .t5 = regs .t5 := kept1 .t5 (by decide)
  rw [← address]
  refine Does.followedBy (puthex32_listed.word putc_listed (by decide) apart rfl rfl (by decide)
    (by decide) base1 events1 ready) (by decide) fun regs2 events2 kept2 => ?_
  have base2 : regs2 .s0 = uart := (kept2 .s0 (by decide)).trans base1
  have value2 : regs2 .t5 = regs .t5 := (kept2 .t5 (by decide)).trans value1
  refine Does.followedBy (putc_listed.message space_listed (by decide) base2 events2 ready)
    (by decide) fun regs3 events3 kept3 => ?_
  have base3 : regs3 .s0 = uart := (kept3 .s0 (by decide)).trans base2
  have value3 : regs3 .t5 = regs .t5 := (kept3 .t5 (by decide)).trans value2
  rw [← value3]
  refine Does.followedBy (puthex32_listed.word putc_listed (by decide) apart rfl rfl (by decide)
    (by decide) base3 events3 ready) (by decide) fun regs4 events4 kept4 => ?_
  have base4 : regs4 .s0 = uart := (kept4 .s0 (by decide)).trans base3
  exact Runs.mono (putc_listed.message newline_listed (by decide) base4 events4 ready)
    fun t last => last.widen (by decide)

/-- The program prints its verdict, whatever the memory does. -/
theorem prints_verdict (ready : Ready env uart) (regs : Reg → BitVec 64) :
    Runs code env ⟨0, regs, []⟩ fun t =>
      code[t.pc]? = some (.j t.pc) ∧ printed uart t.events = verdict env := by
  refine (checks env regs).trans fun t rest => ?_
  obtain ⟨checked, base, quiet⟩ := rest
  obtain ⟨pc, regs, events⟩ := t
  rw [verdict]
  cases found : (List.range' 0 words).find? (wrong env) with
  | none =>
      rw [found] at checked
      obtain rfl : pc = 18 := checked
      refine (ok_prints ready base events).mono fun u last => ⟨last.pc.symm ▸ rfl, ?_⟩
      rw [last.adds, quiet, List.nil_append]
  | some k =>
      rw [found] at checked
      obtain ⟨pc_eq, address, value⟩ := checked
      obtain rfl : pc = 35 := pc_eq
      refine (bad_prints ready base events).mono fun u last => ⟨last.pc.symm ▸ rfl, ?_⟩
      rw [last.adds, quiet, List.nil_append, ← numeral_setWidth (regs .t3) (by decide),
        ← numeral_setWidth (regs .t5) (by decide), show regs .t3 = _ from address,
        show regs .t5 = _ from value, setWidth_adr, setWidth_signExtend]

theorem memtest_verdict (env : Env 64) (ready : Ready env uart) (regs : Reg → BitVec 64) :
    ∃ n, ∀ m, n ≤ m →
      printed uart ((step code env)^[m] ⟨0, regs, []⟩).events = verdict env :=
  (prints_verdict ready regs).forever

/-! ### Words that share a cell -/

section Aliasing

variable {Cell : Type*} [DecidableEq Cell] (cell : BitVec 64 → Cell)

/-- The last word in the cell of a word. -/
def shadow (k : Nat) : Nat :=
  Nat.findGreatest
    (fun j => cell (BitVec.ofNat 64 (adr j)) = cell (BitVec.ofNat 64 (adr k))) (words - 1)

/-- What the program prints of such a memory. -/
def aliased : List Byte :=
  match (List.range' 0 words).find? fun k => shadow cell k != k with
  | none => memOk
  | some k =>
      bad ++ numeral hexDigit 8 (BitVec.ofNat 32 (adr k)) ++ [0x20] ++
        numeral hexDigit 8 (BitVec.ofNat 32 (adr (shadow cell k))) ++ [13, 10]

theorem writes_concat (count : Nat) :
    writes 0 (count + 1) = writes 0 count ++
      [.store (BitVec.ofNat 64 (adr count)) (BitVec.ofNat 32 (adr count))] := by
  rw [writes, writes, List.range'_1_concat, Nat.zero_add, List.map_append]
  rfl

variable {cell} in
/-- After some words have been written, a cell holds the last of them that is in it. -/
theorem lastStored_writes (before : List (Event 64)) (at_ : Cell) (count j : Nat)
    (few : j ≤ count) (within : cell (BitVec.ofNat 64 (adr j)) = at_) :
    lastStored cell at_ (before ++ writes 0 (count + 1)) =
      some (BitVec.ofNat 32 (adr (Nat.findGreatest
        (fun j => cell (BitVec.ofNat 64 (adr j)) = at_) count))) := by
  induction count with
  | zero =>
      obtain rfl : j = 0 := Nat.le_zero.mp few
      rw [writes_concat, ← List.append_assoc, lastStored_store, if_pos within]
      rfl
  | succ count ih =>
      rw [writes_concat, ← List.append_assoc, lastStored_store, Nat.findGreatest_succ]
      by_cases last : cell (BitVec.ofNat 64 (adr (count + 1))) = at_
      · rw [if_pos last, if_pos last]
      · have earlier : j ≠ count + 1 := by
          rintro rfl
          exact last within
        rw [if_neg last, if_neg last, ih (by omega)]

theorem lastStored_reads (at_ : Cell) (events : List (Event 64)) (count : Nat) :
    lastStored cell at_ (events ++ reads 0 count) = lastStored cell at_ events := by
  induction count with
  | zero => rw [reads, List.range'_zero, List.map_nil, List.append_nil]
  | succ count ih => rw [← reads_succ, ← List.append_assoc, lastStored_load, ih]

variable {cell}

/-- A word reads as the address of the last one in its cell. -/
theorem got_eq_shadow {k : Nat} (fits : k < words)
    (memory : Remembers env cell (BitVec.ofNat 64 (adr k))) :
    got env k = BitVec.ofNat 32 (adr (shadow cell k)) := by
  apply memory
  rw [lastStored_reads]
  exact lastStored_writes _ _ (words - 1) k (by omega) rfl

theorem adr_injective {j k : Nat} (j_fits : j < words) (k_fits : k < words)
    (same : BitVec.ofNat 32 (adr j) = BitVec.ofNat 32 (adr k)) : j = k := by
  have equal := congrArg BitVec.toNat same
  rw [BitVec.toNat_ofNat, BitVec.toNat_ofNat] at equal
  simp only [words, adr, memStart, memEnd] at j_fits k_fits equal
  omega

theorem shadow_lt (k : Nat) : shadow cell k < words :=
  Nat.lt_of_le_of_lt (Nat.findGreatest_le _) (by decide)

theorem cell_shadow {k : Nat} (fits : k < words) :
    cell (BitVec.ofNat 64 (adr (shadow cell k))) = cell (BitVec.ofNat 64 (adr k)) :=
  Nat.findGreatest_spec (P := fun j =>
    cell (BitVec.ofNat 64 (adr j)) = cell (BitVec.ofNat 64 (adr k))) (by omega : k ≤ words - 1) rfl

theorem shadow_eq_of_cell {j k : Nat}
    (same : cell (BitVec.ofNat 64 (adr j)) = cell (BitVec.ofNat 64 (adr k))) :
    shadow cell j = shadow cell k := by
  rw [shadow, shadow, same]

theorem wrong_eq_shadow {k : Nat} (fits : k < words)
    (memory : Remembers env cell (BitVec.ofNat 64 (adr k))) :
    wrong env k = (shadow cell k != k) := by
  rw [wrong, got_eq_shadow fits memory, Bool.eq_iff_iff, bne_iff_ne, bne_iff_ne]
  exact not_congr ⟨adr_injective (shadow_lt k) fits, congrArg fun j => BitVec.ofNat 32 (adr j)⟩

/-- The program names the first word that shares its cell with a later one. -/
theorem verdict_eq_aliased
    (memory : ∀ k < words, Remembers env cell (BitVec.ofNat 64 (adr k))) :
    verdict env = aliased cell := by
  have same : (List.range' 0 words).find? (wrong env) =
      (List.range' 0 words).find? fun k => shadow cell k != k := by
    rw [← List.head?_filter, ← List.head?_filter]
    refine congrArg List.head? (List.filter_congr fun k mem => ?_)
    have fits : k < words := by
      rw [List.mem_range'_1] at mem
      omega
    exact wrong_eq_shadow fits (memory k fits)
  rw [verdict, same, aliased]
  cases found : (List.range' 0 words).find? fun k => shadow cell k != k with
  | none => rfl
  | some k =>
      have mem := List.mem_of_find?_eq_some found
      have fits : k < words := by
        rw [List.mem_range'_1] at mem
        omega
      simp only [got_eq_shadow fits (memory k fits)]

theorem aliased_eq_memOk_iff :
    aliased cell = memOk ↔ ∀ j < words, ∀ k < words,
      cell (BitVec.ofNat 64 (adr j)) = cell (BitVec.ofNat 64 (adr k)) → j = k := by
  rw [aliased]
  cases found : (List.range' 0 words).find? fun k => shadow cell k != k with
  | none =>
      have own : ∀ k < words, shadow cell k = k := by
        intro k fits
        have right := List.find?_eq_none.mp found k (List.mem_range'_1.mpr (by omega))
        simpa using right
      refine iff_of_true rfl fun j j_fits k k_fits same => ?_
      rw [← own j j_fits, ← own k k_fits, shadow_eq_of_cell same]
  | some k =>
      have mem := List.mem_of_find?_eq_some found
      have moved := List.find?_some found
      have fits : k < words := by
        rw [List.mem_range'_1] at mem
        omega
      refine iff_of_false (fun equal => ?_) fun distinct => ?_
      · cases List.head_eq_of_cons_eq equal
      · rw [bne_iff_ne] at moved
        exact moved (distinct _ (shadow_lt k) k fits (cell_shadow fits))

/-- The program is satisfied with a memory just if no two words share a cell. -/
theorem memtest_ok_iff (env : Env 64) (ready : Ready env uart)
    (memory : ∀ k < words, Remembers env cell (BitVec.ofNat 64 (adr k)))
    (regs : Reg → BitVec 64) :
    (∃ n, ∀ m, n ≤ m → printed uart ((step code env)^[m] ⟨0, regs, []⟩).events = memOk) ↔
      ∀ j < words, ∀ k < words,
        cell (BitVec.ofNat 64 (adr j)) = cell (BitVec.ofNat 64 (adr k)) → j = k := by
  rw [← aliased_eq_memOk_iff, ← verdict_eq_aliased memory]
  obtain ⟨n, prints⟩ := (prints_verdict ready regs).forever
  constructor
  · rintro ⟨m, ok⟩
    rw [← prints (max n m) (Nat.le_max_left n m), ok (max n m) (Nat.le_max_right n m)]
  · intro ok
    exact ⟨n, fun m late => (prints m late).trans ok⟩

end Aliasing

/-! ### Two memories -/

/-- The transmitter is empty after every third event. -/
def slowStatus (events : List (Event 64)) : BitVec 32 := if everyThird events then 2 else 0

theorem ready_of_slowStatus {env : Env 64}
    (status : ∀ events, env events (uart + 4) = slowStatus events) : Ready env uart := by
  intro events
  obtain ⟨n, third⟩ := exists_everyThird env (uart + 4) events
  refine ⟨n, ?_⟩
  rw [status, slowStatus, if_pos third]
  decide

/-- No memory. -/
def noMemory : Env 64 := fun events adr => if adr = uart + 4 then slowStatus events else 0

theorem noMemory_ready : Ready noMemory uart :=
  ready_of_slowStatus fun _ => if_pos rfl

theorem memtest_verdict_noMemory :
    ∃ n, ∀ m, n ≤ m → printed uart ((step code noMemory)^[m] ⟨0, fun _ => 0, []⟩).events =
      verdict noMemory :=
  memtest_verdict noMemory noMemory_ready fun _ => 0

/-- The cells of 64 KiB of memory. -/
def small (adr : BitVec 64) : BitVec 16 := adr.setWidth 16

def smallMemory : Env 64 := fun events adr =>
  if adr = uart + 4 then slowStatus events else (lastStored small (small adr) events).getD 0

theorem smallMemory_ready : Ready smallMemory uart :=
  ready_of_slowStatus fun _ => if_pos rfl

theorem smallMemory_remembers (k : Nat) (fits : k < words) :
    Remembers smallMemory small (BitVec.ofNat 64 (adr k)) := by
  intro events value last
  have memory : BitVec.ofNat 64 (adr k) ≠ uart + 4 := by
    intro same
    have equal := congrArg BitVec.toNat same
    have base : (uart + 4).toNat = 0xFF900004 := rfl
    rw [base, BitVec.toNat_ofNat] at equal
    simp only [words, adr, memStart, memEnd] at fits equal
    omega
  rw [smallMemory, if_neg memory, last]
  rfl

theorem memtest_ok_iff_small :
    ¬ ∃ n, ∀ m, n ≤ m →
      printed uart ((step code smallMemory)^[m] ⟨0, fun _ => 0, []⟩).events = memOk := by
  rw [memtest_ok_iff smallMemory smallMemory_ready smallMemory_remembers]
  intro distinct
  cases distinct 0 (by decide) 16384 (by decide) (by decide)

end NoelvMemtest

end Cocoapuffs

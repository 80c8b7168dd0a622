import Cocoapuffs.RiscV
import Cocoapuffs.HexText

/-!
# Printing without a stack

The routines `putc` and `puthex32` of the NOEL-V test programs, in any listing that has
them.  They write to the APBUART whose base is in `s0`, and wait for its transmitter as
long as it takes.
-/

namespace Cocoapuffs

namespace NoelvPrint

open RiscV HexText

/-- The bytes that the APBUART has been given. -/
def printed (uart : BitVec 64) (events : List (Event 64)) : List Byte :=
  (storedAt uart events).map (BitVec.setWidth 8)

@[simp]
theorem printed_append (uart : BitVec 64) (first second : List (Event 64)) :
    printed uart (first ++ second) = printed uart first ++ printed uart second := by
  rw [printed, storedAt_append, List.map_append]
  rfl

@[simp]
theorem printed_load (uart adr : BitVec 64) (value : BitVec 32) :
    printed uart [.load adr value] = [] := rfl

@[simp]
theorem printed_store (uart : BitVec 64) (value : BitVec 32) :
    printed uart [.store uart value] = [value.setWidth 8] := by
  simp [printed, storedAt]

theorem printed_polls (uart adr : BitVec 64) (env : Env 64) (n : Nat) (events : List (Event 64)) :
    printed uart (polls env adr n events) = printed uart events := by
  rw [printed, storedAt_polls]
  rfl

/-- The transmitter becomes empty if its status is read often enough. -/
def Ready (env : Env 64) (uart : BitVec 64) : Prop :=
  ∀ events, ∃ n, (env (polls env (uart + 4) n events) (uart + 4)).getLsbD 1 = true

/-- The execution comes to a state in which some text has been printed. -/
def Prints (code : List (Instr Nat)) (env : Env 64) (uart : BitVec 64) (s : State 64) (pc : Nat)
    (clobbered : List Reg) (text : List Byte) : Prop :=
  Runs code env s (Does (printed uart) s pc clobbered text)

variable {code : List (Instr Nat)} {env : Env 64} {uart : BitVec 64}

/-! ### `putc` -/

structure Putc (code : List (Instr Nat)) (putc : Nat) : Prop where
  status : code[putc]? = some (.lw .t1 4 .s0)
  shiftEmpty : code[putc + 1]? = some (.andi .t1 .t1 0x2)
  again : code[putc + 2]? = some (.beqz .t1 putc)
  write : code[putc + 3]? = some (.sw .a0 0 .s0)
  back : code[putc + 4]? = some .ret

theorem and_two (status : BitVec 32) :
    (status.signExtend 64 &&& BitVec.ofInt 64 0x2 == 0#64) = !status.getLsbD 1 := by
  have two : BitVec.ofInt 64 0x2 = BitVec.twoPow 64 1 := by decide
  have bit : (status.signExtend 64).getLsbD 1 = status.getLsbD 1 := by
    rw [BitVec.getLsbD_signExtend]
    rfl
  rw [two, BitVec.and_twoPow, bit]
  cases status.getLsbD 1 <;> decide

section Putc

variable {putc : Nat} (routine : Putc code putc) {regs : Reg → BitVec 64}
include routine

/-- A round of the wait. -/
theorem Putc.round (regs : Reg → BitVec 64) (events : List (Event 64)) (base : regs .s0 = uart) :
    Runs code env ⟨putc, regs, events⟩ fun t =>
      t.pc = (if (env events (uart + 4)).getLsbD 1 then putc + 3 else putc) ∧
        Keeps [.t1] regs t.regs ∧
        t.events = events ++ [.load (uart + 4) (env events (uart + 4))] := by
  have tests := and_two (env events (uart + 4))
  have kept (t1 : BitVec 64) : Keeps [.t1] regs (Function.update regs .t1 t1) :=
    (Keeps.refl _ regs).update (by decide)
  refine Runs.lw routine.status (by decide) (by decide) (congrArg (· + 4) base) ?_
  refine Runs.andi routine.shiftEmpty (by decide) (by decide) ?_
  rw [Function.update_idem, Function.update_self]
  cases bit : (env events (uart + 4)).getLsbD 1 with
  | true =>
      rw [bit] at tests
      exact Runs.falls routine.again rfl rfl tests (Runs.now ⟨rfl, kept _, rfl⟩)
  | false =>
      rw [bit] at tests
      exact Runs.taken routine.again rfl rfl tests (Runs.now ⟨rfl, kept _, rfl⟩)

/-- The byte is written, and the routine returns. -/
theorem Putc.send (base : regs .s0 = uart) (events : List (Event 64)) :
    Prints code env uart ⟨putc + 3, regs, events⟩ (regs .ra).toNat [.t1]
      [(regs .a0).setWidth 8] := by
  refine Runs.sw routine.write (by decide) (by decide) ((BitVec.add_zero _).trans base) ?_
  refine Runs.ret routine.back rfl (Runs.now ⟨rfl, Keeps.refl _ _, ?_⟩)
  rw [printed_append, printed_store, BitVec.setWidth_setWidth_of_le _ (by decide)]

/-- However long it takes, `putc` prints its character. -/
theorem Putc.prints (base : regs .s0 = uart) (events : List (Event 64)) (ready : Ready env uart) :
    Prints code env uart ⟨putc, regs, events⟩ (regs .ra).toNat [.t1] [(regs .a0).setWidth 8] := by
  have apart : Reg.s0 ∉ [Reg.t1] := by decide
  refine (Runs.poll (fun status => status.getLsbD 1) apart routine.round base
    (ready events)).trans fun t waited => ?_
  obtain ⟨n, events_eq, -⟩ := waited.events
  obtain ⟨at_, regs', events'⟩ := t
  obtain rfl : at_ = putc + 3 := waited.pc
  obtain rfl : events' = _ := events_eq
  have ra : regs' .ra = regs .ra := waited.keeps .ra (by decide)
  have a0 : regs' .a0 = regs .a0 := waited.keeps .a0 (by decide)
  refine (routine.send ((waited.keeps .s0 (by decide)).trans base) _).mono fun u sent => ?_
  refine ⟨ra ▸ sent.pc, waited.keeps.trans sent.keeps, ?_⟩
  rw [sent.adds, printed_polls, ← a0]

/-- A call prints the character in `a0` and goes on behind the call. -/
theorem Putc.call {pc : Nat} (listed : code[pc]? = some (.jal .ra putc)) (fits : pc + 1 < 2 ^ 64)
    (base : regs .s0 = uart) (events : List (Event 64)) (ready : Ready env uart) :
    Prints code env uart ⟨pc, regs, events⟩ (pc + 1) [.ra, .t1] [(regs .a0).setWidth 8] := by
  refine Runs.jal listed (by decide) ?_
  refine Runs.mono (routine.prints (by exact base) events ready) fun t prints => ?_
  have entered := (Does.refl (printed uart) ⟨pc, regs, events⟩ [.ra, .t1]).write .ra (by decide)
    (BitVec.ofNat 64 (pc + 1)) putc
  have back := prints.pc
  rw [Function.update_self, BitVec.toNat_ofNat, Nat.mod_eq_of_lt fits] at back
  have done := entered.trans (prints.widen (by decide))
  exact ⟨back, done.keeps, done.adds⟩

end Putc

/-! ### Messages -/

/-- Each character of a message is loaded into `a0` and printed. -/
def Message (code : List (Instr Nat)) (putc : Nat) : Nat → List Byte → Prop
  | _, [] => True
  | pc, c :: text =>
      code[pc]? = some (.li .a0 c.toNat) ∧ code[pc + 1]? = some (.jal .ra putc) ∧
        Message code putc (pc + 2) text

instance decidableMessage (code : List (Instr Nat)) (putc : Nat) :
    ∀ (pc : Nat) (text : List Byte), Decidable (Message code putc pc text)
  | _, [] => inferInstanceAs (Decidable True)
  | pc, _ :: text =>
      have := decidableMessage code putc (pc + 2) text
      inferInstanceAs (Decidable (_ ∧ _ ∧ _))

theorem setWidth_li (c : Byte) : (BitVec.ofInt 64 c.toNat).setWidth 8 = c := by
  apply BitVec.eq_of_toNat_eq
  rw [BitVec.toNat_setWidth, BitVec.ofInt_natCast, BitVec.toNat_ofNat]
  omega

theorem Putc.character {putc : Nat} (routine : Putc code putc) {pc : Nat} {c : Byte}
    (load : code[pc]? = some (.li .a0 c.toNat)) (call : code[pc + 1]? = some (.jal .ra putc))
    (fits : pc + 2 < 2 ^ 64) {regs : Reg → BitVec 64} (base : regs .s0 = uart)
    (events : List (Event 64)) (ready : Ready env uart) :
    Prints code env uart ⟨pc, regs, events⟩ (pc + 2) [.a0, .ra, .t1] [c] := by
  refine Runs.li load (by decide) ?_
  refine Runs.mono (routine.call call fits (by exact base) events ready) fun t prints => ?_
  have loaded := (Does.refl (printed uart) ⟨pc, regs, events⟩ [.a0, .ra, .t1]).write .a0 (by decide)
    (BitVec.ofInt 64 c.toNat) (pc + 1)
  have done := loaded.trans (prints.widen (by decide))
  rw [Function.update_self, setWidth_li] at done
  exact done

theorem Putc.message {putc : Nat} (routine : Putc code putc) {text : List Byte} {pc : Nat}
    (listed : Message code putc pc text) (fits : pc + 2 * text.length < 2 ^ 64)
    {regs : Reg → BitVec 64} (base : regs .s0 = uart) (events : List (Event 64))
    (ready : Ready env uart) :
    Prints code env uart ⟨pc, regs, events⟩ (pc + 2 * text.length) [.a0, .ra, .t1] text := by
  induction text generalizing pc regs events with
  | nil => exact Runs.now (Does.refl _ _ _)
  | cons c text ih =>
      obtain ⟨load, call, others⟩ := listed
      rw [List.length_cons] at fits ⊢
      rw [show pc + 2 * (text.length + 1) = pc + 2 + 2 * text.length by omega]
      exact Does.followedBy (routine.character load call (by omega) base events ready)
        (List.Subset.refl _) fun regs' events' kept =>
          ih others (by omega) ((kept .s0 (by decide)).trans base) events'

/-! ### `puthex32` -/

/-- A lower-case digit. -/
def hexDigit (digit : BitVec 4) : Byte :=
  if digit.toNat < 10 then digit.setWidth 8 + 0x30 else digit.setWidth 8 + 0x57

/-- The routine, which keeps its return address in the register `saved`. -/
structure Puthex32 (code : List (Instr Nat)) (puthex32 putc : Nat) (saved : Reg) : Prop where
  enter : code[puthex32]? = some (.mv saved .ra)
  count : code[puthex32 + 1]? = some (.li .t2 8)
  top : code[puthex32 + 2]? = some (.srli .a0 .a1 28)
  mask : code[puthex32 + 3]? = some (.andi .a0 .a0 0xf)
  ten : code[puthex32 + 4]? = some (.li .t6 10)
  isDigit : code[puthex32 + 5]? = some (.blt .a0 .t6 (puthex32 + 8))
  letter : code[puthex32 + 6]? = some (.addi .a0 .a0 (0x61 - 10))
  skip : code[puthex32 + 7]? = some (.j (puthex32 + 9))
  digit : code[puthex32 + 8]? = some (.addi .a0 .a0 0x30)
  emit : code[puthex32 + 9]? = some (.jal .ra putc)
  next : code[puthex32 + 10]? = some (.slli .a1 .a1 4)
  down : code[puthex32 + 11]? = some (.addi .t2 .t2 (-1))
  again : code[puthex32 + 12]? = some (.bnez .t2 (puthex32 + 2))
  leave : code[puthex32 + 13]? = some (.mv .ra saved)
  back : code[puthex32 + 14]? = some .ret

section Puthex32

variable {puthex32 putc : Nat} {saved : Reg} (routine : Puthex32 code puthex32 putc saved)
  {regs : Reg → BitVec 64} {events : List (Event 64)} {goal : State 64 → Prop}
include routine

/-- A digit is made a character. -/
theorem Puthex32.character {digit : BitVec 4}
    (value : regs .a1 >>> 28 &&& BitVec.ofInt 64 0xf = digit.setWidth 64)
    (rest : ∀ regs', Keeps [.a0, .t6] regs regs' → (regs' .a0).setWidth 8 = hexDigit digit →
      Runs code env ⟨puthex32 + 9, regs', events⟩ goal) :
    Runs code env ⟨puthex32 + 2, regs, events⟩ goal := by
  have small : ∀ digit : BitVec 4,
      Cond.holds .lt (digit.setWidth 64) (BitVec.ofInt 64 10) = decide (digit.toNat < 10) := by
    decide
  have digits : ∀ digit : BitVec 4, digit.toNat < 10 →
      (digit.setWidth 64 + BitVec.ofInt 64 0x30).setWidth 8 = digit.setWidth 8 + 0x30#8 := by
    decide
  have letters : ∀ digit : BitVec 4, ¬ digit.toNat < 10 →
      (digit.setWidth 64 + BitVec.ofInt 64 (0x61 - 10)).setWidth 8 =
        digit.setWidth 8 + 0x57#8 := by
    decide
  have kept : ∀ a0 t6 a0', Keeps [.a0, .t6] regs
      (Function.update (Function.update (Function.update regs .a0 a0) .t6 t6) .a0 a0') :=
    fun a0 t6 a0' => (((Keeps.refl _ regs).update (by decide)).update (by decide)).update (by decide)
  refine Runs.srli routine.top (by decide) (by decide) ?_
  refine Runs.andi routine.mask (by decide) (by decide) ?_
  rw [Function.update_idem, Function.update_self, value]
  refine Runs.li routine.ten (by decide) ?_
  by_cases low : digit.toNat < 10
  · refine Runs.taken routine.isDigit rfl rfl ((small digit).trans (decide_eq_true low)) ?_
    refine Runs.addi routine.digit (by decide) (by decide) (rest _ (kept _ _ _) ?_)
    rw [Function.update_self, hexDigit, if_pos low]
    exact digits digit low
  · refine Runs.falls routine.isDigit rfl rfl ((small digit).trans (decide_eq_false low)) ?_
    refine Runs.addi routine.letter (by decide) (by decide) ?_
    refine Runs.j routine.skip (rest _ (kept _ _ _) ?_)
    rw [Function.update_self, hexDigit, if_neg low]
    exact letters digit low

/-- A round of the loop, up to its branch. -/
theorem Puthex32.round (putcRoutine : Putc code putc) (fits : puthex32 + 10 < 2 ^ 64)
    {digit : BitVec 4} (value : regs .a1 >>> 28 &&& BitVec.ofInt 64 0xf = digit.setWidth 64)
    (base : regs .s0 = uart) (ready : Ready env uart) :
    Runs code env ⟨puthex32 + 2, regs, events⟩ fun t =>
      Does (printed uart) ⟨puthex32 + 2, regs, events⟩ (puthex32 + 12)
          [.a0, .a1, .ra, .t1, .t2, .t6] [hexDigit digit] t ∧
        t.regs .t2 = regs .t2 + BitVec.ofInt 64 (-1) ∧ t.regs .a1 = regs .a1 <<< 4 := by
  refine routine.character value fun regs1 kept char => ?_
  have base1 : regs1 .s0 = uart := (kept .s0 (by decide)).trans base
  refine Runs.trans (putcRoutine.call routine.emit fits base1 events ready) fun t first => ?_
  have made : Does (printed uart) ⟨puthex32 + 2, regs, events⟩ (puthex32 + 9)
      [.a0, .ra, .t1, .t6] [] ⟨puthex32 + 9, regs1, events⟩ :=
    ⟨rfl, kept.mono (by decide), (List.append_nil _).symm⟩
  have head := made.trans (first.widen (by decide))
  rw [char] at head
  obtain ⟨at_, regs2, events2⟩ := t
  obtain rfl : at_ = puthex32 + 10 := first.pc
  refine Runs.slli routine.next (by decide) (by decide) ?_
  refine Runs.addi routine.down (by decide) (by decide) (Runs.now ⟨?_, ?_, ?_⟩)
  · have more : Does _ _ _ [.a0, .a1, .ra, .t1, .t2, .t6] _ _ := head.widen (by decide)
    exact (more.write .a1 (by decide) _ (puthex32 + 11)).write .t2 (by decide) _ (puthex32 + 12)
  · have count : regs2 .t2 = regs .t2 := head.keeps .t2 (by decide)
    simp [count]
  · have rest : regs2 .a1 = regs .a1 := head.keeps .a1 (by decide)
    simp [rest]

omit routine in
theorem digit_of_shifted (word : BitVec 64) {k : Nat} (few : k < 8) :
    word <<< (4 * (7 - k)) >>> 28 &&& BitVec.ofInt 64 0xf =
      (word.extractLsb' (4 * k) 4).setWidth 64 := by
  have mask : ∀ i : Fin 64, (BitVec.ofInt 64 0xf).getLsbD i = decide (i.val < 4) := by decide
  apply BitVec.eq_of_getLsbD_eq
  intro i bound
  rw [BitVec.getLsbD_and, mask ⟨i, bound⟩, BitVec.getLsbD_ushiftRight, BitVec.getLsbD_shiftLeft,
    BitVec.getLsbD_setWidth, BitVec.getLsbD_extractLsb']
  by_cases low : i < 4
  · simp only [low, bound, decide_true, Bool.and_true, Bool.true_and,
      show 28 + i < 64 by omega, show ¬ 28 + i < 4 * (7 - k) by omega, decide_false,
      Bool.not_false, show 28 + i - 4 * (7 - k) = 4 * k + i by omega]
  · simp [low]

/-- The last digits of a word, when those before them have been shifted out of `a1`. -/
theorem Puthex32.digits (putcRoutine : Putc code putc) (fits : puthex32 + 10 < 2 ^ 64)
    (word : BitVec 64) (k : Nat) (few : k < 8) (regs : Reg → BitVec 64)
    (events : List (Event 64)) (base : regs .s0 = uart) (ready : Ready env uart)
    (left : regs .t2 = BitVec.ofNat 64 (k + 1)) (shifted : regs .a1 = word <<< (4 * (7 - k))) :
    Prints code env uart ⟨puthex32 + 2, regs, events⟩ (puthex32 + 13)
      [.a0, .a1, .ra, .t1, .t2, .t6] (numeral hexDigit (k + 1) word) := by
  induction k generalizing regs events with
  | zero =>
      refine Runs.trans (routine.round putcRoutine fits (shifted ▸ digit_of_shifted word few)
        base ready) fun t round => ?_
      obtain ⟨head, count, -⟩ := round
      obtain ⟨at_, regs', events'⟩ := t
      obtain rfl : at_ = puthex32 + 12 := head.pc
      rw [left, ofNat_succ_add_neg_one] at count
      have zero : Cond.holds .ne (0 : BitVec 64) 0 = false := rfl
      exact Runs.falls routine.again count rfl zero (Runs.now (head.jump _))
  | succ k ih =>
      refine Runs.trans (routine.round putcRoutine fits (shifted ▸ digit_of_shifted word few)
        base ready) fun t round => ?_
      obtain ⟨head, count, rest⟩ := round
      obtain ⟨at_, regs', events'⟩ := t
      obtain rfl : at_ = puthex32 + 12 := head.pc
      have same : regs' .s0 = uart := (head.keeps .s0 (by decide)).trans base
      have fewer : regs' .t2 = BitVec.ofNat 64 (k + 1) := by
        rw [show regs' .t2 = _ from count, left, ofNat_succ_add_neg_one]
      have nonzero : Cond.holds .ne (BitVec.ofNat 64 (k + 1)) (0 : BitVec 64) = true :=
        holds_ne_zero (by omega) (by omega)
      have shiftedMore : regs' .a1 = word <<< (4 * (7 - k)) := by
        rw [show regs' .a1 = _ from rest, shifted, ← BitVec.shiftLeft_add,
          show 4 * (7 - (k + 1)) + 4 = 4 * (7 - k) by omega]
      refine Runs.taken routine.again fewer rfl nonzero ?_
      exact Runs.mono (ih (by omega) regs' events' same fewer shiftedMore) fun u last =>
        (head.jump (puthex32 + 2)).trans last

/-- `puthex32` prints the low word of `a1`. -/
theorem Puthex32.prints (putcRoutine : Putc code putc) (fits : puthex32 + 10 < 2 ^ 64)
    (apart : saved ∉ [.zero, .s0, .a0, .a1, .ra, .t1, .t2, .t6]) (base : regs .s0 = uart)
    (events : List (Event 64)) (ready : Ready env uart) :
    Prints code env uart ⟨puthex32, regs, events⟩ (regs .ra).toNat
      [saved, .a0, .a1, .ra, .t1, .t2, .t6] (numeral hexDigit 8 (regs .a1)) := by
  simp only [List.mem_cons, List.not_mem_nil, or_false, not_or] at apart
  refine Runs.mv routine.enter apart.1 (by decide) ?_
  refine Runs.li routine.count (by decide) ?_
  have entered := ((Does.refl (printed uart) ⟨puthex32, regs, events⟩
    [saved, .a0, .a1, .ra, .t1, .t2, .t6]).write saved (by simp) (regs .ra)
      (puthex32 + 1)).write .t2 (by simp) (BitVec.ofInt 64 8) (puthex32 + 2)
  generalize changed : Function.update (Function.update regs saved (regs .ra)) .t2
    (BitVec.ofInt 64 8) = regs1 at entered ⊢
  have same : regs1 .s0 = uart := by
    rw [← changed, Function.update_of_ne (by decide), Function.update_of_ne (Ne.symm apart.2.1),
      base]
  have word : regs1 .a1 = regs .a1 := by
    rw [← changed, Function.update_of_ne (by decide),
      Function.update_of_ne (Ne.symm apart.2.2.2.1)]
  have home : regs1 saved = regs .ra := by
    rw [← changed, Function.update_of_ne apart.2.2.2.2.2.2.1, Function.update_self]
  have loop := routine.digits putcRoutine fits (regs .a1) 7 (by decide) regs1 events same ready
    (by rw [← changed]; rfl) (by rw [word]; exact (BitVec.shiftLeft_zero _).symm)
  refine Runs.trans loop fun t digits => ?_
  have head := entered.trans (digits.widen (by simp))
  obtain ⟨at_, regs2, events2⟩ := t
  obtain rfl : at_ = puthex32 + 13 := digits.pc
  have kept : regs2 saved = regs .ra := by
    rw [← home]
    exact digits.keeps saved (by simp [apart])
  refine Runs.mv routine.leave (by decide) apart.1 ?_
  refine Runs.ret routine.back (by rw [Function.update_self, kept]) (Runs.now ?_)
  exact (head.write .ra (by simp) _ (puthex32 + 14)).jump _

/-- The word of a register is moved to `a1` and printed. -/
theorem Puthex32.word (putcRoutine : Putc code putc) (fits : puthex32 + 10 < 2 ^ 64)
    (apart : saved ∉ [.zero, .s0, .a0, .a1, .ra, .t1, .t2, .t6]) {pc : Nat} {rs : Reg}
    (move : code[pc]? = some (.mv .a1 rs)) (call : code[pc + 1]? = some (.jal .ra puthex32))
    (within : pc + 2 < 2 ^ 64) (reads : rs ≠ .zero) (base : regs .s0 = uart)
    (events : List (Event 64)) (ready : Ready env uart) :
    Prints code env uart ⟨pc, regs, events⟩ (pc + 2) [saved, .a0, .a1, .ra, .t1, .t2, .t6]
      (numeral hexDigit 8 (regs rs)) := by
  refine Runs.mv move (by decide) reads (Runs.jal call (by decide) ?_)
  refine Runs.mono (routine.prints putcRoutine fits apart (by exact base) events ready)
    fun t prints => ?_
  have entered := ((Does.refl (printed uart) ⟨pc, regs, events⟩
    [saved, .a0, .a1, .ra, .t1, .t2, .t6]).write .a1 (by simp) (regs rs) (pc + 1)).write .ra
      (by simp) (BitVec.ofNat 64 (pc + 1 + 1)) puthex32
  have back := prints.pc
  rw [Function.update_self, BitVec.toNat_ofNat, Nat.mod_eq_of_lt within] at back
  have done := entered.trans prints
  exact ⟨back, done.keeps, done.adds⟩

end Puthex32

theorem setWidth_signExtend (word : BitVec 32) : (word.signExtend 64).setWidth 32 = word := by
  apply BitVec.eq_of_getLsbD_eq
  intro i bound
  rw [BitVec.getLsbD_setWidth, BitVec.getLsbD_signExtend, if_pos bound,
    decide_eq_true bound, decide_eq_true (show i < 64 by omega)]
  rfl

/-- Only the low word counts. -/
theorem numeral_setWidth (word : BitVec 64) {count : Nat} (few : count ≤ 8) :
    numeral hexDigit count (word.setWidth 32) = numeral hexDigit count word := by
  induction count with
  | zero => rfl
  | succ count ih =>
      have digit : (word.setWidth 32).extractLsb' (4 * count) 4 =
          word.extractLsb' (4 * count) 4 := by
        apply BitVec.eq_of_getLsbD_eq
        intro i bound
        simp [bound, show 4 * count + i < 32 by omega]
      rw [numeral, numeral, digit, ih (by omega)]

end NoelvPrint

end Cocoapuffs

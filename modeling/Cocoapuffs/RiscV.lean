import Mathlib.Algebra.Group.Nat.Defs
import Mathlib.Logic.Function.Iterate
import Mathlib.Data.List.Basic
import Mathlib.Tactic.Common

/-!
# Assembly listings

Some instructions of RISC-V with integer registers of `xlen` bits, listings with labels,
and their execution among loads and stores that the environment answers.  Code addresses
are positions in the listing.  A rule for each instruction, and rules for sequences and
loops, say what an execution runs into.
-/

namespace Cocoapuffs

namespace RiscV

/-- The integer registers under their ABI names. -/
inductive Reg where
  | zero | ra | sp | gp | tp | t0 | t1 | t2 | s0 | s1 | a0 | a1 | a2 | a3 | a4 | a5 | a6 | a7
  | s2 | s3 | s4 | s5 | s6 | s7 | s8 | s9 | s10 | s11 | t3 | t4 | t5 | t6
deriving DecidableEq

/-- The conditions of the branches. -/
inductive Cond where
  | eq
  | ne
  | lt
  | ltu
deriving DecidableEq

def Cond.holds {xlen : Nat} (cond : Cond) (first second : BitVec xlen) : Bool :=
  match cond with
  | .eq => first == second
  | .ne => first != second
  | .lt => first.slt second
  | .ltu => first.ult second

inductive Instr (Label : Type*) where
  | li (rd : Reg) (imm : Int)
  | mv (rd rs : Reg)
  | addi (rd rs : Reg) (imm : Int)
  | andi (rd rs : Reg) (imm : Int)
  | slli (rd rs : Reg) (shamt : Nat)
  | srli (rd rs : Reg) (shamt : Nat)
  | lw (rd : Reg) (offset : Int) (rs : Reg)
  | sw (rs2 : Reg) (offset : Int) (rs1 : Reg)
  | branch (cond : Cond) (rs1 rs2 : Reg) (target : Label)
  | jal (rd : Reg) (target : Label)
  | ret
deriving DecidableEq

section Pseudo

variable {Label : Type*}

@[match_pattern]
abbrev Instr.nop : Instr Label := .addi .zero .zero 0

@[match_pattern]
abbrev Instr.beqz (rs : Reg) (target : Label) : Instr Label := .branch .eq rs .zero target

@[match_pattern]
abbrev Instr.bnez (rs : Reg) (target : Label) : Instr Label := .branch .ne rs .zero target

@[match_pattern]
abbrev Instr.bltz (rs : Reg) (target : Label) : Instr Label := .branch .lt rs .zero target

@[match_pattern]
abbrev Instr.bne (rs1 rs2 : Reg) (target : Label) : Instr Label := .branch .ne rs1 rs2 target

@[match_pattern]
abbrev Instr.blt (rs1 rs2 : Reg) (target : Label) : Instr Label := .branch .lt rs1 rs2 target

@[match_pattern]
abbrev Instr.bltu (rs1 rs2 : Reg) (target : Label) : Instr Label := .branch .ltu rs1 rs2 target

@[match_pattern]
abbrev Instr.j (target : Label) : Instr Label := .jal .zero target

end Pseudo

/-! ### Listings -/

/-- A line of a listing. -/
inductive Line (Label : Type*) where
  | label (name : Label)
  | code (instr : Instr Label)

section Assembly

variable {Label : Type*} [DecidableEq Label]

/-- The position of the instruction after a label. -/
def position (name : Label) : List (Line Label) → Nat
  | [] => 0
  | .label other :: rest => if other = name then 0 else position name rest
  | .code _ :: rest => position name rest + 1

def Instr.resolve (target : Label → Nat) : Instr Label → Instr Nat
  | .li rd imm => .li rd imm
  | .mv rd rs => .mv rd rs
  | .addi rd rs imm => .addi rd rs imm
  | .andi rd rs imm => .andi rd rs imm
  | .slli rd rs shamt => .slli rd rs shamt
  | .srli rd rs shamt => .srli rd rs shamt
  | .lw rd offset rs => .lw rd offset rs
  | .sw rs2 offset rs1 => .sw rs2 offset rs1
  | .branch cond rs1 rs2 name => .branch cond rs1 rs2 (target name)
  | .jal rd name => .jal rd (target name)
  | .ret => .ret

/-- The instructions of a listing, with positions for the labels. -/
def assemble (listing : List (Line Label)) : List (Instr Nat) :=
  listing.filterMap fun line =>
    match line with
    | .label _ => none
    | .code instr => some (instr.resolve fun name => position name listing)

end Assembly

/-! ### Execution -/

/-- What the memory and the devices see. -/
inductive Event (xlen : Nat) where
  | load (adr : BitVec xlen) (value : BitVec 32)
  | store (adr : BitVec xlen) (value : BitVec 32)
deriving DecidableEq

/-- The answers to the loads, which may depend on all that came before. -/
abbrev Env (xlen : Nat) := List (Event xlen) → BitVec xlen → BitVec 32

@[ext]
structure State (xlen : Nat) where
  pc : Nat
  regs : Reg → BitVec xlen
  events : List (Event xlen)

variable {xlen : Nat}

def State.read (s : State xlen) (rs : Reg) : BitVec xlen := if rs = .zero then 0 else s.regs rs

/-- A result, and on to the next instruction. -/
def State.write (s : State xlen) (rd : Reg) (value : BitVec xlen) : State xlen where
  pc := s.pc + 1
  regs := if rd = .zero then s.regs else Function.update s.regs rd value
  events := s.events

def Instr.exec (env : Env xlen) (s : State xlen) : Instr Nat → State xlen
  | .li rd imm => s.write rd (BitVec.ofInt xlen imm)
  | .mv rd rs => s.write rd (s.read rs)
  | .addi rd rs imm => s.write rd (s.read rs + BitVec.ofInt xlen imm)
  | .andi rd rs imm => s.write rd (s.read rs &&& BitVec.ofInt xlen imm)
  | .slli rd rs shamt => s.write rd (s.read rs <<< shamt)
  | .srli rd rs shamt => s.write rd (s.read rs >>> shamt)
  | .lw rd offset rs =>
      let adr := s.read rs + BitVec.ofInt xlen offset
      let value := env s.events adr
      { s.write rd (value.signExtend xlen) with events := s.events ++ [.load adr value] }
  | .sw rs2 offset rs1 =>
      let adr := s.read rs1 + BitVec.ofInt xlen offset
      { s with pc := s.pc + 1, events := s.events ++ [.store adr ((s.read rs2).setWidth 32)] }
  | .branch cond rs1 rs2 target =>
      { s with pc := if cond.holds (s.read rs1) (s.read rs2) then target else s.pc + 1 }
  | .jal rd target => { s.write rd (BitVec.ofNat xlen (s.pc + 1)) with pc := target }
  | .ret => { s with pc := (s.read .ra).toNat }

/-- One instruction; outside the listing nothing happens. -/
def step (code : List (Instr Nat)) (env : Env xlen) (s : State xlen) : State xlen :=
  match code[s.pc]? with
  | some instr => instr.exec env s
  | none => s

/-! ### What an execution runs into -/

variable {code : List (Instr Nat)} {env : Env xlen}

/-- The execution from a state comes to one with this property. -/
def Runs (code : List (Instr Nat)) (env : Env xlen) (s : State xlen)
    (goal : State xlen → Prop) : Prop :=
  ∃ n, goal ((step code env)^[n] s)

namespace Runs

variable {s : State xlen} {goal between : State xlen → Prop}

theorem now (holds : goal s) : Runs code env s goal := ⟨0, holds⟩

theorem next {instr : Instr Nat} (found : code[s.pc]? = some instr)
    (rest : Runs code env (instr.exec env s) goal) : Runs code env s goal := by
  obtain ⟨n, holds⟩ := rest
  refine ⟨n + 1, ?_⟩
  rw [Function.iterate_succ_apply, step, found]
  exact holds

theorem trans (first : Runs code env s between)
    (rest : ∀ t, between t → Runs code env t goal) : Runs code env s goal := by
  obtain ⟨n, middle⟩ := first
  obtain ⟨m, holds⟩ := rest _ middle
  exact ⟨m + n, by rwa [Function.iterate_add_apply]⟩

theorem mono (first : Runs code env s between) (weaker : ∀ t, between t → goal t) :
    Runs code env s goal :=
  first.trans fun t middle => now (weaker t middle)

/-- A loop whose rounds are counted down. -/
theorem count (inv : Nat → State xlen → Prop) (total : Nat)
    (round : ∀ k < total, ∀ t, inv (k + 1) t → Runs code env t (inv k)) (start : inv total s) :
    Runs code env s (inv 0) := by
  induction total generalizing s with
  | zero => exact now start
  | succ k ih =>
      exact (round k (Nat.lt_succ_self k) s start).trans fun t again =>
        ih (fun j less => round j (Nat.lt_succ_of_lt less)) again

/-- An execution that runs into a jump to itself stays there. -/
theorem forever {stays : State xlen → Prop} (runs : Runs code env s fun t =>
    code[t.pc]? = some (.j t.pc) ∧ stays t) :
    ∃ n, ∀ m, n ≤ m → stays ((step code env)^[m] s) := by
  obtain ⟨n, spins, holds⟩ := runs
  refine ⟨n, fun m late => ?_⟩
  obtain ⟨more, rfl⟩ := Nat.exists_eq_add_of_le late
  have fixed : step code env ((step code env)^[n] s) = (step code env)^[n] s := by
    rw [step, spins]
    rfl
  rw [Nat.add_comm, Function.iterate_add_apply, Function.iterate_fixed fixed]
  exact holds

section Instructions

variable {pc : Nat} {regs : Reg → BitVec xlen} {events : List (Event xlen)} {rd rs rs1 rs2 : Reg}

theorem nop (found : code[pc]? = some .nop) (rest : Runs code env ⟨pc + 1, regs, events⟩ goal) :
    Runs code env ⟨pc, regs, events⟩ goal :=
  next found rest

theorem li {imm : Int} (found : code[pc]? = some (.li rd imm)) (writes : rd ≠ .zero)
    (rest : Runs code env
      ⟨pc + 1, Function.update regs rd (BitVec.ofInt xlen imm), events⟩ goal) :
    Runs code env ⟨pc, regs, events⟩ goal := by
  apply next found
  simpa only [Instr.exec, State.write, if_neg writes] using rest

theorem mv (found : code[pc]? = some (.mv rd rs)) (writes : rd ≠ .zero) (reads : rs ≠ .zero)
    (rest : Runs code env ⟨pc + 1, Function.update regs rd (regs rs), events⟩ goal) :
    Runs code env ⟨pc, regs, events⟩ goal := by
  apply next found
  simpa only [Instr.exec, State.write, State.read, if_neg writes, if_neg reads] using rest

theorem addi {imm : Int} (found : code[pc]? = some (.addi rd rs imm)) (writes : rd ≠ .zero)
    (reads : rs ≠ .zero)
    (rest : Runs code env
      ⟨pc + 1, Function.update regs rd (regs rs + BitVec.ofInt xlen imm), events⟩ goal) :
    Runs code env ⟨pc, regs, events⟩ goal := by
  apply next found
  simpa only [Instr.exec, State.write, State.read, if_neg writes, if_neg reads] using rest

theorem andi {imm : Int} (found : code[pc]? = some (.andi rd rs imm)) (writes : rd ≠ .zero)
    (reads : rs ≠ .zero)
    (rest : Runs code env
      ⟨pc + 1, Function.update regs rd (regs rs &&& BitVec.ofInt xlen imm), events⟩ goal) :
    Runs code env ⟨pc, regs, events⟩ goal := by
  apply next found
  simpa only [Instr.exec, State.write, State.read, if_neg writes, if_neg reads] using rest

theorem slli {shamt : Nat} (found : code[pc]? = some (.slli rd rs shamt)) (writes : rd ≠ .zero)
    (reads : rs ≠ .zero)
    (rest : Runs code env ⟨pc + 1, Function.update regs rd (regs rs <<< shamt), events⟩ goal) :
    Runs code env ⟨pc, regs, events⟩ goal := by
  apply next found
  simpa only [Instr.exec, State.write, State.read, if_neg writes, if_neg reads] using rest

theorem srli {shamt : Nat} (found : code[pc]? = some (.srli rd rs shamt)) (writes : rd ≠ .zero)
    (reads : rs ≠ .zero)
    (rest : Runs code env ⟨pc + 1, Function.update regs rd (regs rs >>> shamt), events⟩ goal) :
    Runs code env ⟨pc, regs, events⟩ goal := by
  apply next found
  simpa only [Instr.exec, State.write, State.read, if_neg writes, if_neg reads] using rest

theorem lw {offset : Int} {adr : BitVec xlen} (found : code[pc]? = some (.lw rd offset rs))
    (writes : rd ≠ .zero) (reads : rs ≠ .zero) (at_ : regs rs + BitVec.ofInt xlen offset = adr)
    (rest : Runs code env
      ⟨pc + 1, Function.update regs rd ((env events adr).signExtend xlen),
        events ++ [.load adr (env events adr)]⟩ goal) :
    Runs code env ⟨pc, regs, events⟩ goal := by
  subst at_
  apply next found
  simpa only [Instr.exec, State.write, State.read, if_neg writes, if_neg reads] using rest

theorem sw {offset : Int} {adr : BitVec xlen} (found : code[pc]? = some (.sw rs2 offset rs1))
    (reads : rs1 ≠ .zero) (stores : rs2 ≠ .zero)
    (at_ : regs rs1 + BitVec.ofInt xlen offset = adr)
    (rest : Runs code env
      ⟨pc + 1, regs, events ++ [.store adr ((regs rs2).setWidth 32)]⟩ goal) :
    Runs code env ⟨pc, regs, events⟩ goal := by
  subst at_
  apply next found
  simpa only [Instr.exec, State.read, if_neg reads, if_neg stores] using rest

theorem taken {cond : Cond} {target : Nat} {first second : BitVec xlen}
    (found : code[pc]? = some (.branch cond rs1 rs2 target))
    (left : (⟨pc, regs, events⟩ : State xlen).read rs1 = first)
    (right : (⟨pc, regs, events⟩ : State xlen).read rs2 = second)
    (holds : cond.holds first second = true)
    (rest : Runs code env ⟨target, regs, events⟩ goal) : Runs code env ⟨pc, regs, events⟩ goal := by
  subst left right
  apply next found
  simpa only [Instr.exec, holds, if_true] using rest

theorem falls {cond : Cond} {target : Nat} {first second : BitVec xlen}
    (found : code[pc]? = some (.branch cond rs1 rs2 target))
    (left : (⟨pc, regs, events⟩ : State xlen).read rs1 = first)
    (right : (⟨pc, regs, events⟩ : State xlen).read rs2 = second)
    (fails : cond.holds first second = false)
    (rest : Runs code env ⟨pc + 1, regs, events⟩ goal) : Runs code env ⟨pc, regs, events⟩ goal := by
  subst left right
  apply next found
  simpa only [Instr.exec, fails, Bool.false_eq_true, if_false] using rest

theorem j {target : Nat} (found : code[pc]? = some (.j target))
    (rest : Runs code env ⟨target, regs, events⟩ goal) : Runs code env ⟨pc, regs, events⟩ goal :=
  next found rest

theorem jal {target : Nat} (found : code[pc]? = some (.jal rd target)) (writes : rd ≠ .zero)
    (rest : Runs code env
      ⟨target, Function.update regs rd (BitVec.ofNat xlen (pc + 1)), events⟩ goal) :
    Runs code env ⟨pc, regs, events⟩ goal := by
  apply next found
  simpa only [Instr.exec, State.write, if_neg writes] using rest

theorem ret {target : Nat} (found : code[pc]? = some .ret) (back : (regs .ra).toNat = target)
    (rest : Runs code env ⟨target, regs, events⟩ goal) : Runs code env ⟨pc, regs, events⟩ goal := by
  subst back
  exact next found rest

end Instructions

end Runs

/-! ### The registers -/

/-- Only these registers have been written since. -/
def Keeps (clobbered : List Reg) (before after : Reg → BitVec xlen) : Prop :=
  ∀ reg, reg ∉ clobbered → after reg = before reg

theorem Keeps.refl (clobbered : List Reg) (regs : Reg → BitVec xlen) : Keeps clobbered regs regs :=
  fun _ _ => rfl

theorem Keeps.trans {clobbered : List Reg} {first second third : Reg → BitVec xlen}
    (left : Keeps clobbered first second) (right : Keeps clobbered second third) :
    Keeps clobbered first third :=
  fun reg other => (right reg other).trans (left reg other)

theorem Keeps.mono {few more : List Reg} {before after : Reg → BitVec xlen}
    (keeps : Keeps few before after) (subset : few ⊆ more) : Keeps more before after :=
  fun reg other => keeps reg fun mem => other (subset mem)

theorem Keeps.update {clobbered : List Reg} {before after : Reg → BitVec xlen} {rd : Reg}
    {value : BitVec xlen} (keeps : Keeps clobbered before after) (mem : rd ∈ clobbered) :
    Keeps clobbered before (Function.update after rd value) := by
  intro reg other
  have apart : reg ≠ rd := by
    rintro rfl
    exact other mem
  rw [Function.update_of_ne apart, keeps reg other]

/-! ### What a piece of code does -/

/-- A state in which a trace has grown and only some registers may have changed. -/
structure Does {Entry : Type*} (trace : List (Event xlen) → List Entry) (s : State xlen) (pc : Nat)
    (clobbered : List Reg) (more : List Entry) (t : State xlen) : Prop where
  pc : t.pc = pc
  keeps : Keeps clobbered s.regs t.regs
  adds : trace t.events = trace s.events ++ more

namespace Does

variable {Entry : Type*} {trace : List (Event xlen) → List Entry} {s t u : State xlen}
  {middle pc : Nat} {clobbered : List Reg} {first second more : List Entry}
  {regs : Reg → BitVec xlen} {events : List (Event xlen)}

theorem refl (trace : List (Event xlen) → List Entry) (s : State xlen) (clobbered : List Reg) :
    Does trace s s.pc clobbered [] s :=
  ⟨rfl, Keeps.refl _ _, (List.append_nil _).symm⟩

theorem trans (left : Does trace s middle clobbered first t)
    (right : Does trace t pc clobbered second u) :
    Does trace s pc clobbered (first ++ second) u where
  pc := right.pc
  keeps := left.keeps.trans right.keeps
  adds := by rw [right.adds, left.adds, List.append_assoc]

theorem widen {few : List Reg} (does : Does trace s pc few more t) (subset : few ⊆ clobbered) :
    Does trace s pc clobbered more t :=
  ⟨does.pc, does.keeps.mono subset, does.adds⟩

/-- A register may change without a trace. -/
theorem write (does : Does trace s pc clobbered more ⟨pc, regs, events⟩) (rd : Reg)
    (mem : rd ∈ clobbered) (value : BitVec xlen) (next : Nat) :
    Does trace s next clobbered more ⟨next, Function.update regs rd value, events⟩ :=
  ⟨rfl, does.keeps.update mem, does.adds⟩

theorem jump (does : Does trace s pc clobbered more ⟨pc, regs, events⟩) (next : Nat) :
    Does trace s next clobbered more ⟨next, regs, events⟩ :=
  ⟨rfl, does.keeps, does.adds⟩

/-- One piece of code after another. -/
theorem followedBy {few : List Reg} (left : Runs code env s (Does trace s middle few first))
    (subset : few ⊆ clobbered)
    (rest : ∀ regs events, Keeps few s.regs regs → Runs code env ⟨middle, regs, events⟩
      (Does trace ⟨middle, regs, events⟩ pc clobbered second)) :
    Runs code env s (Does trace s pc clobbered (first ++ second)) := by
  refine left.trans fun t does => ?_
  obtain ⟨at_, regs, events⟩ := t
  obtain rfl : at_ = middle := does.pc
  exact (rest regs events does.keeps).mono fun u last => (does.widen subset).trans last

end Does

/-! ### Counting down -/

theorem ofNat_succ_add_neg_one (k : Nat) :
    BitVec.ofNat xlen (k + 1) + BitVec.ofInt xlen (-1) = BitVec.ofNat xlen k := by
  have minus : BitVec.ofInt xlen (-1) = -(BitVec.ofNat xlen 1) := by
    rw [BitVec.ofInt_neg]
    rfl
  rw [minus, BitVec.ofNat_add, ← BitVec.sub_eq_add_neg, BitVec.add_sub_cancel]

theorem holds_ne_zero {k : Nat} (pos : 0 < k) (fits : k < 2 ^ xlen) :
    Cond.holds .ne (BitVec.ofNat xlen k) (0 : BitVec xlen) = true := by
  rw [Cond.holds, bne_iff_ne]
  intro zero
  have same := congrArg BitVec.toNat zero
  rw [BitVec.toNat_ofNat, Nat.mod_eq_of_lt fits] at same
  simp only [BitVec.ofNat_eq_ofNat, BitVec.toNat_ofNat, Nat.zero_mod] at same
  omega

/-! ### Stores and polls -/

/-- What has been stored at an address. -/
def storedAt (adr : BitVec xlen) (events : List (Event xlen)) : List (BitVec 32) :=
  events.filterMap fun event =>
    match event with
    | .load _ _ => none
    | .store at_ value => if at_ = adr then some value else none

@[simp]
theorem storedAt_nil (adr : BitVec xlen) : storedAt adr [] = [] := rfl

@[simp]
theorem storedAt_append (adr : BitVec xlen) (first second : List (Event xlen)) :
    storedAt adr (first ++ second) = storedAt adr first ++ storedAt adr second :=
  List.filterMap_append

/-- The last word stored in a cell, when addresses may share cells. -/
def lastStored {Cell : Type*} [DecidableEq Cell] (cell : BitVec xlen → Cell) (at_ : Cell)
    (events : List (Event xlen)) : Option (BitVec 32) :=
  events.foldl (fun last event =>
    match event with
    | .load _ _ => last
    | .store adr value => if cell adr = at_ then some value else last) none

section LastStored

variable {Cell : Type*} [DecidableEq Cell] (cell : BitVec xlen → Cell) (at_ : Cell)
  (events : List (Event xlen)) (adr : BitVec xlen) (value : BitVec 32)

@[simp]
theorem lastStored_load :
    lastStored cell at_ (events ++ [.load adr value]) = lastStored cell at_ events := by
  rw [lastStored, List.foldl_append]
  rfl

theorem lastStored_store :
    lastStored cell at_ (events ++ [.store adr value]) =
      if cell adr = at_ then some value else lastStored cell at_ events := by
  rw [lastStored, List.foldl_append]
  rfl

end LastStored

/-- A memory in which a word keeps what has been stored in its cell. -/
def Remembers {Cell : Type*} [DecidableEq Cell] (env : Env xlen) (cell : BitVec xlen → Cell)
    (adr : BitVec xlen) : Prop :=
  ∀ events value, lastStored cell (cell adr) events = some value → env events adr = value

/-- All stores. -/
def stores (events : List (Event xlen)) : List (BitVec xlen × BitVec 32) :=
  events.filterMap fun event =>
    match event with
    | .load _ _ => none
    | .store adr value => some (adr, value)

@[simp]
theorem stores_append (first second : List (Event xlen)) :
    stores (first ++ second) = stores first ++ stores second :=
  List.filterMap_append

/-- What has happened stays. -/
theorem events_grow (s : State xlen) (n : Nat) :
    s.events <+: ((step code env)^[n] s).events := by
  induction n generalizing s with
  | zero => exact List.prefix_refl _
  | succ n ih =>
      have first : s.events <+: (step code env s).events := by
        rw [step]
        cases code[s.pc]? with
        | none => exact List.prefix_refl _
        | some instr => cases instr <;> simp [Instr.exec, State.write]
      exact first.trans (ih (step code env s))

theorem stores_grow (s : State xlen) {m n : Nat} (le : m ≤ n) :
    stores ((step code env)^[m] s).events <+: stores ((step code env)^[n] s).events := by
  obtain ⟨more, rfl⟩ := Nat.exists_eq_add_of_le le
  rw [Nat.add_comm, Function.iterate_add_apply]
  exact (events_grow _ more).filterMap _

/-- The events after loading from an address again and again. -/
def polls (env : Env xlen) (adr : BitVec xlen) : Nat → List (Event xlen) → List (Event xlen)
  | 0, events => events
  | n + 1, events => polls env adr n (events ++ [.load adr (env events adr)])

theorem polls_succ (env : Env xlen) (adr : BitVec xlen) (n : Nat) (events : List (Event xlen)) :
    polls env adr (n + 1) events =
      polls env adr n events ++ [.load adr (env (polls env adr n events) adr)] := by
  induction n generalizing events with
  | zero => rfl
  | succ n ih => rw [polls, ih, polls]

theorem length_polls (env : Env xlen) (adr : BitVec xlen) (n : Nat) (events : List (Event xlen)) :
    (polls env adr n events).length = events.length + n := by
  induction n with
  | zero => rfl
  | succ n ih => rw [polls_succ, List.length_append, ih]; rfl

/-- A device is ready after every third event. -/
def everyThird (events : List (Event xlen)) : Bool := events.length % 3 == 2

theorem exists_everyThird (env : Env xlen) (adr : BitVec xlen) (events : List (Event xlen)) :
    ∃ n, everyThird (polls env adr n events) = true := by
  refine ⟨2 - events.length % 3, ?_⟩
  rw [everyThird, length_polls, beq_iff_eq]
  omega

@[simp]
theorem stores_polls (env : Env xlen) (adr : BitVec xlen) (n : Nat) (events : List (Event xlen)) :
    stores (polls env adr n events) = stores events := by
  induction n with
  | zero => rfl
  | succ n ih => rw [polls_succ, stores_append, ih]; exact List.append_nil _

@[simp]
theorem storedAt_polls (env : Env xlen) (adr other : BitVec xlen) (n : Nat)
    (events : List (Event xlen)) :
    storedAt other (polls env adr n events) = storedAt other events := by
  induction n with
  | zero => rfl
  | succ n ih => rw [polls_succ, storedAt_append, ih]; exact List.append_nil _

/-- A loop has loaded from an address until it read a value that is wanted. -/
structure Polled (env : Env xlen) (adr : BitVec xlen) (wanted : BitVec 32 → Bool) (s : State xlen)
    (pc : Nat) (clobbered : List Reg) (t : State xlen) : Prop where
  pc : t.pc = pc
  keeps : Keeps clobbered s.regs t.regs
  events : ∃ n, t.events = polls env adr (n + 1) s.events ∧
    wanted (env (polls env adr n s.events) adr) = true

/-- The loop, from what a round does while `rs` holds the base of the device. -/
theorem Runs.poll {rs : Reg} {base adr : BitVec xlen} (wanted : BitVec 32 → Bool) {top after : Nat}
    {clobbered : List Reg} (apart : rs ∉ clobbered)
    (round : ∀ regs events, regs rs = base → Runs code env ⟨top, regs, events⟩ fun t =>
      t.pc = (if wanted (env events adr) then after else top) ∧ Keeps clobbered regs t.regs ∧
        t.events = events ++ [.load adr (env events adr)])
    {regs : Reg → BitVec xlen} {events : List (Event xlen)} (at_ : regs rs = base)
    (ready : ∃ n, wanted (env (polls env adr n events) adr) = true) :
    Runs code env ⟨top, regs, events⟩
      (Polled env adr wanted ⟨top, regs, events⟩ after clobbered) := by
  -- The induction is on the number of rounds.
  obtain ⟨n, ready⟩ := ready
  induction n generalizing regs events with
  | zero =>
      refine (round regs events at_).mono fun t done => ?_
      rw [polls] at ready
      rw [ready] at done
      exact ⟨done.1, done.2.1, 0, done.2.2, ready⟩
  | succ n ih =>
      refine (round regs events at_).trans fun t done => ?_
      obtain ⟨pc, regs', events'⟩ := t
      obtain ⟨pc_eq, keeps, events_eq⟩ := done
      obtain rfl : events' = _ := events_eq
      cases wants : wanted (env events adr) with
      | true =>
          rw [wants] at pc_eq
          exact now ⟨pc_eq, keeps, 0, rfl, wants⟩
      | false =>
          rw [wants] at pc_eq
          obtain rfl : pc = top := pc_eq
          refine (ih ((keeps rs apart).trans at_) ready).mono fun u rest => ?_
          obtain ⟨m, events_eq, wants⟩ := rest.events
          exact ⟨rest.pc, keeps.trans rest.keeps, m + 1, events_eq, wants⟩

end RiscV

end Cocoapuffs

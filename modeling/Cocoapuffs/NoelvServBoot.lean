import Cocoapuffs.NoelvPrint

/-!
# The handoff of the NOEL-V board

The program of `noelv_serv_boot`: SERV prints a banner, waits until its UART has sent it,
and hands the line and the board over to the NOEL-V.
-/

namespace Cocoapuffs

namespace NoelvServBoot

open RiscV HexText
open NoelvPrint (Message)

inductive Label where
  | start
  | banner
  | bdelay
  | drain
  | spin
  | putc
deriving DecidableEq

/-- `UART` -/
def uart : BitVec 32 := 0x40000010

/-- `PERCTL` -/
def perctl : BitVec 32 := 0x40000040

/-- "SERV\r\n" -/
def serv : List Byte := [0x53, 0x45, 0x52, 0x56, 0x0d, 0x0a]

/-- `li a0, c; jal putc` for each character. -/
def say (text : List Byte) : List (Line Label) :=
  text.flatMap fun c => [.code (.li .a0 c.toNat), .code (.jal .ra .putc)]

def banner : List (Line Label) :=
  [.label .start,
    .code (.li .s0 0x40000010),
    .code (.li .s1 64),
    .label .banner] ++ say serv ++
  [.code (.li .t0 0x10000),
    .label .bdelay,
    .code (.addi .t0 .t0 (-1)),
    .code (.bnez .t0 .bdelay),
    .code (.addi .s1 .s1 (-1)),
    .code (.bnez .s1 .banner)]

def handOff : List (Line Label) :=
  [.label .drain,
    .code (.lw .t1 0 .s0),
    .code (.andi .t1 .t1 0x400),
    .code (.beqz .t1 .drain),
    .code (.li .t0 0x40000040),
    .code (.li .t1 0x3),
    .code (.sw .t1 0 .t0),
    .label .spin,
    .code (.j .spin)]

def putc : List (Line Label) :=
  [.label .putc,
    .code (.lw .t1 0 .s0),
    .code (.slli .t1 .t1 20),
    .code (.bltz .t1 .putc),
    .code (.sw .a0 0 .s0),
    .code .ret]

def code : List (Instr Nat) := assemble (banner ++ handOff ++ putc)

theorem serv_listed : Message code 26 2 serv := by
  decide +kernel

/-! ### The environment -/

/-- `TX_FULL` is off. -/
def hasRoom (status : BitVec 32) : Bool := !status.getLsbD 11

/-- `TX_EMPTY` -/
def isEmpty (status : BitVec 32) : Bool := status.getLsbD 10

/-- The transmitter makes room, and becomes empty, if its status is read often enough. -/
structure Transmits (env : Env 32) : Prop where
  room : ∀ events, ∃ n, hasRoom (env (polls env uart n events) uart) = true
  empty : ∀ events, ∃ n, isEmpty (env (polls env uart n events) uart) = true

variable {env : Env 32}

/-! ### `putc` -/

theorem slt_shifted (status : BitVec 32) :
    Cond.holds .lt (status <<< 20) (0 : BitVec 32) = status.getLsbD 11 := by
  change (status <<< 20).slt 0#32 = _
  rw [BitVec.slt_zero_eq_msb, BitVec.msb_shiftLeft]
  rfl

theorem and_txEmpty (status : BitVec 32) :
    Cond.holds .eq (status &&& BitVec.ofInt 32 0x400) (0 : BitVec 32) = !isEmpty status := by
  have bit : BitVec.ofInt 32 0x400 = BitVec.twoPow 32 10 := by decide
  rw [Cond.holds, bit, BitVec.and_twoPow, isEmpty]
  cases status.getLsbD 10 <;> decide

/-- A round of the wait for room. -/
theorem putc_round (regs : Reg → BitVec 32) (events : List (Event 32)) (base : regs .s0 = uart) :
    Runs code env ⟨26, regs, events⟩ fun t =>
      t.pc = (if hasRoom (env events uart) then 29 else 26) ∧ Keeps [.t1] regs t.regs ∧
        t.events = events ++ [.load uart (env events uart)] := by
  have tests := slt_shifted (env events uart)
  have kept (t1 : BitVec 32) : Keeps [.t1] regs (Function.update regs .t1 t1) :=
    (Keeps.refl _ regs).update (by decide)
  refine Runs.lw rfl (by decide) (by decide) ((BitVec.add_zero _).trans base) ?_
  refine Runs.slli rfl (by decide) (by decide) ?_
  rw [Function.update_idem, Function.update_self, BitVec.signExtend_eq, hasRoom]
  cases bit : (env events uart).getLsbD 11 with
  | true =>
      rw [bit] at tests
      exact Runs.taken rfl rfl rfl tests (Runs.now ⟨rfl, kept _, rfl⟩)
  | false =>
      rw [bit] at tests
      exact Runs.falls rfl rfl rfl tests (Runs.now ⟨rfl, kept _, rfl⟩)

/-- `putc` stores its character once. -/
theorem putc_stores (transmits : Transmits env) {regs : Reg → BitVec 32} (base : regs .s0 = uart)
    (events : List (Event 32)) :
    Runs code env ⟨26, regs, events⟩
      (Does stores ⟨26, regs, events⟩ (regs .ra).toNat [.t1] [(uart, regs .a0)]) := by
  have apart : Reg.s0 ∉ [Reg.t1] := by decide
  refine (Runs.poll hasRoom apart putc_round base (transmits.room events)).trans fun t waited => ?_
  obtain ⟨n, events_eq, -⟩ := waited.events
  obtain ⟨at_, regs', events'⟩ := t
  obtain rfl : at_ = 29 := waited.pc
  obtain rfl : events' = _ := events_eq
  have ra : regs' .ra = regs .ra := waited.keeps .ra (by decide)
  have a0 : regs' .a0 = regs .a0 := waited.keeps .a0 (by decide)
  have same : regs' .s0 = uart := (waited.keeps .s0 (by decide)).trans base
  refine Runs.sw rfl (by decide) (by decide) ((BitVec.add_zero _).trans same) ?_
  refine Runs.ret rfl (congrArg BitVec.toNat ra) (Runs.now ⟨rfl, waited.keeps, ?_⟩)
  rw [stores_append, stores_polls, a0, BitVec.setWidth_eq]
  rfl

/-- What the UART has been given with a text. -/
def sent (text : List Byte) : List (BitVec 32 × BitVec 32) :=
  text.map fun c => (uart, c.setWidth 32)

theorem ofInt_toNat (c : Byte) : BitVec.ofInt 32 c.toNat = c.setWidth 32 := by
  apply BitVec.eq_of_toNat_eq
  rw [BitVec.ofInt_natCast, BitVec.toNat_ofNat, BitVec.toNat_setWidth]

theorem character_stores (transmits : Transmits env) {pc : Nat} {c : Byte}
    (load : code[pc]? = some (.li .a0 c.toNat)) (call : code[pc + 1]? = some (.jal .ra 26))
    (fits : pc + 2 < 2 ^ 32) {regs : Reg → BitVec 32} (base : regs .s0 = uart)
    (events : List (Event 32)) :
    Runs code env ⟨pc, regs, events⟩
      (Does stores ⟨pc, regs, events⟩ (pc + 2) [.a0, .ra, .t1] (sent [c])) := by
  refine Runs.li load (by decide) (Runs.jal call (by decide) ?_)
  refine (putc_stores transmits (by exact base) events).mono fun t does => ?_
  have entered := ((Does.refl stores ⟨pc, regs, events⟩ [.a0, .ra, .t1]).write .a0 (by decide)
    (BitVec.ofInt 32 c.toNat) (pc + 1)).write .ra (by decide) (BitVec.ofNat 32 (pc + 1 + 1)) 26
  have back := does.pc
  rw [Function.update_self, BitVec.toNat_ofNat, Nat.mod_eq_of_lt fits] at back
  have done := entered.trans (does.widen (by decide))
  refine ⟨back, done.keeps, ?_⟩
  rw [done.adds, Function.update_of_ne (by decide), Function.update_self, ofInt_toNat]
  rfl

theorem message_stores (transmits : Transmits env) {text : List Byte} {pc : Nat}
    (listed : Message code 26 pc text) (fits : pc + 2 * text.length < 2 ^ 32)
    {regs : Reg → BitVec 32} (base : regs .s0 = uart) (events : List (Event 32)) :
    Runs code env ⟨pc, regs, events⟩
      (Does stores ⟨pc, regs, events⟩ (pc + 2 * text.length) [.a0, .ra, .t1] (sent text)) := by
  induction text generalizing pc regs events with
  | nil => exact Runs.now (Does.refl _ _ _)
  | cons c text ih =>
      obtain ⟨load, call, others⟩ := listed
      rw [List.length_cons] at fits ⊢
      rw [show pc + 2 * (text.length + 1) = pc + 2 + 2 * text.length by omega]
      exact Does.followedBy (character_stores transmits load call (by omega) base events)
        (List.Subset.refl _) fun regs' events' kept =>
          ih others (by omega) ((kept .s0 (by decide)).trans base) events'

/-! ### The banner -/

/-- The pause after a line, with some rounds left. -/
def Pause (regs : Reg → BitVec 32) (events : List (Event 32)) (k : Nat) (t : State 32) : Prop :=
  t.pc = (if k = 0 then 17 else 15) ∧ t.regs .t0 = BitVec.ofNat 32 k ∧ Keeps [.t0] regs t.regs ∧
    t.events = events

theorem pause_round (regs : Reg → BitVec 32) (events : List (Event 32)) (k : Nat)
    (few : k < 0x10000) (t : State 32) (pause : Pause regs events (k + 1) t) :
    Runs code env t (Pause regs events k) := by
  obtain ⟨pc, regs', events'⟩ := t
  obtain ⟨pc_eq, left, keeps, events_eq⟩ := pause
  obtain rfl : pc = 15 := pc_eq
  have down : regs' .t0 + BitVec.ofInt 32 (-1) = BitVec.ofNat 32 k := by
    rw [show regs' .t0 = _ from left, ofNat_succ_add_neg_one]
  refine Runs.addi rfl (by decide) (by decide) ?_
  rw [down]
  have kept : Keeps [.t0] regs (Function.update regs' .t0 (BitVec.ofNat 32 k)) :=
    Keeps.update keeps (by decide)
  cases k with
  | zero =>
      have zero : Cond.holds .ne (BitVec.ofNat 32 0) 0 = false := rfl
      exact Runs.falls rfl rfl rfl zero (Runs.now ⟨rfl, rfl, kept, events_eq⟩)
  | succ k =>
      have nonzero : Cond.holds .ne (BitVec.ofNat 32 (k + 1)) 0 = true :=
        holds_ne_zero (Nat.succ_pos k) (by omega)
      exact Runs.taken rfl rfl rfl nonzero (Runs.now ⟨rfl, rfl, kept, events_eq⟩)

/-- What has been stored after some lines of the banner. -/
def lines (count : Nat) : List (BitVec 32 × BitVec 32) :=
  (List.replicate count (sent serv)).flatten

theorem lines_succ (count : Nat) : lines (count + 1) = lines count ++ sent serv := by
  rw [lines, lines, List.replicate_succ', List.flatten_concat]

/-- The banner with some lines left. -/
structure Banner (k : Nat) (t : State 32) : Prop where
  pc : t.pc = if k = 0 then 19 else 2
  base : t.regs .s0 = uart
  left : t.regs .s1 = BitVec.ofNat 32 k
  stores : stores t.events = lines (64 - k)

theorem banner_round (transmits : Transmits env) (k : Nat) (few : k < 64) (t : State 32)
    (banner : Banner (k + 1) t) : Runs code env t (Banner k) := by
  obtain ⟨pc, regs, events⟩ := t
  obtain rfl : pc = 2 := banner.pc
  have base : regs .s0 = uart := banner.base
  refine (message_stores transmits serv_listed (by decide) base events).trans fun t line => ?_
  obtain ⟨pc1, regs1, events1⟩ := t
  obtain rfl : pc1 = 14 := line.pc
  have base1 : regs1 .s0 = uart := (line.keeps .s0 (by decide)).trans base
  have left1 : regs1 .s1 = BitVec.ofNat 32 (k + 1) := (line.keeps .s1 (by decide)).trans banner.left
  have stores1 : stores events1 = lines (64 - k) := by
    rw [show stores events1 = _ from line.adds, banner.stores, ← lines_succ]
    congr 1
    omega
  refine Runs.li rfl (by decide) ?_
  refine (Runs.count (Pause _ events1) 0x10000 (pause_round _ events1)
    ⟨rfl, rfl, Keeps.refl _ _, rfl⟩).trans fun t paused => ?_
  obtain ⟨pc2, regs2, events2⟩ := t
  obtain ⟨pc_eq, -, keeps, events_eq⟩ := paused
  obtain rfl : pc2 = 17 := pc_eq
  obtain rfl : events2 = events1 := events_eq
  have base2 : regs2 .s0 = uart := (keeps .s0 (by decide)).trans base1
  have left2 : regs2 .s1 = BitVec.ofNat 32 (k + 1) := (keeps .s1 (by decide)).trans left1
  refine Runs.addi rfl (by decide) (by decide) ?_
  rw [left2, ofNat_succ_add_neg_one]
  cases k with
  | zero =>
      have zero : Cond.holds .ne (BitVec.ofNat 32 0) 0 = false := rfl
      exact Runs.falls rfl rfl rfl zero (Runs.now ⟨rfl, base2, rfl, stores1⟩)
  | succ k =>
      have nonzero : Cond.holds .ne (BitVec.ofNat 32 (k + 1)) 0 = true :=
        holds_ne_zero (Nat.succ_pos k) (by omega)
      exact Runs.taken rfl rfl rfl nonzero (Runs.now ⟨rfl, base2, rfl, stores1⟩)

/-- The whole banner. -/
theorem banner_runs (transmits : Transmits env) (regs : Reg → BitVec 32) :
    Runs code env ⟨0, regs, []⟩ (Banner 0) := by
  refine Runs.li rfl (by decide) (Runs.li rfl (by decide) ?_)
  exact Runs.count Banner 64 (banner_round transmits) ⟨rfl, rfl, rfl, rfl⟩

/-! ### The handoff -/

/-- A round of the wait for an empty transmitter. -/
theorem drain_round (regs : Reg → BitVec 32) (events : List (Event 32)) (base : regs .s0 = uart) :
    Runs code env ⟨19, regs, events⟩ fun t =>
      t.pc = (if isEmpty (env events uart) then 22 else 19) ∧ Keeps [.t1] regs t.regs ∧
        t.events = events ++ [.load uart (env events uart)] := by
  have tests := and_txEmpty (env events uart)
  have kept (t1 : BitVec 32) : Keeps [.t1] regs (Function.update regs .t1 t1) :=
    (Keeps.refl _ regs).update (by decide)
  refine Runs.lw rfl (by decide) (by decide) ((BitVec.add_zero _).trans base) ?_
  refine Runs.andi rfl (by decide) (by decide) ?_
  rw [Function.update_idem, Function.update_self, BitVec.signExtend_eq]
  cases bit : isEmpty (env events uart) with
  | true =>
      rw [bit] at tests
      exact Runs.falls rfl rfl rfl tests (Runs.now ⟨rfl, kept _, rfl⟩)
  | false =>
      rw [bit] at tests
      exact Runs.taken rfl rfl rfl tests (Runs.now ⟨rfl, kept _, rfl⟩)

/-- The board has been handed over, after the banner and when the transmitter was empty. -/
def HandedOver (events : List (Event 32)) : Prop :=
  ∃ before status, events = before ++ [.load uart status, .store perctl 3] ∧
    isEmpty status = true ∧ stores before = lines 64

theorem hands_over (transmits : Transmits env) (regs : Reg → BitVec 32) :
    Runs code env ⟨0, regs, []⟩ fun t =>
      code[t.pc]? = some (.j t.pc) ∧ HandedOver t.events := by
  refine (banner_runs transmits regs).trans fun t banner => ?_
  obtain ⟨pc, regs, events⟩ := t
  obtain rfl : pc = 19 := banner.pc
  have apart : Reg.s0 ∉ [Reg.t1] := by decide
  refine (Runs.poll isEmpty apart drain_round banner.base (transmits.empty events)).trans
    fun t waited => ?_
  obtain ⟨n, events_eq, empty⟩ := waited.events
  obtain ⟨at_, regs', events'⟩ := t
  obtain rfl : at_ = 22 := waited.pc
  obtain rfl : events' = _ := events_eq
  refine Runs.li rfl (by decide) (Runs.li rfl (by decide) (Runs.sw rfl (by decide) (by decide) rfl ?_))
  refine Runs.now ⟨rfl, polls env uart n events, _, ?_, empty, ?_⟩
  · rw [polls_succ, List.append_assoc]
    rfl
  · rw [stores_polls]
    exact banner.stores

/-- The banner goes to the UART whole before the one store that hands the board over. -/
theorem serv_hands_over (env : Env 32) (transmits : Transmits env) (regs : Reg → BitVec 32) :
    (∀ m, stores ((step code env)^[m] ⟨0, regs, []⟩).events <+: lines 64 ++ [(perctl, 3)]) ∧
      ∃ n, ∀ m, n ≤ m → HandedOver ((step code env)^[m] ⟨0, regs, []⟩).events := by
  obtain ⟨n, handedOver⟩ := (hands_over transmits regs).forever
  refine ⟨fun m => ?_, n, handedOver⟩
  obtain ⟨before, status, events_eq, -, banner⟩ := handedOver (max n m) (Nat.le_max_left n m)
  have grows : stores ((step code env)^[m] ⟨0, regs, []⟩).events <+:
      stores ((step code env)^[max n m] ⟨0, regs, []⟩).events :=
    stores_grow _ (Nat.le_max_right n m)
  rw [events_eq, stores_append, banner] at grows
  exact grows

/-! ### A UART that is slow -/

/-- `TX_EMPTY` after every third event, and `TX_FULL` after the others. -/
def slow : Env 32 := fun events _ => if everyThird events then 0x400 else 0x800

theorem slow_transmits : Transmits slow where
  room events := by
    obtain ⟨n, third⟩ := exists_everyThird slow uart events
    refine ⟨n, ?_⟩
    rw [slow, if_pos third]
    decide
  empty events := by
    obtain ⟨n, third⟩ := exists_everyThird slow uart events
    refine ⟨n, ?_⟩
    rw [slow, if_pos third]
    decide

theorem serv_hands_over_slow :
    (∀ m, stores ((step code slow)^[m] ⟨0, fun _ => 0, []⟩).events <+:
        lines 64 ++ [(perctl, 3)]) ∧
      ∃ n, ∀ m, n ≤ m → HandedOver ((step code slow)^[m] ⟨0, fun _ => 0, []⟩).events :=
  serv_hands_over slow slow_transmits fun _ => 0

end NoelvServBoot

end Cocoapuffs

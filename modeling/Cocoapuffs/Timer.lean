import Cocoapuffs.WbBram

/-!
# The timer

The entity `timer` counts down and around, and raises its interrupt for one
cycle when it gets to zero.  A register write has its effect in the cycle after
the one in which it is issued.  One instant is one rising edge of `clk`.
-/

namespace Cocoapuffs

namespace Timer

/-- The generics of `timer`; `max_count` is a `natural`. -/
structure Generics where
  baseAddress : BitVec 32
  maxCount : Nat
  natural : maxCount < 2 ^ 31

/-- The generic map of `decoder0`. -/
def Generics.decoder (g : Generics) : MmregDecoder.Generics := ⟨g.baseAddress, 1⟩

/-- `reg_type`. -/
structure Reg where
  irq : Bool
  count : BitVec 32
deriving DecidableEq

/-- `zero_reg_type`. -/
def Generics.zeroReg (g : Generics) : Reg := ⟨false, BitVec.ofNat 32 g.maxCount⟩

structure State where
  decoder0 : MmregDecoder.Reg
  r : Reg
deriving DecidableEq

def State.regi (s : State) : BitVec 32 :=
  if s.decoder0.index = 0 then if s.r.irq then 1 else 0
  else if s.decoder0.index = 1 then s.r.count
  else 0

def State.wbo (s : State) : PerBus := ⟨s.regi, s.decoder0.ack⟩

def State.irq (s : State) : Bool := s.r.irq

/-- The process `comb`. -/
def comb (g : Generics) (reset : Bool) (s : State) : Reg :=
  if reset then g.zeroReg
  else
    let v : Reg := ⟨s.r.count == 0, s.r.count - 1⟩
    if s.decoder0.write then
      if s.decoder0.index = 0 then { v with irq := s.decoder0.data.getLsbD 0 }
      else if s.decoder0.index = 1 then { v with count := s.decoder0.data }
      else v
    else v

/-- What comes in at one edge. -/
structure Ports where
  reset : Bool
  wbi : HostBus

/-- One rising edge. -/
def step (g : Generics) (ports : Ports) (s : State) : State where
  decoder0 := MmregDecoder.comb g.decoder ports.reset ports.wbi s.decoder0
  r := comb g ports.reset s

section Runs

variable (g : Generics) (ports : Nat → Ports)

/-- The timer from a reset on. -/
def states : Nat → State := Trace.run (step g) ⟨MmregDecoder.zeroReg, g.zeroReg⟩ ports

/-- A write of a register is issued. -/
structure Issued (n index : Nat) : Prop where
  running : (ports n).reset = false
  writes : MmregDecoder.Writes g.decoder (ports n).wbi (states g ports n).decoder0
  index : g.decoder.index (ports n).wbi.adr = index

/-- The counter is at zero and not about to be reset. -/
def Expires (n : Nat) : Prop := (states g ports n).r.count = 0 ∧ (ports n).reset = false

/-- The timer raises an interrupt for every expiry. -/
structure Raises : Prop where
  expiry : ∀ n, Expires g ports n → (states g ports (n + 1)).irq = true
  /-- A count that is written has its effect two cycles after the write is issued,
  and expires then again and again. -/
  period : ∀ k, Issued g ports k 1 → ∀ rounds when,
    when = k + 2 + ((ports k).wbi.dat.toNat + rounds * 2 ^ 32) →
    (∀ m, k < m → m ≤ when → (ports m).reset = false ∧ ¬ Issued g ports m 1) →
      (states g ports (when + 1)).irq = true

variable {g ports}

theorem states_succ (n : Nat) : states g ports (n + 1) = step g (ports n) (states g ports n) :=
  rfl

theorem decoder_states (n : Nat) : (states g ports (n + 1)).decoder0 =
    MmregDecoder.comb g.decoder (ports n).reset (ports n).wbi (states g ports n).decoder0 :=
  rfl

theorem Issued.decoder {n index : Nat} (issued : Issued g ports n index) :
    (states g ports (n + 1)).decoder0 = ⟨.wait1, (ports n).wbi.dat, index, true, true⟩ := by
  have control := MmregDecoder.control_of_runs
    (r := fun n => (states g ports n).decoder0) decoder_states rfl n
  rw [decoder_states, issued.running, issued.writes.comb control, issued.index]

theorem issued_of_write {n : Nat} (write : (states g ports n).decoder0.write = true) :
    ∃ k, k + 1 = n ∧ Issued g ports k (states g ports n).decoder0.index ∧
      (states g ports n).decoder0.data = (ports k).wbi.dat := by
  obtain ⟨k, before, running, writes, held⟩ :=
    MmregDecoder.writes_of_runs (r := fun n => (states g ports n).decoder0) decoder_states rfl write
  rw [held]
  exact ⟨k, before, ⟨running, writes, rfl⟩, rfl⟩

theorem count_succ {n : Nat} (running : (ports n).reset = false)
    (unwritten : ∀ k, k + 1 = n → ¬ Issued g ports k 1) :
    (states g ports (n + 1)).r.count = (states g ports n).r.count - 1 := by
  rw [states_succ, step, comb, running, if_neg Bool.false_ne_true]
  by_cases write : (states g ports n).decoder0.write = true
  · obtain ⟨k, before, issued, -⟩ := issued_of_write write
    have index : (states g ports n).decoder0.index ≠ 1 := fun one =>
      unwritten k before (one ▸ issued)
    by_cases zero : (states g ports n).decoder0.index = 0 <;> simp [write, zero, index]
  · simp [write]

theorem Issued.count {k : Nat} (issued : Issued g ports k 1)
    (running : (ports (k + 1)).reset = false) :
    (states g ports (k + 2)).r.count = (ports k).wbi.dat := by
  rw [states_succ, step, comb, running, issued.decoder]
  rfl

theorem Issued.count_add {k : Nat} (issued : Issued g ports k 1) (elapsed : Nat)
    (alone : ∀ m, k < m → m < k + 2 + elapsed →
      (ports m).reset = false ∧ ¬ Issued g ports m 1) :
    (states g ports (k + 2 + elapsed)).r.count =
      (ports k).wbi.dat - BitVec.ofNat 32 elapsed := by
  induction elapsed with
  | zero =>
      rw [Nat.add_zero, issued.count (alone (k + 1) (by omega) (by omega)).1]
      simp
  | succ elapsed ih =>
      have running := (alone (k + 2 + elapsed) (by omega) (by omega)).1
      have unwritten : ∀ m, m + 1 = k + 2 + elapsed → ¬ Issued g ports m 1 := fun m before =>
        (alone m (by omega) (by omega)).2
      rw [← Nat.add_assoc, count_succ running unwritten,
        ih fun m after before => alone m after (by omega), BitVec.ofNat_add]
      bv_omega

/-- An expiry is seen on `irq` unless a write of the register lowers it. -/
theorem irq_succ_iff {n : Nat} (expires : Expires g ports n) :
    (states g ports (n + 1)).irq = true ↔
      ∀ k, k + 1 = n → Issued g ports k 0 → (ports k).wbi.dat.getLsbD 0 = true := by
  have expiry : (states g ports (n + 1)).irq =
      if (states g ports n).decoder0.write && (states g ports n).decoder0.index == 0 then
        (states g ports n).decoder0.data.getLsbD 0
      else true := by
    rw [states_succ, step, State.irq, comb, expires.2, if_neg Bool.false_ne_true, expires.1]
    by_cases write : (states g ports n).decoder0.write = true
    · by_cases zero : (states g ports n).decoder0.index = 0
      · simp [write, zero]
      · by_cases one : (states g ports n).decoder0.index = 1 <;> simp [write, zero, one]
    · simp [write]
  rw [expiry]
  constructor
  · rintro high k rfl issued
    rw [issued.decoder] at high
    exact high
  · intro kept
    split
    · rename_i written
      obtain ⟨write, index⟩ := Bool.and_eq_true _ _ |>.mp written
      obtain ⟨k, before, issued, data⟩ := issued_of_write write
      rw [beq_iff_eq.mp index] at issued
      rw [data]
      exact kept k before issued
    · rfl

/-- The interrupt is raised for every expiry if and only if no write of the
register with a zero is issued in the cycle before an expiry. -/
theorem timer_raises_iff (g : Generics) (ports : Nat → Ports) : Raises g ports ↔
    ∀ k, Issued g ports k 0 → (ports k).wbi.dat.getLsbD 0 = false →
      ¬ Expires g ports (k + 1) := by
  constructor
  · intro raises k issued zero expires
    have high := (irq_succ_iff expires).mp (raises.expiry (k + 1) expires) k rfl issued
    rw [zero] at high
    cases high
  · intro safe
    have expiry : ∀ n, Expires g ports n → (states g ports (n + 1)).irq = true := by
      intro n expires
      rw [irq_succ_iff expires]
      rintro k rfl issued
      by_contra zero
      exact safe k issued (by simpa using zero) expires
    refine ⟨expiry, ?_⟩
    rintro k issued rounds when rfl alone
    have whole : BitVec.ofNat 32 (rounds * 2 ^ 32) = 0#32 := by
      apply BitVec.eq_of_toNat_eq
      rw [BitVec.toNat_ofNat, Nat.mul_mod_left]
      rfl
    have count := issued.count_add ((ports k).wbi.dat.toNat + rounds * 2 ^ 32)
      fun m after before => alone m after (by omega)
    rw [BitVec.ofNat_add, whole, BitVec.ofNat_toNat, BitVec.setWidth_eq, BitVec.add_zero,
      BitVec.sub_self] at count
    exact expiry _ ⟨count, (alone _ (by omega) le_rfl).1⟩

end Runs

/-- A timer of the library, which counts from 3 after a reset. -/
def fromThree : Generics := ⟨0x40000020, 3, by decide⟩

/-- The interrupt is acknowledged in the cycle before the counter is at zero. -/
def ackAtExpiry (n : Nat) : Ports := ⟨false, ⟨0x40000020, 0, 0xf, true, n == 2 || n == 3⟩⟩

/-- The interrupt of the expiry is never raised. -/
theorem timer_misses_expiry : ¬ ∀ (g : Generics) (ports : Nat → Ports), Raises g ports := by
  intro claim
  have expires : Expires fromThree ackAtExpiry 3 := ⟨by decide +kernel, rfl⟩
  have high := (claim fromThree ackAtExpiry).expiry 3 expires
  have low : (states fromThree ackAtExpiry 4).irq = false := by decide +kernel
  rw [low] at high
  cases high

end Timer

end Cocoapuffs

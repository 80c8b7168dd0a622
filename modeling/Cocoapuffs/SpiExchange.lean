import Cocoapuffs.SdcardWblite

/-!
# The exchange of a byte on the wires

What `sdcard_wblite` puts on the wires when a byte is written to it, whatever
comes back on `miso`, and a processor that runs `SDCard::Transfer`.  One instant
is one rising edge of `clk`.
-/

namespace Cocoapuffs

namespace SdcardWblite

variable {g : Generics}

/-- A write of the data or of the control register is taken. -/
structure Disturbs (g : Generics) (bus : HostBus) (c : Controller) : Prop where
  hit : c.hit g bus = true
  we : bus.we = true
  reg : regOf bus = 0 ∨ regOf bus = 1

/-! ### Half periods -/

/-- A transfer is `count` clocks into a half period of `sck`. -/
structure Phase (data : BitVec 8) (divider half count : Nat) (c : Controller) : Prop where
  state : c.state = .transfer
  bitCounter : c.bitCounter = 7 - half / 2
  divCounter : c.divCounter.toNat = count
  sck : c.sck = decide (half % 2 = 1)
  txData : c.txData = data
  clkDiv : c.clkDiv.toNat = divider

theorem Phase.active {data : BitVec 8} {divider half count : Nat} {c : Controller}
    (phase : Phase data divider half count c) : c.state ≠ .idle := by
  rw [phase.state]
  exact StateType.noConfusion

/-- The bits that have been received before a half period. -/
def Sampled (miso : Nat → Bool) (t divider half : Nat) (rxData : BitVec 8) : Prop :=
  ∀ i, 2 * i + 1 ≤ half → rxData.getLsbD (7 - i) = miso (t + (2 * i + 1) * divider)

/-- Either register changes only by a write of its own. -/
theorem slave_cases (g : Generics) (bus : HostBus) (c : Controller) :
    (c.slave g bus).txData = c.txData ∧ (c.slave g bus).clkDiv = c.clkDiv ∨
      c.hit g bus = true ∧ bus.we = true ∧
        (regOf bus = 0 ∧ (c.slave g bus).clkDiv = c.clkDiv ∨
          regOf bus = 1 ∧ (c.slave g bus).txData = c.txData) := by
  cases hit : c.hit g bus with
  | false => simp [Controller.slave, hit]
  | true =>
      cases we : bus.we with
      | false => simp [Controller.slave, hit, we]
      | true =>
          by_cases data : regOf bus = 0
          · exact .inr ⟨rfl, rfl, .inl ⟨data, by simp [Controller.slave, hit, we, data]⟩⟩
          · by_cases ctrl : regOf bus = 1
            · exact .inr ⟨rfl, rfl, .inr ⟨ctrl, by simp [Controller.slave, hit, we, ctrl]⟩⟩
            · left
              simp only [Controller.slave, hit, we, if_true, if_neg data, if_neg ctrl, and_self]

section Steps

variable {bus : HostBus} {c : Controller} (undisturbed : ¬ Disturbs g bus c) (miso : Bool)
include undisturbed

theorem slave_undisturbed :
    (c.slave g bus).txData = c.txData ∧ (c.slave g bus).clkDiv = c.clkDiv := by
  rcases slave_cases g bus c with kept | ⟨hit, we, ⟨data, -⟩ | ⟨ctrl, -⟩⟩
  · exact kept
  · exact absurd ⟨hit, we, .inl data⟩ undisturbed
  · exact absurd ⟨hit, we, .inr ctrl⟩ undisturbed

theorem step_undisturbed : c.step g false bus miso =
    { c.spi g bus miso with
      ack := (c.slave g bus).ack, rdt := (c.slave g bus).rdt, csN := (c.slave g bus).csN
      clkDiv := c.clkDiv, txData := c.txData } := by
  obtain ⟨tx, div⟩ := slave_undisturbed undisturbed
  simp only [Controller.step, Bool.false_eq_true, if_false, tx, div]

omit undisturbed in
theorem Phase.last_iff {data : BitVec 8} {divider half count : Nat}
    (phase : Phase data divider half count c) (positive : 0 < divider) :
    c.divCounter = c.clkDiv - 1 ↔ count + 1 = divider := by
  have small := c.clkDiv.isLt
  rw [← BitVec.toNat_inj, BitVec.toNat_sub, phase.divCounter]
  rw [phase.clkDiv] at small ⊢
  simp only [BitVec.reduceToNat]
  omega

theorem Phase.tick {data : BitVec 8} {divider half count : Nat}
    (phase : Phase data divider half count c) (more : count + 1 < divider) :
    Phase data divider half (count + 1) (c.step g false bus miso) ∧
      (c.step g false bus miso).rxData = c.rxData := by
  have small := c.clkDiv.isLt
  have early : c.divCounter ≠ c.clkDiv - 1 := fun last => by
    have := (phase.last_iff (by omega)).mp last
    omega
  have counted : (c.divCounter + 1).toNat = count + 1 := by
    rw [BitVec.toNat_add, phase.divCounter]
    rw [phase.clkDiv] at small
    exact Nat.mod_eq_of_lt (by simp only [BitVec.reduceToNat]; omega)
  rw [step_undisturbed undisturbed, Controller.spi, phase.state]
  simp only [early, if_false]
  exact ⟨⟨rfl, phase.bitCounter, counted, phase.sck, phase.txData, phase.clkDiv⟩, trivial⟩

/-- Each half period but the last is followed by another; as `sck` rises a bit is
received. -/
theorem Phase.flip {data : BitVec 8} {divider half count : Nat}
    (phase : Phase data divider half count c) (last : count + 1 = divider) (more : half < 15) :
    Phase data divider (half + 1) 0 (c.step g false bus miso) ∧
      (c.step g false bus miso).rxData =
        if half % 2 = 0 then setBit c.rxData (7 - half / 2) miso else c.rxData := by
  have now := (phase.last_iff (by omega)).mpr last
  rw [step_undisturbed undisturbed, Controller.spi, phase.state]
  by_cases odd : half % 2 = 1
  · have high : c.sck = true := by simp [phase.sck, odd]
    have counter : c.bitCounter ≠ 0 := by
      rw [phase.bitCounter]
      omega
    have even : ¬ half % 2 = 0 := by omega
    have low : ¬ (half + 1) % 2 = 1 := by omega
    simp only [now, high, counter, if_true, if_false, even]
    refine ⟨⟨rfl, ?_, rfl, by simp [low], phase.txData, phase.clkDiv⟩, trivial⟩
    change c.bitCounter - 1 = _
    rw [phase.bitCounter]
    omega
  · have low : c.sck = false := by simp [phase.sck, odd]
    have even : half % 2 = 0 := by omega
    have high : (half + 1) % 2 = 1 := by omega
    simp only [now, low, if_true, Bool.false_eq_true, if_false, even, phase.bitCounter]
    refine ⟨⟨rfl, ?_, rfl, by simp [high], phase.txData, phase.clkDiv⟩, trivial⟩
    change 7 - half / 2 = 7 - (half + 1) / 2
    omega

theorem Phase.finish {data : BitVec 8} {divider count : Nat}
    (phase : Phase data divider 15 count c) (last : count + 1 = divider) :
    (c.step g false bus miso).state = .done ∧ (c.step g false bus miso).sck = false ∧
      (c.step g false bus miso).rxData = c.rxData := by
  have now := (phase.last_iff (by omega)).mpr last
  have high : c.sck = true := by rw [phase.sck]; rfl
  have counter : c.bitCounter = 0 := phase.bitCounter
  rw [step_undisturbed undisturbed, Controller.spi, phase.state]
  simp only [now, high, counter, if_true, and_self]

end Steps

/-! ### The wave -/

section Waves

variable {c : Nat → Controller} {bus : Nat → HostBus} {miso : Nat → Bool}
  (runs : ∀ n, c (n + 1) = (c n).step g false (bus n) (miso n))
  {t divider : Nat} {data : BitVec 8}
  (alone : ∀ n, t < n → (c n).state ≠ .idle → ¬ Disturbs g (bus n) (c n))
include runs alone

theorem half_states {half : Nat}
    (phase : Phase data divider half 0 (c (t + 1 + half * divider)))
    (sampled : Sampled miso t divider half (c (t + 1 + half * divider)).rxData) {count : Nat}
    (inside : count < divider) :
    Phase data divider half count (c (t + 1 + half * divider + count)) ∧
      Sampled miso t divider half (c (t + 1 + half * divider + count)).rxData := by
  induction count with
  | zero => exact ⟨phase, sampled⟩
  | succ count ih =>
      obtain ⟨phase, sampled⟩ := ih (by omega)
      obtain ⟨next, same⟩ := phase.tick
        (alone (t + 1 + half * divider + count) (by omega) phase.active) (miso _) inside
      rw [← Nat.add_assoc, runs, same]
      exact ⟨next, sampled⟩

variable (positive : 0 < divider) (begun : Phase data divider 0 0 (c (t + 1)))
include positive begun

theorem wave_states {half : Nat} (bound : half < 16) :
    Phase data divider half 0 (c (t + 1 + half * divider)) ∧
      Sampled miso t divider half (c (t + 1 + half * divider)).rxData := by
  induction half with
  | zero =>
      rw [Nat.zero_mul, Nat.add_zero]
      exact ⟨begun, fun i early => by omega⟩
  | succ half ih =>
      obtain ⟨first, received⟩ := ih (by omega)
      obtain ⟨phase, sampled⟩ := half_states runs alone first received
        (Nat.sub_lt positive (by decide : 0 < 1))
      have edge : t + 1 + half * divider + (divider - 1) = t + (half + 1) * divider := by
        rw [Nat.succ_mul]
        omega
      rw [edge] at phase sampled
      have later : 1 * divider ≤ (half + 1) * divider := Nat.mul_le_mul_right _ (by omega)
      obtain ⟨next, rx⟩ :=
        phase.flip (alone _ (by omega) phase.active) (miso _) (by omega) (by omega)
      rw [show t + 1 + (half + 1) * divider = t + (half + 1) * divider + 1 by omega, runs]
      refine ⟨next, fun i early => ?_⟩
      rw [rx]
      split
      · rename_i even
        rw [getLsbD_setBit _ _ (by omega)]
        by_cases now : 2 * i = half
        · rw [if_pos (by omega), now]
        · rw [if_neg (by omega), sampled i (by omega)]
      · exact sampled i (by omega)

/-- The byte is over with its last half period. -/
theorem wave_end : (c (t + 16 * divider + 1)).state = .done ∧
    (c (t + 16 * divider + 1)).sck = false ∧
      Sampled miso t divider 15 (c (t + 16 * divider + 1)).rxData := by
  obtain ⟨first, received⟩ := wave_states runs alone positive begun (by decide : 15 < 16)
  obtain ⟨phase, sampled⟩ := half_states runs alone first received
    (Nat.sub_lt positive (by decide : 0 < 1))
  rw [show t + 1 + 15 * divider + (divider - 1) = t + 16 * divider by omega] at phase sampled
  obtain ⟨done, low, same⟩ :=
    phase.finish (alone _ (by omega) phase.active) (miso _) (by omega)
  rw [runs, same]
  exact ⟨done, low, sampled⟩

theorem phase_at {half count : Nat} (bound : half < 16) (inside : count < divider) :
    Phase data divider half count (c (t + 1 + half * divider + count)) := by
  obtain ⟨first, received⟩ := wave_states runs alone positive begun bound
  exact (half_states runs alone first received inside).1

omit runs alone begun in
/-- Any clock of the transfer lies in one of its half periods. -/
theorem exists_half {n : Nat} (after : t < n) (before : n ≤ t + 16 * divider) :
    ∃ half count, half < 16 ∧ count < divider ∧ n = t + 1 + half * divider + count := by
  have split := Nat.div_add_mod' (n - (t + 1)) divider
  refine ⟨(n - (t + 1)) / divider, (n - (t + 1)) % divider, ?_, Nat.mod_lt _ positive, by omega⟩
  exact Nat.div_lt_of_lt_mul (by rw [Nat.mul_comm]; omega)

end Waves

/-! ### Registers -/

/-- A controller that has been reset, and whatever has been on its ports since. -/
inductive Reachable (g : Generics) : Controller → Prop where
  | reset (c : Controller) (bus : HostBus) (miso : Bool) : Reachable g (c.step g true bus miso)
  | step {c : Controller} (rst : Bool) (bus : HostBus) (miso : Bool) (reached : Reachable g c) :
      Reachable g (c.step g rst bus miso)

/-- What holds of the registers at all times. -/
structure Consistent (c : Controller) : Prop where
  busy : c.busy = decide (c.state ≠ .idle)
  sck : c.sck = true → c.state = .transfer
  divides : 0 < c.clkDiv.toNat

theorem Consistent.reset (g : Generics) (bus : HostBus) (miso : Bool) (c : Controller) :
    Consistent (c.step g true bus miso) := by
  constructor <;> simp [Controller.step]

theorem Consistent.spi {c : Controller} (consistent : Consistent c) (bus : HostBus) (miso : Bool) :
    Consistent (c.spi g bus miso) := by
  have busy := consistent.busy
  have divides := consistent.divides
  cases state : c.state with
  | idle =>
      rw [state] at busy
      rw [Controller.spi, state]
      dsimp only
      split
      · exact ⟨by simp, by simp, divides⟩
      · exact ⟨by simpa [state] using busy, by simp, divides⟩
  | transfer =>
      rw [state] at busy
      rw [Controller.spi, state]
      dsimp only
      repeat' split
      all_goals exact ⟨by simpa [state] using busy, by simp, divides⟩
  | done =>
      rw [Controller.spi, state]
      exact ⟨by simp, by simp, divides⟩

theorem slave_divides {c : Controller} (divides : 0 < c.clkDiv.toNat) (bus : HostBus) :
    0 < (c.slave g bus).clkDiv.toNat := by
  have taken : 0 < (if bus.dat.extractLsb' 16 16 = 0 then (1 : BitVec 16)
      else bus.dat.extractLsb' 16 16).toNat := by
    split
    · decide
    · rename_i nonzero
      exact Nat.pos_of_ne_zero fun zero => nonzero (BitVec.eq_of_toNat_eq zero)
  unfold Controller.slave
  cases c.hit g bus with
  | false => exact divides
  | true =>
      cases bus.we with
      | false => exact divides
      | true =>
          by_cases data : regOf bus = 0
          · simpa only [if_true, data] using divides
          · by_cases ctrl : regOf bus = 1
            · simp only [if_true, if_neg data, if_pos ctrl]
              split
              · exact taken
              · exact divides
            · simpa only [if_true, if_neg data, if_neg ctrl] using divides

theorem Reachable.consistent {c : Controller} (reached : Reachable g c) : Consistent c := by
  induction reached with
  | reset c bus miso => exact Consistent.reset g bus miso c
  | @step c rst bus miso reached ih =>
      cases rst with
      | true => exact Consistent.reset g bus miso c
      | false =>
          have spi := ih.spi (g := g) bus miso
          rw [Controller.step, if_neg Bool.false_ne_true]
          exact ⟨spi.busy, spi.sck, slave_divides ih.divides bus⟩

/-! ### The processor -/

/-- Where the processor is in `SDCard::Transfer`. -/
inductive Pc where
  | write
  | poll
  | read
  | returned (rx : BitVec 8)
deriving DecidableEq

/-- The processor: its place, and whether the register access of this place is on
the bus. -/
structure Cpu where
  pc : Pc
  raised : Bool
deriving DecidableEq

/-- The register access at a place. -/
def Pc.access (g : Generics) (data : BitVec 8) : Pc → Option HostBus
  | .write => some ⟨g.baseAddress, data.setWidth 32, 0xF, true, true⟩
  | .poll => some ⟨g.baseAddress + 4, 0, 0xF, false, true⟩
  | .read => some ⟨g.baseAddress, 0, 0xF, false, true⟩
  | .returned _ => none

/-- Where the processor goes on with what the access has returned; the loop is
left when the busy bit is clear. -/
def Pc.next (rdt : BitVec 32) : Pc → Pc
  | .write => .poll
  | .poll => if rdt &&& 2 ≠ 0 then .poll else .read
  | .read => .returned (rdt.setWidth 8)
  | .returned rx => .returned rx

/-- One edge of the processor, which raises its access when `go` is high and
holds it until it is acknowledged. -/
def Cpu.step (go ack : Bool) (rdt : BitVec 32) (cpu : Cpu) : Cpu :=
  match cpu.pc with
  | .returned _ => cpu
  | pc =>
      if cpu.raised then if ack then ⟨pc.next rdt, false⟩ else cpu
      else { cpu with raised := go }

/-- The signals and choices at one edge: what comes back from the wires, whether
the processor goes on, and its access to something else. -/
structure Signals where
  miso : Bool
  go : Bool
  other : HostBus

structure Driven where
  ctl : Controller
  cpu : Cpu
deriving DecidableEq

/-- What the processor has on the bus. -/
def Cpu.bus (g : Generics) (data : BitVec 8) (other : HostBus) (cpu : Cpu) : HostBus :=
  if cpu.raised then (cpu.pc.access g data).getD other else other

/-- One edge of the controller and the processor. -/
def Driven.step (g : Generics) (data : BitVec 8) (i : Signals) (s : Driven) : Driven where
  ctl := s.ctl.step g false (s.cpu.bus g data i.other) i.miso
  cpu := s.cpu.step i.go s.ctl.ack s.ctl.rdt

section Transfers

variable (g) (start : Controller) (data : BitVec 8) (signals : Nat → Signals)

/-- `Transfer` is called at instant 0. -/
def transferStates : Nat → Driven :=
  Trace.run (Driven.step g data) ⟨start, ⟨.write, false⟩⟩ signals

def ctl (n : Nat) : Controller := (transferStates g start data signals n).ctl

def cpu (n : Nat) : Cpu := (transferStates g start data signals n).cpu

/-- The divider of the transfer that is taken at edge `t`. -/
def divider (t : Nat) : Nat := (ctl g start data signals t).clkDiv.toNat

/-- `Transfer` is called with the controller idle. -/
structure Setting : Prop where
  reached : Reachable g start
  idle : start.state = .idle
  /-- The other accesses of the processor do not write the data register, nor the
  control register while the controller is busy. -/
  harmless : ∀ n, Disturbs g (signals n).other (ctl g start data signals n) →
    regOf (signals n).other = 1 ∧ (ctl g start data signals n).state = .idle
  /-- An access is not raised before another one has been acknowledged. -/
  turns : ∀ n, (cpu g start data signals n).raised = false →
    (ctl g start data signals n).hit g (signals n).other = true → (signals n).go = false
  fair : Trace.Recurs fun n => (signals n).go = true

/-- What happens on the wires and to the processor if the byte is taken at edge
`t`.  An edge of `sck` at `n` is between the instants `n` and `n + 1`. -/
structure Exchange (t : Nat) : Prop where
  divides : 0 < divider g start data signals t
  busy : ∀ n, (ctl g start data signals n).busy =
    decide ((ctl g start data signals n).state ≠ .idle)
  active : ∀ n, (ctl g start data signals n).state ≠ .idle ↔
    t < n ∧ n ≤ t + 16 * divider g start data signals t + 1
  low : ∀ n, n ≤ t ∨ t + 16 * divider g start data signals t < n →
    (ctl g start data signals n).sck = false
  rises : ∀ n, (ctl g start data signals n).sck = false ∧
      (ctl g start data signals (n + 1)).sck = true ↔
    ∃ i < 8, n = t + (2 * i + 1) * divider g start data signals t
  falls : ∀ n, (ctl g start data signals n).sck = true ∧
      (ctl g start data signals (n + 1)).sck = false ↔
    ∃ i < 8, n = t + (2 * i + 2) * divider g start data signals t
  mosi : ∀ i < 8, ∀ n, t + 2 * i * divider g start data signals t < n →
    n ≤ t + (2 * i + 2) * divider g start data signals t →
      (ctl g start data signals n).mosi = data.getLsbD (7 - i)
  received : ∀ n, t + 16 * divider g start data signals t < n → ∀ i < 8,
    (ctl g start data signals n).rxData.getLsbD (7 - i) =
      (signals (t + (2 * i + 1) * divider g start data signals t)).miso
  returned : ∃ m, t + 16 * divider g start data signals t < m ∧
    (cpu g start data signals m).pc = .returned (ctl g start data signals m).rxData

variable {g start data signals}

/-- What is on the bus. -/
abbrev busAt (g : Generics) (start : Controller) (data : BitVec 8) (signals : Nat → Signals)
    (n : Nat) : HostBus :=
  (cpu g start data signals n).bus g data (signals n).other

theorem ctl_succ (n : Nat) : ctl g start data signals (n + 1) =
    (ctl g start data signals n).step g false (busAt g start data signals n) (signals n).miso :=
  rfl

theorem cpu_succ (n : Nat) : cpu g start data signals (n + 1) =
    (cpu g start data signals n).step (signals n).go (ctl g start data signals n).ack
      (ctl g start data signals n).rdt :=
  rfl

theorem ack_succ (n : Nat) : (ctl g start data signals (n + 1)).ack =
    (ctl g start data signals n).hit g (busAt g start data signals n) := by
  rw [ctl_succ, step_ack]

theorem Cpu.step_wait {p : Pc} {b : HostBus} (access : p.access g data = some b) (go ack : Bool)
    (rdt : BitVec 32) : Cpu.step go ack rdt ⟨p, false⟩ = ⟨p, go⟩ := by
  cases p <;> first | rfl | cases access

theorem Cpu.step_raised {p : Pc} {b : HostBus} (access : p.access g data = some b) (go ack : Bool)
    (rdt : BitVec 32) :
    Cpu.step go ack rdt ⟨p, true⟩ = if ack then ⟨p.next rdt, false⟩ else ⟨p, true⟩ := by
  cases p <;> first | rfl | cases access

theorem Cpu.step_pc (go ack : Bool) (rdt : BitVec 32) (s : Cpu) :
    (s.step go ack rdt).pc = s.pc ∨ (s.step go ack rdt).pc = s.pc.next rdt := by
  obtain ⟨pc, raised⟩ := s
  cases pc with
  | returned rx => exact .inl rfl
  | _ => cases raised <;> cases ack <;> first | exact .inl rfl | exact .inr rfl

theorem Pc.next_ne_write (rdt : BitVec 32) (p : Pc) : p.next rdt ≠ .write := by
  cases p with
  | poll =>
      rw [Pc.next]
      split <;> simp
  | _ => simp [Pc.next]

theorem access_window {p : Pc} {b : HostBus} (access : p.access g data = some b) :
    b.cyc = true ∧ g.addressMatch b = true := by
  cases p with
  | write => obtain rfl := Option.some.inj access; exact ⟨rfl, (match_data g _ rfl).1⟩
  | poll => obtain rfl := Option.some.inj access; exact ⟨rfl, (match_ctrl g _ rfl).1⟩
  | read => obtain rfl := Option.some.inj access; exact ⟨rfl, (match_data g _ rfl).1⟩
  | returned rx => cases access

/-- An access of the processor, raised at `m`. -/
structure Accesses (g : Generics) (start : Controller) (data : BitVec 8) (signals : Nat → Signals)
    (p : Pc) (b : HostBus) (n m : Nat) : Prop where
  after : n < m
  waits : ∀ k, n ≤ k → k < m → cpu g start data signals k = ⟨p, false⟩
  bus : busAt g start data signals m = b
  hit : (ctl g start data signals m).hit g b = true
  held : cpu g start data signals (m + 1) = ⟨p, true⟩
  acked : (ctl g start data signals (m + 1)).ack = true
  done : cpu g start data signals (m + 2) =
    ⟨p.next (ctl g start data signals (m + 1)).rdt, false⟩

theorem Accesses.rdt {p : Pc} {b : HostBus} {n m : Nat}
    (access : Accesses g start data signals p b n m) (we : b.we = false) :
    (ctl g start data signals (m + 1)).rdt =
      (ctl g start data signals m).register (regOf b) := by
  rw [ctl_succ, access.bus, Controller.step, if_neg Bool.false_ne_true]
  simp [Controller.slave, access.hit, we]

variable (setting : Setting g start data signals)
include setting

theorem consistent_ctl (n : Nat) : Consistent (ctl g start data signals n) := by
  have reached : Reachable g (ctl g start data signals n) := by
    induction n with
    | zero => exact setting.reached
    | succ n ih => exact ih.step false _ _
  exact reached.consistent

theorem divider_pos (t : Nat) : 0 < divider g start data signals t :=
  (consistent_ctl setting t).divides

theorem accesses {p : Pc} {b : HostBus} (access : p.access g data = some b) {n : Nat}
    (now : cpu g start data signals n = ⟨p, false⟩) :
    ∃ m, Accesses g start data signals p b n m := by
  have happens : Trace.LeadsTo
      (fun m => n ≤ m ∧ ∀ k, n ≤ k → k ≤ m → cpu g start data signals k = ⟨p, false⟩)
      (fun m => (signals m).go = true) :=
    fun m _ => setting.fair m
  obtain ⟨m, -, ⟨from_, waiting⟩, goes⟩ := happens.until_event
    (by
      rintro m ⟨from_, waiting⟩ stops
      refine ⟨by omega, fun k after before => ?_⟩
      rcases Nat.le_succ_iff.mp before with earlier | rfl
      · exact waiting k after earlier
      · rw [cpu_succ, waiting m from_ le_rfl, Cpu.step_wait access, Bool.eq_false_iff.mpr stops])
    n ⟨le_rfl, fun k after before => by rw [le_antisymm before after, now]⟩
  have raised : cpu g start data signals (m + 1) = ⟨p, true⟩ := by
    rw [cpu_succ, waiting m from_ le_rfl, Cpu.step_wait access, goes]
  have unacked : (ctl g start data signals (m + 1)).ack = false := by
    have low : (cpu g start data signals m).raised = false := by rw [waiting m from_ le_rfl]
    have same : busAt g start data signals m = (signals m).other := by simp [Cpu.bus, low]
    rw [ack_succ, same, Bool.eq_false_iff]
    intro hit
    rw [setting.turns m low hit] at goes
    cases goes
  have bus : busAt g start data signals (m + 1) = b := by
    simp [Cpu.bus, raised, access]
  obtain ⟨cyc, window⟩ := access_window access
  have hit : (ctl g start data signals (m + 1)).hit g b = true := by
    simp [Controller.hit, cyc, window, unacked]
  have held : cpu g start data signals (m + 2) = ⟨p, true⟩ := by
    rw [cpu_succ, raised, Cpu.step_raised access, unacked, if_neg Bool.false_ne_true]
  have acked : (ctl g start data signals (m + 2)).ack = true := by rw [ack_succ, bus, hit]
  refine ⟨m + 1, by omega, fun k after before => waiting k after (by omega), bus, hit, held,
    acked, ?_⟩
  rw [cpu_succ, held, Cpu.step_raised access, acked, if_pos rfl]

/-- Only the processor's own access can write the data register. -/
theorem unwritten {n : Nat} (reads : ∀ b, (cpu g start data signals n).raised = true →
      (cpu g start data signals n).pc.access g data = some b → b.we = false)
    (disturbs : Disturbs g (busAt g start data signals n) (ctl g start data signals n)) :
    regOf (busAt g start data signals n) = 1 ∧ (ctl g start data signals n).state = .idle := by
  have others (same : busAt g start data signals n = (signals n).other) :
      regOf (busAt g start data signals n) = 1 ∧ (ctl g start data signals n).state = .idle := by
    rw [same] at disturbs ⊢
    exact setting.harmless n disturbs
  cases raised : (cpu g start data signals n).raised with
  | false => exact others (by simp [Cpu.bus, raised])
  | true =>
      cases access : (cpu g start data signals n).pc.access g data with
      | none => exact others (by simp [Cpu.bus, raised, access])
      | some b =>
          have we := disturbs.we
          have same : busAt g start data signals n = b := by simp [Cpu.bus, raised, access]
          rw [same, reads b raised access] at we
          cases we

theorem rest_succ {n : Nat} (idle : (ctl g start data signals n).state = .idle)
    (reads : ∀ b, (cpu g start data signals n).raised = true →
      (cpu g start data signals n).pc.access g data = some b → b.we = false) :
    (ctl g start data signals (n + 1)).state = .idle ∧
      (ctl g start data signals (n + 1)).rxData = (ctl g start data signals n).rxData := by
  rw [ctl_succ, Controller.step, if_neg Bool.false_ne_true]
  simp only [Controller.spi, idle]
  split
  · rename_i begins
    simp only [Bool.and_eq_true, beq_iff_eq] at begins
    have reg := (unwritten setting reads ⟨begins.1.1, begins.1.2, .inl begins.2⟩).1
    rw [begins.2] at reg
    exact absurd reg (by decide)
  · exact ⟨rfl, rfl⟩

section Taken

variable {b : HostBus} {t : Nat} (access : Pc.write.access g data = some b)
  (taken : Accesses g start data signals .write b 0 t)
include access taken

omit access in
theorem rest_before {n : Nat} (before : n ≤ t) :
    (ctl g start data signals n).state = .idle := by
  induction n with
  | zero => exact setting.idle
  | succ n ih =>
      have waits := taken.waits n (Nat.zero_le n) (by omega)
      refine (rest_succ setting (ih (by omega)) fun b raised _ => ?_).1
      rw [waits] at raised
      cases raised

theorem begun : Phase data (divider g start data signals t) 0 0
    (ctl g start data signals (t + 1)) := by
  obtain rfl := Option.some.inj access
  have idle := rest_before setting taken le_rfl
  have hit := taken.hit
  have reg := (match_data g ⟨g.baseAddress, data.setWidth 32, 0xF, true, true⟩ rfl).2
  have dat : (data.setWidth 32).extractLsb' 0 8 = data := by
    apply BitVec.eq_of_getLsbD_eq
    intro j small
    simp [small, show j < 32 by omega]
  rw [ctl_succ, taken.bus, Controller.step, if_neg Bool.false_ne_true]
  simp only [Controller.spi, idle, hit, reg, Controller.slave, if_true, BEq.rfl, Bool.and_self]
  exact ⟨rfl, rfl, rfl, rfl, dat, rfl⟩

omit setting access in
theorem not_write_after {n : Nat} (after : t + 2 ≤ n) :
    (cpu g start data signals n).pc ≠ .write := by
  induction n, after using Nat.le_induction with
  | base =>
      rw [taken.done]
      exact Pc.next_ne_write 0 .write
  | succ n after ih =>
      rw [cpu_succ]
      rcases Cpu.step_pc (signals n).go (ctl g start data signals n).ack
          (ctl g start data signals n).rdt (cpu g start data signals n) with same | next
      · rwa [same]
      · rw [next]
        exact Pc.next_ne_write _ _

omit setting access in
/-- The processor writes once. -/
theorem reads_after {n : Nat} (after : t + 2 ≤ n) (b' : HostBus)
    (_ : (cpu g start data signals n).raised = true)
    (now : (cpu g start data signals n).pc.access g data = some b') : b'.we = false := by
  cases pc : (cpu g start data signals n).pc with
  | write => exact absurd pc (not_write_after taken after)
  | returned rx =>
      rw [pc] at now
      cases now
  | _ =>
      rw [pc] at now
      obtain rfl := Option.some.inj now
      rfl

omit access in
theorem alone_after (n : Nat) (after : t < n)
    (active : (ctl g start data signals n).state ≠ .idle) :
    ¬ Disturbs g (busAt g start data signals n) (ctl g start data signals n) := by
  intro disturbs
  rcases Nat.eq_or_lt_of_le after with rfl | later
  · have hit := disturbs.hit
    rw [Controller.hit, taken.acked] at hit
    simp at hit
  · exact active (unwritten setting (reads_after taken later) disturbs).2

/-- After the last half period the controller comes to rest and keeps what it has
received. -/
theorem rest_after {n : Nat} (after : t + 16 * divider g start data signals t + 2 ≤ n) :
    (ctl g start data signals n).state = .idle ∧
      (ctl g start data signals n).rxData =
        (ctl g start data signals (t + 16 * divider g start data signals t + 1)).rxData := by
  have positive : 0 < divider g start data signals t := divider_pos setting t
  have alone := alone_after setting taken
  induction n, after using Nat.le_induction with
  | base =>
      obtain ⟨done, -, -⟩ := wave_end ctl_succ alone positive (begun setting access taken)
      have active : (ctl g start data signals (t + 16 * divider g start data signals t + 1)).state ≠
          .idle := by
        rw [done]
        exact StateType.noConfusion
      rw [ctl_succ, step_undisturbed (alone _ (by omega) active), Controller.spi, done]
      exact ⟨rfl, rfl⟩
  | succ n after ih =>
      obtain ⟨still, same⟩ := rest_succ setting ih.1 (reads_after taken (by omega))
      exact ⟨still, same.trans ih.2⟩

theorem active_iff (n : Nat) : (ctl g start data signals n).state ≠ .idle ↔
    t < n ∧ n ≤ t + 16 * divider g start data signals t + 1 := by
  have positive : 0 < divider g start data signals t := divider_pos setting t
  have alone := alone_after setting taken
  have first := begun setting access taken
  constructor
  · intro active
    constructor
    · by_contra early
      exact active (rest_before setting taken (by omega))
    · by_contra late
      exact active (rest_after setting access taken (by omega)).1
  · rintro ⟨after, before⟩
    rcases Nat.le_or_eq_of_le_succ before with within | rfl
    · obtain ⟨half, count, bound, inside, rfl⟩ := exists_half positive after within
      rw [(phase_at ctl_succ alone positive first bound inside).state]
      exact StateType.noConfusion
    · rw [(wave_end ctl_succ alone positive first).1]
      exact StateType.noConfusion

theorem polls_end {n : Nat} (after : t + 2 ≤ n)
    (now : cpu g start data signals n = ⟨.poll, false⟩) :
    ∃ m, t + 16 * divider g start data signals t + 2 ≤ m ∧
      cpu g start data signals m = ⟨.read, false⟩ := by
  induction left : t + 16 * divider g start data signals t + 2 - n using Nat.strong_induction_on
    generalizing n with
  | _ left ih =>
      obtain ⟨m, poll⟩ := accesses setting (p := .poll) rfl now
      have later := poll.after
      have done := poll.done
      rw [poll.rdt rfl, (match_ctrl g _ rfl).2, Pc.next] at done
      have busy : (ctl g start data signals m).busy = _ := (consistent_ctl setting m).busy
      by_cases idle : (ctl g start data signals m).state = .idle
      · have free : (ctl g start data signals m).busy = false := by simp [busy, idle]
        rw [if_neg fun set => by simp [(busy_bit _).mp set] at free] at done
        refine ⟨m + 2, ?_, done⟩
        by_contra early
        exact (active_iff setting access taken m).mpr ⟨by omega, by omega⟩ idle
      · have working : (ctl g start data signals m).busy = true := by simp [busy, idle]
        rw [if_pos ((busy_bit _).mpr working)] at done
        have early : m < t + 16 * divider g start data signals t + 2 := by
          by_contra late
          exact idle (rest_after setting access taken (by omega)).1
        exact ih _ (by omega) (by omega) done rfl

/-- `sck` is high in every other half period, and low before and after. -/
theorem sck_low {n : Nat} (outside : n ≤ t ∨ t + 16 * divider g start data signals t < n) :
    (ctl g start data signals n).sck = false := by
  by_contra high
  have transfers : (ctl g start data signals n).state = .transfer :=
    (consistent_ctl setting n).sck (by simpa using high)
  have positive : 0 < divider g start data signals t := divider_pos setting t
  have alone := alone_after setting taken
  obtain ⟨after, before⟩ := (active_iff setting access taken n).mp
    (by rw [transfers]; exact StateType.noConfusion)
  obtain rfl : n = t + 16 * divider g start data signals t + 1 := by omega
  rw [(wave_end ctl_succ alone positive (begun setting access taken)).1] at transfers
  cases transfers

theorem sck_half {half count : Nat} (bound : half < 16)
    (inside : count < divider g start data signals t) :
    (ctl g start data signals (t + 1 + half * divider g start data signals t + count)).sck =
      decide (half % 2 = 1) := by
  have alone := alone_after setting taken
  exact (phase_at ctl_succ alone (by omega) (begun setting access taken) bound inside).sck

theorem odd_of_high {n : Nat} (high : (ctl g start data signals n).sck = true) :
    ∃ i count, i < 8 ∧ count < divider g start data signals t ∧
      n = t + 1 + (2 * i + 1) * divider g start data signals t + count := by
  have positive : 0 < divider g start data signals t := divider_pos setting t
  have within : t < n ∧ n ≤ t + 16 * divider g start data signals t := by
    by_contra outside
    rw [sck_low setting access taken (by omega)] at high
    cases high
  obtain ⟨half, count, bound, inside, rfl⟩ := exists_half positive within.1 within.2
  rw [sck_half setting access taken bound inside] at high
  have odd : half % 2 = 1 := of_decide_eq_true high
  exact ⟨half / 2, count, by omega, inside, by rw [show 2 * (half / 2) + 1 = half by omega]⟩

theorem rises_iff (n : Nat) : (ctl g start data signals n).sck = false ∧
      (ctl g start data signals (n + 1)).sck = true ↔
    ∃ i < 8, n = t + (2 * i + 1) * divider g start data signals t := by
  have positive : 0 < divider g start data signals t := divider_pos setting t
  constructor
  · rintro ⟨low, high⟩
    obtain ⟨i, count, bound, inside, same⟩ := odd_of_high setting access taken high
    refine ⟨i, bound, ?_⟩
    cases count with
    | zero => omega
    | succ count =>
        obtain rfl : n = t + 1 + (2 * i + 1) * divider g start data signals t + count := by omega
        rw [sck_half setting access taken (by omega) (by omega)] at low
        simp at low
  · rintro ⟨i, bound, rfl⟩
    have before := sck_half setting access taken (by omega : 2 * i < 16)
      (Nat.sub_lt positive (by decide : 0 < 1))
    have after := sck_half setting access taken (by omega : 2 * i + 1 < 16) positive
    have edge : t + 1 + 2 * i * divider g start data signals t +
        (divider g start data signals t - 1) =
        t + (2 * i + 1) * divider g start data signals t := by
      rw [Nat.succ_mul (2 * i)]
      omega
    rw [edge] at before
    rw [before, show t + (2 * i + 1) * divider g start data signals t + 1 =
      t + 1 + (2 * i + 1) * divider g start data signals t + 0 by omega, after]
    simp

theorem falls_iff (n : Nat) : (ctl g start data signals n).sck = true ∧
      (ctl g start data signals (n + 1)).sck = false ↔
    ∃ i < 8, n = t + (2 * i + 2) * divider g start data signals t := by
  have positive : 0 < divider g start data signals t := divider_pos setting t
  have next : ∀ i, (2 * i + 2) * divider g start data signals t =
      (2 * i + 1) * divider g start data signals t + divider g start data signals t :=
    fun i => Nat.succ_mul _ _
  constructor
  · rintro ⟨high, low⟩
    obtain ⟨i, count, bound, inside, rfl⟩ := odd_of_high setting access taken high
    refine ⟨i, bound, ?_⟩
    by_cases more : count + 1 < divider g start data signals t
    · rw [Nat.add_assoc, sck_half setting access taken (by omega) more] at low
      simp at low
    · rw [next]
      omega
  · rintro ⟨i, bound, rfl⟩
    have before := sck_half setting access taken (by omega : 2 * i + 1 < 16)
      (Nat.sub_lt positive (by decide : 0 < 1))
    have edge : t + 1 + (2 * i + 1) * divider g start data signals t +
        (divider g start data signals t - 1) =
        t + (2 * i + 2) * divider g start data signals t := by
      rw [next]
      omega
    rw [edge] at before
    refine ⟨by rw [before]; simp, ?_⟩
    rcases Nat.lt_or_ge i 7 with more | last
    · have after := sck_half setting access taken (by omega : 2 * i + 2 < 16) positive
      rw [show t + (2 * i + 2) * divider g start data signals t + 1 =
        t + 1 + (2 * i + 2) * divider g start data signals t + 0 by omega, after]
      simp
    · obtain rfl : i = 7 := by omega
      exact sck_low setting access taken (.inr (by omega))

theorem exchange : Exchange g start data signals t := by
  have positive : 0 < divider g start data signals t := divider_pos setting t
  have alone := alone_after setting taken
  have first := begun setting access taken
  have sampled := (wave_end ctl_succ alone positive first).2.2
  constructor
  · exact positive
  · exact fun n => (consistent_ctl setting n).busy
  · exact active_iff setting access taken
  · exact fun n outside => sck_low setting access taken outside
  · exact rises_iff setting access taken
  · exact falls_iff setting access taken
  · intro i bound n after before
    have whole : (2 * i + 2) * divider g start data signals t ≤
        16 * divider g start data signals t :=
      Nat.mul_le_mul_right _ (by omega)
    obtain ⟨half, count, small, inside, rfl⟩ :=
      exists_half positive (by omega : t < n) (by omega)
    have phase := phase_at ctl_succ alone positive first small inside
    have least : 2 * i < half + 1 := by
      apply Nat.lt_of_mul_lt_mul_right (a := divider g start data signals t)
      rw [Nat.succ_mul half]
      omega
    have most : half < 2 * i + 2 := by
      apply Nat.lt_of_mul_lt_mul_right (a := divider g start data signals t)
      omega
    rw [Controller.mosi, phase.state, phase.txData, phase.bitCounter,
      show half / 2 = i by omega]
  · intro n after i bound
    refine Eq.trans ?_ (sampled i (by omega))
    rcases Nat.eq_or_lt_of_le after with rfl | later
    · rfl
    · rw [(rest_after setting access taken later).2]
  · have polls : cpu g start data signals (t + 2) = ⟨.poll, false⟩ := taken.done
    obtain ⟨m, after, reads⟩ := polls_end setting access taken le_rfl polls
    obtain ⟨k, read⟩ := accesses setting (p := .read) rfl reads
    have later := read.after
    have done := read.done
    rw [read.rdt rfl, (match_data g _ rfl).2] at done
    refine ⟨k + 2, by omega, ?_⟩
    rw [done, (rest_after setting access taken (by omega)).2,
      ← (rest_after setting access taken (by omega : _ ≤ k)).2]
    simp [Pc.next, Controller.register]

end Taken

/-- `Transfer` puts the byte on the wires and returns the byte that comes back. -/
theorem transfer_exchanges : ∃ t, Exchange g start data signals t := by
  have called : cpu g start data signals 0 = ⟨.write, false⟩ := rfl
  obtain ⟨t, taken⟩ := accesses setting (p := .write) rfl called
  exact ⟨t, exchange setting rfl taken⟩

end Transfers

/-- The controller of the library. -/
def library : Generics := ⟨0x40000050, by decide⟩

/-- The divider has been set to 2 after a reset. -/
def halved : Controller :=
  let off : HostBus := ⟨0, 0, 0, false, false⟩
  let reset := Controller.step library true off true
    ⟨true, 1, 0, 0, .idle, 7, 0, false, false, false, 0⟩
  (reset.step library false ⟨0x40000054, 0x20000, 0xF, true, true⟩ true).step library false off true

/-- A card that answers `0x0F`.  The processor never waits, but for one other
poll of the control register. -/
def answering (n : Nat) : Signals where
  miso := 18 ≤ n
  go := n != 9
  other := ⟨0x40000054, 0, 0xF, false, n == 9 || n == 10⟩

theorem answering_setting : Setting library halved 0xA5 answering where
  reached := ((Reachable.reset _ _ _).step _ _ _).step _ _ _
  idle := by decide +kernel
  harmless n disturbs := by
    have we := disturbs.we
    cases we
  turns n _ hit := by
    have raised : n = 9 ∨ n = 10 := by
      simp only [Controller.hit, Bool.and_eq_true] at hit
      simpa [answering] using hit.1.1
    rcases raised with rfl | rfl
    · rfl
    · have acked : (ctl library halved 0xA5 answering 10).hit library (answering 10).other =
          false := by
        decide +kernel
      rw [acked] at hit
      cases hit
  fair n := by
    rcases Nat.lt_or_ge n 10 with early | late
    · exact ⟨10, by omega, rfl⟩
    · exact ⟨n, le_rfl, by simp [answering]; omega⟩

theorem transfer_exchanges_answering :
    (cpu library halved 0xA5 answering 44).pc = .returned 0x0F ∧
      ∃ t, Exchange library halved 0xA5 answering t :=
  ⟨by decide +kernel, transfer_exchanges answering_setting⟩

end SdcardWblite

end Cocoapuffs

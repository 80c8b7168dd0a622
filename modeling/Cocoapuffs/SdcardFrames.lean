import Cocoapuffs.SpiExchange

/-!
# The frames of the card controller

What `sdcard_wblite` shifts out along a run in which the bus does what it
likes, writes during a transfer included.  The two processes of the controller
share `tx_data` and `clk_div`.  One instant is one rising edge of `clk`.
-/

namespace Cocoapuffs

namespace SdcardWblite

structure Ports where
  bus : HostBus
  miso : Bool

/-- A write of the register with this index is taken at this edge. -/
def TakesWrite (g : Generics) (bus : HostBus) (c : Controller) (index : BitVec 2) : Prop :=
  c.hit g bus = true ∧ bus.we = true ∧ regOf bus = index

/-- `data` as it goes over the wire. -/
def msbFirst (data : BitVec 8) : List Bool :=
  (List.range 8).map fun i => data.getLsbD (7 - i)

/-- The level of `mosi` at a rising edge of `sck`. -/
def shiftedBit (before after : Controller) : Option Bool :=
  if !before.sck && after.sck then some after.mosi else none

section Definitions

variable (g : Generics) (start : Controller) (ports : Nat → Ports)

/-- The registers along a run that begins with a reset. -/
def portStates : Nat → Controller :=
  Trace.run (fun i c => c.step g false i.bus i.miso)
    (start.step g true (ports 0).bus (ports 0).miso) ports

/-- The byte of a write to the data register that is acknowledged by the edge at
this instant. -/
def acknowledgedByte (n : Nat) : Option (BitVec 8) :=
  if (portStates g start ports (n + 1)).ack && (ports n).bus.we && regOf (ports n).bus == 0 then
    some ((ports n).bus.dat.extractLsb' 0 8)
  else none

/-- The busy flag rises. -/
def FrameBegins (t : Nat) : Prop :=
  (portStates g start ports t).busy = false ∧ (portStates g start ports (t + 1)).busy = true

/-- The bits that go over the wire in the first `count` cycles after an edge. -/
def shiftedOut (t count : Nat) : List Bool :=
  Trace.history (fun n => shiftedBit (portStates g start ports (t + n))
    (portStates g start ports (t + n + 1))) count

/-- What is promised of the frame that begins at `t`: each bit is one of `data`,
there are eight of them, and there comes an end unless the divider is changed
again and again. -/
structure Frame (t : Nat) (data : BitVec 8) : Prop where
  partly : ∀ count, (∀ n, t < n → n ≤ t + count → (portStates g start ports n).busy = true) →
    shiftedOut g start ports t count <+: msbFirst data
  wholly : ∀ count, 0 < count →
    (∀ n, t < n → n < t + count → (portStates g start ports n).busy = true) →
    (portStates g start ports (t + count)).busy = false →
    shiftedOut g start ports t count = msbFirst data
  ends : ∀ last, (∀ n, last ≤ n →
      ¬ TakesWrite g (ports n).bus (portStates g start ports n) 1) →
    ∃ n, t < n ∧ (portStates g start ports n).busy = false

/-- Writes to the data register and frames are the same thing. -/
structure FrameIntegrity : Prop where
  starts : ∀ t data, acknowledgedByte g start ports t = some data → FrameBegins g start ports t
  shifts : ∀ t, FrameBegins g start ports t →
    ∃ data, acknowledgedByte g start ports t = some data ∧ Frame g start ports t data
  confined : ∀ n, (portStates g start ports n).sck = true →
    (portStates g start ports n).busy = true

end Definitions

variable {g : Generics}

/-! ### One edge -/

@[simp]
theorem msbFirst_length (data : BitVec 8) : (msbFirst data).length = 8 := by
  simp [msbFirst]

theorem msbFirst_take_succ (data : BitVec 8) {count : Nat} (more : count < 8) :
    (msbFirst data).take (count + 1) =
      (msbFirst data).take count ++ [data.getLsbD (7 - count)] := by
  rw [List.take_succ_eq_append_getElem (by simpa using more)]
  simp [msbFirst]

/-- How many bits of the frame are on the wire. -/
def Controller.sentCount (c : Controller) : Nat :=
  match c.state with
  | .transfer => 7 - c.bitCounter + c.sck.toNat
  | _ => 8

theorem sentCount_transfer {c : Controller} (state : c.state = .transfer) :
    c.sentCount = 7 - c.bitCounter + c.sck.toNat := by
  simp only [Controller.sentCount, state]

/-- A frame of `data` is under way, and `bits` of it are on the wire. -/
structure Framing (data : BitVec 8) (bits : List Bool) (c : Controller) : Prop where
  active : c.state ≠ .idle
  bits : bits = (msbFirst data).take c.sentCount
  shifting : c.state = .transfer → c.txData = data ∧ c.bitCounter < 8

section Edge

variable {bus : HostBus} {c : Controller} (miso : Bool)

theorem slave_txData (other : ¬ TakesWrite g bus c 0) : (c.slave g bus).txData = c.txData := by
  rcases slave_cases g bus c with kept | ⟨hit, we, ⟨data, -⟩ | ⟨-, kept⟩⟩
  · exact kept.1
  · exact absurd ⟨hit, we, data⟩ other
  · exact kept

theorem slave_clkDiv (other : ¬ TakesWrite g bus c 1) : (c.slave g bus).clkDiv = c.clkDiv := by
  rcases slave_cases g bus c with kept | ⟨hit, we, ⟨-, kept⟩ | ⟨ctrl, -⟩⟩
  · exact kept.2
  · exact kept
  · exact absurd ⟨hit, we, ctrl⟩ other

theorem framing_begin (idle : c.state = .idle) (takes : TakesWrite g bus c 0) :
    Framing (bus.dat.extractLsb' 0 8) [] (c.step g false bus miso) ∧
      shiftedBit c (c.step g false bus miso) = none := by
  obtain ⟨hit, we, reg⟩ := takes
  have spi : c.spi g bus miso =
      { c with
        sck := false, bitCounter := 7, divCounter := 0, busy := true, state := .transfer } := by
    simp [Controller.spi, idle, hit, we, reg]
  have tx : (c.slave g bus).txData = bus.dat.extractLsb' 0 8 := by
    simp [Controller.slave, hit, we, reg]
  simp only [Controller.step, Bool.false_eq_true, if_false, spi, tx, shiftedBit, Bool.and_false]
  exact ⟨⟨StateType.noConfusion, rfl, fun _ => ⟨rfl, Nat.lt_succ_self 7⟩⟩, trivial⟩

theorem idle_stays (idle : c.state = .idle) (other : ¬ TakesWrite g bus c 0) :
    (c.step g false bus miso).state = .idle := by
  change (c.spi g bus miso).state = .idle
  rw [Controller.spi, idle]
  dsimp only
  split
  · rename_i taken
    simp only [Bool.and_eq_true, beq_iff_eq] at taken
    exact absurd ⟨taken.1.1, taken.1.2, taken.2⟩ other
  · rfl

/-- The bits on the wire go on being those of the byte. -/
theorem framing_step {data : BitVec 8} {bits : List Bool} (framing : Framing data bits c)
    (other : ¬ TakesWrite g bus c 0) :
    let next := c.step g false bus miso
    let sent := bits ++ (shiftedBit c next).toList
    Framing data sent next ∨ next.state = .idle ∧ sent = msbFirst data := by
  intro next sent
  have tx : next.txData = c.txData := slave_txData other
  have spi : next.state = (c.spi g bus miso).state ∧ next.sck = (c.spi g bus miso).sck ∧
      next.bitCounter = (c.spi g bus miso).bitCounter := ⟨rfl, rfl, rfl⟩
  cases state : c.state with
  | idle => exact absurd state framing.active
  | done =>
      have low : next.state = .idle ∧ next.sck = false := by simp [spi, Controller.spi, state]
      have unsent : sent = bits := by simp [sent, shiftedBit, low.2]
      refine .inr ⟨low.1, ?_⟩
      rw [unsent, framing.bits, Controller.sentCount, state]
      exact List.take_of_length_le (by simp)
  | transfer =>
      obtain ⟨byte, bound⟩ := framing.shifting state
      have before := sentCount_transfer state
      by_cases last : c.divCounter = c.clkDiv - 1
      · cases level : c.sck with
        | false =>
            have rises : next.state = .transfer ∧ next.sck = true ∧
                next.bitCounter = c.bitCounter := by
              simp [spi, Controller.spi, state, last, level]
            have mosi : next.mosi = data.getLsbD c.bitCounter := by
              rw [Controller.mosi, rises.1, tx, byte, rises.2.2]
            have count : next.sentCount = c.sentCount + 1 := by
              rw [sentCount_transfer rises.1, before, rises.2.1, rises.2.2, level]
              rfl
            have place : 7 - c.sentCount = c.bitCounter := by
              simp only [before, level, Bool.toNat_false]
              omega
            refine .inl ⟨by simp [rises], ?_, fun _ => ⟨tx.trans byte, by omega⟩⟩
            rw [count, msbFirst_take_succ data (by simp [before, level]; omega), ← framing.bits,
              place]
            simp [sent, shiftedBit, level, rises.2.1, mosi]
        | true =>
            have unsent : sent = bits := by simp [sent, shiftedBit, level]
            by_cases final : c.bitCounter = 0
            · have done : next.state = .done := by
                simp [spi, Controller.spi, state, last, level, final]
              refine .inl ⟨by simp [done], ?_, by simp [done]⟩
              rw [unsent, framing.bits, before]
              simp [Controller.sentCount, done, final, level]
            · have falls : next.state = .transfer ∧ next.sck = false ∧
                  next.bitCounter = c.bitCounter - 1 := by
                simp [spi, Controller.spi, state, last, level, final]
              have count : next.sentCount = c.sentCount := by
                rw [sentCount_transfer falls.1, before, falls.2.1, falls.2.2, level]
                simp only [Bool.toNat_true, Bool.toNat_false]
                omega
              refine .inl ⟨by simp [falls], ?_, fun _ => ⟨tx.trans byte, by omega⟩⟩
              rw [unsent, framing.bits, count]
      · have counts : next.state = .transfer ∧ next.sck = c.sck ∧
            next.bitCounter = c.bitCounter := by
          simp only [spi, Controller.spi, state, if_neg last, and_self]
        have unsent : sent = bits := by simp [sent, shiftedBit, counts.2.1]
        refine .inl ⟨by simp [counts], ?_, fun _ => ⟨tx.trans byte, by omega⟩⟩
        rw [unsent, framing.bits, before, sentCount_transfer counts.1, counts.2.1, counts.2.2]

/-- How long a transfer goes on if the divider is not changed.  A divider below
the counter is met only after the counter has wrapped. -/
def Controller.rank (c : Controller) : Nat :=
  match c.state with
  | .transfer =>
      (2 * c.bitCounter + if c.sck then 1 else 2) * 65536 + (c.clkDiv - 1 - c.divCounter).toNat
  | .done => 1
  | .idle => 0

theorem rank_falls (active : c.state ≠ .idle) (other : ¬ TakesWrite g bus c 1) :
    (c.step g false bus miso).rank < c.rank := by
  have div : (c.step g false bus miso).clkDiv = c.clkDiv := slave_clkDiv other
  have spi : (c.step g false bus miso).state = (c.spi g bus miso).state ∧
      (c.step g false bus miso).sck = (c.spi g bus miso).sck ∧
      (c.step g false bus miso).bitCounter = (c.spi g bus miso).bitCounter ∧
      (c.step g false bus miso).divCounter = (c.spi g bus miso).divCounter := ⟨rfl, rfl, rfl, rfl⟩
  have small := (c.clkDiv - 1 - 0).isLt
  cases state : c.state with
  | idle => exact absurd state active
  | done => simp [Controller.rank, spi, Controller.spi, state]
  | transfer =>
      by_cases last : c.divCounter = c.clkDiv - 1
      · cases level : c.sck with
        | false =>
            simp only [Controller.rank, div, spi, Controller.spi, state, last, level, if_true,
              Bool.false_eq_true, if_false]
            omega
        | true =>
            by_cases final : c.bitCounter = 0
            · simp [Controller.rank, spi, Controller.spi, state, last, level, final]
            · simp only [Controller.rank, div, spi, Controller.spi, state, last, level, final,
                if_true, Bool.false_eq_true, if_false]
              omega
      · have less : (c.clkDiv - 1 - (c.divCounter + 1)).toNat <
            (c.clkDiv - 1 - c.divCounter).toNat := by
          bv_omega
        simp only [Controller.rank, div, spi, Controller.spi, state, last, if_false]
        omega

end Edge

/-! ### Runs -/

section Runs

variable (start : Controller) (ports : Nat → Ports)

theorem portStates_succ (n : Nat) : portStates g start ports (n + 1) =
    (portStates g start ports n).step g false (ports n).bus (ports n).miso :=
  rfl

theorem portStates_consistent (n : Nat) : Consistent (portStates g start ports n) := by
  have reached : Reachable g (portStates g start ports n) := by
    induction n with
    | zero => exact Reachable.reset start (ports 0).bus (ports 0).miso
    | succ n ih => exact ih.step false (ports n).bus (ports n).miso
  exact reached.consistent

theorem busy_iff (n : Nat) : (portStates g start ports n).busy = true ↔
    (portStates g start ports n).state ≠ .idle := by
  simp [(portStates_consistent start ports n).busy]

theorem acknowledgedByte_iff (n : Nat) (data : BitVec 8) :
    acknowledgedByte g start ports n = some data ↔
      TakesWrite g (ports n).bus (portStates g start ports n) 0 ∧
        (ports n).bus.dat.extractLsb' 0 8 = data := by
  rw [acknowledgedByte, portStates_succ, step_ack]
  simp only [TakesWrite, Bool.and_eq_true, beq_iff_eq, Option.ite_none_right_eq_some,
    Option.some.injEq, and_assoc]

theorem frameBegins_iff (n : Nat) : FrameBegins g start ports n ↔
    (portStates g start ports n).state = .idle ∧
      TakesWrite g (ports n).bus (portStates g start ports n) 0 := by
  have busy := busy_iff (g := g) start ports
  constructor
  · rintro ⟨free, begun⟩
    have idle : (portStates g start ports n).state = .idle := by
      by_contra active
      rw [(busy n).mpr active] at free
      cases free
    refine ⟨idle, ?_⟩
    by_contra other
    exact (busy (n + 1)).mp begun (idle_stays _ idle other)
  · rintro ⟨idle, takes⟩
    refine ⟨?_, (busy (n + 1)).mpr (framing_begin _ idle takes).1.active⟩
    simp [(portStates_consistent start ports n).busy, idle]

section Alone

variable {start ports} {t : Nat}
  (alone : ∀ n, TakesWrite g (ports n).bus (portStates g start ports n) 0 →
    (portStates g start ports n).busy = false)
  (idle : (portStates g start ports t).state = .idle)
  (takes : TakesWrite g (ports t).bus (portStates g start ports t) 0)
include alone

theorem unwritten_of_busy {n : Nat} (busy : (portStates g start ports n).busy = true) :
    ¬ TakesWrite g (ports n).bus (portStates g start ports n) 0 := fun written => by
  rw [alone n written] at busy
  cases busy

include idle takes

theorem framing_run {count : Nat} (positive : 1 ≤ count)
    (lasts : ∀ n, t < n → n ≤ t + count → (portStates g start ports n).busy = true) :
    Framing ((ports t).bus.dat.extractLsb' 0 8) (shiftedOut g start ports t count)
      (portStates g start ports (t + count)) := by
  induction count, positive using Nat.le_induction with
  | base =>
      obtain ⟨framing, unsent⟩ := framing_begin (ports t).miso idle takes
      have nothing : shiftedOut g start ports t 1 = [] := Trace.history_succ_none unsent
      rw [nothing]
      exact framing
  | succ count positive ih =>
      have now := ih fun n after before => lasts n after (by omega)
      have written := unwritten_of_busy alone (lasts (t + count) (by omega) (by omega))
      rcases framing_step (ports (t + count)).miso now written with next | ⟨rest, -⟩
      · exact next
      · exact absurd rest ((busy_iff start ports _).mp (lasts (t + (count + 1)) (by omega) le_rfl))

theorem frame_of_alone : Frame g start ports t ((ports t).bus.dat.extractLsb' 0 8) where
  partly count lasts := by
    rcases Nat.eq_zero_or_pos count with rfl | positive
    · exact List.nil_prefix
    · rw [(framing_run alone idle takes positive lasts).bits]
      exact List.take_prefix _ _
  wholly count positive lasts ended := by
    obtain ⟨before, rfl⟩ : ∃ before, count = before + 1 := ⟨count - 1, by omega⟩
    have rests : (portStates g start ports (t + (before + 1))).state = .idle := by
      by_contra active
      rw [(busy_iff start ports _).mpr active] at ended
      cases ended
    rcases Nat.eq_zero_or_pos before with rfl | some
    · exact absurd rests (framing_begin (ports t).miso idle takes).1.active
    · have now := framing_run alone idle takes some fun n after early =>
        lasts n after (by omega)
      have written := unwritten_of_busy alone (lasts (t + before) (by omega) (by omega))
      rcases framing_step (ports (t + before)).miso now written with next | ⟨-, whole⟩
      · exact absurd rests next.active
      · exact whole
  ends last quiet := by
    obtain ⟨n, after, -, free⟩ := Trace.reached_within
      (fun n => t < n ∧ last ≤ n) (fun n => (portStates g start ports n).busy = false)
      (fun n => (portStates g start ports n).rank)
      (fun n now active => ⟨⟨by omega, by omega⟩, rank_falls _
        ((busy_iff start ports n).mp (by simpa using active)) (quiet n now.2)⟩)
      (n := max last (t + 1)) ⟨by omega, by omega⟩
    exact ⟨n, by omega, free⟩

end Alone

/-- The bytes on the wire are those that have been written, one frame for each,
exactly if no byte is written to a controller that is busy. -/
theorem frame_integrity_iff : FrameIntegrity g start ports ↔
    ∀ n, TakesWrite g (ports n).bus (portStates g start ports n) 0 →
      (portStates g start ports n).busy = false := by
  constructor
  · intro integrity n takes
    exact (integrity.starts n _ ((acknowledgedByte_iff start ports n _).mpr ⟨takes, rfl⟩)).1
  · intro alone
    have free : ∀ n, TakesWrite g (ports n).bus (portStates g start ports n) 0 →
        (portStates g start ports n).state = .idle := by
      intro n takes
      by_contra active
      exact absurd takes
        (unwritten_of_busy alone ((busy_iff start ports n).mpr active))
    constructor
    · intro t data acknowledged
      have takes := ((acknowledgedByte_iff start ports t data).mp acknowledged).1
      exact (frameBegins_iff start ports t).mpr ⟨free t takes, takes⟩
    · intro t begins
      obtain ⟨idle, takes⟩ := (frameBegins_iff start ports t).mp begins
      exact ⟨_, (acknowledgedByte_iff start ports t _).mpr ⟨takes, rfl⟩,
        frame_of_alone alone idle takes⟩
    · intro n high
      rw [busy_iff, (portStates_consistent start ports n).sck high]
      exact StateType.noConfusion

end Runs

/-- The initial values of the registers. -/
def powerUp : Controller := ⟨true, 1, 0, 0, .idle, 7, 0, false, false, false, 0⟩

/-- The divider is set to 2, `0xFF` is written, and then `0x00` while the third bit is
to be shifted out. -/
def overwriting (n : Nat) : Ports where
  bus :=
    if n < 2 then ⟨0x40000054, 0x00020000, 0xF, true, n == 0⟩
    else ⟨0x40000050, if n = 2 then 0xFF else 0, 0xF, true, n == 2 || n == 12⟩
  miso := true

/-- Two writes are acknowledged, and one frame with bits of both goes out. -/
theorem overwriting_mixes :
    (portStates library powerUp overwriting 2).clkDiv = 2 ∧
      acknowledgedByte library powerUp overwriting 2 = some 0xFF ∧
      acknowledgedByte library powerUp overwriting 12 = some 0 ∧
      shiftedOut library powerUp overwriting 2 50 =
        [true, true, false, false, false, false, false, false] ∧
      ¬ FrameIntegrity library powerUp overwriting := by
  have second : acknowledgedByte library powerUp overwriting 12 = some 0 := by decide +kernel
  refine ⟨by decide +kernel, by decide +kernel, second, by decide +kernel, fun integrity => ?_⟩
  have free := (integrity.starts 12 0 second).1
  revert free
  decide +kernel

end SdcardWblite

end Cocoapuffs

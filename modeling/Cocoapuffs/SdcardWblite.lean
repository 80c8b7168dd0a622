import Cocoapuffs.Program
import Cocoapuffs.SdcardDriver
import Cocoapuffs.Wishbone

/-!
# The controller of the card

The entity `sdcard_wblite` with a card on its wires, and the accesses of a
processor to it.  One instant is one rising edge of `clk`; the card reacts to
the wires between two of them.
-/

namespace Cocoapuffs

namespace SdcardWblite

open Program (Yields)
open SDCard (Ctrl)

/-- The registers are a window of four words. -/
structure Generics where
  baseAddress : BitVec 32
  aligned : baseAddress.extractLsb' 0 4 = 0

/-- `state_t`. -/
inductive StateType where
  | idle
  | transfer
  | done
deriving DecidableEq

structure Controller where
  csN : Bool
  clkDiv : BitVec 16
  txData : BitVec 8
  rxData : BitVec 8
  state : StateType
  bitCounter : Nat
  divCounter : BitVec 16
  sck : Bool
  busy : Bool
  ack : Bool
  rdt : BitVec 32
deriving DecidableEq

/-- `spi_h2d.mosi`. -/
def Controller.mosi (c : Controller) : Bool :=
  match c.state with
  | .transfer => c.txData.getLsbD c.bitCounter
  | _ => true

/-- `address_match`. -/
def Generics.addressMatch (g : Generics) (bus : HostBus) : Bool :=
  bus.adr.extractLsb' 4 28 == g.baseAddress.extractLsb' 4 28

/-- `wb_host.adr(3 downto 2)`. -/
def regOf (bus : HostBus) : BitVec 2 := bus.adr.extractLsb' 2 2

/-- Is this the edge at which an access is taken? -/
def Controller.hit (g : Generics) (bus : HostBus) (c : Controller) : Bool :=
  bus.cyc && !c.ack && g.addressMatch bus

/-- The SPI master process. -/
def Controller.spi (g : Generics) (bus : HostBus) (miso : Bool) (c : Controller) : Controller :=
  match c.state with
  | .idle =>
      let resting := { c with sck := false, bitCounter := 7, divCounter := 0 }
      if c.hit g bus && bus.we && regOf bus == 0 then
        { resting with busy := true, state := .transfer }
      else resting
  | .transfer =>
      if c.divCounter = c.clkDiv - 1 then
        if c.sck then
          if c.bitCounter = 0 then { c with divCounter := 0, sck := false, state := .done }
          else { c with divCounter := 0, sck := false, bitCounter := c.bitCounter - 1 }
        else
          { c with divCounter := 0, sck := true, rxData := setBit c.rxData c.bitCounter miso }
      else { c with divCounter := c.divCounter + 1 }
  | .done => { c with sck := false, busy := false, state := .idle }

/-- What a read returns. -/
def Controller.register (index : BitVec 2) (c : Controller) : BitVec 32 :=
  if index = 0 then c.rxData.setWidth 32
  else if index = 1 then c.clkDiv ++ 0#14 ++ BitVec.ofBool c.busy ++ BitVec.ofBool c.csN
  else 0

/-- The Wishbone slave process. -/
def Controller.slave (g : Generics) (bus : HostBus) (c : Controller) : Controller :=
  if c.hit g bus then
    if bus.we then
      if regOf bus = 0 then { c with ack := true, txData := bus.dat.extractLsb' 0 8 }
      else if regOf bus = 1 then
        { c with
          ack := true
          csN := if bus.sel.getLsbD 0 then bus.dat.getLsbD 0 else c.csN
          clkDiv :=
            if bus.sel.getLsbD 2 || bus.sel.getLsbD 3 then
              if bus.dat.extractLsb' 16 16 = 0 then 1 else bus.dat.extractLsb' 16 16
            else c.clkDiv }
      else { c with ack := true }
    else { c with ack := true, rdt := c.register (regOf bus) }
  else { c with ack := false }

/-- One rising edge: each process assigns its own registers. -/
def Controller.step (g : Generics) (rst : Bool) (bus : HostBus) (miso : Bool) (c : Controller) :
    Controller :=
  if rst then
    { c with
      state := .idle, bitCounter := 7, sck := false, divCounter := 0, busy := false, ack := false,
      rdt := 0, csN := true, clkDiv := 1 }
  else
    let slave := c.slave g bus
    { c.spi g bus miso with
      ack := slave.ack
      rdt := slave.rdt
      csN := slave.csN
      clkDiv := slave.clkDiv
      txData := slave.txData }

/-- What is around the controller: the level of the line that no card drives,
and the cycles on the bus between two accesses to the controller. -/
structure Surroundings (g : Generics) where
  floating : Bool
  elsewhere : Nat → List HostBus
  quiet : ∀ count, ∀ bus ∈ elsewhere count, bus.cyc = true → g.addressMatch bus = false

/-- The controller, a card, the number of accesses so far, and the memory that a
driver reads into. -/
structure System (card : Sdcard.Generics) where
  ctl : Controller
  card : Sdcard.Card card
  accesses : Nat
  buffer : Nat → BitVec 8

variable {g : Generics} {card : Sdcard.Generics} (around : Surroundings g)

/-- One rising edge of `clk`. -/
def System.clock (bus : HostBus) (s : System card) : System card :=
  let ctl := s.ctl.step g false bus (s.card.line around.floating)
  { s with ctl := ctl, card := s.card.react ctl.csN s.ctl.sck ctl.sck ctl.mosi }

/-- An access stays on the bus until it is acknowledged. -/
def hold (bus : HostBus) : Nat → System card → Option (BitVec 32 × System card)
  | 0, _ => none
  | fuel + 1, s =>
      if s.ctl.ack then some (s.ctl.rdt, s.clock around bus)
      else hold bus fuel (s.clock around bus)

/-- An access, after some cycles for something else. -/
def access (fuel : Nat) (bus : HostBus) : StateT (System card) Option (BitVec 32) := fun s =>
  let ready := (around.elsewhere s.accesses).foldl (fun s bus => s.clock around bus) s
  hold around bus fuel { ready with accesses := s.accesses + 1 }

/-- `Reg::Read`. -/
def read (fuel : Nat) (adr : BitVec 32) : StateT (System card) Option (BitVec 32) :=
  access around fuel ⟨adr, 0, 0xF, false, true⟩

/-- `Reg::Write`. -/
def write (fuel : Nat) (adr dat : BitVec 32) : StateT (System card) Option Unit := do
  let _ ← access around fuel ⟨adr, dat, 0xF, true, true⟩
  pure ()

/-- The loop of `Transfer` that waits for the busy bit to clear. -/
def waitBusy (fuel : Nat) : Nat → StateT (System card) Option Unit
  | 0 => failure
  | more + 1 => do
      let ctrl ← read around fuel (g.baseAddress + 4)
      if ctrl &&& 2 ≠ 0 then waitBusy fuel more else pure ()

/-- `SDCard::Transfer`. -/
def transfer (fuel : Nat) (data : BitVec 8) : StateT (System card) Option (BitVec 8) := do
  write around fuel g.baseAddress (data.setWidth 32)
  waitBusy around fuel fuel
  let rx ← read around fuel g.baseAddress
  pure (rx.setWidth 8)

/-- What the driver uses of the controller. -/
def port (fuel : Nat) : SDCard.Port (StateT (System card) Option) where
  readCtrl := read around fuel (g.baseAddress + 4)
  writeCtrl := write around fuel (g.baseAddress + 4)
  transfer := transfer around fuel
  store i byte := modify fun s => { s with buffer := Function.update s.buffer i byte }

/-! ### Cycles that leave a transfer alone -/

/-- What holds of the registers at all times. -/
structure Sound (s : System card) : Prop where
  transferring : s.ctl.state = .transfer →
    s.ctl.bitCounter < 8 ∧ s.ctl.divCounter.toNat < s.ctl.clkDiv.toNat
  sck : s.ctl.state ≠ .transfer → s.ctl.sck = false
  busy : s.ctl.busy = decide (s.ctl.state ≠ .idle)
  divides : 0 < s.ctl.clkDiv.toNat
  deselected : s.ctl.csN = true → s.card.deselect = s.card

/-- How many cycles are left until the controller is idle. -/
def Controller.remaining (c : Controller) : Nat :=
  match c.state with
  | .transfer =>
      (2 * c.bitCounter + if c.sck then 1 else 2) * c.clkDiv.toNat - c.divCounter.toNat + 1
  | .done => 1
  | .idle => 0

/-- The card when the transfer is over. -/
def System.finalCard (s : System card) : Sdcard.Card card :=
  match s.ctl.state with
  | .transfer =>
      if s.ctl.sck then
        (s.card.react s.ctl.csN true false true).sent s.ctl.csN s.ctl.txData s.ctl.bitCounter
      else s.card.sent s.ctl.csN s.ctl.txData (s.ctl.bitCounter + 1)
  | _ => s.card

/-- The byte that has been received then. -/
def System.finalRx (s : System card) : BitVec 8 :=
  match s.ctl.state with
  | .transfer =>
      if s.ctl.sck then
        (s.card.react s.ctl.csN true false true).received around.floating s.ctl.csN s.ctl.txData
          s.ctl.bitCounter s.ctl.rxData
      else
        s.card.received around.floating s.ctl.csN s.ctl.txData (s.ctl.bitCounter + 1) s.ctl.rxData
  | _ => s.ctl.rxData

/-- The transfer goes on: it has the same end, which is not farther away. -/
structure Continues (s s' : System card) : Prop where
  sound : Sound s'
  finalCard : s'.finalCard = s.finalCard
  finalRx : s'.finalRx around = s.finalRx around
  csN : s'.ctl.csN = s.ctl.csN
  clkDiv : s'.ctl.clkDiv = s.ctl.clkDiv
  remaining : s'.ctl.remaining ≤ s.ctl.remaining
  buffer : s'.buffer = s.buffer

theorem Continues.refl {s : System card} (sound : Sound s) : Continues around s s :=
  ⟨sound, rfl, rfl, rfl, rfl, le_rfl, rfl⟩

variable {around}

theorem Continues.trans {s s' s'' : System card} (first : Continues around s s')
    (second : Continues around s' s'') : Continues around s s'' where
  sound := second.sound
  finalCard := second.finalCard.trans first.finalCard
  finalRx := second.finalRx.trans first.finalRx
  csN := second.csN.trans first.csN
  clkDiv := second.clkDiv.trans first.clkDiv
  remaining := second.remaining.trans first.remaining
  buffer := second.buffer.trans first.buffer

variable (around)

/-- No write is taken at this edge. -/
def Passive (g : Generics) (bus : HostBus) (c : Controller) : Prop :=
  c.hit g bus = true → bus.we = false

/-- The SPI master process when no transfer is begun. -/
theorem spi_passive {bus : HostBus} {c : Controller} (passive : Passive g bus c) (miso : Bool)
    (idle : c.state = .idle) :
    c.spi g bus miso = { c with sck := false, bitCounter := 7, divCounter := 0 } := by
  cases hit : c.hit g bus with
  | false => simp [Controller.spi, idle, hit]
  | true => simp [Controller.spi, idle, hit, passive hit]

/-- The registers of the bus keep their values but for the acknowledge and the
read data. -/
theorem step_passive {bus : HostBus} {c : Controller} (passive : Passive g bus c) (miso : Bool) :
    c.step g false bus miso =
      { c.spi g bus miso with
        ack := c.hit g bus, rdt := (c.slave g bus).rdt, csN := c.csN, clkDiv := c.clkDiv,
        txData := c.txData } := by
  cases hit : c.hit g bus with
  | false => simp [Controller.step, Controller.slave, hit]
  | true => simp [Controller.step, Controller.slave, hit, passive hit]

theorem counted_of_last {s : System card} (sound : Sound s)
    (last : s.ctl.divCounter = s.ctl.clkDiv - 1) :
    s.ctl.divCounter.toNat + 1 = s.ctl.clkDiv.toNat := by
  have small := s.ctl.clkDiv.isLt
  have positive := sound.divides
  rw [last, BitVec.toNat_sub]
  simp only [BitVec.reduceToNat]
  omega

section Passive

variable {bus : HostBus} {s : System card} (sound : Sound s) (passive : Passive g bus s.ctl)
include sound passive

/-- What is to be shown of a cycle that leaves a transfer alone. -/
abbrev Ticks (around : Surroundings g) (bus : HostBus) (s : System card) : Prop :=
  Continues around s (s.clock around bus) ∧
    (s.clock around bus).ctl.remaining = s.ctl.remaining - 1

theorem ticks_idle (idle : s.ctl.state = .idle) : Ticks around bus s := by
  have low := sound.sck (by simp [idle])
  have ctl := step_passive passive (s.card.line around.floating)
  rw [spi_passive passive _ idle] at ctl
  have next : s.clock around bus =
      { s with
        ctl := { s.ctl with
          sck := false, bitCounter := 7, divCounter := 0, ack := s.ctl.hit g bus
          rdt := (s.ctl.slave g bus).rdt } } := by
    simp only [System.clock, ctl, low, Sdcard.react_steady sound.deselected]
  rw [Ticks, next]
  constructor
  · constructor
    · constructor <;> simp [idle, sound.busy, sound.divides]
      exact sound.deselected
    all_goals simp [System.finalCard, System.finalRx, Controller.remaining, idle]
  · simp [Controller.remaining, idle]

theorem ticks_done (done : s.ctl.state = .done) : Ticks around bus s := by
  have low := sound.sck (by simp [done])
  have ctl := step_passive passive (s.card.line around.floating)
  have next : s.clock around bus =
      { s with
        ctl := { s.ctl with
          sck := false, busy := false, state := .idle, ack := s.ctl.hit g bus
          rdt := (s.ctl.slave g bus).rdt } } := by
    simp only [System.clock, ctl, Controller.spi, done, low,
      Sdcard.react_steady sound.deselected]
  rw [Ticks, next]
  constructor
  · constructor
    · constructor <;> simp [sound.divides]
      exact sound.deselected
    all_goals simp [System.finalCard, System.finalRx, Controller.remaining, done]
  · simp [Controller.remaining, done]

theorem ticks_divide (transfer : s.ctl.state = .transfer)
    (early : s.ctl.divCounter ≠ s.ctl.clkDiv - 1) : Ticks around bus s := by
  obtain ⟨bound, below⟩ := sound.transferring transfer
  have ctl := step_passive passive (s.card.line around.floating)
  have next : s.clock around bus =
      { s with
        ctl := { s.ctl with
          divCounter := s.ctl.divCounter + 1, ack := s.ctl.hit g bus
          rdt := (s.ctl.slave g bus).rdt } } := by
    simp only [System.clock, ctl, Controller.spi, transfer, early, if_false,
      Sdcard.react_steady sound.deselected]
  have less : s.ctl.divCounter.toNat + 1 < s.ctl.clkDiv.toNat := by
    by_contra last
    apply early
    apply BitVec.eq_of_toNat_eq
    have small := s.ctl.clkDiv.isLt
    rw [BitVec.toNat_sub]
    simp only [BitVec.reduceToNat]
    omega
  have grown : (s.ctl.divCounter.toNat + 1) % 65536 = s.ctl.divCounter.toNat + 1 :=
    Nat.mod_eq_of_lt (by have := s.ctl.clkDiv.isLt; omega)
  have span : s.ctl.clkDiv.toNat ≤
      (2 * s.ctl.bitCounter + if s.ctl.sck then 1 else 2) * s.ctl.clkDiv.toNat :=
    Nat.le_mul_of_pos_left _ (by split <;> omega)
  rw [Ticks, next]
  constructor
  · constructor
    · constructor <;> simp [transfer, sound.busy, sound.divides, bound, grown, less]
      exact sound.deselected
    all_goals simp [System.finalCard, System.finalRx, Controller.remaining, transfer, grown]
    omega
  · simp only [Controller.remaining, transfer, BitVec.toNat_add, BitVec.reduceToNat, Nat.reducePow,
      grown]
    omega

theorem ticks_rise (transfer : s.ctl.state = .transfer)
    (last : s.ctl.divCounter = s.ctl.clkDiv - 1) (low : s.ctl.sck = false) :
    Ticks around bus s := by
  have ctl := step_passive passive (s.card.line around.floating)
  have next : s.clock around bus =
      { s with
        ctl := { s.ctl with
          divCounter := 0, sck := true
          rxData := setBit s.ctl.rxData s.ctl.bitCounter (s.card.line around.floating)
          ack := s.ctl.hit g bus, rdt := (s.ctl.slave g bus).rdt }
        card := s.card.react s.ctl.csN false true (s.ctl.txData.getLsbD s.ctl.bitCounter) } := by
    simp [System.clock, ctl, Controller.spi, transfer, last, low, Controller.mosi]
  have falls := fun c => Sdcard.react_falling (g := card) s.ctl.csN
    (s.ctl.txData.getLsbD s.ctl.bitCounter) true c
  have ticked : (s.clock around bus).ctl.remaining = s.ctl.remaining - 1 := by
    have counted := counted_of_last sound last
    have span : (2 * s.ctl.bitCounter + 2) * s.ctl.clkDiv.toNat =
        (2 * s.ctl.bitCounter + 1) * s.ctl.clkDiv.toNat + s.ctl.clkDiv.toNat :=
      Nat.succ_mul (2 * s.ctl.bitCounter + 1) _
    simp only [next, Controller.remaining, transfer, low, if_true, Bool.false_eq_true, if_false,
      BitVec.reduceToNat, span]
    omega
  refine ⟨?_, ticked⟩
  have less : (s.clock around bus).ctl.remaining ≤ s.ctl.remaining := by omega
  rw [next] at less ⊢
  constructor
  · have bound := (sound.transferring transfer).1
    constructor <;> simp [transfer, sound.busy, sound.divides, bound]
    exact Sdcard.deselect_react _ _ _ _ _
  · simp [System.finalCard, transfer, low, Sdcard.Card.sent, Sdcard.Card.pulse, falls]
  · simp [System.finalRx, transfer, low, Sdcard.Card.received, Sdcard.Card.pulse, falls]
  · rfl
  · rfl
  · exact less
  · rfl

theorem ticks_fall (transfer : s.ctl.state = .transfer)
    (last : s.ctl.divCounter = s.ctl.clkDiv - 1) (high : s.ctl.sck = true)
    {k : Nat} (more : s.ctl.bitCounter = k + 1) : Ticks around bus s := by
  have ctl := step_passive passive (s.card.line around.floating)
  have next : s.clock around bus =
      { s with
        ctl := { s.ctl with
          divCounter := 0, sck := false, bitCounter := k, ack := s.ctl.hit g bus
          rdt := (s.ctl.slave g bus).rdt }
        card := s.card.react s.ctl.csN true false true } := by
    simp [System.clock, ctl, Controller.spi, transfer, last, high, more]
    exact Sdcard.react_falling _ _ _ _
  have ticked : (s.clock around bus).ctl.remaining = s.ctl.remaining - 1 := by
    have counted := counted_of_last sound last
    have span : (2 * (k + 1) + 1) * s.ctl.clkDiv.toNat =
        (2 * k + 2) * s.ctl.clkDiv.toNat + s.ctl.clkDiv.toNat :=
      Nat.succ_mul (2 * k + 2) _
    simp only [next, Controller.remaining, transfer, high, more, if_true, Bool.false_eq_true,
      if_false, BitVec.reduceToNat, span]
    omega
  refine ⟨?_, ticked⟩
  have less : (s.clock around bus).ctl.remaining ≤ s.ctl.remaining := by omega
  rw [next] at less ⊢
  constructor
  · have bound := (sound.transferring transfer).1
    constructor <;> simp [transfer, sound.busy, sound.divides]
    · omega
    · exact Sdcard.deselect_react _ _ _ _ _
  · simp [System.finalCard, transfer, high, more]
  · simp [System.finalRx, transfer, high, more]
  · rfl
  · rfl
  · exact less
  · rfl

theorem ticks_end (transfer : s.ctl.state = .transfer)
    (last : s.ctl.divCounter = s.ctl.clkDiv - 1) (high : s.ctl.sck = true)
    (none : s.ctl.bitCounter = 0) : Ticks around bus s := by
  have ctl := step_passive passive (s.card.line around.floating)
  have next : s.clock around bus =
      { s with
        ctl := { s.ctl with
          divCounter := 0, sck := false, state := .done, ack := s.ctl.hit g bus
          rdt := (s.ctl.slave g bus).rdt }
        card := s.card.react s.ctl.csN true false true } := by
    simp [System.clock, ctl, Controller.spi, transfer, last, high, none]
    exact Sdcard.react_falling _ _ _ _
  have ticked : (s.clock around bus).ctl.remaining = s.ctl.remaining - 1 := by
    have counted := counted_of_last sound last
    simp only [next, Controller.remaining, transfer, high, none, if_true]
    omega
  refine ⟨?_, ticked⟩
  have less : (s.clock around bus).ctl.remaining ≤ s.ctl.remaining := by omega
  rw [next] at less ⊢
  constructor
  · constructor <;> simp [transfer, sound.busy, sound.divides]
    exact Sdcard.deselect_react _ _ _ _ _
  · simp [System.finalCard, transfer, high, none, Sdcard.Card.sent]
  · simp [System.finalRx, transfer, high, none, Sdcard.Card.received]
  · rfl
  · rfl
  · exact less
  · rfl

/-- A cycle without a write takes a transfer one cycle nearer to its end. -/
theorem ticks : Ticks around bus s := by
  cases state : s.ctl.state with
  | idle => exact ticks_idle around sound passive state
  | done => exact ticks_done around sound passive state
  | transfer =>
      by_cases last : s.ctl.divCounter = s.ctl.clkDiv - 1
      · cases sck : s.ctl.sck with
        | false => exact ticks_rise around sound passive state last sck
        | true =>
            cases more : s.ctl.bitCounter with
            | zero => exact ticks_end around sound passive state last sck more
            | succ k => exact ticks_fall around sound passive state last sck more
      · exact ticks_divide around sound passive state last

end Passive

/-! ### Accesses -/

theorem step_ack (g : Generics) (bus : HostBus) (miso : Bool) (c : Controller) :
    (c.step g false bus miso).ack = c.hit g bus := by
  cases hit : c.hit g bus <;> simp only [Controller.step, Controller.slave, hit]
  all_goals repeat' split
  all_goals simp_all

theorem elsewhere_continues {buses : List HostBus}
    (quiet : ∀ bus ∈ buses, bus.cyc = true → g.addressMatch bus = false) {s : System card}
    (sound : Sound s) (free : s.ctl.ack = false) :
    Continues around s (buses.foldl (fun s bus => s.clock around bus) s) ∧
      (buses.foldl (fun s bus => s.clock around bus) s).ctl.ack = false := by
  induction buses generalizing s with
  | nil => exact ⟨Continues.refl around sound, free⟩
  | cons bus buses ih =>
      have missed : s.ctl.hit g bus = false := by
        cases cyc : bus.cyc with
        | false => simp [Controller.hit, cyc]
        | true => simp [Controller.hit, quiet bus (by simp) cyc]
      have passive : Passive g bus s.ctl := fun hit => by simp [missed] at hit
      have first := (ticks around sound passive).1
      obtain ⟨rest, still⟩ := ih (fun bus member => quiet bus (by simp [member])) first.sound
        ((step_ack g bus _ _).trans missed)
      exact ⟨first.trans rest, still⟩

theorem access_run (fuel : Nat) {s : System card} (sound : Sound s) (free : s.ctl.ack = false) :
    ∃ s₁, Continues around s s₁ ∧ s₁.ctl.ack = false ∧
      ∀ bus, (access around fuel bus).run s = hold around bus fuel s₁ := by
  obtain ⟨continues, still⟩ :=
    elsewhere_continues around (around.quiet s.accesses) sound free
  refine ⟨{ (around.elsewhere s.accesses).foldl (fun s bus => s.clock around bus) s with
    accesses := s.accesses + 1 }, ?_, still, fun bus => rfl⟩
  exact ⟨⟨continues.sound.1, continues.sound.2, continues.sound.3, continues.sound.4,
    continues.sound.5⟩, continues.2, continues.3, continues.4, continues.5, continues.6,
    continues.7⟩

theorem hold_hit {bus : HostBus} (cyc : bus.cyc = true) (window : g.addressMatch bus = true)
    {fuel : Nat} (enough : 2 ≤ fuel) {s : System card} (free : s.ctl.ack = false) :
    hold around bus fuel s =
      some ((s.clock around bus).ctl.rdt, (s.clock around bus).clock around bus) := by
  obtain ⟨fuel, rfl⟩ := Nat.exists_eq_add_of_le' enough
  have acked : (s.clock around bus).ctl.ack = true := by
    rw [System.clock, step_ack]
    simp [Controller.hit, cyc, free, window]
  simp [hold, free, acked]

theorem acked_clock (bus : HostBus) {s : System card} (sound : Sound s)
    (acked : s.ctl.ack = true) :
    Ticks around bus s ∧ (s.clock around bus).ctl.ack = false := by
  have missed : s.ctl.hit g bus = false := by simp [Controller.hit, acked]
  exact ⟨ticks around sound fun hit => by simp [missed] at hit, (step_ack g bus _ _).trans missed⟩

theorem hit_of_free {bus : HostBus} (cyc : bus.cyc = true) (window : g.addressMatch bus = true)
    {c : Controller} (free : c.ack = false) : c.hit g bus = true := by
  simp [Controller.hit, cyc, window, free]

theorem access_read {bus : HostBus} (cyc : bus.cyc = true) (reads : bus.we = false)
    (window : g.addressMatch bus = true) {fuel : Nat} (enough : 2 ≤ fuel) {s : System card}
    (sound : Sound s) (free : s.ctl.ack = false) :
    ∃ s₁ s', (access around fuel bus).run s = some (s₁.ctl.register (regOf bus), s') ∧
      Continues around s s₁ ∧ Continues around s₁ s' ∧ s'.ctl.ack = false ∧
      s'.ctl.remaining ≤ s₁.ctl.remaining - 1 := by
  obtain ⟨s₁, continues, free₁, run⟩ := access_run around fuel sound free
  have hit := hit_of_free cyc window free₁
  obtain ⟨first, nearer⟩ := ticks around continues.sound
    (fun _ => reads : Passive g bus s₁.ctl)
  obtain ⟨⟨second, nearer'⟩, done⟩ := acked_clock around bus first.sound
    ((step_ack g bus _ _).trans hit)
  have rdt : (s₁.clock around bus).ctl.rdt = s₁.ctl.register (regOf bus) := by
    simp [System.clock, Controller.step, Controller.slave, hit, reads]
  refine ⟨s₁, _, ?_, continues, first.trans second, done, by omega⟩
  rw [run bus, hold_hit around cyc window enough free₁, rdt]

/-- The registers and the card when a driver may begin a transfer. -/
structure Settled (s : System card) : Prop where
  sound : Sound s
  free : s.ctl.ack = false
  idle : s.ctl.state = .idle

theorem idle_of_remaining {c : Controller} (none : c.remaining = 0) : c.state = .idle := by
  cases state : c.state <;> simp [Controller.remaining, state] at none ⊢

theorem Settled.remaining {s : System card} (settled : Settled s) : s.ctl.remaining = 0 := by
  simp [Controller.remaining, settled.idle]

theorem access_write (bus : HostBus) (cyc : bus.cyc = true)
    (window : g.addressMatch bus = true) {fuel : Nat} (enough : 2 ≤ fuel) {s : System card}
    (settled : Settled s) :
    ∃ s₁ rdt, (access around fuel bus).run s =
        some (rdt, (s₁.clock around bus).clock around bus) ∧
      Continues around s s₁ ∧ Settled s₁ ∧ s₁.ctl.hit g bus = true := by
  obtain ⟨s₁, continues, free₁, run⟩ :=
    access_run around fuel settled.sound settled.free
  have none : s₁.ctl.remaining = 0 := by
    have less := continues.remaining
    rw [settled.remaining] at less
    omega
  exact ⟨s₁, _, (run bus).trans (hold_hit around cyc window enough free₁), continues,
    ⟨continues.sound, free₁, idle_of_remaining none⟩, hit_of_free cyc window free₁⟩

theorem window_ctrl (g : Generics) :
    (g.baseAddress + 4).extractLsb' 4 28 = g.baseAddress.extractLsb' 4 28 ∧
      (g.baseAddress + 4).extractLsb' 2 2 = 1 ∧ g.baseAddress.extractLsb' 2 2 = 0 := by
  have aligned := congrArg BitVec.toNat g.aligned
  have small := g.baseAddress.isLt
  simp only [BitVec.extractLsb'_toNat, Nat.shiftRight_eq_div_pow, BitVec.reduceToNat] at aligned
  refine ⟨?_, ?_, ?_⟩ <;> apply BitVec.eq_of_toNat_eq <;>
    simp only [BitVec.extractLsb'_toNat, Nat.shiftRight_eq_div_pow, BitVec.toNat_add,
      BitVec.reduceToNat] <;> omega

theorem match_data (g : Generics) (bus : HostBus) (adr : bus.adr = g.baseAddress) :
    g.addressMatch bus = true ∧ regOf bus = 0 := by
  simp [Generics.addressMatch, regOf, adr, (window_ctrl g).2.2]

theorem match_ctrl (g : Generics) (bus : HostBus) (adr : bus.adr = g.baseAddress + 4) :
    g.addressMatch bus = true ∧ regOf bus = 1 := by
  simp only [Generics.addressMatch, regOf, adr, window_ctrl g, BEq.rfl, and_self]

theorem busy_bit (c : Controller) : c.register 1 &&& 2 ≠ 0 ↔ c.busy = true := by
  have two : (2 : BitVec 32) = BitVec.twoPow 32 1 := by decide
  have bit : (c.register 1).getLsbD 1 = c.busy := by
    rw [Controller.register, if_neg (by decide), if_pos rfl, BitVec.getLsbD_append,
      if_neg (by decide), BitVec.getLsbD_append, if_pos (by decide)]
    simp
  rw [two, BitVec.and_twoPow, bit]
  cases c.busy <;> decide

theorem waitBusy_yields {fuel : Nat} (enough : 2 ≤ fuel) {more : Nat} {s : System card}
    (sound : Sound s) (free : s.ctl.ack = false) (long : s.ctl.remaining < more) :
    Yields (waitBusy around fuel more) s ()
      fun s' => Continues around s s' ∧ Settled s' := by
  induction more generalizing s with
  | zero => exact absurd long (Nat.not_lt_zero _)
  | succ more ih =>
      obtain ⟨window, reg⟩ := match_ctrl g ⟨g.baseAddress + 4, 0, 0xF, false, true⟩ rfl
      obtain ⟨s₁, s', run, before, after, free', nearer⟩ :=
        access_read around rfl rfl window enough sound free
      rw [reg] at run
      rw [waitBusy]
      apply Yields.bind_run run
      by_cases busy : s₁.ctl.busy = true
      · have running : s₁.ctl.remaining ≠ 0 := by
          intro none
          rw [before.sound.busy, idle_of_remaining none] at busy
          simp at busy
        have less := before.remaining
        rw [if_pos ((busy_bit _).mpr busy)]
        exact (ih after.sound free' (by omega)).weaken fun _ ends =>
          ⟨(before.trans after).trans ends.1, ends.2⟩
      · have idle : s₁.ctl.state = .idle := by
          have low := before.sound.busy
          by_contra active
          simp [active] at low
          exact busy low
        have ended : s₁.ctl.remaining = 0 := by simp [Controller.remaining, idle]
        have none : s'.ctl.remaining = 0 := by omega
        rw [if_neg (fun set => busy ((busy_bit _).mp set))]
        exact Yields.pure ⟨before.trans after, after.sound, free', idle_of_remaining none⟩

theorem clock_data {bus : HostBus} {s : System card} (settled : Settled s)
    (hit : s.ctl.hit g bus = true) (we : bus.we = true) (reg : regOf bus = 0) :
    s.clock around bus =
      { s with
        ctl := { s.ctl with
          sck := false, bitCounter := 7, divCounter := 0, busy := true, state := .transfer
          ack := true, txData := bus.dat.extractLsb' 0 8 } } := by
  have low := settled.sound.sck (by simp [settled.idle])
  simp [System.clock, Controller.step, Controller.spi, Controller.slave, settled.idle, hit, we, reg,
    low, Sdcard.react_steady settled.sound.deselected]

/-- Enough steps of a loop for any divider. -/
abbrev enoughFuel : Nat := 2 ^ 20

theorem Settled.finalCard {s : System card} (settled : Settled s) : s.finalCard = s.card := by
  simp [System.finalCard, settled.idle]

theorem Settled.finalRx {s : System card} (settled : Settled s) :
    s.finalRx around = s.ctl.rxData := by
  simp [System.finalRx, settled.idle]

/-- A transfer of a byte has begun: how it will end. -/
structure Begun (around : Surroundings g) (data : BitVec 8) (s s' : System card) : Prop where
  sound : Sound s'
  free : s'.ctl.ack = false
  finalCard : s'.finalCard = s.card.sent s.ctl.csN data 8
  finalRx : s'.finalRx around =
    s.card.received around.floating s.ctl.csN data 8 s.ctl.rxData
  csN : s'.ctl.csN = s.ctl.csN
  clkDiv : s'.ctl.clkDiv = s.ctl.clkDiv
  remaining : s'.ctl.remaining < enoughFuel
  buffer : s'.buffer = s.buffer

theorem write_data {fuel : Nat} (enough : 2 ≤ fuel) (data : BitVec 8) {s : System card}
    (settled : Settled s) :
    ∃ s', (write around fuel g.baseAddress (data.setWidth 32)).run s = some ((), s') ∧
      Begun around data s s' := by
  let bus : HostBus := ⟨g.baseAddress, data.setWidth 32, 0xF, true, true⟩
  obtain ⟨window, reg⟩ := match_data g bus rfl
  obtain ⟨s₁, rdt, run, before, settled₁, hit⟩ :=
    access_write around bus rfl window enough settled
  have begun := clock_data around settled₁ hit rfl reg
  have dat : bus.dat.extractLsb' 0 8 = data := by
    apply BitVec.eq_of_getLsbD_eq
    intro j small
    simp [bus, small, show j < 32 by omega]
  rw [dat] at begun
  have sound : Sound (s₁.clock around bus) := by
    rw [begun]
    constructor <;> simp [settled₁.sound.divides]
    exact settled₁.sound.deselected
  obtain ⟨⟨second, -⟩, free⟩ := acked_clock around bus sound (by rw [begun])
  refine ⟨(s₁.clock around bus).clock around bus, by rw [write, StateT.run_bind, run]; rfl, ?_⟩
  have card₁ := settled₁.finalCard.symm.trans (before.finalCard.trans settled.finalCard)
  have rx₁ := (settled₁.finalRx around).symm.trans (before.finalRx.trans (settled.finalRx around))
  constructor
  · exact second.sound
  · exact free
  · rw [second.finalCard, begun, ← card₁, ← before.csN]
    simp [System.finalCard]
  · rw [second.finalRx, begun, ← card₁, ← before.csN, ← rx₁]
    simp [System.finalRx]
  · rw [second.csN, begun]
    exact before.csN
  · rw [second.clkDiv, begun]
    exact before.clkDiv
  · have less := second.remaining
    have small := s₁.ctl.clkDiv.isLt
    have started : (s₁.clock around bus).ctl.remaining = 16 * s₁.ctl.clkDiv.toNat + 1 := by
      simp [begun, Controller.remaining]
    unfold enoughFuel
    omega
  · rw [second.buffer, begun]
    exact before.buffer

/-- `Transfer` exchanges a byte with the card. -/
theorem transfer_yields {fuel : Nat} (enough : enoughFuel ≤ fuel) (data : BitVec 8)
    {s : System card} (settled : Settled s) :
    Yields (transfer around fuel data) s
      (s.card.received around.floating s.ctl.csN data 8 s.ctl.rxData)
      fun s' => Settled s' ∧ s'.card = s.card.sent s.ctl.csN data 8 ∧ s'.ctl.csN = s.ctl.csN ∧
        s'.ctl.clkDiv = s.ctl.clkDiv ∧ s'.buffer = s.buffer := by
  have two : 2 ≤ fuel := le_trans (by decide) enough
  obtain ⟨s₁, wrote, begun⟩ := write_data around two data settled
  rw [transfer]
  apply Yields.bind_run wrote
  apply (waitBusy_yields around two begun.sound begun.free (begun.remaining.trans_le enough)).bind
  rintro s₂ ⟨ends, settled₂⟩
  obtain ⟨window, reg⟩ := match_data g ⟨g.baseAddress, 0, 0xF, false, true⟩ rfl
  obtain ⟨s₃, s₄, run, before, after, free, nearer⟩ :=
    access_read around rfl rfl window two settled₂.sound settled₂.free
  have none : s₃.ctl.remaining = 0 := by
    have less := before.remaining
    rw [settled₂.remaining] at less
    omega
  have settled₄ : Settled s₄ := ⟨after.sound, free, idle_of_remaining (by omega)⟩
  have whole := ends.trans before
  have rx : s₃.ctl.rxData = s.card.received around.floating s.ctl.csN data 8 s.ctl.rxData := by
    rw [← begun.finalRx, ← whole.finalRx]
    simp [System.finalRx, idle_of_remaining none]
  rw [reg] at run
  apply Yields.bind_run run
  have byte : (s₃.ctl.register 0).setWidth 8 = s₃.ctl.rxData := by simp [Controller.register]
  rw [byte, rx]
  have ended := whole.trans after
  apply Yields.pure
  refine ⟨settled₄, ?_, ended.csN.trans begun.csN, ended.clkDiv.trans begun.clkDiv,
    ended.buffer.trans begun.buffer⟩
  rw [← settled₄.finalCard, ended.finalCard, begun.finalCard]

/-- A write of the control register sets what the driver means to set. -/
theorem slave_ctrl {bus : HostBus} {c : Controller} (hit : c.hit g bus = true)
    (we : bus.we = true) (reg : regOf bus = 1) (whole : bus.sel = 0xF) :
    c.slave g bus =
      { c with
        ack := true
        csN := (Ctrl.write bus.dat).csN
        clkDiv := (Ctrl.write bus.dat).clkDiv } := by
  simp [Controller.slave, hit, we, reg, whole, Ctrl.write]

theorem clock_ctrl {bus : HostBus} {s : System card} (settled : Settled s)
    (hit : s.ctl.hit g bus = true) (we : bus.we = true) (reg : regOf bus = 1)
    (whole : bus.sel = 0xF) :
    s.clock around bus =
      { s with
        ctl := { s.ctl with
          sck := false, bitCounter := 7, divCounter := 0, ack := true
          csN := (Ctrl.write bus.dat).csN, clkDiv := (Ctrl.write bus.dat).clkDiv }
        card := if (Ctrl.write bus.dat).csN then s.card.deselect else s.card } := by
  have low := settled.sound.sck (by simp [settled.idle])
  simp [System.clock, Controller.step, slave_ctrl hit we reg whole, Controller.spi, settled.idle,
    hit, we, reg, low, Sdcard.Card.react]

/-- A read of the control register when no transfer is under way. -/
theorem register_ctrl {c : Controller} (quiet : c.busy = false) (ctrl : Ctrl)
    (csN : c.csN = ctrl.csN) (clkDiv : c.clkDiv = ctrl.clkDiv) : c.register 1 = ctrl.read := by
  rw [Controller.register, if_neg (by decide), if_pos rfl, quiet, csN, clkDiv]
  rfl

/-- The controller is settled with this card on its wires. -/
structure Holds (csN : Bool) (c : Sdcard.Card card) (divider : BitVec 16) (buffer : Nat → BitVec 8)
    (s : System card) : Prop where
  settled : Settled s
  csN : s.ctl.csN = csN
  card : s.card = c
  divider : s.ctl.clkDiv = divider
  buffer : s.buffer = buffer

/-- The control register as the driver reads it. -/
def Holds.ctrl {csN : Bool} {c : Sdcard.Card card} {divider : BitVec 16}
    {buffer : Nat → BitVec 8} {s : System card} (holds : Holds csN c divider buffer s) : Ctrl where
  csN := csN
  clkDiv := divider
  divides := by
    rintro rfl
    have positive := holds.settled.sound.divides
    simp [holds.divider] at positive

section Drivers

variable {fuel : Nat} (enough : enoughFuel ≤ fuel) {c : Sdcard.Card card} {divider : BitVec 16}
  {buffer : Nat → BitVec 8} {s : System card}
include enough

theorem transfer_selected (data : BitVec 8) (holds : Holds false c divider buffer s) :
    Yields ((port around fuel).transfer data) s (c.give around.floating data)
      (Holds false (c.take data) divider buffer) := by
  have yields := transfer_yields around enough data holds.settled
  rw [holds.csN, holds.card, Sdcard.received_eight] at yields
  exact yields.weaken fun s' ⟨settled, sent, csN, clkDiv, same⟩ =>
    ⟨settled, csN, sent, clkDiv.trans holds.divider, same.trans holds.buffer⟩

theorem transfer_deselected (data : BitVec 8) (holds : Holds true c divider buffer s) :
    ∃ byte, Yields ((port around fuel).transfer data) s byte (Holds true c divider buffer) := by
  have deselected : c.deselect = c := by
    rw [← holds.card]
    exact holds.settled.sound.deselected holds.csN
  have yields := transfer_yields around enough data holds.settled
  rw [holds.csN, holds.card, Sdcard.sent_deselected deselected] at yields
  exact ⟨_, yields.weaken fun s' ⟨settled, sent, csN, clkDiv, same⟩ =>
    ⟨settled, csN, sent, clkDiv.trans holds.divider, same.trans holds.buffer⟩⟩

theorem readCtrl_yields {csN : Bool} (holds : Holds csN c divider buffer s) :
    Yields (port around fuel).readCtrl s holds.ctrl.read (Holds csN c divider buffer) := by
  obtain ⟨window, reg⟩ := match_ctrl g ⟨g.baseAddress + 4, 0, 0xF, false, true⟩ rfl
  obtain ⟨s₁, s', run, before, after, free, nearer⟩ :=
    access_read around rfl rfl window (le_trans (by decide) enough) holds.settled.sound
      holds.settled.free
  have none : s₁.ctl.remaining = 0 := by
    have less := before.remaining
    rw [holds.settled.remaining] at less
    omega
  have settled' : Settled s' := ⟨after.sound, free, idle_of_remaining (by omega)⟩
  have whole := before.trans after
  refine ⟨s', ?_, settled', whole.csN.trans holds.csN, ?_, whole.clkDiv.trans holds.divider,
    whole.buffer.trans holds.buffer⟩
  · refine run.trans ?_
    have idle : s₁.ctl.state = .idle := idle_of_remaining none
    have quiet : s₁.ctl.busy = false := by simp [before.sound.busy, idle]
    rw [reg, register_ctrl quiet holds.ctrl (before.csN.trans holds.csN)
      (before.clkDiv.trans holds.divider)]
  · rw [← settled'.finalCard, whole.finalCard, holds.settled.finalCard, holds.card]

theorem writeCtrl_yields (dat : BitVec 32) {csN : Bool} (holds : Holds csN c divider buffer s) :
    Yields ((port around fuel).writeCtrl dat) s ()
      (Holds (Ctrl.write dat).csN (if (Ctrl.write dat).csN then c.deselect else c)
        (Ctrl.write dat).clkDiv buffer) := by
  let bus : HostBus := ⟨g.baseAddress + 4, dat, 0xF, true, true⟩
  obtain ⟨window, reg⟩ := match_ctrl g bus rfl
  obtain ⟨s₁, rdt, run, before, settled₁, hit⟩ :=
    access_write around bus rfl window (le_trans (by decide) enough) holds.settled
  have card₁ : s₁.card = c := by
    rw [← settled₁.finalCard, before.finalCard, holds.settled.finalCard, holds.card]
  have wrote := clock_ctrl around settled₁ hit rfl reg rfl
  rw [card₁] at wrote
  have sound : Sound (s₁.clock around bus) := by
    rw [wrote]
    constructor <;> simp [settled₁.idle, settled₁.sound.busy]
    · exact Nat.pos_of_ne_zero fun zero => (Ctrl.write bus.dat).divides (BitVec.eq_of_toNat_eq zero)
    · rintro high
      simp [high]
      rfl
  obtain ⟨⟨second, -⟩, free⟩ := acked_clock around bus sound (by rw [wrote])
  have idle : ((s₁.clock around bus).clock around bus).ctl.state = .idle := by
    have less := second.remaining
    have ended : (s₁.clock around bus).ctl.remaining = 0 := by
      simp [wrote, Controller.remaining, settled₁.idle]
    exact idle_of_remaining (by omega)
  have settled' : Settled ((s₁.clock around bus).clock around bus) := ⟨second.sound, free, idle⟩
  refine ⟨(s₁.clock around bus).clock around bus, ?_, settled', ?_, ?_, ?_, ?_⟩
  · change (write around fuel (g.baseAddress + 4) dat).run s = _
    rw [write, StateT.run_bind, run]
    rfl
  · rw [second.csN, wrote]
  · rw [← settled'.finalCard, second.finalCard, wrote]
    simp [System.finalCard, settled₁.idle, bus]
  · rw [second.clkDiv, wrote]
  · rw [second.buffer, wrote]
    exact before.buffer.trans holds.buffer

theorem select_yields {csN : Bool} (holds : Holds csN c divider buffer s) :
    Yields (SDCard.select (port around fuel)) s () (Holds false c divider buffer) := by
  apply (readCtrl_yields around enough holds).bind
  intro s' holds'
  have wrote := writeCtrl_yields around enough (holds.ctrl.read &&& ~~~ 1#32) holds'
  rw [Ctrl.write_select] at wrote
  exact wrote

theorem raise_yields {csN : Bool} (holds : Holds csN c divider buffer s) :
    Yields (SDCard.raise (port around fuel)) s () (Holds true c.deselect divider buffer) := by
  apply (readCtrl_yields around enough holds).bind
  intro s' holds'
  have wrote := writeCtrl_yields around enough (holds.ctrl.read ||| 1#32) holds'
  rw [Ctrl.write_raise] at wrote
  exact wrote

end Drivers

end SdcardWblite

end Cocoapuffs

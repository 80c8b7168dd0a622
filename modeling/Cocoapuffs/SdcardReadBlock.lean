import Cocoapuffs.SdcardWblite

/-!
# Reading a block from the card

`SDCard::ReadBlock` on the controller with a card.
-/

namespace Cocoapuffs

namespace SdcardWblite

open Program (Yields)
open Sdcard (argByte Commanded Reading Sending)
open SDCard (transfers pollResponse sendCommand deselect waitToken readBytes readBlock)

variable {g : Generics} {card : Sdcard.Generics} (around : Surroundings g)

/-- The card after a sequence of bytes. -/
def takeAll (bytes : List (BitVec 8)) (c : Sdcard.Card card) : Sdcard.Card card :=
  bytes.foldl (fun c byte => c.take byte) c

section Drivers

variable {fuel : Nat} (enough : enoughFuel ≤ fuel) {c : Sdcard.Card card} {divider : BitVec 16}
  {buffer : Nat → BitVec 8} {s : System card}
include enough

theorem deselect_yields {csN : Bool} (holds : Holds csN c divider buffer s) :
    Yields (deselect (port around fuel)) s () (Holds true c.deselect divider buffer) := by
  rw [deselect]
  apply (raise_yields around enough holds).bind
  intro s' raised
  obtain ⟨byte, exchanged⟩ := transfer_deselected around enough 0xFF#8 raised
  exact exchanged.bind fun s'' rested => Yields.pure rested

theorem transfers_yields (bytes : List (BitVec 8)) (holds : Holds false c divider buffer s) :
    Yields (transfers (port around fuel) bytes) s ()
      (Holds false (takeAll bytes c) divider buffer) := by
  induction bytes generalizing c s with
  | nil => exact Yields.pure holds
  | cons byte bytes ih =>
      rw [transfers]
      apply (transfer_selected around enough byte holds).bind
      intro s' holds'
      exact ih holds'

theorem pollResponse_yields (more : Nat)
    (response : c.give around.floating 0xFF#8 &&& 0x80 = 0)
    (holds : Holds false c divider buffer s) :
    Yields (pollResponse (port around fuel) (more + 1)) s
      ((c.give around.floating 0xFF#8).toNat : Int)
      (Holds false (c.take 0xFF#8) divider buffer) := by
  rw [pollResponse]
  apply (transfer_selected around enough 0xFF#8 holds).bind
  intro s' holds'
  rw [if_pos response]
  exact Yields.pure holds'

theorem sendCommand_read (arg : BitVec 32) (crc : BitVec 8) (idle : c.state = .idle)
    (holds : Holds false c divider buffer s) :
    ∃ c', Commanded 0b010001#6 arg (c.take 0xFF#8) c' ∧
      Yields (sendCommand (port around fuel) 0x51#8 arg crc) s 0
        (Holds false (c'.take 0xFF#8) divider buffer) := by
  have first : c.take 0xFF#8 = { c with miso := some true } :=
    Sdcard.sent_idle idle (by decide) (by decide)
  have ready : (c.take 0xFF#8).state = .idle := by rw [first]; exact idle
  have commanded := Sdcard.commanded_of_idle ready 0x51#8 (by decide) arg crc
  rw [show (0x51#8).extractLsb' 0 6 = 0b010001#6 by decide] at commanded
  have response := commanded.give (by decide) around.floating 0xFF#8
  refine ⟨_, commanded, ?_⟩
  rw [sendCommand]
  apply (transfers_yields around enough _ holds).bind
  intro s' holds'
  change Holds false ((c.take 0xFF#8).command 0x51#8 arg crc) divider buffer s' at holds'
  have polled := pollResponse_yields around enough 9 (by rw [response]; decide) holds'
  rw [response] at polled
  exact polled

theorem waitToken_yields (retries : Nat) (token : c.give around.floating 0xFF#8 = 0xFE)
    (holds : Holds false c divider buffer s) :
    Yields (waitToken (port around fuel) (retries + 1)) s (retries + 1)
      (Holds false (c.take 0xFF#8) divider buffer) := by
  rw [waitToken]
  apply (transfer_selected around enough 0xFF#8 holds).bind
  intro s' holds'
  rw [if_pos token]
  exact Yields.pure holds'

omit enough in
theorem store_yields (i : Nat) (byte : BitVec 8) {csN : Bool}
    (holds : Holds csN c divider buffer s) :
    Yields ((port around fuel).store i byte) s ()
      (Holds csN c divider (Function.update buffer i byte)) := by
  refine ⟨{ s with buffer := Function.update s.buffer i byte }, rfl, ?_⟩
  exact ⟨⟨⟨holds.settled.sound.1, holds.settled.sound.2, holds.settled.sound.3,
    holds.settled.sound.4, holds.settled.sound.5⟩, holds.settled.free, holds.settled.idle⟩,
    holds.csN, holds.card, holds.divider, by rw [← holds.buffer]⟩

theorem readBytes_yields {adr i more : Nat} {start : Sdcard.Card card} (total : i + more = 511)
    (inside : adr + 512 ≤ card.sizeBytes) (reading : Reading adr i start c)
    (holds : Holds false c divider buffer s) :
    Yields (readBytes (port around fuel) i (more + 1)) s () fun s' => ∃ c' buffer',
      Holds false (c'.take 0xFF#8) divider buffer' s' ∧ Reading adr 511 start c' ∧
        (∀ k, k < i → buffer' k = buffer k) ∧
        ∀ k, i ≤ k → k < 512 → buffer' k = Sdcard.RamType.at start.ram (adr + k) := by
  induction more generalizing i c buffer s with
  | zero =>
      obtain rfl : i = 511 := by omega
      rw [readBytes]
      apply (transfer_selected around enough 0xFF#8 holds).bind
      intro s₁ holds₁
      rw [reading.give]
      apply (store_yields around 511 _ holds₁).bind
      intro s₂ holds₂
      refine Yields.pure ⟨c, _, holds₂, reading, fun k before => ?_, fun k after small => ?_⟩
      · rw [Function.update_of_ne (by omega)]
      · obtain rfl : k = 511 := by omega
        rw [Function.update_self]
  | succ more ih =>
      rw [readBytes]
      apply (transfer_selected around enough 0xFF#8 holds).bind
      intro s₁ holds₁
      rw [reading.give]
      apply (store_yields around i _ holds₁).bind
      intro s₂ holds₂
      refine (ih (by omega) (reading.take (by omega) inside 0xFF#8) holds₂).weaken ?_
      rintro s' ⟨c', buffer', ends, last, before, after⟩
      refine ⟨c', buffer', ends, last, fun k small => ?_, fun k large small => ?_⟩
      · rw [before k (by omega), Function.update_of_ne (by omega)]
      · rcases Nat.eq_or_lt_of_le large with rfl | above
        · rw [before i (by omega), Function.update_self]
        · exact after k above small

/-- What a read of a block does: the bytes from the byte address `arg` on go to
the buffer. -/
theorem readBlock_yields (arg : BitVec 32) (inside : arg.toNat + 512 ≤ card.sizeBytes)
    (idle : c.state = .idle) (holds : Holds true c divider buffer s) :
    Yields (readBlock (port around fuel) true arg) s 0 fun s' => ∃ c' buffer',
      Holds true c' divider buffer' s' ∧ c'.ram = c.ram ∧ c'.halted = c.halted ∧
        ∀ k, k < 512 → buffer' k = Sdcard.RamType.at c.ram (arg.toNat + k) := by
  have first : c.take 0xFF#8 = { c with miso := some true } :=
    Sdcard.sent_idle idle (by decide) (by decide)
  rw [readBlock]
  apply (select_yields around enough holds).bind
  intro s₁ holds₁
  obtain ⟨c₁, commanded, responded⟩ := sendCommand_read around enough arg 0xFF#8 idle holds₁
  have adr₁ : c₁.currentAddr = arg.toNat := commanded.currentAddr (Or.inl rfl)
  have ram₁ : c₁.ram = c.ram := by rw [commanded.ram, first]
  have halted₁ : c₁.halted = c.halted := by
    rw [commanded.halted (by have := card.natural; omega), first]
  apply responded.bind
  intro s₂ holds₂
  rw [Sdcard.take_response_read commanded.state commanded.sending commanded.cmdIdx] at holds₂
  have token := Sdcard.sending_token c₁
  apply (waitToken_yields around enough 9999 (token.give around.floating 0xFF#8) holds₂).bind
  intro s₃ holds₃
  have reading := Sdcard.reading_of_token rfl token adr₁ (by omega) 0xFF#8
  apply (readBytes_yields around enough (by omega) inside reading holds₃).bind
  rintro s₄ ⟨c₂, buffer', holds₄, last, -, bytes⟩
  have crc := Sdcard.sending_crc c₂
  rw [last.take_last] at holds₄
  apply (transfers_yields around enough [0xFF, 0xFF] holds₄).bind
  intro s₅ holds₅
  simp only [takeAll, List.foldl_cons, List.foldl_nil] at holds₅
  rw [Sdcard.take_crc rfl rfl crc] at holds₅
  apply (deselect_yields around enough holds₅).bind
  intro s₆ holds₆
  refine Yields.pure ⟨_, buffer', holds₆, last.ram.trans ram₁, last.halted.trans halted₁, ?_⟩
  intro k small
  rw [bytes k (Nat.zero_le k) small]
  exact congrArg (fun ram => Sdcard.RamType.at ram (arg.toNat + k)) ram₁

end Drivers

/-- The driver's read of a block does what it says. -/
structure ReadsBlock (block : BitVec 32) (s : System card) (result : Int) (s' : System card) :
    Prop where
  result : result = 0
  csN : s'.ctl.csN = true
  bytes : ∀ k, k < 512 → s'.buffer k = Sdcard.RamType.at s.card.ram (512 * block.toNat + k)

/-- The driver takes a block for the byte address that the card takes it for:
what it reads is the block where the two have the same bytes. -/
theorem readBlock_iff {fuel : Nat} (enough : enoughFuel ≤ fuel) (s : System card)
    (settled : Settled s) (deselected : s.ctl.csN = true) (block : BitVec 32)
    (inside : (block.toNat + 1) * 512 ≤ card.sizeBytes) :
    ∃ result s', (readBlock (port around fuel) true block).run s = some (result, s') ∧
      s'.card.halted = s.card.halted ∧
      (ReadsBlock block s result s' ↔
        ∀ k, k < 512 → Sdcard.RamType.at s.card.ram (block.toNat + k) =
          Sdcard.RamType.at s.card.ram (512 * block.toNat + k)) := by
  have idle : s.card.state = .idle := by
    rw [← settled.sound.deselected deselected]
    rfl
  obtain ⟨s', run, c', buffer', holds, ram, halted, bytes⟩ :=
    readBlock_yields around enough block (by omega) idle
      ⟨settled, deselected, rfl, rfl, rfl⟩
  refine ⟨0, s', run, by rw [holds.card, halted], ?_⟩
  constructor
  · intro reads k small
    rw [← bytes k small, ← holds.buffer, reads.bytes k small]
  · intro same
    refine ⟨rfl, holds.csN, fun k small => ?_⟩
    rw [holds.buffer, bytes k small, same k small]

/-! ### A card of sixteen blocks -/

/-- The controller of the test bench. -/
def testBench : Generics := ⟨0x12345600, by decide⟩

/-- Nothing else is on the bus. -/
def alone : Surroundings testBench := ⟨true, fun _ => [], fun _ bus member => by simp at member⟩

def sixteenBlocks : Sdcard.Generics := ⟨8192, by decide⟩

/-- The controller and the card after a reset. -/
def afterReset (image : Nat → BitVec 8) : System sixteenBlocks where
  ctl := ⟨true, 1, 0, 0, .idle, 7, 0, false, false, false, 0⟩
  card :=
    { state := .idle, shiftReg := BitVec.allOnes 48, bitCount := 0
      ram := fun k => image k.val
      respReg := 0xFF, respBit := 0, cmdIdx := 0, cmdArg := 0, currentAddr := 0, byteCount := 0
      currentByte := 0xFF, miso := none, halted := false }
  accesses := 0
  buffer _ := 0

theorem settled_afterReset (image : Nat → BitVec 8) : Settled (afterReset image) where
  sound := ⟨by simp [afterReset], by simp [afterReset], rfl, by simp [afterReset], fun _ => rfl⟩
  free := rfl
  idle := rfl

/-- An image with a period that blocks and bytes have in common. -/
def periodic (k : Nat) : BitVec 8 :=
  BitVec.ofNat 8 (k % 511)

theorem readBlock_periodic : ∃ result s',
    (readBlock (port alone enoughFuel) true 3).run (afterReset periodic) = some (result, s') ∧
      ReadsBlock 3 (afterReset periodic) result s' := by
  obtain ⟨result, s', run, -, reads⟩ :=
    readBlock_iff alone (Nat.le_refl enoughFuel) (afterReset periodic)
      (settled_afterReset periodic) rfl 3 (by decide)
  refine ⟨result, s', run, reads.mpr fun k small => ?_⟩
  have same : (3 + k) % 511 = (512 * 3 + k) % 511 := by omega
  simp [Sdcard.RamType.at, afterReset, periodic, sixteenBlocks, same,
    show 3 + k < 8192 by omega, show 512 * 3 + k < 8192 by omega]

/-- A byte of the image counts the half blocks before it. -/
def halfBlocks (k : Nat) : BitVec 8 :=
  BitVec.ofNat 8 (k / 256)

/-- For the second block the driver reads the bytes from the second byte on. -/
theorem readBlock_not_second :
    ¬ ∀ (g : Generics) (card : Sdcard.Generics) (around : Surroundings g) (fuel : Nat)
      (s : System card) (block : BitVec 32), enoughFuel ≤ fuel → Settled s → s.ctl.csN = true →
      (block.toNat + 1) * 512 ≤ card.sizeBytes →
      ∃ result s', (readBlock (port around fuel) true block).run s = some (result, s') ∧
        ReadsBlock block s result s' := by
  intro claim
  obtain ⟨result, s', run, reads⟩ := claim testBench sixteenBlocks alone enoughFuel
    (afterReset halfBlocks) 1 (Nat.le_refl enoughFuel) (settled_afterReset halfBlocks) rfl
    (by decide)
  obtain ⟨s'', run', c', buffer', holds, -, -, bytes⟩ :=
    readBlock_yields alone (Nat.le_refl enoughFuel) 1 (by decide) rfl
      ⟨settled_afterReset halfBlocks, rfl, rfl, rfl, rfl⟩
  rw [run'] at run
  obtain ⟨-, rfl⟩ := Prod.mk.inj (Option.some.inj run)
  have first := bytes 0 (by decide)
  rw [← holds.buffer, reads.bytes 0 (by decide)] at first
  revert first
  decide

end SdcardWblite

end Cocoapuffs

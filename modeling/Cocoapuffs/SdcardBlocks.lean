import Cocoapuffs.SdcardReadBlock

/-!
# The card as a memory of blocks

Sequences of transactions of a host, with any bytes that the protocol leaves
open, against a memory in which reads and writes are what they say.
-/

namespace Cocoapuffs

namespace SdcardWblite

open Program (Yields)
open Sdcard (RamType argByte Reading Awaiting Writing Over Resting)
open SDCard (select raise transfers)

/-! ### The memory -/

/-- A transaction of a host: the byte address, the checksum of the command, and
what the protocol leaves open. -/
inductive Transaction where
  | read (adr : BitVec 32) (crc : BitVec 8) (trailing : Nat)
  | write (adr : BitVec 32) (crc : BitVec 8) (gap : Nat) (data : List (BitVec 8))
      (check check' : BitVec 8)

/-- What the host receives. -/
inductive Answer where
  | read (r1 token : BitVec 8) (data : List (BitVec 8))
  | write (r1 verdict : BitVec 8)
deriving DecidableEq

/-- Is it one that a host may send to the card? -/
def Transaction.WellFormed (card : Sdcard.Generics) : Transaction → Prop
  | .read adr crc _ => crc.getLsbD 0 = true ∧ adr.toNat + 512 ≤ card.sizeBytes
  | .write adr crc _ data _ _ =>
      crc.getLsbD 0 = true ∧ adr.toNat + 512 ≤ card.sizeBytes ∧ data.length = 512

variable {card : Sdcard.Generics}

/-- The memory after a transaction. -/
def Transaction.stored : Transaction → RamType card → RamType card
  | .read .., ram => ram
  | .write adr _ _ data _ _, ram => fun k =>
      if adr.toNat ≤ k.val ∧ k.val < adr.toNat + 512 then data.getD (k.val - adr.toNat) 0
      else ram k

/-- The answer of a memory. -/
def Transaction.answer : Transaction → RamType card → Answer
  | .read adr .., ram =>
      .read 0x00#8 0xFE#8 ((List.range 512).map fun k => RamType.at ram (adr.toNat + k))
  | .write .., _ => .write 0x00#8 0x05#8

/-- The memory after a sequence of transactions, and its answers. -/
def storedAll : List Transaction → RamType card → RamType card
  | [], ram => ram
  | t :: rest, ram => storedAll rest (t.stored ram)

def answers : List Transaction → RamType card → List Answer
  | [], _ => []
  | t :: rest, ram => t.answer ram :: answers rest (t.stored ram)

/-! ### The host -/

variable {g : Generics} (around : Surroundings g)

/-- The host sends ones until it receives a byte that it waits for. -/
def poll (fuel : Nat) (awaited : BitVec 8 → Bool) : Nat → StateT (System card) Option (BitVec 8)
  | 0 => failure
  | more + 1 => do
      let byte ← transfer around fuel 0xFF#8
      if awaited byte then pure byte else poll fuel awaited more

/-- A response has its first bit clear. -/
def isResponse (byte : BitVec 8) : Bool := byte &&& 0x80#8 == 0

def receive (fuel : Nat) : Nat → StateT (System card) Option (List (BitVec 8))
  | 0 => pure []
  | more + 1 => do
      let byte ← transfer around fuel 0xFF#8
      let bytes ← receive fuel more
      pure (byte :: bytes)

/-- The six bytes of a command. -/
def frame (cmd : BitVec 8) (arg : BitVec 32) (crc : BitVec 8) : List (BitVec 8) :=
  [cmd, argByte arg 3, argByte arg 2, argByte arg 1, argByte arg 0, crc]

def transact (fuel polls : Nat) : Transaction → StateT (System card) Option Answer
  | .read adr crc trailing => do
      select (port around fuel)
      transfers (port around fuel) (frame 0x51#8 adr crc)
      let r1 ← poll around fuel isResponse polls
      let token ← poll around fuel (· == 0xFE#8) polls
      let data ← receive around fuel 512
      transfers (port around fuel) (List.replicate trailing 0xFF#8)
      raise (port around fuel)
      pure (.read r1 token data)
  | .write adr crc gap data check check' => do
      select (port around fuel)
      transfers (port around fuel) (frame 0x58#8 adr crc)
      let r1 ← poll around fuel isResponse polls
      transfers (port around fuel) (List.replicate gap 0xFF#8)
      transfers (port around fuel) [0xFE#8]
      transfers (port around fuel) data
      transfers (port around fuel) [check, check']
      let verdict ← transfer around fuel 0xFF#8
      let _ ← poll around fuel (· == 0xFF#8) polls
      raise (port around fuel)
      pure (.write r1 verdict)

def transactAll (fuel polls : Nat) : List Transaction → StateT (System card) Option (List Answer)
  | [] => pure []
  | t :: rest => do
      let answer ← transact around fuel polls t
      let answers ← transactAll fuel polls rest
      pure (answer :: answers)

/-! ### The bytes of a block -/

/-- The bytes stored from an address on, one after the other. -/
def storeBytes (ram : RamType card) (adr : Nat) : List (BitVec 8) → RamType card
  | [] => ram
  | byte :: bytes => storeBytes (RamType.store ram adr byte) (adr + 1) bytes

theorem storeBytes_apply (ram : RamType card) (adr : Nat) (bytes : List (BitVec 8))
    (k : Fin card.sizeBytes) :
    storeBytes ram adr bytes k =
      if adr ≤ k.val ∧ k.val < adr + bytes.length then bytes.getD (k.val - adr) 0 else ram k := by
  induction bytes generalizing ram adr with
  | nil => simp [storeBytes, show ¬ (adr ≤ k.val ∧ k.val < adr) by omega]
  | cons byte bytes ih =>
      rw [storeBytes, ih, List.length_cons]
      by_cases first : k.val = adr
      · simp [first, RamType.store]
      · by_cases inside : adr + 1 ≤ k.val ∧ k.val < adr + 1 + bytes.length
        · rw [if_pos inside, if_pos (by omega), show k.val - adr = k.val - (adr + 1) + 1 by omega,
            List.getD_cons_succ]
        · rw [if_neg inside, if_neg (by omega), RamType.store, if_neg first]

theorem takeAll_replicate {invariant : Sdcard.Card card → Prop}
    (step : ∀ c, invariant c → invariant (c.take 0xFF#8)) (count : Nat) {c : Sdcard.Card card}
    (now : invariant c) : invariant (takeAll (List.replicate count 0xFF#8) c) := by
  induction count generalizing c with
  | zero => exact now
  | succ count ih => exact ih (step c now)

theorem takeAll_writing {adr count : Nat} {ram : RamType card} {start c : Sdcard.Card card}
    {bytes : List (BitVec 8)} (total : count + bytes.length = 512) (more : count ≤ 511)
    (inside : adr + 512 ≤ card.sizeBytes) (writing : Writing adr count ram start c) :
    Sdcard.Checking 15 (storeBytes ram (adr + count) bytes) start (takeAll bytes c) := by
  induction bytes generalizing count ram c with
  | nil => exact absurd total (by simp only [List.length_nil]; omega)
  | cons byte bytes ih =>
      rw [List.length_cons] at total
      by_cases last : count = 511
      · subst last
        obtain rfl : bytes = [] := List.length_eq_zero_iff.mp (by omega)
        exact writing.take_last inside byte
      · exact ih (by omega) (by omega) (writing.take (by omega) inside byte)

section Host

variable {fuel : Nat} (enough : enoughFuel ≤ fuel) {c : Sdcard.Card card} {divider : BitVec 16}
  {buffer : Nat → BitVec 8} {s : System card}
include enough

theorem poll_hit (awaited : BitVec 8 → Bool) {polls : Nat} (some_polls : 0 < polls)
    (hit : awaited (c.give around.floating 0xFF#8) = true)
    (holds : Holds false c divider buffer s) :
    Yields (poll around fuel awaited polls) s (c.give around.floating 0xFF#8)
      (Holds false (c.take 0xFF#8) divider buffer) := by
  obtain ⟨more, rfl⟩ := Nat.exists_eq_add_of_le' some_polls
  rw [poll]
  apply (transfer_selected around enough 0xFF#8 holds).bind
  intro s' holds'
  rw [if_pos hit]
  exact Yields.pure holds'

theorem poll_miss {awaited : BitVec 8 → Bool} {more : Nat} {byte : BitVec 8}
    {post : System card → Prop} (miss : awaited (c.give around.floating 0xFF#8) = false)
    (holds : Holds false c divider buffer s)
    (rest : ∀ s', Holds false (c.take 0xFF#8) divider buffer s' →
      Yields (poll around fuel awaited more) s' byte post) :
    Yields (poll around fuel awaited (more + 1)) s byte post := by
  rw [poll]
  apply (transfer_selected around enough 0xFF#8 holds).bind
  intro s' holds'
  rw [if_neg (by simp [miss])]
  exact rest s' holds'

theorem receive_yields {adr i more : Nat} {start : Sdcard.Card card} (total : i + more = 511)
    (inside : adr + 512 ≤ card.sizeBytes) (reading : Reading adr i start c)
    (holds : Holds false c divider buffer s) :
    Yields (receive around fuel (more + 1)) s
      ((List.range' i (more + 1)).map fun k => RamType.at start.ram (adr + k))
      fun s' => ∃ c', Holds false c' divider buffer s' ∧ Over start c' := by
  induction more generalizing i c s with
  | zero =>
      obtain rfl : i = 511 := by omega
      rw [receive]
      apply (transfer_selected around enough 0xFF#8 holds).bind
      intro s' holds'
      rw [reading.give]
      apply (Yields.pure holds').bind
      intro s'' holds''
      exact Yields.pure ⟨_, holds'', reading.ended 0xFF#8⟩
  | succ more ih =>
      rw [receive]
      apply (transfer_selected around enough 0xFF#8 holds).bind
      intro s' holds'
      rw [reading.give]
      apply (ih (by omega) (reading.take (by omega) inside 0xFF#8) holds').bind
      intro s'' ends
      exact Yields.pure ends

theorem read_yields {polls : Nat} (one : 0 < polls) {adr : BitVec 32} (crc : BitVec 8)
    (trailing : Nat) (inside : adr.toNat + 512 ≤ card.sizeBytes) (idle : c.state = .idle)
    (holds : Holds true c divider buffer s) :
    Yields (transact around fuel polls (.read adr crc trailing)) s
      ((Transaction.read adr crc trailing).answer c.ram) fun s' => ∃ c',
        Holds true c' divider buffer s' ∧ c'.state = .idle ∧ c'.ram = c.ram ∧
          c'.halted = c.halted := by
  have commanded := Sdcard.commanded_of_idle idle 0x51#8 (by decide) adr crc
  rw [show (0x51#8).extractLsb' 0 6 = 0b010001#6 by decide] at commanded
  rw [transact]
  apply (select_yields around enough holds).bind
  intro s₁ holds₁
  apply (transfers_yields around enough (frame 0x51#8 adr crc) holds₁).bind
  intro s₂ holds₂
  change Holds false (c.command 0x51#8 adr crc) divider buffer s₂ at holds₂
  generalize c.command 0x51#8 adr crc = c₁ at commanded holds₂
  have response := commanded.give (by decide) around.floating 0xFF#8
  have token := Sdcard.give_token c₁ around.floating 0xFF#8
  apply (poll_hit around enough _ one (by rw [response]; decide) holds₂).bind
  intro s₃ holds₃
  rw [Sdcard.take_response_read commanded.state commanded.sending commanded.cmdIdx] at holds₃
  apply (poll_hit around enough _ one (by rw [token]; decide) holds₃).bind
  intro s₄ holds₄
  have reading := Sdcard.reading_of_token rfl (Sdcard.sending_token c₁)
    (commanded.currentAddr (Or.inl rfl)) (by omega) 0xFF#8
  apply (receive_yields around enough (by omega) inside reading holds₄).bind
  rintro s₅ ⟨c₂, holds₅, ended⟩
  apply (transfers_yields around enough (List.replicate trailing 0xFF#8) holds₅).bind
  intro s₆ holds₆
  have rest := takeAll_replicate (fun c ended => Sdcard.Over.take ended) trailing ended
  apply (raise_yields around enough holds₆).bind
  intro s₇ holds₇
  have small := card.natural
  rw [response, token, Transaction.answer, List.range_eq_range', ← commanded.ram]
  apply Yields.pure
  exact ⟨_, holds₇, rfl, rest.ram, rest.halted.trans (commanded.halted (by omega))⟩

theorem poll_busy {polls : Nat} {ram : RamType card} {start : Sdcard.Card card}
    (busy : Sdcard.Busy 10 ram start c) (holds : Holds false c divider buffer s) :
    Yields (poll around fuel (· == 0xFF#8) (polls + 3)) s 0xFF#8 fun s' => ∃ c',
      Holds false c' divider buffer s' ∧ Resting .idle ram start c' := by
  have first := busy.give around.floating 0xFF#8
  have ending := busy.take 0xFF#8
  have second := ending.give_last around.floating
  have resting := ending.take_last
  have ready := resting.give around.floating
  apply poll_miss around enough (by rw [first]; decide) holds
  intro s₁ holds₁
  apply poll_miss around enough (by rw [second]; decide) holds₁
  intro s₂ holds₂
  have polled := poll_hit around enough (· == 0xFF#8) (Nat.succ_pos polls)
    (by rw [ready]; decide) holds₂
  rw [ready] at polled
  exact polled.weaken fun s' holds' => ⟨_, holds', resting.take⟩

theorem accept_yields {polls : Nat} (three : 3 ≤ polls) {ram : RamType card}
    {start : Sdcard.Card card} (accepting : Sdcard.Accepting ram start c) {r1 : BitVec 8}
    (holds : Holds false c divider buffer s) :
    Yields (do
      let verdict ← transfer around fuel 0xFF#8
      let _ ← poll around fuel (· == 0xFF#8) polls
      raise (port around fuel)
      pure (Answer.write r1 verdict)) s (.write r1 0x05#8) fun s' => ∃ c',
        Holds true c' divider buffer s' ∧ c'.state = .idle ∧ c'.ram = ram ∧
          c'.halted = start.halted := by
  have verdict := accepting.give around.floating 0xFF#8
  have busy := accepting.take 0xFF#8
  obtain ⟨polls, rfl⟩ := Nat.exists_eq_add_of_le' three
  apply (transfer_selected around enough 0xFF#8 holds).bind
  intro s₁ holds₁
  apply (poll_busy around enough busy holds₁).bind
  rintro s₂ ⟨c₂, holds₂, resting⟩
  apply (raise_yields around enough holds₂).bind
  intro s₃ holds₃
  rw [verdict]
  apply Yields.pure
  exact ⟨_, holds₃, rfl, resting.ram, resting.halted⟩

theorem write_yields {polls : Nat} (three : 3 ≤ polls) {adr : BitVec 32} (crc : BitVec 8)
    (gap : Nat) {data : List (BitVec 8)} (check check' : BitVec 8)
    (inside : adr.toNat + 512 ≤ card.sizeBytes) (length : data.length = 512)
    (idle : c.state = .idle) (holds : Holds true c divider buffer s) :
    Yields (transact around fuel polls (.write adr crc gap data check check')) s
      (.write 0x00#8 0x05#8) fun s' => ∃ c',
        Holds true c' divider buffer s' ∧ c'.state = .idle ∧
          c'.ram = storeBytes c.ram adr.toNat data ∧ c'.halted = c.halted := by
  have commanded := Sdcard.commanded_of_idle idle 0x58#8 (by decide) adr crc
  rw [show (0x58#8).extractLsb' 0 6 = 0b011000#6 by decide] at commanded
  rw [transact]
  apply (select_yields around enough holds).bind
  intro s₁ holds₁
  apply (transfers_yields around enough (frame 0x58#8 adr crc) holds₁).bind
  intro s₂ holds₂
  change Holds false (c.command 0x58#8 adr crc) divider buffer s₂ at holds₂
  generalize c.command 0x58#8 adr crc = c₁ at commanded holds₂
  have response := commanded.give (by decide) around.floating 0xFF#8
  apply (poll_hit around enough _ (by omega) (by rw [response]; decide) holds₂).bind
  intro s₃ holds₃
  rw [response]
  have awaiting := Sdcard.awaiting_of_response commanded.state commanded.sending commanded.cmdIdx
    0xFF#8
  apply (transfers_yields around enough (List.replicate gap 0xFF#8) holds₃).bind
  intro s₄ holds₄
  have waited := takeAll_replicate (fun c awaiting => Sdcard.Awaiting.take_gap awaiting) gap awaiting
  apply (transfers_yields around enough [0xFE#8] holds₄).bind
  intro s₅ holds₅
  have writing := waited.take_token
  rw [commanded.currentAddr (Or.inr rfl), commanded.ram] at writing
  apply (transfers_yields around enough data holds₅).bind
  intro s₆ holds₆
  have checking := takeAll_writing (by rw [length] : 0 + data.length = 512) (by omega) inside
    writing
  apply (transfers_yields around enough [check, check'] holds₆).bind
  intro s₇ holds₇
  have accepting : Sdcard.Accepting _ c₁ (takeAll [check, check'] _) := checking.take check check'
  refine (accept_yields around enough three accepting holds₇).weaken ?_
  rintro s' ⟨c', holds', idle', ram, halted⟩
  have small := card.natural
  exact ⟨c', holds', idle', ram, halted.trans (commanded.halted (by omega))⟩

/-- The card answers a transaction as the memory does, and stores what it stores. -/
theorem transact_yields {polls : Nat} (three : 3 ≤ polls) {t : Transaction}
    (wellFormed : t.WellFormed card) (idle : c.state = .idle)
    (holds : Holds true c divider buffer s) :
    Yields (transact around fuel polls t) s (t.answer c.ram) fun s' => ∃ c',
      Holds true c' divider buffer s' ∧ c'.state = .idle ∧ c'.ram = t.stored c.ram ∧
        c'.halted = c.halted := by
  cases t with
  | read adr crc trailing =>
      exact read_yields around enough (by omega) crc trailing wellFormed.2 idle holds
  | write adr crc gap data check check' =>
      obtain ⟨-, inside, length⟩ := wellFormed
      refine (write_yields around enough three crc gap check check' inside length idle
        holds).weaken ?_
      rintro s' ⟨c', holds', idle', ram, halted⟩
      refine ⟨c', holds', idle', ?_, halted⟩
      rw [ram]
      funext k
      rw [storeBytes_apply, length, Transaction.stored]

theorem transactAll_yields {polls : Nat} (three : 3 ≤ polls) {ts : List Transaction}
    (wellFormed : ∀ t ∈ ts, t.WellFormed card) (idle : c.state = .idle)
    (holds : Holds true c divider buffer s) :
    Yields (transactAll around fuel polls ts) s (answers ts c.ram) fun s' => ∃ c',
      Holds true c' divider buffer s' ∧ c'.ram = storedAll ts c.ram ∧ c'.halted = c.halted := by
  induction ts generalizing c s with
  | nil => exact Yields.pure ⟨c, holds, rfl, rfl⟩
  | cons t rest ih =>
      rw [transactAll]
      apply (transact_yields around enough three (wellFormed t (by simp)) idle holds).bind
      rintro s₁ ⟨c₁, holds₁, idle₁, ram₁, halted₁⟩
      have later := ih (fun t member => wellFormed t (by simp [member])) idle₁ holds₁
      rw [ram₁] at later
      apply later.bind
      rintro s₂ ⟨c₂, holds₂, ram₂, halted₂⟩
      exact Yields.pure ⟨c₂, holds₂, ram₂, halted₂.trans halted₁⟩

end Host

/-- Through the controller the card is a memory of bytes that is read and
written in blocks. -/
theorem sdcard_isBlockMemory {fuel polls : Nat} (enough : enoughFuel ≤ fuel) (three : 3 ≤ polls)
    (s : System card) (settled : Settled s) (deselected : s.ctl.csN = true)
    (ts : List Transaction) (wellFormed : ∀ t ∈ ts, t.WellFormed card) :
    Yields (transactAll around fuel polls ts) s (answers ts s.card.ram) fun s' =>
      Settled s' ∧ s'.ctl.csN = true ∧ s'.card.ram = storedAll ts s.card.ram ∧
        s'.card.halted = s.card.halted := by
  have idle : s.card.state = .idle := by
    rw [← settled.sound.deselected deselected]
    rfl
  refine (transactAll_yields around enough three wellFormed idle
    ⟨settled, deselected, rfl, rfl, rfl⟩).weaken ?_
  rintro s' ⟨c', holds, ram, halted⟩
  exact ⟨holds.settled, holds.csN, by rw [holds.card, ram], by rw [holds.card, halted]⟩

/-- The second block is written, with a gap of two bytes, and read. -/
theorem sdcard_isBlockMemory_second :
    let ts : List Transaction :=
      [.write 512 0xFF 2 (List.replicate 512 0xA5#8) 0xFF 0xFF, .read 512 0xFF 2]
    Yields (transactAll alone enoughFuel 3 ts) (afterReset halfBlocks)
      (answers ts (afterReset halfBlocks).card.ram) fun s' => Settled s' ∧ s'.ctl.csN = true ∧
        s'.card.ram = storedAll ts (afterReset halfBlocks).card.ram ∧ s'.card.halted = false :=
  sdcard_isBlockMemory alone (Nat.le_refl enoughFuel) (Nat.le_refl 3) (afterReset halfBlocks)
    (settled_afterReset halfBlocks) rfl _ fun t member => by
      rcases List.mem_cons.mp member with rfl | member
      · exact ⟨by decide, by decide, List.length_replicate⟩
      · obtain rfl := List.mem_singleton.mp member
        exact ⟨by decide, by decide⟩

end SdcardWblite

end Cocoapuffs

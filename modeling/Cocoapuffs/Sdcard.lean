import Mathlib.Algebra.Group.Nat.Defs
import Mathlib.Tactic.Common

/-!
# The card on the wire

The entity `sdcard`: a memory card in SPI mode.  Its process for the input
runs at a rising edge of `sck`, its process for the output at a falling one,
and both while `cs_n` is high.
-/

namespace Cocoapuffs

/-- A vector with one bit assigned. -/
def setBit {width : Nat} (v : BitVec width) (index : Nat) (bit : Bool) : BitVec width :=
  if bit then v ||| BitVec.twoPow width index else v &&& ~~~ BitVec.twoPow width index

theorem getLsbD_setBit {width : Nat} (v : BitVec width) {index : Nat} (bit : Bool)
    (inside : index < width) (j : Nat) :
    (setBit v index bit).getLsbD j = if j = index then bit else v.getLsbD j := by
  by_cases same : j = index
  · subst same
    cases bit <;> simp [setBit, inside]
  · by_cases small : j < width
    · cases bit <;> simp [setBit, same, small]
    · cases bit <;> simp [setBit, same, BitVec.getLsbD_of_ge _ _ (by omega : width ≤ j)]

namespace Sdcard

/-- The generics of `sdcard`; the size is a VHDL `natural`. -/
structure Generics where
  sizeBytes : Nat
  natural : sizeBytes < 2 ^ 31

/-- `state_t`. -/
inductive StateType where
  | idle
  | receiveCmd
  | sendResponse
  | sendDataToken
  | sendData
  | sendCrc
  | receiveDataToken
  | receiveData
  | receiveCrc
  | sendDataResponse
  | waitBusy
  | waitIdle
deriving DecidableEq

/-- `ram_type`. -/
abbrev RamType (g : Generics) := Fin g.sizeBytes → BitVec 8

/-- The signals of the card.  `miso` has no value while the card does not drive
it, and `halted` says that an index has left its range, which ends a simulation. -/
structure Card (g : Generics) where
  state : StateType
  shiftReg : BitVec 48
  bitCount : Nat
  ram : RamType g
  respReg : BitVec 8
  respBit : Nat
  cmdIdx : BitVec 6
  cmdArg : BitVec 32
  currentAddr : Nat
  byteCount : Nat
  currentByte : BitVec 8
  miso : Option Bool
  halted : Bool

variable {g : Generics}

/-- `ram(index)`. -/
def RamType.at (ram : RamType g) (index : Nat) : BitVec 8 :=
  if inside : index < g.sizeBytes then ram ⟨index, inside⟩ else 0

/-- `ram(index) <= byte`. -/
def RamType.store (ram : RamType g) (index : Nat) (byte : BitVec 8) : RamType g :=
  fun k => if k.val = index then byte else ram k

/-- Does `ram(index)` end the simulation? -/
def Generics.outside (g : Generics) (index : Nat) : Bool := !decide (index < g.sizeBytes)

/-- `shift_reg(6 downto 0) & h2d.mosi`. -/
def window (shiftReg : BitVec 48) (mosi : Bool) : BitVec 8 :=
  shiftReg.extractLsb' 0 7 ++ BitVec.ofBool mosi

/-- `shift_reg(7 downto 0) <= shift_reg(6 downto 0) & h2d.mosi`. -/
def shift (shiftReg : BitVec 48) (mosi : Bool) : BitVec 48 :=
  shiftReg.extractLsb' 8 40 ++ window shiftReg mosi

/-- `to_integer(unsigned(arg))` for the commands that have an address. -/
def Card.address (c : Card g) (cmd : BitVec 6) (arg : BitVec 32) : Card g :=
  if cmd = 0b010001#6 ∨ cmd = 0b011000#6 then
    { c with currentAddr := arg.toNat, halted := c.halted || decide (2 ^ 31 ≤ arg.toNat) }
  else c

/-- A rising edge of `sck`. -/
def Card.rise (mosi : Bool) (c : Card g) : Card g :=
  match c.state with
  | .idle =>
      if mosi then c
      else
        { c with
          shiftReg := setBit (BitVec.allOnes 48) 47 false, bitCount := 46, state := .receiveCmd }
  | .receiveCmd =>
      let received := { c with shiftReg := setBit c.shiftReg c.bitCount mosi }
      if c.bitCount = 0 then
        let cmd := c.shiftReg.extractLsb' 40 6
        let arg := c.shiftReg.extractLsb' 8 32
        { received.address cmd arg with
          cmdIdx := cmd
          cmdArg := arg
          respBit := 7
          respReg := if cmd = 0b000000#6 then 0x01#8 else 0x00#8
          state := .sendResponse }
      else { received with bitCount := c.bitCount - 1 }
  | .sendResponse =>
      if c.respBit = 0 then
        if c.cmdIdx = 0b010001#6 then
          { c with state := .sendDataToken, currentByte := 0xFE#8, respBit := 7 }
        else if c.cmdIdx = 0b011000#6 then { c with state := .receiveDataToken }
        else { c with state := .waitIdle }
      else { c with respBit := c.respBit - 1 }
  | .sendDataToken =>
      if c.respBit = 0 then
        { c with
          state := .sendData
          byteCount := 0
          currentByte := RamType.at c.ram c.currentAddr
          halted := c.halted || g.outside c.currentAddr
          respBit := 7 }
      else { c with respBit := c.respBit - 1 }
  | .sendData =>
      if c.respBit = 0 then
        if c.byteCount = 511 then
          { c with state := .sendCrc, currentByte := 0xAA#8, byteCount := 0, respBit := 7 }
        else
          { c with
            byteCount := c.byteCount + 1
            currentByte := RamType.at c.ram (c.currentAddr + c.byteCount + 1)
            halted := c.halted || g.outside (c.currentAddr + c.byteCount + 1)
            respBit := 7 }
      else { c with respBit := c.respBit - 1 }
  | .sendCrc =>
      if c.respBit = 0 then
        if c.byteCount = 1 then { c with state := .waitIdle }
        else { c with byteCount := c.byteCount + 1, currentByte := 0x55#8, respBit := 7 }
      else { c with respBit := c.respBit - 1 }
  | .receiveDataToken =>
      let shifted := { c with shiftReg := shift c.shiftReg mosi }
      if window c.shiftReg mosi = 0xFE#8 then
        { shifted with state := .receiveData, byteCount := 0, respBit := 7 }
      else shifted
  | .receiveData =>
      let shifted := { c with shiftReg := shift c.shiftReg mosi }
      if c.respBit = 0 then
        let stored :=
          { shifted with
            ram := RamType.store c.ram (c.currentAddr + c.byteCount) (window c.shiftReg mosi)
            halted := c.halted || g.outside (c.currentAddr + c.byteCount) }
        if c.byteCount = 511 then
          { stored with state := .receiveCrc, byteCount := 0, respBit := 15 }
        else { stored with byteCount := c.byteCount + 1, respBit := 7 }
      else { shifted with respBit := c.respBit - 1 }
  | .receiveCrc =>
      if c.respBit = 0 then { c with state := .sendDataResponse, respReg := 0x05#8, respBit := 7 }
      else { c with respBit := c.respBit - 1 }
  | .sendDataResponse =>
      if c.respBit = 0 then { c with state := .waitBusy, byteCount := 10 }
      else { c with respBit := c.respBit - 1 }
  | .waitBusy =>
      if c.byteCount = 0 then { c with state := .waitIdle }
      else { c with byteCount := c.byteCount - 1 }
  | .waitIdle => if mosi then { c with state := .idle } else c

/-- What the process for the output drives. -/
def Card.output (c : Card g) : Bool :=
  match c.state with
  | .sendResponse | .sendDataResponse => c.respReg.getLsbD c.respBit
  | .sendDataToken | .sendData | .sendCrc => c.currentByte.getLsbD c.respBit
  | .waitBusy => false
  | _ => true

/-- A falling edge of `sck`. -/
def Card.fall (c : Card g) : Card g := { c with miso := some c.output }

/-- Both processes while `cs_n` is high. -/
def Card.deselect (c : Card g) : Card g := { c with state := .idle, bitCount := 0, miso := none }

/-- The reaction to the wires, with `sck` before and after. -/
def Card.react (csN before after mosi : Bool) (c : Card g) : Card g :=
  if csN then c.deselect
  else if !before && after then c.rise mosi
  else if before && !after then c.fall
  else c

/-! ### Bytes on the wire -/

/-- One pulse of `sck`. -/
def Card.pulse (csN mosi : Bool) (c : Card g) : Card g :=
  (c.react csN false true mosi).react csN true false mosi

/-- What the host reads of the line, which floats while the card does not drive
it. -/
def Card.line (floating : Bool) (c : Card g) : Bool := c.miso.getD floating

/-- The card after the low bits of a byte were sent to it, the highest first. -/
def Card.sent (csN : Bool) (byte : BitVec 8) : Nat → Card g → Card g
  | 0, c => c
  | k + 1, c => Card.sent csN byte k (c.pulse csN (byte.getLsbD k))

/-- The byte that the host reads meanwhile, bit after bit. -/
def Card.received (floating csN : Bool) (byte : BitVec 8) : Nat → Card g → BitVec 8 → BitVec 8
  | 0, _, rx => rx
  | k + 1, c, rx =>
      Card.received floating csN byte k (c.pulse csN (byte.getLsbD k)) (setBit rx k (c.line floating))

/-- A selected card is sent a byte. -/
def Card.take (byte : BitVec 8) (c : Card g) : Card g := c.sent false byte 8

/-- The byte that a selected card gives for a byte. -/
def Card.give (floating : Bool) (byte : BitVec 8) (c : Card g) : BitVec 8 :=
  c.received floating false byte 8 0

theorem received_congr (floating csN : Bool) (byte : BitVec 8) {k : Nat} (c : Card g)
    {rx rx' : BitVec 8} (le : k ≤ 8) (agree : ∀ j, k ≤ j → j < 8 → rx.getLsbD j = rx'.getLsbD j) :
    c.received floating csN byte k rx = c.received floating csN byte k rx' := by
  induction k generalizing c rx rx' with
  | zero => exact BitVec.eq_of_getLsbD_eq fun j small => agree j (Nat.zero_le j) small
  | succ k ih =>
      apply ih _ (by omega)
      intro j after small
      rw [getLsbD_setBit _ _ (by omega), getLsbD_setBit _ _ (by omega)]
      by_cases same : j = k
      · simp [same]
      · simp [same, agree j (by omega) small]

theorem received_eight (floating : Bool) (byte : BitVec 8) (c : Card g) (rx : BitVec 8) :
    c.received floating false byte 8 rx = c.give floating byte :=
  received_congr floating false byte c (Nat.le_refl 8) fun j after small => absurd small (by omega)

theorem sent_deselected {c : Card g} (deselected : c.deselect = c) (byte : BitVec 8) (k : Nat) :
    c.sent true byte k = c := by
  induction k with
  | zero => rfl
  | succ k ih => simp [Card.sent, Card.pulse, Card.react, deselected, ih]

theorem react_falling (csN mosi mosi' : Bool) (c : Card g) :
    c.react csN true false mosi = c.react csN true false mosi' := by
  cases csN <;> rfl

theorem react_steady {csN : Bool} {c : Card g} (deselected : csN = true → c.deselect = c)
    (sck mosi : Bool) : c.react csN sck sck mosi = c := by
  cases csN with
  | false => simp [Card.react]
  | true => exact deselected rfl

theorem deselect_react (csN before after mosi : Bool) (c : Card g) :
    csN = true → (c.react csN before after mosi).deselect = c.react csN before after mosi := by
  rintro rfl
  rfl

theorem pulse_selected (mosi : Bool) (c : Card g) : c.pulse false mosi = (c.rise mosi).fall := by
  simp [Card.pulse, Card.react]

theorem sent_succ (byte : BitVec 8) (k : Nat) (c : Card g) :
    c.sent false byte (k + 1) = ((c.rise (byte.getLsbD k)).fall).sent false byte k := by
  rw [Card.sent, pulse_selected]

theorem sent_rule {byte : BitVec 8} {n : Nat} (invariant : Nat → Card g → Prop)
    (step : ∀ k c, k < n → invariant (k + 1) c →
      invariant k (c.rise (byte.getLsbD k)).fall) {k : Nat} (le : k ≤ n) {c : Card g}
    (now : invariant k c) : invariant 0 (c.sent false byte k) := by
  induction k generalizing c with
  | zero => exact now
  | succ k ih =>
      rw [sent_succ]
      exact ih (by omega) (step k c (by omega) now)

theorem sent_last_rule {byte : BitVec 8} {n : Nat} (invariant : Nat → Card g → Prop)
    (step : ∀ k c, k < n → invariant (k + 1) c →
      invariant k (c.rise (byte.getLsbD (k + 1))).fall) {k : Nat} (le : k ≤ n) {c : Card g}
    (now : invariant k c) : ∃ last, invariant 0 last ∧
      c.sent false byte (k + 1) = (last.rise (byte.getLsbD 0)).fall := by
  induction k generalizing c with
  | zero => exact ⟨c, now, by rw [sent_succ, Card.sent]⟩
  | succ k ih =>
      rw [sent_succ]
      exact ih (by omega) (step k c (by omega) now)

/-- The host reads the bits that are on the line. -/
theorem received_rule {byte : BitVec 8} {floating : Bool} (invariant : Nat → Card g → Prop)
    (bits : BitVec 8)
    (line : ∀ k c, k < 8 → invariant (k + 1) c → c.line floating = bits.getLsbD k)
    (step : ∀ k c, 0 < k → k < 8 → invariant (k + 1) c →
      invariant k (c.rise (byte.getLsbD k)).fall) {c : Card g} (now : invariant 8 c) :
    c.give floating byte = bits := by
  have read : ∀ k, k ≤ 8 → ∀ c : Card g, (0 < k → invariant k c) → ∀ rx : BitVec 8,
      (∀ j, k ≤ j → j < 8 → rx.getLsbD j = bits.getLsbD j) →
        c.received floating false byte k rx = bits := by
    intro k
    induction k with
    | zero => exact fun _ c _ rx agree =>
        BitVec.eq_of_getLsbD_eq fun j small => agree j (Nat.zero_le j) small
    | succ k ih =>
        intro le c now rx agree
        rw [Card.received, pulse_selected, line k c (by omega) (now (by omega))]
        apply ih (by omega) _ fun more => step k c more (by omega) (now (by omega))
        intro j after small
        rw [getLsbD_setBit _ _ (by omega)]
        by_cases same : j = k
        · rw [if_pos same, same]
        · rw [if_neg same, agree j (by omega) small]
  exact read 8 (Nat.le_refl 8) c (fun _ => now) 0 fun j after small => absurd small (by omega)

/-! ### States in which the card sends a byte -/

def StateType.sends : StateType → Bool
  | .sendResponse | .sendDataToken | .sendData | .sendCrc | .sendDataResponse => true
  | _ => false

/-- The byte that a card sends. -/
def Card.out (c : Card g) : BitVec 8 :=
  match c.state with
  | .sendResponse | .sendDataResponse => c.respReg
  | _ => c.currentByte

theorem output_of_sends {c : Card g} (sends : c.state.sends = true) :
    c.output = c.out.getLsbD c.respBit := by
  cases state : c.state <;> simp_all [StateType.sends, Card.output, Card.out]

theorem rise_of_sends {c : Card g} (sends : c.state.sends = true) {k : Nat}
    (more : c.respBit = k + 1) (mosi : Bool) : c.rise mosi = { c with respBit := k } := by
  cases state : c.state <;> simp_all [StateType.sends, Card.rise]

/-- The end of a byte: neither the line of the host nor its own matters. -/
theorem rise_of_last {c : Card g} (sends : c.state.sends = true) (mosi : Bool)
    (miso : Option Bool) : ({ c with respBit := 0, miso := miso } : Card g).rise mosi =
      { ({ c with respBit := 0 } : Card g).rise true with miso := miso } := by
  cases state : c.state <;> simp_all only [StateType.sends, Bool.false_eq_true, Card.rise,
    if_true]
  all_goals repeat' split
  all_goals rfl

theorem fall_of_last {c : Card g} (sends : c.state.sends = true) (mosi : Bool)
    (miso : Option Bool) :
    (({ c with respBit := 0, miso := miso } : Card g).rise mosi).fall =
      (({ c with respBit := 0 } : Card g).rise true).fall := by
  rw [rise_of_last sends]
  rfl

/-- The card sends a byte, of which the bits from `k` down are left. -/
structure Sending (c : Card g) (k : Nat) : Prop where
  sends : c.state.sends = true
  respBit : c.respBit = k
  miso : c.miso = some (c.out.getLsbD k)

theorem Sending.fall_rise {c : Card g} {k : Nat} (sending : Sending c (k + 1)) (mosi : Bool) :
    (c.rise mosi).fall = { c with respBit := k, miso := some (c.out.getLsbD k) } := by
  have output := output_of_sends (c := { c with respBit := k }) sending.sends
  rw [rise_of_sends sending.sends sending.respBit, Card.fall, output]
  rfl

theorem Sending.next {c : Card g} {k : Nat} (sending : Sending c (k + 1)) :
    Sending ({ c with respBit := k, miso := some (c.out.getLsbD k) } : Card g) k :=
  ⟨sending.sends, rfl, rfl⟩

theorem Sending.sent {c : Card g} {k : Nat} (sending : Sending c k) (byte : BitVec 8) :
    c.sent false byte (k + 1) = (({ c with respBit := 0 } : Card g).rise true).fall := by
  induction k generalizing c with
  | zero =>
      rw [sent_succ, Card.sent, ← fall_of_last sending.sends (byte.getLsbD 0) c.miso]
      rw [← sending.respBit]
  | succ k ih =>
      rw [sent_succ, sending.fall_rise, ih sending.next]
      exact (fall_of_last sending.sends true _).symm ▸ rfl

theorem Sending.take {c : Card g} (sending : Sending c 7) (byte : BitVec 8) :
    c.take byte = (({ c with respBit := 0 } : Card g).rise true).fall :=
  sending.sent byte

theorem Sending.give {c : Card g} (sending : Sending c 7) (floating : Bool) (byte : BitVec 8) :
    c.give floating byte = c.out := by
  apply received_rule (fun k c' => Sending c' (k - 1) ∧ c'.out = c.out)
  · rintro k c' - ⟨sending, out⟩
    rw [Card.line, sending.miso, Option.getD_some, out, Nat.add_sub_cancel]
  · rintro k c' more - ⟨sending, out⟩
    obtain ⟨k, rfl⟩ : ∃ less, k = less + 1 := ⟨k - 1, by omega⟩
    rw [Nat.add_sub_cancel] at sending
    rw [sending.fall_rise, Nat.add_sub_cancel]
    exact ⟨sending.next, out⟩
  · exact ⟨sending, rfl⟩

/-! ### Commands -/

/-- The idle card does not move for a byte of ones. -/
theorem sent_idle {c : Card g} (idle : c.state = .idle) {k : Nat} (some_bits : 0 < k) (le : k ≤ 8) :
    c.sent false 0xFF#8 k = { c with miso := some true } := by
  have one : ∀ j, j < 8 → (0xFF#8).getLsbD j = true := by decide
  induction k generalizing c with
  | zero => exact absurd some_bits (Nat.lt_irrefl 0)
  | succ k ih =>
      have stays : (c.rise ((0xFF#8).getLsbD k)).fall = { c with miso := some true } := by
        rw [one k le]
        simp [Card.rise, idle, Card.fall, Card.output]
      rw [sent_succ, stays]
      rcases Nat.eq_zero_or_pos k with rfl | more
      · rfl
      · exact ih idle more (by omega)

/-- The card receives a command: its register holds the bits of the frame above
`n`. -/
structure Receiving (frame : BitVec 48) (n : Nat) (start c : Card g) : Prop where
  state : c.state = .receiveCmd
  bitCount : c.bitCount = n
  bits : ∀ j, n < j → j < 48 → c.shiftReg.getLsbD j = frame.getLsbD j
  ram : c.ram = start.ram
  halted : c.halted = start.halted

theorem Receiving.fall_rise {frame : BitVec 48} {n : Nat} {start c : Card g} (lt : n < 47)
    (receiving : Receiving frame (n + 1) start c) :
    Receiving frame n start (c.rise (frame.getLsbD (n + 1))).fall := by
  have nonzero : c.bitCount ≠ 0 := by simp [receiving.bitCount]
  have moved : c.rise (frame.getLsbD (n + 1)) =
      { c with
        shiftReg := setBit c.shiftReg c.bitCount (frame.getLsbD (n + 1))
        bitCount := c.bitCount - 1 } := by
    simp [Card.rise, receiving.state, nonzero]
  rw [moved]
  constructor
  · exact receiving.state
  · simp [Card.fall, receiving.bitCount]
  · intro j after small
    rw [Card.fall, receiving.bitCount, getLsbD_setBit _ _ (by omega)]
    by_cases same : j = n + 1
    · rw [if_pos same, same]
    · rw [if_neg same, receiving.bits j (by omega) small]
  · exact receiving.ram
  · exact receiving.halted

/-- The bits of a byte that end above the bit `n` of the frame. -/
theorem Receiving.sent {frame : BitVec 48} {n k : Nat} {start c : Card g}
    (receiving : Receiving frame (n + k) start c) (le : n + k ≤ 47) {byte : BitVec 8}
    (same : ∀ j, j < k → byte.getLsbD j = frame.getLsbD (n + 1 + j)) :
    Receiving frame n start (c.sent false byte k) := by
  apply sent_rule (fun j => Receiving frame (n + j) start) _ (Nat.le_refl k) receiving
  intro j c' small receiving
  rw [same j small, show n + 1 + j = n + j + 1 by omega]
  exact receiving.fall_rise (by omega)

theorem Receiving.sent_last {frame : BitVec 48} {n : Nat} {start c : Card g}
    (receiving : Receiving frame n start c) (le : n ≤ 47) {byte : BitVec 8}
    (same : ∀ j, j ≤ n → byte.getLsbD j = frame.getLsbD j) :
    ∃ last, Receiving frame 0 start last ∧
      c.sent false byte (n + 1) = (last.rise (byte.getLsbD 0)).fall := by
  apply sent_last_rule (fun j => Receiving frame j start) _ (Nat.le_refl n) receiving
  intro j c' small receiving
  rw [same (j + 1) (by omega)]
  exact receiving.fall_rise (by omega)

theorem receiving_of_idle {frame : BitVec 48} {c : Card g} (idle : c.state = .idle)
    (startBit : frame.getLsbD 47 = false) : Receiving frame 46 c (c.rise false).fall := by
  have moved : c.rise false =
      { c with
        shiftReg := setBit (BitVec.allOnes 48) 47 false, bitCount := 46,
        state := .receiveCmd } := by
    simp [Card.rise, idle]
  rw [moved]
  constructor
  · rfl
  · rfl
  · intro j after small
    obtain rfl : j = 47 := by omega
    rw [Card.fall, getLsbD_setBit _ _ (by decide), if_pos rfl, startBit]
  · rfl
  · rfl

/-- What a command leaves in the card. -/
structure Commanded (cmd : BitVec 6) (arg : BitVec 32) (start c : Card g) : Prop where
  state : c.state = .sendResponse
  respBit : c.respBit = 7
  respReg : c.respReg = if cmd = 0 then 0x01#8 else 0x00#8
  cmdIdx : c.cmdIdx = cmd
  currentAddr : cmd = 0b010001#6 ∨ cmd = 0b011000#6 → c.currentAddr = arg.toNat
  ram : c.ram = start.ram
  halted : arg.toNat < 2 ^ 31 → c.halted = start.halted
  miso : c.miso = some (c.respReg.getLsbD 7)

theorem Receiving.commanded {frame : BitVec 48} {start c : Card g}
    (receiving : Receiving frame 0 start c) (mosi : Bool) :
    Commanded (frame.extractLsb' 40 6) (frame.extractLsb' 8 32) start (c.rise mosi).fall := by
  have field : ∀ low width, 0 < low → low + width ≤ 48 →
      c.shiftReg.extractLsb' low width = frame.extractLsb' low width := by
    intro low width above below
    apply BitVec.eq_of_getLsbD_eq
    intro j small
    rw [BitVec.getLsbD_extractLsb', BitVec.getLsbD_extractLsb',
      receiving.bits _ (by omega) (by omega)]
  rw [← field 40 6 (by decide) (by decide), ← field 8 32 (by decide) (by decide)]
  by_cases addressed : c.shiftReg.extractLsb' 40 6 = 0b010001#6 ∨
      c.shiftReg.extractLsb' 40 6 = 0b011000#6
  · constructor
    case halted =>
      intro small
      simp only [Card.rise, receiving.state, receiving.bitCount, Card.fall, Card.address, addressed,
        if_true, receiving.halted, decide_eq_false (Nat.not_le.mpr small), Bool.or_false]
    all_goals
      simp [Card.rise, receiving.state, receiving.bitCount, Card.fall, Card.output, Card.address,
        addressed, receiving.ram]
  · constructor <;>
      simp [Card.rise, receiving.state, receiving.bitCount, Card.fall, Card.output, Card.address,
        addressed, receiving.ram, receiving.halted]

/-- The bytes of a command's argument. -/
def argByte (arg : BitVec 32) (index : Nat) : BitVec 8 :=
  (arg >>> (8 * index) &&& 0xFF#32).setWidth 8

/-- The card after a command. -/
def Card.command (cmd : BitVec 8) (arg : BitVec 32) (crc : BitVec 8) (c : Card g) : Card g :=
  (((((c.take cmd).take (argByte arg 3)).take (argByte arg 2)).take (argByte arg 1)).take
    (argByte arg 0)).take crc

theorem commanded_of_idle {c : Card g} (idle : c.state = .idle) (cmd : BitVec 8)
    (startBit : cmd.getLsbD 7 = false) (arg : BitVec 32) (crc : BitVec 8) :
    Commanded (cmd.extractLsb' 0 6) arg c (c.command cmd arg crc) := by
  let frame : BitVec 48 := cmd ++ arg ++ crc
  have bit : ∀ j, frame.getLsbD j =
      if j < 8 then crc.getLsbD j
      else if j < 40 then arg.getLsbD (j - 8)
      else cmd.getLsbD (j - 40) := by
    intro j
    simp only [frame, BitVec.getLsbD_append]
    by_cases low : j < 8
    · simp [low]
    · by_cases mid : j < 40
      · simp [low, mid, show j - 8 < 32 by omega]
      · simp [low, mid, show ¬ j - 8 < 32 by omega, show j - 8 - 32 = j - 40 by omega]
  have arg_bit : ∀ index j, j < 8 → (argByte arg index).getLsbD j = arg.getLsbD (8 * index + j) := by
    intro index j small
    have ones : ∀ j, j < 8 → (0xFF#32).getLsbD j = true := by decide
    simp only [argByte, BitVec.getLsbD_setWidth, BitVec.getLsbD_and, BitVec.getLsbD_ushiftRight,
      ones j small, small, decide_true, Bool.true_and, Bool.and_true]
  have started : Receiving frame 39 c (c.take cmd) := by
    rw [Card.take, sent_succ, startBit]
    apply (receiving_of_idle idle (by rw [bit]; exact startBit)).sent (by decide)
    intro j small
    rw [bit, if_neg (by omega), if_neg (by omega)]
    congr 1
    omega
  have argument : ∀ index, index < 4 → ∀ c', Receiving frame (8 * index + 15) c c' →
      Receiving frame (8 * index + 7) c (c'.take (argByte arg index)) := by
    intro index bound c' receiving
    apply Receiving.sent (by simpa using receiving) (by omega)
    intro j small
    rw [arg_bit index j small, bit, if_neg (by omega), if_pos (by omega)]
    congr 1
    omega
  have received := argument 0 (by decide) _ (argument 1 (by decide) _ (argument 2 (by decide) _
    (argument 3 (by decide) _ started)))
  obtain ⟨last, ready, ends⟩ := received.sent_last (by decide)
    (fun j small => by rw [bit, if_pos (by omega)] : ∀ j, j ≤ 7 → crc.getLsbD j = frame.getLsbD j)
  have commanded := ready.commanded (crc.getLsbD 0)
  rw [← ends] at commanded
  have cmd_field : frame.extractLsb' 40 6 = cmd.extractLsb' 0 6 := by
    apply BitVec.eq_of_getLsbD_eq
    intro j small
    rw [BitVec.getLsbD_extractLsb', BitVec.getLsbD_extractLsb', bit, if_neg (by omega),
      if_neg (by omega), show 40 + j - 40 = 0 + j by omega]
  have arg_field : frame.extractLsb' 8 32 = arg := by
    apply BitVec.eq_of_getLsbD_eq
    intro j small
    rw [BitVec.getLsbD_extractLsb', bit, if_neg (by omega), if_pos (by omega),
      show 8 + j - 8 = j by omega]
    simp [small]
  rw [cmd_field, arg_field] at commanded
  exact commanded

theorem Commanded.sending {cmd : BitVec 6} {arg : BitVec 32} {start c : Card g}
    (commanded : Commanded cmd arg start c) : Sending c 7 where
  sends := by rw [commanded.state]; rfl
  respBit := commanded.respBit
  miso := by rw [commanded.miso, Card.out, commanded.state]

theorem Commanded.give {cmd : BitVec 6} {arg : BitVec 32} {start c : Card g}
    (commanded : Commanded cmd arg start c) (other : cmd ≠ 0) (floating : Bool) (byte : BitVec 8) :
    c.give floating byte = 0x00#8 := by
  rw [commanded.sending.give, Card.out, commanded.state]
  exact commanded.respReg.trans (if_neg other)

/-! ### Reading a block -/

/-- The card sends a block: `count` bytes of it are gone. -/
structure Reading (adr count : Nat) (start c : Card g) : Prop where
  state : c.state = .sendData
  byteCount : c.byteCount = count
  currentAddr : c.currentAddr = adr
  currentByte : c.currentByte = RamType.at c.ram (adr + count)
  respBit : c.respBit = 7
  ram : c.ram = start.ram
  halted : c.halted = start.halted
  miso : c.miso = some (c.currentByte.getLsbD 7)

theorem Reading.sending {adr count : Nat} {start c : Card g} (reading : Reading adr count start c) :
    Sending c 7 where
  sends := by rw [reading.state]; rfl
  respBit := reading.respBit
  miso := by rw [reading.miso, Card.out, reading.state]

theorem not_outside {index : Nat} (inside : index < g.sizeBytes) : g.outside index = false := by
  simp [Generics.outside, inside]

/-- After the response to a read the card sends the token. -/
theorem take_response_read {c : Card g} (state : c.state = .sendResponse) (sending : Sending c 7)
    (cmd : c.cmdIdx = 0b010001#6) (byte : BitVec 8) :
    c.take byte =
      { c with state := .sendDataToken, currentByte := 0xFE#8, respBit := 7, miso := some true } := by
  rw [sending.take]
  simp [Card.rise, Card.fall, Card.output, state, cmd]

theorem sending_token (c : Card g) :
    Sending ({ c with
      state := .sendDataToken, currentByte := 0xFE#8, respBit := 7, miso := some true } : Card g) 7 :=
  ⟨rfl, rfl, by simp [Card.out]⟩

theorem give_token (c : Card g) (floating : Bool) (byte : BitVec 8) :
    Card.give floating byte { c with
      state := .sendDataToken, currentByte := 0xFE#8, respBit := 7, miso := some true } =
      0xFE#8 :=
  (sending_token c).give floating byte

theorem reading_of_token {c : Card g} {adr : Nat} (state : c.state = .sendDataToken)
    (sending : Sending c 7) (currentAddr : c.currentAddr = adr) (inside : adr < g.sizeBytes)
    (byte : BitVec 8) : Reading adr 0 c (c.take byte) := by
  rw [sending.take]
  constructor <;>
    simp [Card.rise, Card.fall, Card.output, state, currentAddr, not_outside inside]

theorem Reading.take {adr count : Nat} {start c : Card g} (reading : Reading adr count start c)
    (more : count < 511) (inside : adr + 512 ≤ g.sizeBytes) (byte : BitVec 8) :
    Reading adr (count + 1) start (c.take byte) := by
  have next : g.outside (adr + (count + 1)) = false := not_outside (by omega)
  rw [reading.sending.take]
  constructor <;>
    simp [Card.rise, Card.fall, Card.output, reading.state, reading.byteCount, reading.currentAddr,
      reading.ram, reading.halted, next, show count ≠ 511 by omega, Nat.add_assoc]

theorem Reading.give {adr count : Nat} {start c : Card g} (reading : Reading adr count start c)
    (floating : Bool) (byte : BitVec 8) :
    c.give floating byte = RamType.at start.ram (adr + count) := by
  rw [reading.sending.give, Card.out, reading.state, ← reading.ram]
  exact reading.currentByte

theorem Reading.take_last {adr : Nat} {start c : Card g} (reading : Reading adr 511 start c)
    (byte : BitVec 8) :
    c.take byte =
      { c with
        state := .sendCrc, currentByte := 0xAA#8, byteCount := 0, respBit := 7,
        miso := some true } := by
  rw [reading.sending.take]
  simp [Card.rise, Card.fall, Card.output, reading.state, reading.byteCount]

theorem sending_crc (c : Card g) :
    Sending ({ c with
      state := .sendCrc, currentByte := 0xAA#8, byteCount := 0, respBit := 7,
      miso := some true } : Card g) 7 :=
  ⟨rfl, rfl, by simp [Card.out]⟩

theorem take_crc {c : Card g} (state : c.state = .sendCrc) (first : c.byteCount = 0)
    (sending : Sending c 7) (byte byte' : BitVec 8) :
    (c.take byte).take byte' =
      { c with
        state := .waitIdle, currentByte := 0x55#8, byteCount := 1, respBit := 0,
        miso := some true } := by
  have second : c.take byte =
      { c with byteCount := 1, currentByte := 0x55#8, respBit := 7, miso := some false } := by
    rw [sending.take]
    simp [Card.rise, Card.fall, Card.output, state, first]
  have ready : Sending (c.take byte) 7 := by
    rw [second]
    exact ⟨sending.sends, rfl, by simp [Card.out, state]⟩
  rw [ready.take, second]
  simp [Card.rise, Card.fall, Card.output, state]

/-- The block has been sent; whatever else the host reads, nothing changes. -/
structure Over (start c : Card g) : Prop where
  state : c.state = .sendCrc ∨ c.state = .waitIdle ∨ c.state = .idle
  ram : c.ram = start.ram
  halted : c.halted = start.halted

theorem Over.fall_rise {start c : Card g} (ended : Over start c) :
    Over start (c.rise true).fall := by
  rcases ended.state with state | state | state
  · by_cases last : c.respBit = 0
    · by_cases second : c.byteCount = 1 <;> constructor <;>
        simp [Card.rise, Card.fall, state, last, second, ended.ram, ended.halted]
    · constructor <;> simp [Card.rise, Card.fall, state, last, ended.ram, ended.halted]
  · constructor <;> simp [Card.rise, Card.fall, state, ended.ram, ended.halted]
  · constructor <;> simp [Card.rise, Card.fall, state, ended.ram, ended.halted]

theorem Over.take {start c : Card g} (ended : Over start c) : Over start (c.take 0xFF#8) := by
  have one : ∀ j, j < 8 → (0xFF#8).getLsbD j = true := by decide
  apply sent_rule (fun _ => Over start) _ (Nat.le_refl 8) ended
  intro k c' small ended
  rw [one k small]
  exact ended.fall_rise

theorem Reading.ended {adr : Nat} {start c : Card g} (reading : Reading adr 511 start c)
    (byte : BitVec 8) : Over start (c.take byte) := by
  rw [reading.take_last]
  exact ⟨Or.inl rfl, reading.ram, reading.halted⟩

/-! ### Writing a block -/

theorem take_response_write {c : Card g} (state : c.state = .sendResponse) (sending : Sending c 7)
    (cmd : c.cmdIdx = 0b011000#6) (byte : BitVec 8) :
    c.take byte = { c with state := .receiveDataToken, respBit := 0, miso := some true } := by
  rw [sending.take]
  simp [Card.rise, Card.fall, Card.output, state, cmd]

theorem getLsbD_window (shiftReg : BitVec 48) (mosi : Bool) {j : Nat} (small : j < 8) :
    (window shiftReg mosi).getLsbD j = if j = 0 then mosi else shiftReg.getLsbD (j - 1) := by
  simp only [window, BitVec.getLsbD_append, BitVec.getLsbD_extractLsb', BitVec.getLsbD_ofBool]
  by_cases zero : j = 0
  · simp [zero]
  · simp [zero, show ¬ j < 1 by omega, show j - 1 < 7 by omega]

theorem getLsbD_shift (shiftReg : BitVec 48) (mosi : Bool) {j : Nat} (small : j < 8) :
    (shift shiftReg mosi).getLsbD j = if j = 0 then mosi else shiftReg.getLsbD (j - 1) := by
  rw [shift, BitVec.getLsbD_append, if_pos small, getLsbD_window shiftReg mosi small]

/-- The card waits for the token of a block: the last `ones` bits were ones. -/
structure Awaiting (ones : Nat) (start c : Card g) : Prop where
  state : c.state = .receiveDataToken
  bits : ∀ j, j < ones → c.shiftReg.getLsbD j = true
  currentAddr : c.currentAddr = start.currentAddr
  ram : c.ram = start.ram
  halted : c.halted = start.halted
  miso : c.miso = some true

theorem awaiting_of_response {c : Card g} (state : c.state = .sendResponse)
    (sending : Sending c 7) (cmd : c.cmdIdx = 0b011000#6) (byte : BitVec 8) :
    Awaiting 0 c (c.take byte) := by
  rw [take_response_write state sending cmd]
  exact ⟨rfl, fun j small => absurd small (Nat.not_lt_zero j), rfl, rfl, rfl, rfl⟩

theorem Awaiting.one {ones : Nat} {start c : Card g} (awaiting : Awaiting ones start c)
    (few : ones < 8) : Awaiting (ones + 1) start (c.rise true).fall := by
  have other : window c.shiftReg true ≠ 0xFE#8 := by
    intro token
    have low := getLsbD_window c.shiftReg true (show 0 < 8 by decide)
    rw [token, if_pos rfl] at low
    revert low
    decide
  have moved : c.rise true = { c with shiftReg := shift c.shiftReg true } := by
    simp [Card.rise, awaiting.state, other]
  rw [moved]
  constructor
  · exact awaiting.state
  · intro j small
    rw [Card.fall, getLsbD_shift _ _ (by omega)]
    by_cases zero : j = 0
    · rw [if_pos zero]
    · rw [if_neg zero, awaiting.bits _ (by omega)]
  · exact awaiting.currentAddr
  · exact awaiting.ram
  · exact awaiting.halted
  · simp [Card.fall, Card.output, awaiting.state]

/-- The token ends with the first zero after seven ones. -/
theorem Awaiting.zero {start c : Card g} (awaiting : Awaiting 7 start c) :
    (c.rise false).fall =
      { c with
        shiftReg := shift c.shiftReg false
        state := .receiveData
        byteCount := 0
        respBit := 7
        miso := some true } := by
  have token : window c.shiftReg false = 0xFE#8 := by
    apply BitVec.eq_of_getLsbD_eq
    intro j small
    rw [getLsbD_window _ _ small]
    by_cases zero : j = 0
    · rw [if_pos zero, zero]
      decide
    · rw [if_neg zero, awaiting.bits _ (by omega)]
      revert zero
      revert j
      decide
  simp [Card.rise, Card.fall, Card.output, awaiting.state, token]

theorem Awaiting.weaken {ones : Nat} {start c : Card g} (awaiting : Awaiting ones start c) :
    Awaiting 0 start c :=
  { awaiting with bits := fun j small => absurd small (Nat.not_lt_zero j) }

theorem Awaiting.ones {byte : BitVec 8} {start c : Card g} {n k : Nat}
    (awaiting : Awaiting n start c) (few : n + k ≤ 8)
    (high : ∀ j, j < k → byte.getLsbD j = true) : Awaiting (n + k) start (c.sent false byte k) := by
  induction k generalizing n c with
  | zero => exact awaiting
  | succ k ih =>
      rw [sent_succ, high k (by omega), show n + (k + 1) = n + 1 + k by omega]
      exact ih (awaiting.one (by omega)) (by omega) fun j small => high j (by omega)

theorem Awaiting.take_gap {start c : Card g} (awaiting : Awaiting 0 start c) :
    Awaiting 0 start (c.take 0xFF#8) :=
  (awaiting.ones (k := 8) (by decide) (by decide)).weaken

/-- The card receives a block into `ram`, of which `count` bytes are there. -/
structure Writing (adr count : Nat) (ram : RamType g) (start c : Card g) : Prop where
  state : c.state = .receiveData
  byteCount : c.byteCount = count
  currentAddr : c.currentAddr = adr
  respBit : c.respBit = 7
  ram : c.ram = ram
  halted : c.halted = start.halted
  miso : c.miso = some true

theorem Awaiting.sent_token {start c : Card g} {n k : Nat} (awaiting : Awaiting n start c)
    (seven : n + k = 7) :
    Writing start.currentAddr 0 start.ram start (c.sent false 0xFE#8 (k + 1)) := by
  induction k generalizing n c with
  | zero =>
      obtain rfl : n = 7 := by omega
      rw [sent_succ, show (0xFE#8).getLsbD 0 = false by decide, awaiting.zero]
      exact ⟨rfl, rfl, awaiting.currentAddr, rfl, awaiting.ram, awaiting.halted, rfl⟩
  | succ k ih =>
      have high : ∀ j, j < 7 → (0xFE#8).getLsbD (j + 1) = true := by decide
      rw [sent_succ, high k (by omega)]
      exact ih (awaiting.one (by omega)) (by omega)

theorem Awaiting.take_token {start c : Card g} (awaiting : Awaiting 0 start c) :
    Writing start.currentAddr 0 start.ram start (c.take 0xFE#8) :=
  awaiting.sent_token (k := 7) rfl

/-- The card has the bits of a byte above `k`. -/
structure Filling (byte : BitVec 8) (k : Nat) (start c : Card g) : Prop where
  same : c = { start with shiftReg := c.shiftReg, respBit := k }
  bits : ∀ j, j + k < 7 → c.shiftReg.getLsbD j = byte.getLsbD (j + k + 1)

theorem Filling.fall_rise {byte : BitVec 8} {k : Nat} {start c : Card g}
    (state : start.state = .receiveData) (miso : start.miso = some true) (le : k < 7)
    (filling : Filling byte (k + 1) start c) :
    Filling byte k start (c.rise (byte.getLsbD (k + 1))).fall := by
  have moved : (c.rise (byte.getLsbD (k + 1))).fall =
      { c with shiftReg := shift c.shiftReg (byte.getLsbD (k + 1)), respBit := k } := by
    rw [filling.same]
    simp [Card.rise, Card.fall, Card.output, state, miso]
  rw [moved]
  constructor
  · rw [filling.same]
  · intro j small
    rw [getLsbD_shift _ _ (by omega)]
    by_cases zero : j = 0
    · rw [if_pos zero, zero, Nat.zero_add]
    · rw [if_neg zero, filling.bits _ (by omega)]
      congr 1
      omega

theorem Filling.window {byte : BitVec 8} {start c : Card g} (filling : Filling byte 0 start c) :
    window c.shiftReg (byte.getLsbD 0) = byte := by
  apply BitVec.eq_of_getLsbD_eq
  intro j small
  rw [getLsbD_window _ _ small]
  by_cases zero : j = 0
  · rw [if_pos zero, zero]
  · rw [if_neg zero, filling.bits _ (by omega)]
    congr 1
    omega

theorem Writing.stored {adr count : Nat} {ram : RamType g} {start c : Card g}
    (writing : Writing adr count ram start c) (inside : adr + count < g.sizeBytes)
    (byte : BitVec 8) : ∃ shiftReg, c.take byte =
      { c with
        shiftReg := shiftReg
        ram := RamType.store ram (adr + count) byte
        state := if count = 511 then .receiveCrc else .receiveData
        byteCount := if count = 511 then 0 else count + 1
        respBit := if count = 511 then 15 else 7 } := by
  have filling : Filling byte 7 c c :=
    ⟨by rw [← writing.respBit], fun j small => absurd small (by omega)⟩
  obtain ⟨last, filled, ends⟩ := sent_last_rule (fun k => Filling byte k c)
    (fun k c' lt filling => filling.fall_rise writing.state writing.miso lt) (Nat.le_refl 7) filling
  refine ⟨shift last.shiftReg (byte.getLsbD 0), ?_⟩
  have stored := filled.window
  rw [Card.take, ends, filled.same]
  generalize byte.getLsbD 0 = mosi at stored
  have within := not_outside inside
  by_cases full : count = 511
  · subst full
    simp [Card.rise, Card.fall, Card.output, writing.state, writing.byteCount,
      writing.currentAddr, writing.ram, writing.miso, stored, within]
  · simp [Card.rise, Card.fall, Card.output, writing.state, writing.byteCount,
      writing.currentAddr, writing.ram, writing.miso, full, stored, within]

theorem Writing.take {adr count : Nat} {ram : RamType g} {start c : Card g}
    (writing : Writing adr count ram start c) (more : count < 511)
    (inside : adr + 512 ≤ g.sizeBytes) (byte : BitVec 8) :
    Writing adr (count + 1) (RamType.store ram (adr + count) byte) start (c.take byte) := by
  obtain ⟨shiftReg, stored⟩ := writing.stored (by omega) byte
  rw [stored]
  have other : count ≠ 511 := by omega
  constructor <;>
    simp [other, writing.currentAddr, writing.halted, writing.miso]

/-- The card receives a checksum. -/
structure Checking (left : Nat) (ram : RamType g) (start c : Card g) : Prop where
  state : c.state = .receiveCrc
  respBit : c.respBit = left
  ram : c.ram = ram
  halted : c.halted = start.halted
  miso : c.miso = some true

theorem Writing.take_last {adr : Nat} {ram : RamType g} {start c : Card g}
    (writing : Writing adr 511 ram start c) (inside : adr + 512 ≤ g.sizeBytes) (byte : BitVec 8) :
    Checking 15 (RamType.store ram (adr + 511) byte) start (c.take byte) := by
  obtain ⟨shiftReg, stored⟩ := writing.stored (by omega) byte
  rw [stored]
  constructor <;> simp [writing.halted, writing.miso]

theorem Checking.fall_rise {left : Nat} {ram : RamType g} {start c : Card g}
    (checking : Checking (left + 1) ram start c) (mosi : Bool) :
    Checking left ram start (c.rise mosi).fall := by
  constructor <;>
    simp [Card.rise, Card.fall, Card.output, checking.state, checking.respBit, checking.ram,
      checking.halted]

/-- The card sends its verdict on a block. -/
structure Accepting (ram : RamType g) (start c : Card g) : Prop where
  state : c.state = .sendDataResponse
  respReg : c.respReg = 0x05#8
  respBit : c.respBit = 7
  ram : c.ram = ram
  halted : c.halted = start.halted
  miso : c.miso = some false

theorem Checking.take {ram : RamType g} {start c : Card g} (checking : Checking 15 ram start c)
    (byte byte' : BitVec 8) : Accepting ram start ((c.take byte).take byte') := by
  have first : Checking 7 ram start (c.take byte) :=
    sent_rule (fun k => Checking (7 + k) ram start)
      (fun k c' _ checking => checking.fall_rise (byte.getLsbD k)) (Nat.le_refl 8) checking
  obtain ⟨last, checked, ends⟩ := sent_last_rule (fun k => Checking k ram start)
    (fun k c' _ checking => checking.fall_rise (byte'.getLsbD (k + 1))) (Nat.le_refl 7) first
  rw [Card.take, ends]
  constructor <;>
    simp [Card.rise, Card.fall, Card.output, checked.state, checked.respBit, checked.ram,
      checked.halted]

theorem Accepting.sending {ram : RamType g} {start c : Card g}
    (accepting : Accepting ram start c) : Sending c 7 where
  sends := by rw [accepting.state]; rfl
  respBit := accepting.respBit
  miso := by simp [accepting.miso, Card.out, accepting.state, accepting.respReg]

theorem Accepting.give {ram : RamType g} {start c : Card g} (accepting : Accepting ram start c)
    (floating : Bool) (byte : BitVec 8) : c.give floating byte = 0x05#8 := by
  rw [accepting.sending.give, Card.out, accepting.state]
  exact accepting.respReg

/-- The card is busy. -/
structure Busy (left : Nat) (ram : RamType g) (start c : Card g) : Prop where
  state : c.state = .waitBusy
  byteCount : c.byteCount = left
  ram : c.ram = ram
  halted : c.halted = start.halted
  miso : c.miso = some false

theorem Accepting.take {ram : RamType g} {start c : Card g} (accepting : Accepting ram start c)
    (byte : BitVec 8) : Busy 10 ram start (c.take byte) := by
  rw [accepting.sending.take]
  constructor <;>
    simp [Card.rise, Card.fall, Card.output, accepting.state, accepting.ram, accepting.halted]

theorem Busy.fall_rise {left : Nat} {ram : RamType g} {start c : Card g}
    (busy : Busy (left + 1) ram start c) (mosi : Bool) :
    Busy left ram start (c.rise mosi).fall := by
  constructor <;>
    simp [Card.rise, Card.fall, Card.output, busy.state, busy.byteCount, busy.ram, busy.halted]

/-- The card is busy for eleven bits: for one byte, -/
theorem Busy.take {ram : RamType g} {start c : Card g} (busy : Busy 10 ram start c)
    (byte : BitVec 8) : Busy 2 ram start (c.take byte) :=
  sent_rule (fun k => Busy (2 + k) ram start)
    (fun k _ _ busy => busy.fall_rise (byte.getLsbD k)) (Nat.le_refl 8) busy

theorem Busy.give {ram : RamType g} {start c : Card g} (busy : Busy 10 ram start c)
    (floating : Bool) (byte : BitVec 8) : c.give floating byte = 0x00#8 := by
  apply received_rule (fun k => Busy (2 + k) ram start) _ _ _ busy
  · intro k _ _ busy
    simp [Card.line, busy.miso]
  · intro k c' _ _ busy
    exact busy.fall_rise (byte.getLsbD k)

/-- The card is done, and will be idle. -/
structure Resting (state : StateType) (ram : RamType g) (start c : Card g) : Prop where
  state : c.state = state
  ram : c.ram = ram
  halted : c.halted = start.halted
  miso : c.miso = some true

theorem Resting.fall_rise {state : StateType} {ram : RamType g} {start c : Card g}
    (quiet : state = .waitIdle ∨ state = .idle) (resting : Resting state ram start c) :
    Resting .idle ram start (c.rise true).fall := by
  rcases quiet with rfl | rfl <;> constructor <;>
    simp [Card.rise, Card.fall, Card.output, resting.state, resting.ram, resting.halted]

/-- The card while it is sent the second byte: for three more bits it is busy. -/
def Ending (ram : RamType g) (start : Card g) (k : Nat) (c : Card g) : Prop :=
  if 6 ≤ k then Busy (k - 6) ram start c
  else Resting (if k = 5 then .waitIdle else .idle) ram start c

theorem Ending.fall_rise {ram : RamType g} {start c : Card g} {k : Nat}
    (ending : Ending ram start (k + 1) c) : Ending ram start k (c.rise true).fall := by
  unfold Ending at ending ⊢
  by_cases busy : 6 ≤ k
  · rw [if_pos (by omega), show k + 1 - 6 = k - 6 + 1 by omega] at ending
    rw [if_pos busy]
    exact ending.fall_rise true
  · rw [if_neg busy]
    by_cases last : k = 5
    · subst last
      simp only [Nat.reduceAdd, Nat.le_refl, if_true, Nat.sub_self] at ending ⊢
      constructor <;>
        simp [Card.rise, Card.fall, Card.output, ending.state, ending.byteCount, ending.ram,
          ending.halted]
    · rw [if_neg (by omega)] at ending
      rw [if_neg last]
      exact ending.fall_rise (by split <;> simp)

theorem Busy.take_last {ram : RamType g} {start c : Card g} (busy : Busy 2 ram start c) :
    Resting .idle ram start (c.take 0xFF#8) := by
  have one : ∀ j, j < 8 → (0xFF#8).getLsbD j = true := by decide
  have ended := sent_rule (Ending ram start)
    (fun k c' small ending => by rw [one k small]; exact ending.fall_rise) (Nat.le_refl 8)
    (show Ending ram start 8 c from busy)
  exact ended

theorem Busy.give_last {ram : RamType g} {start c : Card g} (busy : Busy 2 ram start c)
    (floating : Bool) : c.give floating 0xFF#8 = 0x1F#8 := by
  have one : ∀ j, j < 8 → (0xFF#8).getLsbD j = true := by decide
  have bits : ∀ k, k < 8 → (0x1F#8).getLsbD k = decide (k + 1 < 6) := by decide
  apply received_rule (Ending ram start) _ _ _ (show Ending ram start 8 c from busy)
  · intro k c' small ending
    rw [bits k small]
    unfold Ending at ending
    split at ending
    · simp [Card.line, ending.miso, show ¬ k + 1 < 6 by omega]
    · simp [Card.line, ending.miso, show k + 1 < 6 by omega]
  · intro k c' _ small ending
    rw [one k small]
    exact ending.fall_rise

theorem Resting.give {ram : RamType g} {start c : Card g} (resting : Resting .idle ram start c)
    (floating : Bool) : c.give floating 0xFF#8 = 0xFF#8 := by
  have one : ∀ j, j < 8 → (0xFF#8).getLsbD j = true := by decide
  apply received_rule (fun _ => Resting .idle ram start) _ _ _ resting
  · intro k c' small resting
    simp [Card.line, resting.miso, one k small]
  · intro k c' _ small resting
    rw [one k small]
    exact resting.fall_rise (Or.inr rfl)

theorem Resting.take {ram : RamType g} {start c : Card g} (resting : Resting .idle ram start c) :
    Resting .idle ram start (c.take 0xFF#8) := by
  rw [Card.take, sent_idle resting.state (by decide) (by decide)]
  exact ⟨resting.state, resting.ram, resting.halted, rfl⟩

end Sdcard

end Cocoapuffs

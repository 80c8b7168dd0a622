import Cocoapuffs.Sdcard

/-!
# The driver of the card

`SDCard::Init` and `SDCard::ReadBlock`, over any machine that has the control
register and exchanges bytes.
-/

namespace Cocoapuffs

namespace SDCard

open Sdcard (argByte)

/-- What the driver uses of the machine: `ctrl_reg_`, `Transfer`, and the memory
at `buffer`. -/
structure Port (m : Type → Type) where
  readCtrl : m (BitVec 32)
  writeCtrl (dat : BitVec 32) : m Unit
  transfer (data : BitVec 8) : m (BitVec 8)
  store (i : Nat) (byte : BitVec 8) : m Unit

section Driver

variable {m : Type → Type} [Monad m] (port : Port m)

/-- `SDCard::Select`. -/
def select : m Unit := do
  let ctrl ← port.readCtrl
  port.writeCtrl (ctrl &&& ~~~ 1#32)

/-- The first half of `SDCard::Deselect`. -/
def raise : m Unit := do
  let ctrl ← port.readCtrl
  port.writeCtrl (ctrl ||| 1#32)

/-- `SDCard::Deselect`. -/
def deselect : m Unit := do
  raise port
  let _ ← port.transfer 0xFF

/-- Transfers whose answers are not looked at. -/
def transfers : List (BitVec 8) → m Unit
  | [] => pure ()
  | data :: rest => do
      let _ ← port.transfer data
      transfers rest

/-- The loop of `SendCommand` that waits for a response. -/
def pollResponse : Nat → m Int
  | 0 => return -1
  | more + 1 => do
      let res ← port.transfer 0xFF
      if res &&& 0x80 = 0 then return res.toNat else pollResponse more

/-- `SDCard::SendCommand`. -/
def sendCommand (cmd : BitVec 8) (arg : BitVec 32) (crc : BitVec 8) : m Int := do
  transfers port
    [0xFF, cmd, argByte arg 3, argByte arg 2, argByte arg 1, argByte arg 0, crc]
  pollResponse port 10

/-- The loop of `Init` that sends ACMD41; it returns `retries`. -/
def sendOpCond : Nat → m Nat
  | 0 => return 0
  | retries + 1 => do
      let _ ← sendCommand port 0x77 0 0xFF
      let response ← sendCommand port 0x69 0x40000000 0xFF
      if response = 0 then return retries + 1 else sendOpCond retries

/-- `SDCard::Init` from the first ACMD41 on. -/
def startCard : m Int := do
  let retries ← sendOpCond port 10000
  if retries = 0 then
    deselect port
    return -2
  deselect port
  port.writeCtrl ((2#32 <<< 16) ||| 1#32)
  return 0

/-- `SDCard::Init`. -/
def init : m Int := do
  port.writeCtrl ((100#32 <<< 16) ||| 1#32)
  transfers port (List.replicate 10 0xFF)
  select port
  let idle ← sendCommand port 0x40 0 0x95
  if idle ≠ 1 then
    deselect port
    return -1
  let condition ← sendCommand port 0x48 0x000001AA 0x87
  if condition = 1 then
    transfers port (List.replicate 4 0xFF)
  startCard port

/-- The loop of `ReadBlock` that waits for the token; it returns `retries`. -/
def waitToken : Nat → m Nat
  | 0 => return 0
  | retries + 1 => do
      let token ← port.transfer 0xFF
      if token = 0xFE then return retries + 1 else waitToken retries

/-- The loop of `ReadBlock` that reads the bytes from `i` on. -/
def readBytes : Nat → Nat → m Unit
  | _, 0 => return ()
  | i, more + 1 => do
      let byte ← port.transfer 0xFF
      port.store i byte
      readBytes (i + 1) more

/-- `SDCard::ReadBlock`, with or without a buffer. -/
def readBlock (buffer : Bool) (blockAddr : BitVec 32) : m Int := do
  if !buffer then return -1
  select port
  let response ← sendCommand port 0x51 blockAddr 0xFF
  if response ≠ 0 then
    deselect port
    return -1
  let retries ← waitToken port 10000
  if retries = 0 then
    deselect port
    return -2
  readBytes port 0 512
  transfers port [0xFF, 0xFF]
  deselect port
  return 0

end Driver

/-! ### The control register -/

/-- What the driver can set. -/
structure Ctrl where
  csN : Bool
  clkDiv : BitVec 16
  divides : clkDiv ≠ 0
deriving DecidableEq

/-- What a read of the control register returns when no transfer is under way. -/
def Ctrl.read (c : Ctrl) : BitVec 32 :=
  c.clkDiv ++ 0#14 ++ 0#1 ++ BitVec.ofBool c.csN

/-- The control register after it has been written; a divider of zero is not
taken. -/
def Ctrl.write (dat : BitVec 32) : Ctrl where
  csN := dat.getLsbD 0
  clkDiv := if dat.extractLsb' 16 16 = 0 then 1 else dat.extractLsb' 16 16
  divides := by
    split
    · decide
    · assumption

@[ext]
theorem Ctrl.ext' {c c' : Ctrl} (csN : c.csN = c'.csN) (clkDiv : c.clkDiv = c'.clkDiv) :
    c = c' := by
  cases c
  cases c'
  cases csN
  cases clkDiv
  rfl

theorem Ctrl.write_eq {dat : BitVec 32} {c : Ctrl} (low : dat.getLsbD 0 = c.csN)
    (high : dat.extractLsb' 16 16 = c.clkDiv) : Ctrl.write dat = c := by
  apply Ctrl.ext'
  · exact low
  · change (if dat.extractLsb' 16 16 = 0 then 1 else dat.extractLsb' 16 16) = _
    rw [high, if_neg c.divides]

theorem Ctrl.read_high (c : Ctrl) {j : Nat} (small : j < 16) :
    c.read.getLsbD (16 + j) = c.clkDiv.getLsbD j := by
  have above : ¬ 16 + j < 1 ∧ ¬ 16 + j - 1 < 1 ∧ ¬ 16 + j - 1 - 1 < 14 := by omega
  have place : 16 + j - 1 - 1 - 14 = j := by omega
  simp only [Ctrl.read, BitVec.getLsbD_append, above, place, if_false]

theorem Ctrl.write_select (c : Ctrl) :
    Ctrl.write (c.read &&& ~~~ 1#32) = { c with csN := false } := by
  apply Ctrl.write_eq
  · simp
  · apply BitVec.eq_of_getLsbD_eq
    intro j small
    simp only [BitVec.getLsbD_extractLsb', BitVec.getLsbD_and, BitVec.getLsbD_not,
      BitVec.getLsbD_one, c.read_high small]
    simp [small, show 16 + j < 32 by omega]

theorem Ctrl.write_raise (c : Ctrl) :
    Ctrl.write (c.read ||| 1#32) = { c with csN := true } := by
  apply Ctrl.write_eq
  · simp
  · apply BitVec.eq_of_getLsbD_eq
    intro j small
    simp only [BitVec.getLsbD_extractLsb', BitVec.getLsbD_or, BitVec.getLsbD_one,
      c.read_high small]
    simp [small]

end SDCard

end Cocoapuffs

import Cocoapuffs.WbBram

/-!
# The input registers

The entity `perinput`: a vector of bits behind the register decoder.  One
instant is one rising edge of `clk`.
-/

namespace Cocoapuffs

namespace Perinput

/-- The generics of `perinput`; there are registers for 2048 bits. -/
structure Generics where
  baseAddress : BitVec 32
  numBits : Nat
  positive : 0 < numBits
  most : numBits ≤ 2048

def Generics.numRegs (g : Generics) : Nat := (g.numBits + 31) / 32

def calcRegBitCount (n : Nat) : Nat :=
  if n ≤ 1 then 1
  else if n ≤ 2 then 1
  else if n ≤ 4 then 2
  else if n ≤ 8 then 3
  else if n ≤ 16 then 4
  else if n ≤ 32 then 5
  else 6

def Generics.regBitCount (g : Generics) : Nat := calcRegBitCount g.numRegs

/-- The generic map of `decoder0`. -/
def Generics.decoder (g : Generics) : MmregDecoder.Generics := ⟨g.baseAddress, g.regBitCount⟩

/-- The process `read_mux`. -/
def readMux {g : Generics} (perin : BitVec g.numBits) (index : Nat) : BitVec 32 :=
  if index < g.numRegs then
    let startBit := index * 32
    let endBit := (index + 1) * 32 - 1
    if g.numBits ≤ endBit then (perin.extractLsb' startBit (g.numBits - startBit)).setWidth 32
    else perin.extractLsb' startBit 32
  else 0

/-- The signals at one edge. -/
structure Inputs (g : Generics) where
  reset : Bool
  wbi : HostBus
  perin : BitVec g.numBits

/-- One rising edge. -/
def step {g : Generics} (i : Inputs g) (r : MmregDecoder.Reg) : MmregDecoder.Reg :=
  MmregDecoder.comb g.decoder i.reset i.wbi r

section Runs

variable {g : Generics} (inputs : Nat → Inputs g)

abbrev states : Nat → MmregDecoder.Reg := Trace.run step MmregDecoder.zeroReg inputs

def wbo (n : Nat) : PerBus :=
  ⟨readMux (inputs n).perin (states inputs n).index, (states inputs n).ack⟩

/-- A read of the address is on the bus, and the access before it is over. -/
structure Reads (adr : BitVec 32) (n : Nat) : Prop where
  noReset : (inputs n).reset = false
  ended : (wbo inputs n).ack = false
  cyc : (inputs n).wbi.cyc = true
  we : (inputs n).wbi.we = false
  adr : (inputs n).wbi.adr = adr

/-- The bits of a register, extended with zeros. -/
def register (perin : BitVec g.numBits) (i : Nat) : BitVec 32 :=
  (perin.extractLsb' (32 * i) (min 32 (g.numBits - 32 * i))).setWidth 32

/-- The bits are at their addresses. -/
structure Exposes : Prop where
  /-- A read of a register is acknowledged in the next cycle, with its bits, -/
  register : ∀ n i, i < g.numRegs →
    Reads inputs (g.baseAddress + BitVec.ofNat 32 (4 * i)) n →
      wbo inputs (n + 1) = ⟨register (inputs (n + 1)).perin i, true⟩
  /-- and one of an address outside the window is not. -/
  outside : ∀ n adr, Reads inputs adr n →
    ¬ (g.baseAddress.toNat ≤ adr.toNat ∧
        adr.toNat < g.baseAddress.toNat + 4 * 2 ^ g.regBitCount) →
      (wbo inputs (n + 1)).ack = false

end Runs

variable {g : Generics}

theorem numRegs_le (g : Generics) : g.numRegs ≤ 2 ^ g.regBitCount := by
  have most := g.most
  have few : g.numRegs ≤ 64 := by
    unfold Generics.numRegs
    omega
  unfold Generics.regBitCount calcRegBitCount
  repeat' split
  all_goals omega

theorem readMux_eq (perin : BitVec g.numBits) {i : Nat} (inside : i < g.numRegs) :
    readMux perin i = register perin i := by
  unfold Generics.numRegs at inside
  apply BitVec.eq_of_getLsbD_eq
  intro j small
  have bit : (register perin i).getLsbD j = perin.getLsbD (32 * i + j) := by
    simp only [register, BitVec.getLsbD_setWidth, BitVec.getLsbD_extractLsb', small, decide_true,
      Bool.true_and]
    by_cases last : j < g.numBits - 32 * i
    · simp [small, last]
    · simp [last, BitVec.getLsbD_of_ge perin (32 * i + j) (by omega)]
  rw [bit, readMux, if_pos (by unfold Generics.numRegs; omega)]
  by_cases last : g.numBits ≤ (i + 1) * 32 - 1
  · simp only [last, if_true, BitVec.getLsbD_setWidth, BitVec.getLsbD_extractLsb', small,
      decide_true, Bool.true_and, Nat.mul_comm i 32]
    by_cases within : j < g.numBits - 32 * i
    · simp [within]
    · simp [within, BitVec.getLsbD_of_ge perin (32 * i + j) (by omega)]
  · simp [last, small, Nat.mul_comm i 32]

theorem control_states (inputs : Nat → Inputs g) (n : Nat) :
    MmregDecoder.Control (states inputs n) := by
  induction n with
  | zero => exact MmregDecoder.control_zero
  | succ n control =>
      cases reset : (inputs n).reset with
      | false =>
          rw [states, Trace.run_succ, step, reset]
          exact control.comb g.decoder (inputs n).wbi
      | true =>
          rw [states, Trace.run_succ, step, reset]
          exact MmregDecoder.control_zero

theorem Reads.idle {inputs : Nat → Inputs g} {adr : BitVec 32} {n : Nat}
    (reads : Reads inputs adr n) : (states inputs n).state = .idle := by
  have ended := reads.ended
  rw [wbo, (control_states inputs n).ack] at ended
  cases phase : (states inputs n).state <;> simp [phase] at ended ⊢

theorem Reads.acked {inputs : Nat → Inputs g} {adr : BitVec 32} {n : Nat}
    (reads : Reads inputs adr n) (decodes : g.decoder.Decodes adr) :
    wbo inputs (n + 1) = ⟨readMux (inputs (n + 1)).perin (g.decoder.index adr), true⟩ := by
  have next := MmregDecoder.comb_of_raised (control_states inputs n) reads.idle
    (by rw [reads.adr]; exact decodes) reads.cyc
  rw [wbo, states, Trace.run_succ, step, reads.noReset, next, reads.adr]

theorem Reads.missed {inputs : Nat → Inputs g} {adr : BitVec 32} {n : Nat}
    (reads : Reads inputs adr n) (outside : ¬ g.decoder.Decodes adr) :
    (wbo inputs (n + 1)).ack = false := by
  have stays : states inputs (n + 1) = states inputs n := by
    rw [states, Trace.run_succ, step, reads.noReset]
    simp [MmregDecoder.comb, reads.idle, reads.adr, outside]
  rw [wbo, stays]
  exact reads.ended

/-- Is the base a multiple of the window? -/
def Generics.Aligned (g : Generics) : Prop := 4 * 2 ^ g.regBitCount ∣ g.baseAddress.toNat

theorem decodes_iff (g : Generics) (adr : BitVec 32) :
    g.decoder.Decodes adr ↔ adr.toNat / (4 * 2 ^ g.regBitCount) * (4 * 2 ^ g.regBitCount) =
      g.baseAddress.toNat := by
  have window : 2 ^ (g.decoder.regBitCount + 2) = 4 * 2 ^ g.regBitCount := by
    rw [Generics.decoder, Nat.pow_add, Nat.mul_comm]
  rw [MmregDecoder.Generics.decodes_iff, window]
  rfl

theorem aligned_of_decodes {adr : BitVec 32} (decodes : g.decoder.Decodes adr) : g.Aligned := by
  rw [decodes_iff] at decodes
  exact ⟨_, by rw [Nat.mul_comm]; exact decodes.symm⟩

theorem regBitCount_le (g : Generics) : g.regBitCount ≤ 6 := by
  unfold Generics.regBitCount calcRegBitCount
  repeat' split
  all_goals omega

/-- The decoder's window, where the base is a multiple of it. -/
theorem decodes_of_aligned (aligned : g.Aligned) (adr : BitVec 32) :
    g.decoder.Decodes adr ↔ g.baseAddress.toNat ≤ adr.toNat ∧
      adr.toNat < g.baseAddress.toNat + 4 * 2 ^ g.regBitCount := by
  obtain ⟨count, base⟩ := aligned
  have positive : 0 < 4 * 2 ^ g.regBitCount := Nat.mul_pos (by decide) (Nat.two_pow_pos _)
  rw [decodes_iff, base]
  generalize 4 * 2 ^ g.regBitCount = size at positive
  constructor
  · intro same
    rw [Nat.mul_comm] at same
    have whole := Nat.div_add_mod adr.toNat size
    have rest := Nat.mod_lt adr.toNat positive
    omega
  · rintro ⟨above, below⟩
    have same : adr.toNat / size = count := by
      rw [Nat.div_eq_iff positive]
      rw [Nat.mul_comm] at above below
      omega
    rw [same, Nat.mul_comm]

theorem register_adr (aligned : g.Aligned) {i : Nat} (inside : i < g.numRegs) :
    (g.baseAddress + BitVec.ofNat 32 (4 * i)).toNat = g.baseAddress.toNat + 4 * i := by
  obtain ⟨count, base⟩ := aligned
  have few := numRegs_le g
  have small := g.baseAddress.isLt
  have bound := regBitCount_le g
  rw [BitVec.toNat_add, BitVec.toNat_ofNat, Nat.mod_eq_of_lt (a := 4 * i)]
  · apply Nat.mod_eq_of_lt
    rw [base] at small ⊢
    generalize g.regBitCount = size at *
    interval_cases size <;> omega
  · generalize g.regBitCount = size at *
    interval_cases size <;> omega

theorem register_index (aligned : g.Aligned) {i : Nat} (inside : i < g.numRegs) :
    g.decoder.index (g.baseAddress + BitVec.ofNat 32 (4 * i)) = i := by
  have few := numRegs_le g
  have window : 2 ^ (g.decoder.regBitCount + 2) = 4 * 2 ^ g.regBitCount := by
    rw [Generics.decoder, Nat.pow_add, Nat.mul_comm]
  obtain ⟨count, base⟩ := aligned
  rw [MmregDecoder.Generics.index_eq, register_adr ⟨count, base⟩ inside, window, base,
    Nat.mul_add_mod, Nat.mod_eq_of_lt (by omega), Nat.mul_div_cancel_left i (by decide)]

/-- A read of the first register. -/
def firstRead (g : Generics) (_ : Nat) : Inputs g := ⟨false, ⟨g.baseAddress, 0, 0xF, false, true⟩, 0⟩

theorem aligned_of_exposes (exposes : Exposes (firstRead g)) : g.Aligned := by
  have some_regs : 0 < g.numRegs := by
    have positive := g.positive
    unfold Generics.numRegs
    omega
  have first : g.baseAddress + BitVec.ofNat 32 (4 * 0) = g.baseAddress := by simp
  have reads : Reads (firstRead g) (g.baseAddress + BitVec.ofNat 32 (4 * 0)) 0 :=
    ⟨rfl, rfl, rfl, rfl, first.symm⟩
  have acked := exposes.register 0 0 some_regs reads
  by_contra unaligned
  have missed := reads.missed fun decodes => unaligned (aligned_of_decodes decodes)
  rw [acked] at missed
  cases missed

/-- The bits are at their addresses if and only if the base is a multiple of the
window; otherwise no address at all is acknowledged. -/
theorem perinput_exposes_iff (g : Generics) :
    (∀ inputs : Nat → Inputs g, Exposes inputs) ↔ g.Aligned := by
  constructor
  · intro exposes
    exact aligned_of_exposes (exposes (firstRead g))
  · intro aligned inputs
    constructor
    · intro n i inside reads
      have adr := register_adr aligned inside
      have few := numRegs_le g
      have decodes := (decodes_of_aligned aligned _).mpr
        (by rw [adr]; omega : g.baseAddress.toNat ≤
          (g.baseAddress + BitVec.ofNat 32 (4 * i)).toNat ∧ _)
      rw [reads.acked decodes, register_index aligned inside, readMux_eq _ inside]
    · intro n adr reads outside
      exact reads.missed fun decodes => outside ((decodes_of_aligned aligned adr).mp decodes)

/-- The instance of the Muntjac board: 281 bits from `0x40000050` on. -/
def perinput0 : Generics := ⟨0x40000050, 281, by decide, by decide⟩

/-- A read of its first register is never acknowledged. -/
theorem perinput0_not_exposes :
    ¬ ∀ g : Generics, 4 ∣ g.baseAddress.toNat → ∀ inputs : Nat → Inputs g, Exposes inputs := by
  intro claim
  have aligned := aligned_of_exposes (claim perinput0 (by decide) (firstRead perinput0))
  revert aligned
  unfold Generics.Aligned
  decide

end Perinput

end Cocoapuffs

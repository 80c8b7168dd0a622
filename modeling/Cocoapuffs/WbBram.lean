import Cocoapuffs.Wishbone

/-!
# The register decoder and the block RAM behind it

The entities `mmreg_decoder` and `bram`.  One instant is one rising edge of
`clk`.
-/

namespace Cocoapuffs

namespace MmregDecoder

/-- `state_type`. -/
inductive StateType where
  | idle
  | wait1
deriving DecidableEq

/-- `reg_type`. -/
structure Reg where
  state : StateType
  data : BitVec 32
  index : Nat
  write : Bool
  ack : Bool
deriving DecidableEq

/-- `zero_reg_type`; its `data` is a don't-care. -/
def zeroReg : Reg := ⟨.idle, 0, 0, false, false⟩

/-- The generics that the decoder of this repository's peripherals are given. -/
structure Generics where
  baseAddress : BitVec 32
  regBitCount : Nat
deriving DecidableEq

def Generics.adrMask (g : Generics) : BitVec 32 := BitVec.allOnes 32 <<< (g.regBitCount + 2)

/-- The register index that an address carries. -/
def Generics.index (g : Generics) (adr : BitVec 32) : Nat :=
  ((adr &&& ~~~g.adrMask).extractLsb' 2 g.regBitCount).toNat

/-- Is the address one of the decoder's? -/
def Generics.Decodes (g : Generics) (adr : BitVec 32) : Prop :=
  adr &&& g.adrMask = g.baseAddress

instance (g : Generics) (adr : BitVec 32) : Decidable (g.Decodes adr) :=
  inferInstanceAs (Decidable (_ = _))

/-- The process `comb`. -/
def comb (g : Generics) (reset : Bool) (wbi : HostBus) (r : Reg) : Reg :=
  if reset then zeroReg
  else
    match r.state with
    | .idle =>
        if g.Decodes wbi.adr then
          if wbi.cyc then
            { state := .wait1
              data := wbi.dat
              index := g.index wbi.adr
              write := if wbi.we then true else r.write
              ack := true }
          else r
        else r
    | .wait1 => zeroReg

theorem comb_of_unraised {g : Generics} {wbi : HostBus} {r : Reg} (idle : r.state = .idle)
    (unraised : ¬ (g.Decodes wbi.adr ∧ wbi.cyc = true)) : comb g false wbi r = r := by
  simp only [comb, idle]
  grind

/-- The acknowledge is high in `wait1` only, and so is a write. -/
structure Control (r : Reg) : Prop where
  ack : r.ack = decide (r.state = .wait1)
  write : r.state = .idle → r.write = false

theorem control_zero : Control zeroReg := ⟨rfl, fun _ => rfl⟩

theorem Control.comb (g : Generics) (wbi : HostBus) {r : Reg} (control : Control r) :
    Control (comb g false wbi r) := by
  cases phase : r.state with
  | idle =>
      by_cases raised : g.Decodes wbi.adr ∧ wbi.cyc = true
      · constructor <;> simp [MmregDecoder.comb, phase, raised]
      · rw [comb_of_unraised phase raised]
        exact control
  | wait1 =>
      have drops : MmregDecoder.comb g false wbi r = zeroReg := by
        simp [MmregDecoder.comb, phase]
      rw [drops]
      exact control_zero

theorem Control.ack_of_write {r : Reg} (control : Control r) (write : r.write = true) :
    r.ack = true := by
  rw [control.ack]
  cases phase : r.state with
  | wait1 => rfl
  | idle =>
      rw [control.write phase] at write
      cases write

theorem comb_of_raised {g : Generics} {wbi : HostBus} {r : Reg} (control : Control r)
    (idle : r.state = .idle) (decodes : g.Decodes wbi.adr) (raised : wbi.cyc = true) :
    comb g false wbi r = ⟨.wait1, wbi.dat, g.index wbi.adr, wbi.we, true⟩ := by
  have write := control.write idle
  cases we : wbi.we <;> simp [comb, idle, decodes, raised, write, we]

theorem comb_of_wait (g : Generics) {wbi : HostBus} {r : Reg} (waiting : r.state = .wait1) :
    comb g false wbi r = zeroReg := by
  simp [comb, waiting]

/-- Does the idle decoder take a write from the bus? -/
structure Writes (g : Generics) (wbi : HostBus) (r : Reg) : Prop where
  idle : r.state = .idle
  decodes : g.Decodes wbi.adr
  cyc : wbi.cyc = true
  we : wbi.we = true

theorem Writes.comb {g : Generics} {wbi : HostBus} {r : Reg} (control : Control r)
    (writes : Writes g wbi r) :
    comb g false wbi r = ⟨.wait1, wbi.dat, g.index wbi.adr, true, true⟩ := by
  rw [comb_of_raised control writes.idle writes.decodes writes.cyc, writes.we]

theorem writes_of_comb {g : Generics} {wbi : HostBus} {r : Reg} (control : Control r)
    (write : (MmregDecoder.comb g false wbi r).write = true) : Writes g wbi r := by
  cases phase : r.state with
  | wait1 => simp [MmregDecoder.comb, phase, zeroReg] at write
  | idle =>
      by_cases raised : g.Decodes wbi.adr ∧ wbi.cyc = true
      · rw [comb_of_raised control phase raised.1 raised.2] at write
        exact ⟨phase, raised.1, raised.2, write⟩
      · rw [comb_of_unraised phase raised, control.write phase] at write
        cases write

section Runs

variable {g : Generics} {reset : Nat → Bool} {wbi : Nat → HostBus} {r : Nat → Reg}
  (runs : ∀ n, r (n + 1) = comb g (reset n) (wbi n) (r n)) (start : r 0 = zeroReg)
include runs start

theorem control_of_runs (n : Nat) : Control (r n) := by
  induction n with
  | zero =>
      rw [start]
      exact control_zero
  | succ n control =>
      rw [runs]
      cases reset n with
      | false => exact control.comb g (wbi n)
      | true => exact control_zero

/-- A write that has its effect was taken in the cycle before. -/
theorem writes_of_runs {n : Nat} (write : (r n).write = true) :
    ∃ k, k + 1 = n ∧ reset k = false ∧ Writes g (wbi k) (r k) ∧
      r n = ⟨.wait1, (wbi k).dat, g.index (wbi k).adr, true, true⟩ := by
  cases n with
  | zero =>
      rw [start] at write
      cases write
  | succ k =>
      have control := control_of_runs runs start k
      cases low : reset k with
      | true =>
          rw [runs, low] at write
          cases write
      | false =>
          rw [runs, low] at write ⊢
          have writes := writes_of_comb control write
          exact ⟨k, rfl, low, writes, writes.comb control⟩

end Runs

theorem and_not_adrMask_toNat (g : Generics) (adr : BitVec 32) :
    (adr &&& ~~~g.adrMask).toNat = adr.toNat % 2 ^ (g.regBitCount + 2) := by
  have low : adr &&& ~~~g.adrMask = BitVec.ofNat 32 (adr.toNat % 2 ^ (g.regBitCount + 2)) := by
    apply BitVec.eq_of_getLsbD_eq
    intro i bound
    simp only [Generics.adrMask, BitVec.getLsbD_and, BitVec.getLsbD_not,
      BitVec.getLsbD_shiftLeft, BitVec.getLsbD_allOnes, BitVec.getLsbD_ofNat,
      Nat.testBit_mod_two_pow, BitVec.testBit_toNat, bound, decide_true, Bool.true_and]
    by_cases small : i < g.regBitCount + 2
    · simp [small]
    · simp [small, show i - (g.regBitCount + 2) < 32 by omega]
  rw [low, BitVec.toNat_ofNat, Nat.mod_eq_of_lt]
  exact (Nat.mod_le _ _).trans_lt adr.isLt

theorem and_adrMask_toNat (g : Generics) (adr : BitVec 32) :
    (adr &&& g.adrMask).toNat = adr.toNat / 2 ^ (g.regBitCount + 2) * 2 ^ (g.regBitCount + 2) := by
  have high : adr &&& g.adrMask = adr >>> (g.regBitCount + 2) <<< (g.regBitCount + 2) := by
    apply BitVec.eq_of_getLsbD_eq
    intro i bound
    simp only [Generics.adrMask, BitVec.getLsbD_and, BitVec.getLsbD_shiftLeft,
      BitVec.getLsbD_allOnes, BitVec.getLsbD_ushiftRight, bound, decide_true, Bool.true_and]
    by_cases small : i < g.regBitCount + 2
    · simp [small]
    · simp [small, show i - (g.regBitCount + 2) < 32 by omega,
        show g.regBitCount + 2 + (i - (g.regBitCount + 2)) = i by omega]
  rw [high, BitVec.toNat_shiftLeft, BitVec.toNat_ushiftRight, Nat.shiftRight_eq_div_pow,
    Nat.shiftLeft_eq, Nat.mod_eq_of_lt]
  exact (Nat.div_mul_le_self _ _).trans_lt adr.isLt

/-- The decoder's addresses are those whose window begins at the base. -/
theorem Generics.decodes_iff (g : Generics) (adr : BitVec 32) :
    g.Decodes adr ↔
      adr.toNat / 2 ^ (g.regBitCount + 2) * 2 ^ (g.regBitCount + 2) = g.baseAddress.toNat := by
  rw [Decodes, ← and_adrMask_toNat, BitVec.toNat_inj]

theorem Generics.index_eq (g : Generics) (adr : BitVec 32) :
    g.index adr = adr.toNat % 2 ^ (g.regBitCount + 2) / 4 := by
  rw [index, BitVec.extractLsb'_toNat, and_not_adrMask_toNat, Nat.shiftRight_eq_div_pow]
  apply Nat.mod_eq_of_lt
  have window : adr.toNat % 2 ^ (g.regBitCount + 2) < 2 ^ (g.regBitCount + 2) :=
    Nat.mod_lt _ (Nat.two_pow_pos _)
  rw [Nat.pow_add] at window ⊢
  omega

end MmregDecoder

namespace Bram

open MmregDecoder (StateType Control)

/-- The generics of `bram`: room for at least one word, and a window of whole
words. -/
structure Generics where
  baseAddress : BitVec 32
  memsize : Nat
  regBitCount : Nat
  nonempty : 4 ≤ memsize
  words : 2 ≤ regBitCount

/-- `mem_words`. -/
def Generics.memWords (g : Generics) : Nat := g.memsize / 4

instance (g : Generics) : NeZero g.memWords :=
  ⟨Nat.ne_of_gt (Nat.div_pos g.nonempty (by decide))⟩

/-- The generic map of `decoder0`. -/
def Generics.decoder (g : Generics) : MmregDecoder.Generics :=
  ⟨g.baseAddress, g.regBitCount - 2⟩

/-- `mem_t`. -/
abbrev Mem (g : Generics) := Fin g.memWords → BitVec 32

structure State (g : Generics) where
  decoder0 : MmregDecoder.Reg
  mem : Mem g
deriving DecidableEq

variable {g : Generics}

/-- The word at `index mod mem_words`. -/
def State.selected (s : State g) : Fin g.memWords := Fin.ofNat g.memWords s.decoder0.index

def State.wbo (s : State g) : PerBus := ⟨s.mem s.selected, s.decoder0.ack⟩

/-- One rising edge: the decoder, and the write process. -/
def step (reset : Bool) (wbi : HostBus) (s : State g) : State g where
  decoder0 := MmregDecoder.comb g.decoder reset wbi s.decoder0
  mem :=
    if s.decoder0.write then
      Function.update s.mem s.selected
        (mergeLanes wbi.sel (s.mem s.selected) s.decoder0.data)
    else s.mem

/-- The registers after a reset; the memory is not reset. -/
def State.reset (s : State g) : State g := { s with decoder0 := MmregDecoder.zeroReg }

/-- The memory as bytes. -/
def Mem.bytes (mem : Mem g) : Fin g.memWords → Fin 4 → BitVec 8 :=
  fun index lane => byteLane (mem index) lane

/-- The word that a byte address of the window falls into, modulo the memory's
size. -/
def Generics.wordOf (g : Generics) (adr : BitVec 32) : Fin g.memWords :=
  Fin.ofNat g.memWords (adr.toNat % 2 ^ g.regBitCount / 4)

/-- A request as an access to the bytes of the memory. -/
def Generics.access (g : Generics) (request : Request) :
    LaneMemory.Access (Fin g.memWords) (Fin 4) (BitVec 8) where
  index := g.wordOf request.adr
  write := request.we
  sel lane := request.sel.getLsbD lane
  data lane := byteLane request.dat lane

theorem wordOf_eq (g : Generics) (adr : BitVec 32) :
    Fin.ofNat g.memWords (g.decoder.index adr) = g.wordOf adr := by
  rw [MmregDecoder.Generics.index_eq, Generics.wordOf]
  simp only [Generics.decoder, Nat.sub_add_cancel g.words]

/-- What the registers hold while a request is acknowledged. -/
structure Latched (s : State g) (wbi : HostBus) : Prop where
  waiting : s.decoder0.state = .wait1
  data : s.decoder0.data = wbi.dat
  index : s.decoder0.index = g.decoder.index wbi.adr
  write : s.decoder0.write = wbi.we

theorem Latched.rdt {s : State g} {wbi : HostBus} (latched : Latched s wbi) :
    s.wbo.rdt = s.mem (g.wordOf wbi.adr) := by
  rw [State.wbo, State.selected, latched.index, wordOf_eq]

/-- An acknowledged request has its effect on the bytes of the memory at the
edge that ends the acknowledge. -/
theorem Latched.mem_step {s : State g} {wbi : HostBus} (latched : Latched s wbi) :
    Mem.bytes (step false wbi s).mem = (g.access wbi.request).apply (Mem.bytes s.mem) := by
  have selected : s.selected = g.wordOf wbi.adr := by
    rw [State.selected, latched.index, wordOf_eq]
  funext index lane
  simp only [step, latched.write, latched.data, selected]
  cases we : wbi.we with
  | false =>
      simp [LaneMemory.Access.apply, LaneMemory.Access.touches, Generics.access,
        HostBus.request, we]
  | true =>
      by_cases same : g.wordOf wbi.adr = index
      · subst index
        simp [Mem.bytes, LaneMemory.Access.apply, LaneMemory.Access.touches,
          Generics.access, HostBus.request, byteLane_mergeLanes, we]
      · simp [Mem.bytes, LaneMemory.Access.apply, LaneMemory.Access.touches,
          Generics.access, HostBus.request, we, same, Function.update_of_ne (Ne.symm same)]

end Bram

end Cocoapuffs

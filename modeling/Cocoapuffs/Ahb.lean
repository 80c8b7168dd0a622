import Cocoapuffs.Wishbone

/-!
# The AHB bus as one slave sees it

Address phases, the data phase that a slave owns after an accepted address
phase, and the bytes that a transfer moves.
-/

namespace Cocoapuffs

namespace Ahb

abbrev htransNonseq : BitVec 2 := 0b10
abbrev htransSeq : BitVec 2 := 0b11

/-- `ahb_slv_in_type`, as far as a 32-bit slave reads it. -/
structure SlvIn where
  hsel : Nat → Bool
  haddr : BitVec 32
  hwrite : Bool
  htrans : BitVec 2
  hsize : BitVec 3
  hwdata : BitVec 32
  hready : Bool

/-- `ahb_slv_out_type`, without its constant fields. -/
structure SlvOut where
  hready : Bool
  hrdata : BitVec 32
deriving DecidableEq

/-- Is an address phase for slave `index` on the bus? -/
def SlvIn.starts (bus : SlvIn) (index : Nat) : Bool :=
  bus.hsel index && (bus.htrans == htransNonseq || bus.htrans == htransSeq)

/-- What an address phase says. -/
structure AddressPhase where
  haddr : BitVec 32
  hwrite : Bool
  hsize : BitVec 3
deriving DecidableEq

def SlvIn.addressPhase (bus : SlvIn) : AddressPhase := ⟨bus.haddr, bus.hwrite, bus.hsize⟩

/-- A transfer: an address phase and the write data of its data phase, zero for
a read. -/
structure Transfer where
  addr : AddressPhase
  hwdata : BitVec 32
deriving DecidableEq

/-- The transfer of an address phase, given what its data phase has on
`hwdata`. -/
def AddressPhase.transfer (a : AddressPhase) (hwdata : BitVec 32) : Transfer :=
  ⟨a, if a.hwrite then hwdata else 0⟩

/-- At most a word, at an address that its size divides. -/
def AddressPhase.Aligned (a : AddressPhase) : Prop :=
  a.hsize.toNat ≤ 2 ∧ a.haddr.toNat % 2 ^ a.hsize.toNat = 0

/-- The bytes that a transfer moves: `2 ^ hsize` of them from `haddr` on. -/
def Transfer.access (t : Transfer) : LaneMemory.Access (BitVec 30) (Fin 4) (BitVec 8) where
  index := wordIndex t.addr.haddr
  write := t.addr.hwrite
  sel lane := decide (t.addr.haddr.toNat % 4 ≤ lane ∧
    lane < t.addr.haddr.toNat % 4 + 2 ^ t.addr.hsize.toNat)
  data lane := byteLane t.hwdata lane

section Trace

variable (clk : Nat → Bool) (bus : Nat → SlvIn) (index : Nat)

/-- The address phases for the slave that the bus has accepted. -/
def accepted : Nat → List AddressPhase :=
  Trace.history fun n =>
    if clk n && ((bus n).hready && (bus n).starts index) then some (bus n).addressPhase
    else none

/-- The address phase whose data phase is on the bus, if the slave owns it. -/
def dataPhase : Nat → Option AddressPhase
  | 0 => none
  | n + 1 =>
      if clk n && (bus n).hready then
        if (bus n).starts index then some (bus n).addressPhase else none
      else dataPhase n

/-- The transfer of the data phase on the bus. -/
def current (n : Nat) : Option Transfer :=
  (dataPhase clk bus index n).map fun a => a.transfer (bus n).hwdata

/-- The transfers completed before an instant, with the slave's `hrdata` of the
completing cycle. -/
def completed (out : Nat → SlvOut) : Nat → List (Transfer × BitVec 32) :=
  Trace.history fun n =>
    if clk n && (bus n).hready then (current clk bus index n).map fun t => (t, (out n).hrdata)
    else none

variable {clk bus index}

/-- Every accepted address phase has been completed, but for the one whose data
phase is on the bus. -/
theorem accepted_eq (out : Nat → SlvOut) (n : Nat) :
    accepted clk bus index n =
      (completed clk bus index out n).map (fun exchange => exchange.1.addr) ++
        (dataPhase clk bus index n).toList := by
  induction n with
  | zero => rfl
  | succ n ih =>
      rw [accepted, completed, Trace.history_succ, Trace.history_succ, ← accepted,
        ← completed, ih]
      cases edge : clk n && (bus n).hready with
      | false =>
          have none : (clk n && ((bus n).hready && (bus n).starts index)) = false := by
            rw [← Bool.and_assoc, edge, Bool.false_and]
          simp [dataPhase, edge, none]
      | true =>
          obtain ⟨tick, ready⟩ := Bool.and_eq_true _ _ |>.mp edge
          cases starts : (bus n).starts index <;>
            cases owned : dataPhase clk bus index n <;>
            simp [dataPhase, current, tick, ready, starts, owned, AddressPhase.transfer]

end Trace

end Ahb

end Cocoapuffs

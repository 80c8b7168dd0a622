import Cocoapuffs.WbMuxShared

/-!
# Hosts that share a block RAM

A `wb_mux` with a `bram` on its peripheral side.  Each request of each host is
executed once, the requests follow one another on the shared bus, and in the
order of their acknowledges they form the history of a byte memory.
-/

namespace Cocoapuffs

namespace WbMuxBram

open Bram (Generics Mem)
open WbMuxShared (shared response)

variable {portsCount : Nat} {g : Generics}

/-! ### A block RAM is all there is on the shared bus -/

section Behind

variable [NeZero portsCount]

/-- A block RAM answers the requests on the shared bus, which are in its window. -/
structure Behind (ports : Nat → WbMux.Inputs portsCount) (bram : Nat → Bram.State g) :
    Prop where
  hosts : WbMuxShared.Hosts ports
  start : (bram 0).decoder0 = MmregDecoder.zeroReg
  next : ∀ n, bram (n + 1) = Bram.step false (shared ports n) (bram n)
  responds : ∀ n, response ports n = (bram n).wbo
  window : ∀ n, (shared ports n).cyc = true → g.decoder.Decodes (shared ports n).adr

variable {ports : Nat → WbMux.Inputs portsCount} {bram : Nat → Bram.State g}
  (behind : Behind ports bram)
include behind

omit [NeZero portsCount] behind in
/-- The only device on the bus. -/
def device (g : Generics) (_ : Unit) : WbFabric.Device := ⟨fun _ => true, g.decoder⟩

theorem Behind.ack_eq (n : Nat) : (response ports n).ack = (bram n).decoder0.ack := by
  rw [behind.responds]
  rfl

theorem Behind.fabric : WbFabric.Fabric (device g) (shared ports) (response ports)
    fun n _ => (bram n).decoder0 where
  start _ := behind.start
  runs n _ := by
    rw [behind.next, WbFabric.Device.wbi_of_enabled rfl]
    rfl
  disjoint _ _ _ _ _ := rfl
  acks n _ acks := (behind.ack_eq n).trans acks
  foreign n acks quiet := by
    rw [behind.ack_eq, quiet ()] at acks
    cases acks
  held _ := behind.hosts.shared_held

theorem Behind.latched {n : Nat} (acks : (response ports n).ack = true) :
    Bram.Latched (bram n) (shared ports n) :=
  behind.fabric.bramLatched (i := ()) bram rfl (fun _ => rfl) ((behind.ack_eq n).symm.trans acks)

/-- The memory is the RAM's, whatever word the addresses outside its window have. -/
theorem Behind.memory {cell : BitVec 32 → Option (Fin g.memWords)}
    (word : ∀ adr, g.decoder.Decodes adr → cell adr = some (g.wordOf adr)) :
    WbFabric.ByteMemory cell (shared ports) (response ports) fun n => (bram n).mem.bytes where
  ack_cyc _ := behind.fabric.cyc_of_ack
  read n index acks found lane := by
    have raised := behind.fabric.cyc_of_ack acks
    obtain rfl := Option.some.inj ((word _ (behind.window n raised)).symm.trans found)
    rw [behind.responds, (behind.latched acks).rdt]
    rfl
  next n := by
    have bytes := behind.fabric.bram_bytes (i := ()) bram rfl (fun _ => rfl) behind.next n
    rw [← behind.ack_eq] at bytes
    refine bytes.trans ?_
    split
    · rename_i acks
      have raised := behind.fabric.cyc_of_ack acks
      have mapped : cell (shared ports n).request.adr = some (g.wordOf (shared ports n).adr) :=
        word _ (behind.window n raised)
      rw [WbFabric.access, mapped]
      rfl
    · rfl

/-- The RAM acknowledges a request in the next cycle. -/
theorem Behind.answers : WbMuxShared.Answers ports 1
    fun n => if (response ports n).ack then 0 else 1 where
  bound n := by split <;> omega
  falls n raised unacked := by
    rcases behind.fabric.answered (i := ()) raised ⟨rfl, behind.window n raised⟩ with
      acks | ⟨-, acks⟩
    · rw [← behind.ack_eq, unacked] at acks
      cases acks
    · rw [← behind.ack_eq] at acks
      simp [acks, unacked]

end Behind

/-! ### The multiplexer with the block RAM -/

structure State (portsCount : Nat) (g : Generics) where
  mux : WbMux.Reg portsCount
  bram : Bram.State g
deriving DecidableEq

/-- The ports at one edge. -/
structure Inputs (portsCount : Nat) where
  rst : Bool
  hostPorts : Fin portsCount → HostBus

def State.hostPort (s : State portsCount g) (i : Inputs portsCount) : HostBus :=
  WbMux.hostPort s.mux i.hostPorts

variable [NeZero portsCount]

def step (i : Inputs portsCount) (s : State portsCount g) : State portsCount g where
  mux := WbMux.comb i.rst i.hostPorts s.bram.wbo s.mux
  bram := Bram.step i.rst (s.hostPort i) s.bram

def State.reset (s : State portsCount g) : State portsCount g :=
  ⟨WbMux.regZero, s.bram.reset⟩

section Runs

variable (start : State portsCount g) (inputs : Nat → Inputs portsCount)

/-- The states after a reset. -/
abbrev states : Nat → State portsCount g := Trace.run step start.reset inputs

/-- The ports of the multiplexer, with what the memory answers. -/
def ports (n : Nat) : WbMux.Inputs portsCount :=
  ⟨(inputs n).rst, (inputs n).hostPorts, (states start inputs n).bram.wbo⟩

/-- Hosts that hold their request until they see the acknowledge, drop `cyc` in
the next cycle, and ask for addresses in the window of the memory. -/
structure Hosts : Prop extends WbMuxShared.Hosts (ports start inputs) where
  window : ∀ n port, ((inputs n).hostPorts port).cyc = true →
    g.decoder.Decodes ((inputs n).hostPorts port).adr

/-- What it means to linearize the hosts of the memory. -/
structure Linearizes : Prop extends
    WbMuxShared.Linearizes (ports start inputs) (fun adr => some (g.wordOf adr))
      (fun n => (states start inputs n).bram.mem.bytes) where
  /-- The multiplexer of the shared bus is the one that the memory is connected to. -/
  mux : ∀ n, WbMux.states (ports start inputs) n = (states start inputs n).mux
  /-- Every request is acknowledged within `4 * portsCount` cycles. -/
  served : ∀ n port, ((inputs n).hostPorts port).cyc = true →
    ∃ m, n ≤ m ∧ m < n + 4 * portsCount ∧
      (WbMux.perPortsAt (ports start inputs) m port).ack = true

variable {start} {inputs}

theorem mux_states (n : Nat) :
    WbMux.states (ports start inputs) n = (states start inputs n).mux := by
  induction n with
  | zero => rfl
  | succ n ih =>
      rw [WbMux.states, Trace.run_succ, ← WbMux.states, ih]
      rfl

theorem shared_eq (n : Nat) :
    shared (ports start inputs) n = (states start inputs n).hostPort (inputs n) := by
  rw [shared, mux_states]
  rfl

theorem Hosts.behind (hosts : Hosts start inputs) :
    Behind (ports start inputs) fun n => (states start inputs n).bram where
  hosts := hosts.toHosts
  start := rfl
  next n := by
    have quiet : (inputs n).rst = false := hosts.noReset n
    rw [shared_eq, states, Trace.run_succ, step, quiet]
  responds _ := rfl
  window n raised := by
    have owned := WbMuxShared.owned_of_shared raised
    rw [WbMuxShared.shared_of_owned owned] at raised ⊢
    exact hosts.window n _ raised

/-- A multiplexer with a block RAM behind it linearizes its hosts. -/
theorem wbMux_linearizes (start : State portsCount g) (inputs : Nat → Inputs portsCount)
    (hosts : Hosts start inputs) : Linearizes start inputs where
  toLinearizes := hosts.linearizes (hosts.behind.memory fun _ _ => rfl)
  mux := mux_states
  served _ _ raised := hosts.toHosts.served hosts.behind.answers raised

end Runs

/-- A memory of four words at `0xf0000000`. -/
def fourWords : Generics := ⟨0xf0000000, 16, 4, by decide, by decide⟩

def powerUp : State 2 fourWords := ⟨WbMux.regZero, ⟨MmregDecoder.zeroReg, fun _ => 0⟩⟩

/-- Two hosts raise `cyc` at once: a halfword store, and a load of that word. -/
def storeLoad (n : Nat) : Inputs 2 where
  rst := false
  hostPorts port :=
    if port = 0 then ⟨0xf0000004, 0xba11ba11, 0b0011, true, decide (n ≤ 2)⟩
    else ⟨0xf0000004, 0, 0b1111, false, decide (n ≤ 6)⟩

theorem wbMux_linearizes_storeLoad :
    WbMuxShared.acked (ports powerUp storeLoad) 8 =
        [(0, ⟨0xf0000004, 0xba11ba11, 0b0011, true⟩, 0),
          (1, ⟨0xf0000004, 0, 0b1111, false⟩, 0xba11)] ∧
      Linearizes powerUp storeLoad := by
  have early : ∀ n port, ((storeLoad n).hostPorts port).cyc = true → n < 7 := by
    intro n port raised
    simp only [storeLoad] at raised
    split at raised <;> simp at raised <;> omega
  refine ⟨by decide +kernel,
    wbMux_linearizes powerUp storeLoad ⟨⟨fun _ => rfl, ?_, ?_⟩, ?_⟩⟩
  all_goals
    intro n port raised
    have bound := early n port raised
    revert port
    revert n
    decide +kernel

end WbMuxBram

end Cocoapuffs

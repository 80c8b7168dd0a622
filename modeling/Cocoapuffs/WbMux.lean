import Cocoapuffs.Wishbone

/-!
# The Wishbone multiplexer

The entity `wb_mux`, architecture `rtl_roundrobin`: hosts take turns on one
peripheral bus.  One instant is one rising edge of `clk`.
-/

namespace Cocoapuffs

namespace WbMux

/-- `state_t`. -/
inductive StateT where
  | idle
  | tx
deriving DecidableEq

/-- `reg_t`; a port index is a `port_index_t`. -/
structure Reg (portsCount : Nat) where
  state : StateT
  sampledPortIndex : Fin portsCount
  activePortIndex : Fin portsCount
deriving DecidableEq

variable {portsCount : Nat}

/-- `reg_zero`. -/
def regZero [NeZero portsCount] : Reg portsCount := ⟨.idle, 0, 0⟩

/-- The procedure `assign_host_port`. -/
def hostPort (q : Reg portsCount) (hostPorts : Fin portsCount → HostBus) : HostBus :=
  match q.state with
  | .tx => hostPorts q.activePortIndex
  | .idle => HostBus.new

/-- The procedure `assign_per_ports`. -/
def perPorts (q : Reg portsCount) (perPort : PerBus) (port : Fin portsCount) : PerBus :=
  match q.state with
  | .tx => if port = q.activePortIndex then perPort else PerBus.new
  | .idle => PerBus.new

/-- The port sampled after a port that asks for nothing. -/
def nextPort (port : Fin portsCount) : Fin portsCount :=
  if last : port.val = portsCount - 1 then ⟨0, by omega⟩ else ⟨port.val + 1, by omega⟩

/-- The process `comb`. -/
def comb [NeZero portsCount] (rst : Bool) (hostPorts : Fin portsCount → HostBus)
    (perPort : PerBus) (q : Reg portsCount) : Reg portsCount :=
  let v :=
    match q.state with
    | .idle =>
        if (hostPorts q.sampledPortIndex).cyc then
          { q with activePortIndex := q.sampledPortIndex, state := .tx }
        else { q with sampledPortIndex := nextPort q.sampledPortIndex }
    | .tx => if perPort.ack then { q with state := .idle } else q
  if rst then regZero else v

/-- How many ports must be sampled before `target` is. -/
def distance (sampled target : Fin portsCount) : Nat :=
  if sampled.val ≤ target.val then target.val - sampled.val
  else target.val + portsCount - sampled.val

theorem distance_lt (sampled target : Fin portsCount) : distance sampled target < portsCount := by
  unfold distance
  split <;> omega

theorem distance_nextPort {sampled target : Fin portsCount} (apart : sampled ≠ target) :
    distance (nextPort sampled) target + 1 = distance sampled target := by
  have different : sampled.val ≠ target.val := fun same => apart (Fin.ext same)
  unfold distance nextPort
  split <;> split <;> split <;> simp_all <;> omega

theorem perPorts_of_other {q : Reg portsCount} {perPort : PerBus} {port : Fin portsCount}
    (other : q.state = .tx → port ≠ q.activePortIndex) :
    perPorts q perPort port = PerBus.new := by
  unfold perPorts
  cases phase : q.state with
  | idle => rfl
  | tx => exact if_neg (other phase)

theorem perPorts_of_active {q : Reg portsCount} {perPort : PerBus} (owned : q.state = .tx) :
    perPorts q perPort q.activePortIndex = perPort := by
  simp [perPorts, owned]

/-! ### What one edge can do -/

inductive Move (hostPorts : Fin portsCount → HostBus) (perPort : PerBus)
    (q next : Reg portsCount) : Prop where
  | scan (idle : q.state = .idle) (low : (hostPorts q.sampledPortIndex).cyc = false)
      (state : next.state = .idle)
      (sampled : next.sampledPortIndex = nextPort q.sampledPortIndex)
  | grant (idle : q.state = .idle) (raised : (hostPorts q.sampledPortIndex).cyc = true)
      (state : next.state = .tx) (sampled : next.sampledPortIndex = q.sampledPortIndex)
      (active : next.activePortIndex = q.sampledPortIndex)
  | hold (owned : q.state = .tx) (unacked : perPort.ack = false) (same : next = q)
  | release (owned : q.state = .tx) (acked : perPort.ack = true) (state : next.state = .idle)
      (sampled : next.sampledPortIndex = q.sampledPortIndex)

theorem move [NeZero portsCount] (hostPorts : Fin portsCount → HostBus) (perPort : PerBus)
    (q : Reg portsCount) : Move hostPorts perPort q (comb false hostPorts perPort q) := by
  cases phase : q.state with
  | idle =>
      cases raised : (hostPorts q.sampledPortIndex).cyc with
      | false => apply Move.scan phase raised <;> simp [comb, phase, raised]
      | true => apply Move.grant phase raised <;> simp [comb, phase, raised]
  | tx =>
      cases acked : perPort.ack with
      | false => apply Move.hold phase acked; simp [comb, phase, acked]
      | true => apply Move.release phase acked <;> simp [comb, phase, acked]

end WbMux

end Cocoapuffs

import Cocoapuffs.WbMuxFairness
import Cocoapuffs.WbFabric

/-!
# Hosts that share what is behind a `wb_mux`

A `wb_mux` with anything on its peripheral side.  The requests of the hosts follow
one another on the shared bus, each is acknowledged once, and the order of the
acknowledges is the order in which the peripheral side has executed them.
-/

namespace Cocoapuffs

namespace WbMuxShared

open WbMux (Inputs states perPortsAt)

variable {portsCount : Nat} [NeZero portsCount] (inputs : Nat → Inputs portsCount)

/-- The bus behind the multiplexer. -/
def shared (n : Nat) : HostBus := WbMux.hostPort (states inputs n) (inputs n).hostPorts

/-- The responses on it. -/
def response (n : Nat) : PerBus := (inputs n).perPort

/-- Hosts that hold their request until they see the acknowledge, and drop `cyc` in
the next cycle. -/
structure Hosts : Prop where
  noReset : ∀ n, (inputs n).rst = false
  held : ∀ n port, ((inputs n).hostPorts port).cyc = true →
    (perPortsAt inputs n port).ack = false →
    (inputs (n + 1)).hostPorts port = (inputs n).hostPorts port
  dropped : ∀ n port, ((inputs n).hostPorts port).cyc = true →
    (perPortsAt inputs n port).ack = true → ((inputs (n + 1)).hostPorts port).cyc = false

/-- The requests of a port. -/
def requests (port : Fin portsCount) : Nat → List Request :=
  Trace.pulses (fun n => ((inputs n).hostPorts port).cyc)
    fun n => ((inputs n).hostPorts port).request

/-- The acknowledges that reach the ports: each with the port, its request and the
data it is given. -/
def acked : Nat → List (Fin portsCount × Request × BitVec 32) :=
  Trace.history fun n =>
    ((List.finRange portsCount).find? fun port => (perPortsAt inputs n port).ack).map fun port =>
      (port, ((inputs n).hostPorts port).request, (perPortsAt inputs n port).rdt)

/-- The acknowledges of one port. -/
def ackedBy (port : Fin portsCount) (n : Nat) : List Request :=
  ((acked inputs n).filter fun event => event.1 = port).map fun event => event.2.1

/-- What it means to linearize the hosts of a memory with these cells. -/
structure Linearizes {Cell : Type*} [DecidableEq Cell] (cell : BitVec 32 → Option Cell)
    (bytes : Nat → Cell → Fin 4 → BitVec 8) : Prop where
  /-- The bus is at rest, or belongs to one port with a request; every other port sees
  `ack` low and `rdt` zero. -/
  routed : ∀ n,
    (shared inputs n = HostBus.new ∧ ∀ port, perPortsAt inputs n port = PerBus.new) ∨
      ∃ owner, ((inputs n).hostPorts owner).cyc = true ∧
        shared inputs n = (inputs n).hostPorts owner ∧
        perPortsAt inputs n owner = response inputs n ∧
        ∀ port, port ≠ owner → perPortsAt inputs n port = PerBus.new
  /-- A request stays on the bus until its acknowledge, and leaves it then. -/
  exclusive : ∀ n, (shared inputs n).cyc = true →
    if (response inputs n).ack then (shared inputs (n + 1)).cyc = false
    else shared inputs (n + 1) = shared inputs n
  /-- The requests on the bus are the acknowledged ones and perhaps one more. -/
  presented : ∀ n,
    Trace.pulses (fun n => (shared inputs n).cyc) (fun n => (shared inputs n).request) n =
      (acked inputs n).map (fun event => event.2.1) ++
        if (shared inputs n).cyc then [(shared inputs n).request] else []
  /-- Every request of a port is acknowledged once and in order. -/
  once : ∀ n port, requests inputs port n =
    ackedBy inputs port n ++
      if ((inputs n).hostPorts port).cyc then [((inputs n).hostPorts port).request] else []
  /-- The memory has seen the acknowledged requests, each once, and nothing else. -/
  executed : ∀ n, bytes n =
    LaneMemory.replay (bytes 0)
      ((acked inputs n).filterMap fun event => WbFabric.access cell event.2.1)
  /-- A read returns, byte by byte, the last value written by any host. -/
  read : ∀ n before port request data after index,
    acked inputs n = before ++ (port, request, data) :: after → request.we = false →
    cell request.adr = some index → ∀ lane, byteLane data lane =
      (LaneMemory.lastWritten index lane
          (before.filterMap fun event => WbFabric.access cell event.2.1)).getD
        (bytes 0 index lane)

variable {inputs}

theorem shared_of_idle {n : Nat} (idle : (states inputs n).state = .idle) :
    shared inputs n = HostBus.new := by
  simp [shared, WbMux.hostPort, idle]

theorem shared_of_owned {n : Nat} (owned : (states inputs n).state = .tx) :
    shared inputs n = (inputs n).hostPorts (states inputs n).activePortIndex := by
  simp [shared, WbMux.hostPort, owned]

theorem owned_of_shared {n : Nat} (raised : (shared inputs n).cyc = true) :
    (states inputs n).state = .tx := by
  cases phase : (states inputs n).state with
  | tx => rfl
  | idle =>
      rw [shared_of_idle phase] at raised
      cases raised

/-- Only the owner sees an acknowledge. -/
theorem owner_of_ack {n : Nat} {port : Fin portsCount}
    (ack : (perPortsAt inputs n port).ack = true) :
    (states inputs n).state = .tx ∧ port = (states inputs n).activePortIndex ∧
      (response inputs n).ack = true := by
  have mine : ¬ ((states inputs n).state = .tx → port ≠ (states inputs n).activePortIndex) := by
    intro other
    rw [WbMux.ack_of_other other] at ack
    cases ack
  push Not at mine
  obtain ⟨owned, rfl⟩ := mine
  rw [WbMux.ack_of_owner owned] at ack
  exact ⟨owned, rfl, ack⟩

section Hosts

variable (hosts : Hosts inputs)
include hosts

theorem Hosts.turns : WbMux.Hosts inputs where
  held n port raised unacked := by rw [hosts.held n port raised unacked, raised]
  dropped := hosts.dropped

theorem Hosts.shared_cyc {n : Nat} (owned : (states inputs n).state = .tx) :
    (shared inputs n).cyc = true := by
  rw [shared_of_owned owned]
  exact (hosts.turns.owner n owned).2

theorem Hosts.shared_held {n : Nat} (raised : (shared inputs n).cyc = true)
    (unacked : (response inputs n).ack = false) : shared inputs (n + 1) = shared inputs n := by
  have owned := owned_of_shared raised
  rcases WbMux.move_states (hosts.noReset n) with ⟨idle, -, -, -⟩ | ⟨idle, -, -, -, -⟩ |
    ⟨-, -, same⟩ | ⟨-, acked, -, -⟩
  · simp [owned] at idle
  · simp [owned] at idle
  · rw [shared_of_owned owned, shared_of_owned (same ▸ owned), same]
    exact hosts.held n _ (hosts.turns.owner n owned).2
      ((WbMux.ack_of_owner owned).trans unacked)
  · rw [response, acked] at unacked
    cases unacked

theorem Hosts.shared_dropped {n : Nat} (raised : (shared inputs n).cyc = true)
    (acks : (response inputs n).ack = true) : (shared inputs (n + 1)).cyc = false := by
  have owned := owned_of_shared raised
  rcases WbMux.move_states (hosts.noReset n) with ⟨idle, -, -, -⟩ | ⟨idle, -, -, -, -⟩ |
    ⟨-, unacked, -⟩ | ⟨-, -, state, -⟩
  · simp [owned] at idle
  · simp [owned] at idle
  · rw [response, unacked] at acks
    cases acks
  · rw [shared_of_idle state]
    rfl

/-! ### The acknowledges -/

omit hosts in
theorem acked_succ_of_quiet {n : Nat}
    (quiet : (states inputs n).state = .tx → (response inputs n).ack = false) :
    acked inputs (n + 1) = acked inputs n := by
  apply Trace.history_succ_none
  rw [Option.map_eq_none_iff, List.find?_eq_none]
  intro port _ ack
  obtain ⟨owned, -, acks⟩ := owner_of_ack ack
  rw [quiet owned] at acks
  cases acks

omit hosts in
theorem acked_succ_of_ack {n : Nat} (owned : (states inputs n).state = .tx)
    (acks : (response inputs n).ack = true) :
    acked inputs (n + 1) = acked inputs n ++
      [((states inputs n).activePortIndex, (shared inputs n).request,
        (response inputs n).rdt)] := by
  have found : (List.finRange portsCount).find? (fun port => (perPortsAt inputs n port).ack) =
      some (states inputs n).activePortIndex := by
    cases search : (List.finRange portsCount).find?
        (fun port => (perPortsAt inputs n port).ack) with
    | none =>
        have silent := List.find?_eq_none.mp search _
          (List.mem_finRange (states inputs n).activePortIndex)
        rw [WbMux.ack_of_owner owned] at silent
        exact absurd acks silent
    | some port =>
        have ack := List.find?_some search
        rw [(owner_of_ack ack).2.1]
  apply Trace.history_succ_some
  rw [found, Option.map_some, shared_of_owned owned, perPortsAt, WbMux.perPorts_of_active owned]
  rfl

theorem Hosts.servedRequests_eq (n : Nat) :
    servedRequests (fun _ => true) (shared inputs) (response inputs) n =
      (acked inputs n).map fun event => event.2.1 := by
  induction n with
  | zero => rfl
  | succ n ih =>
      rw [servedRequests, Trace.history_succ, ← servedRequests, ih]
      by_cases served : (states inputs n).state = .tx ∧ (response inputs n).ack = true
      · obtain ⟨owned, acks⟩ := served
        rw [acked_succ_of_ack owned acks, hosts.shared_cyc owned, acks]
        simp
      · have quiet : ((shared inputs n).cyc && (response inputs n).ack) = false := by
          by_contra both
          simp only [Bool.not_eq_false, Bool.and_eq_true] at both
          exact served ⟨owned_of_shared both.1, both.2⟩
        rw [acked_succ_of_quiet fun owned => by simpa [owned] using served, quiet]
        simp

/-- The exchanges of a port are its acknowledges. -/
theorem Hosts.exchanges_port (port : Fin portsCount) (n : Nat) :
    exchanges (fun _ => true) (fun n => (inputs n).hostPorts port)
        (fun n => perPortsAt inputs n port) n =
      ((acked inputs n).filter fun event => event.1 = port).map fun event => event.2 := by
  induction n with
  | zero => rfl
  | succ n ih =>
      rw [exchanges, Trace.history_succ, ← exchanges, ih]
      cases ack : (perPortsAt inputs n port).ack with
      | true =>
          obtain ⟨owned, rfl, acks⟩ := owner_of_ack ack
          have raised := (hosts.turns.owner n owned).2
          rw [acked_succ_of_ack owned acks, shared_of_owned owned, raised, perPortsAt,
            WbMux.perPorts_of_active owned]
          simp [response]
      | false =>
          by_cases served : (states inputs n).state = .tx ∧ (response inputs n).ack = true
          · obtain ⟨owned, acks⟩ := served
            have other : (states inputs n).activePortIndex ≠ port := by
              rintro rfl
              rw [WbMux.ack_of_owner owned, ← response, acks] at ack
              cases ack
            simp [acked_succ_of_ack owned acks, other]
          · rw [acked_succ_of_quiet fun owned => by simpa [owned] using served]
            simp

theorem Hosts.servedRequests_port (port : Fin portsCount) (n : Nat) :
    servedRequests (fun _ => true) (fun n => (inputs n).hostPorts port)
        (fun n => perPortsAt inputs n port) n = ackedBy inputs port n := by
  rw [servedRequests_eq_map, hosts.exchanges_port, ackedBy, List.map_map]
  rfl

/-! ### Waiting -/

omit hosts in
/-- The cycles that are left of the current turn, for a peripheral side that takes at
most `latency` cycles, of which `wait` are left. -/
def turn (inputs : Nat → Inputs portsCount) (latency : Nat) (wait : Nat → Nat) (n : Nat) : Nat :=
  match (states inputs n).state with
  | .idle => if ((inputs n).hostPorts (states inputs n).sampledPortIndex).cyc
      then latency + 2 else 0
  | .tx => wait n + 1

/-- An upper bound on the cycles until a port is acknowledged. -/
def remaining (inputs : Nat → Inputs portsCount) (latency : Nat) (wait : Nat → Nat)
    (port : Fin portsCount) (n : Nat) : Nat :=
  (latency + 3) * WbMux.distance (states inputs n).sampledPortIndex port +
    turn inputs latency wait n

/-- The peripheral side acknowledges every request within `latency` cycles. -/
structure Answers (inputs : Nat → Inputs portsCount) (latency : Nat) (wait : Nat → Nat) :
    Prop where
  bound : ∀ n, wait n ≤ latency
  falls : ∀ n, (shared inputs n).cyc = true → (response inputs n).ack = false →
    wait (n + 1) < wait n

theorem Hosts.remaining_falls {latency : Nat} {wait : Nat → Nat}
    (answers : Answers inputs latency wait) {n : Nat} {port : Fin portsCount}
    (raised : ((inputs n).hostPorts port).cyc = true)
    (unacked : ¬ (perPortsAt inputs n port).ack = true) :
    ((inputs (n + 1)).hostPorts port).cyc = true ∧
      remaining inputs latency wait port (n + 1) < remaining inputs latency wait port n := by
  refine ⟨by rw [hosts.held n port raised (by simpa using unacked), raised], ?_⟩
  unfold remaining turn
  have soon := answers.bound (n + 1)
  rcases WbMux.move_states (hosts.noReset n) with ⟨idle, low, state, sampled⟩ |
    ⟨idle, pending, state, sampled, -⟩ | ⟨owned, quiet, same⟩ | ⟨owned, acked, state, sampled⟩
  · have apart : (states inputs n).sampledPortIndex ≠ port := by
      intro same
      rw [same, raised] at low
      cases low
    have closer := WbMux.distance_nextPort apart
    rw [idle, low, state, sampled, ← closer, Nat.mul_add]
    dsimp only
    split
    · simp
    · simp
  · rw [idle, pending, state, sampled]
    dsimp only
    rw [if_pos rfl]
    omega
  · rw [same, owned]
    dsimp only
    have less := answers.falls n (hosts.shared_cyc owned) quiet
    omega
  · have done : ((inputs (n + 1)).hostPorts (states inputs n).sampledPortIndex).cyc = false := by
      rw [(hosts.turns.owner n owned).1]
      exact hosts.dropped n _ (hosts.turns.owner n owned).2
        ((WbMux.ack_of_owner owned).trans acked)
    rw [owned, state, sampled, done]
    simp

theorem Hosts.served {latency : Nat} {wait : Nat → Nat} (answers : Answers inputs latency wait)
    {n : Nat} {port : Fin portsCount} (raised : ((inputs n).hostPorts port).cyc = true) :
    ∃ m, n ≤ m ∧ m < n + (latency + 3) * portsCount ∧
      (perPortsAt inputs m port).ack = true := by
  obtain ⟨m, after, soon, acked⟩ := Trace.reached_within
    (fun n => ((inputs n).hostPorts port).cyc = true)
    (fun n => (perPortsAt inputs n port).ack = true)
    (fun n => remaining inputs latency wait port n)
    (fun n raised unacked => hosts.remaining_falls answers raised unacked) raised
  refine ⟨m, after, ?_, acked⟩
  have near := WbMux.distance_lt (states inputs n).sampledPortIndex port
  have bound : remaining inputs latency wait port n < (latency + 3) * portsCount := by
    have whole := Nat.mul_le_mul_left (latency + 3) near
    have some_wait := answers.bound n
    rw [Nat.mul_succ] at whole
    unfold remaining turn
    split
    · split <;> omega
    · omega
  omega

/-- A byte memory behind the multiplexer linearizes the hosts. -/
theorem Hosts.linearizes {Cell : Type*} [DecidableEq Cell] {cell : BitVec 32 → Option Cell}
    {bytes : Nat → Cell → Fin 4 → BitVec 8}
    (memory : WbFabric.ByteMemory cell (shared inputs) (response inputs) bytes) :
    Linearizes inputs cell bytes where
  routed n := by
    cases phase : (states inputs n).state with
    | idle =>
        left
        refine ⟨shared_of_idle phase, fun port => ?_⟩
        exact WbMux.perPorts_of_other (by simp [phase])
    | tx =>
        right
        refine ⟨_, (hosts.turns.owner n phase).2, shared_of_owned phase,
          WbMux.perPorts_of_active phase, fun port other => ?_⟩
        exact WbMux.perPorts_of_other fun _ => other
  exclusive n raised := by
    cases acks : (response inputs n).ack with
    | true => exact hosts.shared_dropped raised acks
    | false => exact hosts.shared_held raised acks
  presented n := by
    rw [← hosts.servedRequests_eq]
    apply pulses_eq_served
    · intro n raised unacked
      exact hosts.shared_held raised (by simpa using unacked)
    · intro n raised _ acks
      exact hosts.shared_dropped raised acks
  once n port := by
    rw [← hosts.servedRequests_port]
    apply pulses_eq_served
    · intro n raised unacked
      exact hosts.held n port raised (by simpa using unacked)
    · intro n raised _ acks
      exact hosts.dropped n port raised acks
  executed n := by
    rw [memory.bytes_eq, hosts.servedRequests_eq, List.filterMap_map]
    rfl
  read n before port request data after index split read mapped lane := by
    obtain ⟨m, _, seen, past⟩ := Trace.history_split split
    obtain ⟨owner, found, same⟩ := Option.map_eq_some_iff.mp seen
    obtain ⟨rfl, rfl, rfl⟩ : owner = port ∧ ((inputs m).hostPorts owner).request = request ∧
        (perPortsAt inputs m owner).rdt = data := by
      simpa using same
    have ack := List.find?_some found
    obtain ⟨owned, rfl, acks⟩ := owner_of_ack ack
    have bytes : bytes m = _ := memory.bytes_eq m
    rw [hosts.servedRequests_eq, List.filterMap_map] at bytes
    have value := memory.read m index acks (by rw [shared_of_owned owned]; exact mapped) lane
    rw [perPortsAt, WbMux.perPorts_of_active owned, ← response, value, bytes,
      LaneMemory.replay_eq_lastWritten, ← past]
    rfl

end Hosts

end WbMuxShared

end Cocoapuffs

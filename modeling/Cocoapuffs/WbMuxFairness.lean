import Cocoapuffs.WbMux

/-!
# The turns of the hosts

While a port of `wb_mux` waits, every grant to another port takes the scan
closer to it: a host keeps `cyc` low in the cycle after its acknowledge, in
which the scan, back at its port, moves on.  So no port is granted twice.
-/

namespace Cocoapuffs

namespace WbMux

variable {portsCount : Nat} [NeZero portsCount]

/-- The ports at one edge; the peripheral answers as it likes. -/
structure Inputs (portsCount : Nat) where
  rst : Bool
  hostPorts : Fin portsCount → HostBus
  perPort : PerBus

def step (i : Inputs portsCount) (q : Reg portsCount) : Reg portsCount :=
  comb i.rst i.hostPorts i.perPort q

section Runs

variable (inputs : Nat → Inputs portsCount)

abbrev states : Nat → Reg portsCount := Trace.run step regZero inputs

/-- The response that a host sees. -/
def perPortsAt (n : Nat) (port : Fin portsCount) : PerBus :=
  perPorts (states inputs n) (inputs n).perPort port

/-- The port that is granted the bus in a cycle. -/
def granted (n : Nat) : Option (Fin portsCount) :=
  if (states inputs n).state = .idle ∧ (inputs n).rst = false ∧
      ((inputs n).hostPorts (states inputs n).sampledPortIndex).cyc = true
  then some (states inputs n).sampledPortIndex else none

/-- Hosts that hold `cyc` until their acknowledge and keep it low in the cycle
after that. -/
structure Hosts : Prop where
  held : ∀ n port, ((inputs n).hostPorts port).cyc = true →
    (perPortsAt inputs n port).ack = false → ((inputs (n + 1)).hostPorts port).cyc = true
  dropped : ∀ n port, ((inputs n).hostPorts port).cyc = true →
    (perPortsAt inputs n port).ack = true → ((inputs (n + 1)).hostPorts port).cyc = false

/-- A port raises `cyc`. -/
def Raises (port : Fin portsCount) (n : Nat) : Prop :=
  ((inputs n).hostPorts port).cyc = true ∧
    ∀ m, m + 1 = n → ((inputs m).hostPorts port).cyc = false

variable {inputs}

/-- Outside a reset the machine makes one of its moves. -/
theorem move_states {n : Nat} (noReset : (inputs n).rst = false) :
    Move (inputs n).hostPorts (inputs n).perPort (states inputs n) (states inputs (n + 1)) := by
  rw [states, Trace.run_succ, step, noReset]
  exact move _ _ _

theorem states_reset {n : Nat} (reset : (inputs n).rst = true) :
    states inputs (n + 1) = regZero := by
  rw [states, Trace.run_succ, step, reset]
  rfl

theorem ack_of_owner {n : Nat} (owned : (states inputs n).state = .tx) :
    (perPortsAt inputs n (states inputs n).activePortIndex).ack = (inputs n).perPort.ack := by
  rw [perPortsAt, perPorts_of_active owned]

theorem ack_of_other {n : Nat} {port : Fin portsCount}
    (other : (states inputs n).state = .tx → port ≠ (states inputs n).activePortIndex) :
    (perPortsAt inputs n port).ack = false := by
  rw [perPortsAt, perPorts_of_other other]
  rfl

theorem granted_eq_some {n : Nat} {port : Fin portsCount} (grant : granted inputs n = some port) :
    (states inputs n).state = .idle ∧ (states inputs n).sampledPortIndex = port ∧
      ((inputs n).hostPorts port).cyc = true := by
  unfold granted at grant
  split at grant
  · rename_i now
    obtain rfl := Option.some.inj grant
    exact ⟨now.1, rfl, now.2.2⟩
  · cases grant

variable (hosts : Hosts inputs)
include hosts

/-- The owner of the bus is the port sampled last, and has its `cyc` high. -/
theorem Hosts.owner (n : Nat) (owned : (states inputs n).state = .tx) :
    (states inputs n).sampledPortIndex = (states inputs n).activePortIndex ∧
      ((inputs n).hostPorts (states inputs n).activePortIndex).cyc = true := by
  induction n with
  | zero => cases owned
  | succ n ih =>
      cases reset : (inputs n).rst with
      | true =>
          rw [states_reset reset] at owned
          cases owned
      | false =>
          rcases move_states reset with ⟨-, -, state, -⟩ | ⟨idle, raised, -, sampled, active⟩ |
            ⟨owned', unacked, same⟩ | ⟨-, -, state, -⟩
          · rw [state] at owned
            cases owned
          · rw [sampled, active]
            refine ⟨rfl, hosts.held n _ raised (ack_of_other ?_)⟩
            simp [idle]
          · rw [same]
            obtain ⟨sampled, raised⟩ := ih owned'
            exact ⟨sampled, hosts.held n _ raised ((ack_of_owner owned').trans unacked)⟩
          · rw [state] at owned
            cases owned

theorem Hosts.not_owner_of_raises {n : Nat} {port : Fin portsCount}
    (raises : Raises inputs port n) (owned : (states inputs n).state = .tx) :
    port ≠ (states inputs n).activePortIndex := by
  rintro rfl
  cases n with
  | zero => cases owned
  | succ n =>
      have low := raises.2 n rfl
      cases reset : (inputs n).rst with
      | true =>
          rw [states_reset reset] at owned
          cases owned
      | false =>
          rcases move_states reset with ⟨-, -, state, -⟩ | ⟨-, raised, -, -, active⟩ |
            ⟨owned', -, same⟩ | ⟨-, -, state, -⟩
          · rw [state] at owned
            cases owned
          · rw [active, raised] at low
            cases low
          · rw [same, (hosts.owner n owned').2] at low
            cases low
          · rw [state] at owned
            cases owned

omit hosts in
/-- A port that waits: `cyc` is high and the bus belongs to another port, if to
any. -/
structure Waits (inputs : Nat → Inputs portsCount) (port : Fin portsCount) (n : Nat) : Prop where
  raised : ((inputs n).hostPorts port).cyc = true
  other : (states inputs n).state = .tx → port ≠ (states inputs n).activePortIndex

theorem Hosts.waits_succ {n : Nat} {port : Fin portsCount} (waits : Waits inputs port n)
    (noReset : (inputs n).rst = false) (notGranted : granted inputs n ≠ some port) :
    Waits inputs port (n + 1) where
  raised := hosts.held n port waits.raised (ack_of_other waits.other)
  other owned := by
    rcases move_states noReset with ⟨-, -, state, -⟩ | ⟨idle, raised, -, -, active⟩ |
      ⟨owned', -, same⟩ | ⟨-, -, state, -⟩
    · rw [state] at owned
      cases owned
    · rw [active]
      rintro rfl
      exact notGranted (if_pos ⟨idle, noReset, raised⟩)
    · rw [same]
      exact waits.other owned'
    · rw [state] at owned
      cases owned

theorem Hosts.sampled_ne {n : Nat} {port : Fin portsCount} (waits : Waits inputs port n)
    (noReset : (inputs n).rst = false) (notGranted : granted inputs n ≠ some port) :
    (states inputs n).sampledPortIndex ≠ port := by
  rintro rfl
  cases phase : (states inputs n).state with
  | idle => exact notGranted (if_pos ⟨phase, noReset, waits.raised⟩)
  | tx => exact waits.other phase (hosts.owner n phase).1

omit hosts in
/-- A port has had its turn, seen from a port that waits. -/
inductive Served (inputs : Nat → Inputs portsCount) (turn port : Fin portsCount) (n : Nat) :
    Prop where
  | owns (owned : (states inputs n).state = .tx)
      (active : (states inputs n).activePortIndex = turn)
  | leaves (idle : (states inputs n).state = .idle)
      (sampled : (states inputs n).sampledPortIndex = turn)
      (low : ((inputs n).hostPorts turn).cyc = false)
  | passed (closer : distance (states inputs n).sampledPortIndex port < distance turn port)

theorem Hosts.served_succ {n : Nat} {turn port : Fin portsCount}
    (served : Served inputs turn port n) (waits : Waits inputs port n)
    (noReset : (inputs n).rst = false) (notGranted : granted inputs n ≠ some port) :
    Served inputs turn port (n + 1) := by
  have apart := hosts.sampled_ne waits noReset notGranted
  have nearer := distance_nextPort apart
  rcases move_states noReset with ⟨idle, -, state, sampled⟩ | ⟨idle, raised, -, sampled, -⟩ |
    ⟨owned, -, same⟩ | ⟨owned, acked, state, sampled⟩
  · refine .passed ?_
    rw [sampled]
    rcases served with ⟨owned, -⟩ | ⟨-, here, -⟩ | closer
    · simp [idle] at owned
    · rw [here] at nearer ⊢
      omega
    · omega
  · rcases served with ⟨owned, -⟩ | ⟨-, here, low⟩ | closer
    · simp [idle] at owned
    · rw [here, low] at raised
      cases raised
    · exact .passed (sampled ▸ closer)
  · rcases served with ⟨-, active⟩ | ⟨idle, -, -⟩ | closer
    · exact .owns (same ▸ owned) (same ▸ active)
    · simp [owned] at idle
    · exact .passed (same ▸ closer)
  · rcases served with ⟨-, active⟩ | ⟨idle, -, -⟩ | closer
    · refine .leaves state ?_ ?_
      · rw [sampled, (hosts.owner n owned).1, active]
      · rw [← active]
        exact hosts.dropped n _ (hosts.owner n owned).2 ((ack_of_owner owned).trans acked)
    · simp [owned] at idle
    · exact .passed (sampled ▸ closer)

/-- Between the cycle in which a port raises `cyc` and the one in which it is
granted the bus, no other port is granted the bus twice. -/
theorem wbMux_bounded_bypass {port other : Fin portsCount} {n first second : Nat}
    (raises : Raises inputs port n) (after : n ≤ first) (later : first < second)
    (noReset : ∀ m, n ≤ m → m ≤ second → (inputs m).rst = false)
    (waiting : ∀ m, n ≤ m → m < second → granted inputs m ≠ some port)
    (turn : granted inputs first = some other) : granted inputs second ≠ some other := by
  have waits : ∀ m, n ≤ m → m ≤ second → Waits inputs port m := by
    intro m le
    induction m, le using Nat.le_induction with
    | base => exact fun _ => ⟨raises.1, hosts.not_owner_of_raises raises⟩
    | succ m le ih =>
        intro before
        exact hosts.waits_succ (ih (by omega)) (noReset m le (by omega)) (waiting m le (by omega))
  have served : ∀ m, first < m → m ≤ second → Served inputs other port m := by
    intro m lt
    induction m, lt using Nat.le_induction with
    | base =>
        intro before
        obtain ⟨idle, sampled, raised⟩ := granted_eq_some turn
        rcases move_states (noReset first after (by omega)) with ⟨-, low, -, -⟩ |
          ⟨-, -, state, -, active⟩ | ⟨owned, -, -⟩ | ⟨owned, -, -, -⟩
        · rw [sampled, raised] at low
          cases low
        · exact .owns state (active.trans sampled)
        · simp [idle] at owned
        · simp [idle] at owned
    | succ m lt ih =>
        intro before
        exact hosts.served_succ (ih (by omega)) (waits m (by omega) (by omega))
          (noReset m (by omega) (by omega)) (waiting m (by omega) (by omega))
  intro again
  obtain ⟨idle, sampled, raised⟩ := granted_eq_some again
  rcases served second later le_rfl with ⟨owned, -⟩ | ⟨-, -, low⟩ | closer
  · simp [idle] at owned
  · simp [raised] at low
  · simp [sampled] at closer

end Runs

/-- Two hosts raise `cyc` in the first cycle. -/
def bothRaise (n : Nat) : Inputs 2 where
  rst := false
  hostPorts port := { HostBus.new with cyc := decide (n ≤ if port.val = 0 then 2 else 6) }
  perPort := ⟨0, n == 2 || n == 6⟩

theorem bothRaise_hosts : Hosts bothRaise := by
  have early : ∀ n port, ((bothRaise n).hostPorts port).cyc = true → n < 7 := by
    intro n port raised
    simp only [bothRaise, decide_eq_true_eq] at raised
    split at raised <;> omega
  constructor
  all_goals
    intro n port raised
    have bound := early n port raised
    revert port
    revert n
    decide +kernel

theorem wbMux_bounded_bypass_bothRaise :
    granted bothRaise 0 = some 0 ∧ granted bothRaise 4 = some 1 ∧ granted bothRaise 4 ≠ some 0 := by
  refine ⟨by decide +kernel, by decide +kernel, ?_⟩
  exact wbMux_bounded_bypass bothRaise_hosts
    (show Raises bothRaise 1 0 from ⟨rfl, fun m next => absurd next (Nat.succ_ne_zero m)⟩)
    le_rfl (by decide) (fun _ _ _ => rfl) (by decide +kernel) (by decide +kernel)

end WbMux

end Cocoapuffs

import Cocoapuffs.Wishbone

/-!
# The adapter to the wide memory bus

The entity `wide_wb_ddr3`: 32-bit requests become requests on a pipelined bus
of 256-bit bursts.  The adapter holds `stb` until it has seen the acknowledge,
and for one cycle more.  One instant is one rising edge of `clk`.
-/

namespace Cocoapuffs

namespace WideWbDdr3

/-- `work.ddr3.wb_host_type`. -/
structure WbHostType where
  cyc : Bool
  stb : Bool
  we : Bool
  adr : BitVec 25
  data : BitVec 256
  sel : BitVec 32
  aux : BitVec 4
deriving DecidableEq

/-- `work.ddr3.new_wb_host_type`. -/
def WbHostType.new : WbHostType := ⟨false, false, false, 0, 0, 0, 0⟩

/-- `work.ddr3.wb_per_type`, as far as it is read. -/
structure WbPerType where
  stall : Bool
  ack : Bool
  data : BitVec 256
deriving DecidableEq

/-- `state_type`. -/
inductive StateType where
  | idle
  | read1
  | wait1
  | write1
deriving DecidableEq

/-- `reg_type`. -/
structure RegType where
  state : StateType
  hostBuf : WbHostType
  perBuf : PerBus
  index : Nat
deriving DecidableEq

/-- `zero_state`. -/
def zeroState : RegType := ⟨.idle, WbHostType.new, PerBus.new, 0⟩

/-- Which word of its burst an address falls into. -/
def wordOfBurst (adr : BitVec 32) : Nat := (adr.extractLsb' 2 3).toNat

/-- The word of a burst. -/
def burstWord (data : BitVec 256) (index : Nat) : BitVec 32 := data.extractLsb' (32 * index) 32

/-- The buffer that a request is loaded into; the data of a read is a don't-care. -/
def wide (request : Request) : WbHostType where
  cyc := true
  stb := true
  we := request.we
  adr := request.adr.extractLsb' 5 25
  data := if request.we then request.dat.setWidth 256 <<< (32 * wordOfBurst request.adr) else 0
  sel := request.sel.setWidth 32 <<< (4 * wordOfBurst request.adr)
  aux := 0

/-- The ports at one edge. -/
structure Inputs where
  reset : Bool
  hostsideWbHost : HostBus
  persideWbPer : WbPerType

/-- The process `comb`; the `rdt` of a write is a don't-care. -/
def comb (i : Inputs) (r : RegType) : RegType :=
  if i.reset then zeroState
  else
    match r.state with
    | .idle =>
        if i.hostsideWbHost.cyc then
          { r with
            hostBuf := wide i.hostsideWbHost.request
            index := wordOfBurst i.hostsideWbHost.adr
            state := if i.hostsideWbHost.we then .write1 else .read1 }
        else r
    | .write1 =>
        if i.persideWbPer.stall then r
        else if i.persideWbPer.ack then { r with perBuf := ⟨0, true⟩, state := .wait1 }
        else r
    | .read1 =>
        if i.persideWbPer.stall then r
        else if i.persideWbPer.ack then
          { r with perBuf := ⟨burstWord i.persideWbPer.data r.index, true⟩, state := .wait1 }
        else r
    | .wait1 => zeroState

/-! ### What one edge can do -/

inductive Move (i : Inputs) (r next : RegType) : Prop where
  | rest (idle : r.state = .idle) (low : i.hostsideWbHost.cyc = false) (same : next = r)
  | load (idle : r.state = .idle) (raised : i.hostsideWbHost.cyc = true)
      (state : next.state = .read1 ∨ next.state = .write1)
      (buf : next.hostBuf = wide i.hostsideWbHost.request) (perBuf : next.perBuf = r.perBuf)
      (index : next.index = wordOfBurst i.hostsideWbHost.adr)
      (we : next.state = .read1 ↔ i.hostsideWbHost.we = false)
  | wait (waiting : r.state = .read1 ∨ r.state = .write1)
      (unready : i.persideWbPer.stall = false → i.persideWbPer.ack = false) (same : next = r)
  | take (waiting : r.state = .read1 ∨ r.state = .write1)
      (unstalled : i.persideWbPer.stall = false) (acked : i.persideWbPer.ack = true)
      (state : next.state = .wait1) (buf : next.hostBuf = r.hostBuf)
      (ack : next.perBuf.ack = true)
      (rdt : r.state = .read1 → next.perBuf.rdt = burstWord i.persideWbPer.data r.index)
  | clear (answered : r.state = .wait1) (zero : next = zeroState)

theorem move (i : Inputs) (r : RegType) (noReset : i.reset = false) : Move i r (comb i r) := by
  cases phase : r.state with
  | idle =>
      cases raised : i.hostsideWbHost.cyc with
      | false => exact .rest phase raised (by simp [comb, noReset, phase, raised])
      | true =>
          apply Move.load phase raised <;> cases we : i.hostsideWbHost.we <;>
            simp [comb, noReset, phase, raised, we]
  | read1 =>
      cases stall : i.persideWbPer.stall with
      | true => exact .wait (Or.inl phase) (by simp [stall]) (by simp [comb, noReset, phase, stall])
      | false =>
          cases ack : i.persideWbPer.ack with
          | true =>
              apply Move.take (Or.inl phase) stall ack <;> simp [comb, noReset, phase, stall, ack]
          | false =>
              exact .wait (Or.inl phase) (by simp [ack]) (by simp [comb, noReset, phase, ack])
  | write1 =>
      cases stall : i.persideWbPer.stall with
      | true => exact .wait (Or.inr phase) (by simp [stall]) (by simp [comb, noReset, phase, stall])
      | false =>
          cases ack : i.persideWbPer.ack with
          | true =>
              apply Move.take (Or.inr phase) stall ack <;> simp [comb, noReset, phase, stall, ack]
          | false =>
              exact .wait (Or.inr phase) (by simp [ack]) (by simp [comb, noReset, phase, ack])
  | wait1 => exact .clear phase (by simp [comb, noReset, phase])

section Lists

variable (inputs : Nat → Inputs)

/-- The states after a reset. -/
abbrev states : Nat → RegType := Trace.run comb zeroState inputs

abbrev host (n : Nat) : HostBus := (inputs n).hostsideWbHost
abbrev per (n : Nat) : PerBus := (states inputs n).perBuf
abbrev wideHost (n : Nat) : WbHostType := (states inputs n).hostBuf
abbrev widePer (n : Nat) : WbPerType := (inputs n).persideWbPer

/-- The requests of the host. -/
def requests : Nat → List Request :=
  Trace.pulses (fun n => (host inputs n).cyc) fun n => (host inputs n).request

/-- The acknowledged requests, each with its read data. -/
def acked : Nat → List (Request × BitVec 32) :=
  exchanges (fun _ => true) (host inputs) (per inputs)

/-- The requests that the slave accepts. -/
def accepted : Nat → List WbHostType :=
  Trace.history fun n =>
    if (wideHost inputs n).cyc && (wideHost inputs n).stb && !(widePer inputs n).stall
    then some (wideHost inputs n) else none

/-- The acknowledges of the slave, each with its data. -/
def slaveAcks : Nat → List (BitVec 256) :=
  Trace.history fun n => if (widePer inputs n).ack then some (widePer inputs n).data else none

/-- A host that holds its request until the acknowledge and drops it then. -/
structure Host : Prop where
  noReset : ∀ n, (inputs n).reset = false
  held : ∀ n, (host inputs n).cyc = true → (per inputs n).ack = false →
    host inputs (n + 1) = host inputs n
  dropped : ∀ n, (host inputs n).cyc = true → (per inputs n).ack = true →
    (host inputs (n + 1)).cyc = false

/-- A pipelined slave: it accepts in the end what stays on the bus, and gives
each accepted request one acknowledge. -/
structure Slave : Prop where
  accepts : Trace.LeadsTo (fun n => (wideHost inputs n).stb = true)
    fun n => (wideHost inputs n).stb = true → (widePer inputs n).stall = false
  acks_le : ∀ n, (slaveAcks inputs n).length ≤ (accepted inputs n).length
  answers : ∀ n, ∃ m, n ≤ m ∧ (accepted inputs n).length ≤ (slaveAcks inputs m).length

/-- While the adapter waits the slave stalls until it acknowledges, and it stalls
in the cycle after. -/
def Synchronous (n : Nat) : Prop :=
  ((states inputs n).state = .read1 ∨ (states inputs n).state = .write1 →
      (widePer inputs n).stall = false → (widePer inputs n).ack = true) ∧
    ((states inputs n).state = .wait1 → (widePer inputs n).stall = true)

/-- Is this the acknowledge of the slave that the host was given? -/
def Answers (exchange : Request × BitVec 32) (data : BitVec 256) : Prop :=
  exchange.1.we = false → exchange.2 = burstWord data (wordOfBurst exchange.1.adr)

/-- What it means to speak to a pipelined slave safely. -/
structure SpeaksSafely : Prop where
  /-- Every request is accepted once, and has been when it is acknowledged, -/
  once : ∀ n, accepted inputs n <+: (requests inputs n).map wide
  settled : ∀ n, (per inputs n).ack = true →
    accepted inputs n = (requests inputs n).map wide ∧
      (slaveAcks inputs n).length = (requests inputs n).length
  /-- its acknowledge and data are those of the slave for this request, -/
  acknowledged : ∀ n, List.Forall₂ Answers (acked inputs n)
    ((slaveAcks inputs n).take (acked inputs n).length)
  /-- and every request is acknowledged. -/
  requests_eq : ∀ n, requests inputs n = (acked inputs n).map Prod.fst ++
    if (host inputs n).cyc then [(host inputs n).request] else []
  served : Trace.LeadsTo (fun n => (host inputs n).cyc = true)
    fun n => (per inputs n).ack = true

variable {inputs}

/-! ### The invariant -/

/-- How the registers go with the request of the host. -/
structure Control (i : Inputs) (r : RegType) : Prop where
  ack : r.perBuf.ack = decide (r.state = .wait1)
  resting : r.state = .idle → r.hostBuf = WbHostType.new
  pending : r.state ≠ .idle →
    i.hostsideWbHost.cyc = true ∧ r.hostBuf = wide i.hostsideWbHost.request
  reading : r.state = .read1 → r.index = wordOfBurst i.hostsideWbHost.adr
  writing : r.state = .write1 → i.hostsideWbHost.we = true

theorem control_zero (i : Inputs) : Control i zeroState where
  ack := rfl
  resting _ := rfl
  pending active := absurd rfl active
  reading state := by cases state
  writing state := by cases state

/-- What waits for the slave neither rests nor has answered. -/
theorem unanswered_of_waiting {state : StateType} (waiting : state = .read1 ∨ state = .write1) :
    state ≠ .idle ∧ state ≠ .wait1 := by
  rcases waiting with rfl | rfl <;> simp

theorem Control.loaded_of_waiting {i : Inputs} {r : RegType} (control : Control i r)
    (waiting : r.state = .read1 ∨ r.state = .write1) :
    i.hostsideWbHost.cyc = true ∧ r.hostBuf = wide i.hostsideWbHost.request :=
  control.pending (unanswered_of_waiting waiting).1

theorem Control.read1_of_waiting {i : Inputs} {r : RegType} (control : Control i r)
    (waiting : r.state = .read1 ∨ r.state = .write1) (read : i.hostsideWbHost.we = false) :
    r.state = .read1 := by
  rcases waiting with reading | writing
  · exact reading
  · rw [control.writing writing] at read
    cases read

/-- What has been accepted and acknowledged goes with the state of the adapter. -/
structure Accounts (inputs : Nat → Inputs) (n : Nat) : Prop where
  quiet : (states inputs n).state ≠ .wait1 →
    accepted inputs n = (acked inputs n).map (fun exchange => wide exchange.1) ∧
      List.Forall₂ Answers (acked inputs n) (slaveAcks inputs n)
  answered : (states inputs n).state = .wait1 →
    accepted inputs n =
        (acked inputs n).map (fun exchange => wide exchange.1) ++
          [wide (host inputs n).request] ∧
      ∃ earlier data, slaveAcks inputs n = earlier ++ [data] ∧
        List.Forall₂ Answers (acked inputs n) earlier ∧
        Answers ((host inputs n).request, (per inputs n).rdt) data

theorem Accounts.even {n : Nat} (accounts : Accounts inputs n) :
    (slaveAcks inputs n).length = (accepted inputs n).length := by
  by_cases answered : (states inputs n).state = .wait1
  · obtain ⟨accepted_eq, earlier, data, received, answers, _⟩ := accounts.answered answered
    rw [received, accepted_eq, List.length_append, List.length_append, List.length_map,
      answers.length_eq]
    rfl
  · obtain ⟨accepted_eq, answers⟩ := accounts.quiet answered
    rw [accepted_eq, List.length_map, answers.length_eq]

theorem accepted_succ_of_quiet {n : Nat}
    (quiet : (wideHost inputs n).stb = true → (widePer inputs n).stall = true) :
    accepted inputs (n + 1) = accepted inputs n := by
  apply Trace.history_succ_none
  cases stb : (wideHost inputs n).stb <;> simp_all

/-- A slave that owes nothing and accepts nothing gives no acknowledge. -/
theorem Slave.silent (slave : Slave inputs) {n : Nat}
    (quiet : accepted inputs (n + 1) = accepted inputs n)
    (even : (slaveAcks inputs n).length = (accepted inputs n).length) :
    slaveAcks inputs (n + 1) = slaveAcks inputs n := by
  have silent : (widePer inputs n).ack = false := by
    by_contra ack
    have more := slave.acks_le (n + 1)
    rw [quiet, ← even, slaveAcks, Trace.history_succ, List.length_append] at more
    simp [show (widePer inputs n).ack = true by simpa using ack] at more
  exact Trace.history_succ_none (by simp [silent])

theorem acked_succ_of_quiet {n : Nat} (unacked : (per inputs n).ack = false) :
    acked inputs (n + 1) = acked inputs n :=
  Trace.history_succ_none (by simp [unacked])

section Step

variable (hostRules : Host inputs)
include hostRules

theorem move_states (n : Nat) : Move (inputs n) (states inputs n) (states inputs (n + 1)) :=
  move (inputs n) _ (hostRules.noReset n)

/-- The host waits for its acknowledge. -/
theorem Host.held_of_unanswered {n : Nat} (control : Control (inputs n) (states inputs n))
    (unanswered : (states inputs n).state ≠ .wait1) (raised : (host inputs n).cyc = true) :
    host inputs (n + 1) = host inputs n :=
  hostRules.held n raised (by simp [per, control.ack, unanswered])

theorem Host.held_of_waiting {n : Nat} (control : Control (inputs n) (states inputs n))
    (waiting : (states inputs n).state = .read1 ∨ (states inputs n).state = .write1) :
    host inputs (n + 1) = host inputs n :=
  hostRules.held_of_unanswered control (unanswered_of_waiting waiting).2
    (control.loaded_of_waiting waiting).1

theorem control_states (n : Nat) : Control (inputs n) (states inputs n) := by
  induction n with
  | zero => exact control_zero (inputs 0)
  | succ n control =>
      rcases move_states hostRules n with ⟨idle, low, same⟩ |
        ⟨idle, raised, state, buf, perBuf, index, we⟩ | ⟨waiting, unready, same⟩ |
        ⟨waiting, unstalled, ack, state, buf, given, rdt⟩ | ⟨answered, zero⟩
      · rw [same]
        constructor
        · exact control.ack
        · exact control.resting
        · exact fun active => absurd idle active
        · simp [idle]
        · simp [idle]
      · have same : (inputs (n + 1)).hostsideWbHost = (inputs n).hostsideWbHost :=
          hostRules.held_of_unanswered control (by simp [idle]) raised
        constructor
        · rw [perBuf, control.ack, idle]
          rcases state with state | state <;> simp [state]
        · intro resting
          rcases state with state | state <;> simp [state] at resting
        · rw [same, buf]
          exact fun _ => ⟨raised, rfl⟩
        · rw [same]
          exact fun _ => index
        · intro writing
          rw [same]
          by_contra read
          simp [we.mpr (by simpa using read)] at writing
      · have kept : (inputs (n + 1)).hostsideWbHost = (inputs n).hostsideWbHost :=
          hostRules.held_of_waiting control waiting
        rw [same]
        constructor
        · exact control.ack
        · exact control.resting
        · rw [kept]
          exact control.pending
        · rw [kept]
          exact control.reading
        · rw [kept]
          exact control.writing
      · have kept : (inputs (n + 1)).hostsideWbHost = (inputs n).hostsideWbHost :=
          hostRules.held_of_waiting control waiting
        constructor
        · simp [given, state]
        · simp [state]
        · rw [kept, buf]
          exact fun _ => control.loaded_of_waiting waiting
        · simp [state]
        · simp [state]
      · rw [zero]
        exact control_zero (inputs (n + 1))

omit hostRules in
/-- Where the slave accepts nothing, nothing is accounted for. -/
theorem Accounts.still {n : Nat} (accounts : Accounts inputs n) (slave : Slave inputs)
    (control : Control (inputs n) (states inputs n))
    (quiet : accepted inputs (n + 1) = accepted inputs n)
    (before : (states inputs n).state ≠ .wait1) (after : (states inputs (n + 1)).state ≠ .wait1) :
    Accounts inputs (n + 1) := by
  have unacked : acked inputs (n + 1) = acked inputs n :=
    acked_succ_of_quiet (by simp [per, control.ack, before])
  refine ⟨fun _ => ?_, fun answered => absurd answered after⟩
  rw [quiet, slave.silent quiet accounts.even, unacked]
  exact accounts.quiet before

/-- The slave accepts the request and acknowledges it at once. -/
theorem Accounts.take {n : Nat} (accounts : Accounts inputs n)
    (control : Control (inputs n) (states inputs n))
    (waiting : (states inputs n).state = .read1 ∨ (states inputs n).state = .write1)
    (unstalled : (widePer inputs n).stall = false) (ack : (widePer inputs n).ack = true)
    (state : (states inputs (n + 1)).state = .wait1)
    (rdt : (states inputs n).state = .read1 →
      (per inputs (n + 1)).rdt = burstWord (widePer inputs n).data (states inputs n).index) :
    Accounts inputs (n + 1) := by
  have before := (unanswered_of_waiting waiting).2
  have loaded := (control.loaded_of_waiting waiting).2
  obtain ⟨accepted_eq, answers⟩ := accounts.quiet before
  have unacked : acked inputs (n + 1) = acked inputs n :=
    acked_succ_of_quiet (by simp [per, control.ack, before])
  have taken : accepted inputs (n + 1) =
      accepted inputs n ++ [wide (host inputs n).request] := by
    apply Trace.history_succ_some
    rw [wideHost, loaded, unstalled]
    rfl
  have received : slaveAcks inputs (n + 1) =
      slaveAcks inputs n ++ [(widePer inputs n).data] :=
    Trace.history_succ_some (if_pos ack)
  refine ⟨fun unanswered => absurd state unanswered, fun _ => ?_⟩
  rw [taken, unacked, accepted_eq, hostRules.held_of_waiting control waiting]
  refine ⟨rfl, _, _, received, answers, fun read => ?_⟩
  have reading := control.read1_of_waiting waiting read
  rw [rdt reading, control.reading reading]
  rfl

omit hostRules in
/-- The host is given the answer. -/
theorem Accounts.finish {n : Nat} (accounts : Accounts inputs n) (slave : Slave inputs)
    (control : Control (inputs n) (states inputs n)) (stalled : (widePer inputs n).stall = true)
    (answered : (states inputs n).state = .wait1)
    (zero : states inputs (n + 1) = zeroState) : Accounts inputs (n + 1) := by
  have raised : (host inputs n).cyc = true := (control.pending (by simp [answered])).1
  obtain ⟨accepted_eq, earlier, data, received, answers, last⟩ := accounts.answered answered
  have quiet : accepted inputs (n + 1) = accepted inputs n :=
    accepted_succ_of_quiet fun _ => stalled
  have acked_eq : acked inputs (n + 1) =
      acked inputs n ++ [((host inputs n).request, (per inputs n).rdt)] :=
    Trace.history_succ_some (by simp [raised, per, control.ack, answered])
  refine ⟨fun _ => ?_, fun again => by rw [zero] at again; cases again⟩
  rw [quiet, slave.silent quiet accounts.even, acked_eq, accepted_eq, received]
  constructor
  · simp
  · exact List.rel_append answers (List.Forall₂.cons last List.Forall₂.nil)

theorem accounts_states (slave : Slave inputs) (synchronous : ∀ n, Synchronous inputs n)
    (n : Nat) : Accounts inputs n := by
  induction n with
  | zero => exact ⟨fun _ => ⟨rfl, List.Forall₂.nil⟩, fun answered => by cases answered⟩
  | succ n accounts =>
      have control := control_states hostRules n
      have resting (idle : (states inputs n).state = .idle) :
          accepted inputs (n + 1) = accepted inputs n := by
        apply accepted_succ_of_quiet
        simp [wideHost, control.resting idle, WbHostType.new]
      rcases move_states hostRules n with ⟨idle, low, same⟩ |
        ⟨idle, raised, state, buf, perBuf, index, we⟩ | ⟨waiting, unready, same⟩ |
        ⟨waiting, unstalled, ack, state, buf, given, rdt⟩ | ⟨answered, zero⟩
      · exact accounts.still slave control (resting idle) (by simp [idle]) (by simp [same, idle])
      · exact accounts.still slave control (resting idle) (by simp [idle])
          (unanswered_of_waiting state).2
      · have stalled : (widePer inputs n).stall = true := by
          by_contra unstalled
          have ack := (synchronous n).1 waiting (by simpa using unstalled)
          simp [unready (by simpa using unstalled)] at ack
        have active := (unanswered_of_waiting waiting).2
        exact accounts.still slave control (accepted_succ_of_quiet fun _ => stalled) active
          (same ▸ active)
      · exact accounts.take hostRules control waiting unstalled ack state rdt
      · exact accounts.finish slave control ((synchronous n).2 answered) answered zero

theorem requests_eq (n : Nat) : requests inputs n = (acked inputs n).map Prod.fst ++
    if (host inputs n).cyc then [(host inputs n).request] else [] := by
  rw [acked, ← servedRequests_eq_map]
  apply pulses_eq_served
  · intro n raised unacked
    exact hostRules.held n raised (by simpa using unacked)
  · intro n raised _ ack
    exact hostRules.dropped n raised ack

theorem stb_of_waiting {n : Nat}
    (waiting : (states inputs n).state = .read1 ∨ (states inputs n).state = .write1) :
    (wideHost inputs n).stb = true := by
  have loaded := ((control_states hostRules n).loaded_of_waiting waiting).2
  simp [wideHost, loaded, wide]

theorem ack_of_cyc (slave : Slave inputs) (synchronous : ∀ n, Synchronous inputs n) :
    Trace.LeadsTo (fun n => (host inputs n).cyc = true) fun n => (per inputs n).ack = true := by
  have answered : Trace.LeadsTo
      (fun n => (states inputs n).state = .read1 ∨ (states inputs n).state = .write1)
      fun n => (per inputs n).ack = true := by
    apply Trace.LeadsTo.of_event fun n =>
      (wideHost inputs n).stb = true → (widePer inputs n).stall = false
    · intro n waiting
      exact slave.accepts n (stb_of_waiting hostRules waiting)
    · intro n waiting stalled
      rcases move_states hostRules n <;> simp_all
    · intro n waiting accepts
      have unstalled := accepts (stb_of_waiting hostRules waiting)
      have ack := (synchronous n).1 waiting unstalled
      rcases move_states hostRules n <;> simp_all
  intro n raised
  cases phase : (states inputs n).state with
  | idle =>
      have loaded : (states inputs (n + 1)).state = .read1 ∨
          (states inputs (n + 1)).state = .write1 := by
        rcases move_states hostRules n <;> simp_all
      obtain ⟨m, after, ack⟩ := answered (n + 1) loaded
      exact ⟨m, by omega, ack⟩
  | read1 => exact answered n (Or.inl phase)
  | write1 => exact answered n (Or.inr phase)
  | wait1 => exact ⟨n, le_rfl, by simp [per, (control_states hostRules n).ack, phase]⟩

end Step

end Lists

/-- With a slave that stalls until it acknowledges and in the cycle after, the
adapter speaks safely. -/
theorem wideWbDdr3_speaksSafely (inputs : Nat → Inputs) (hostRules : Host inputs)
    (slave : Slave inputs) (synchronous : ∀ n, Synchronous inputs n) : SpeaksSafely inputs where
  once n := by
    have accounts := accounts_states hostRules slave synchronous n
    rw [requests_eq hostRules, List.map_append, List.map_map]
    by_cases answered : (states inputs n).state = .wait1
    · have raised := ((control_states hostRules n).pending (by simp [answered])).1
      have cyc : (host inputs n).cyc = true := raised
      rw [(accounts.answered answered).1, cyc]
      exact List.prefix_refl _
    · rw [(accounts.quiet answered).1]
      exact List.prefix_append _ _
  settled n ack := by
    have accounts := accounts_states hostRules slave synchronous n
    have answered : (states inputs n).state = .wait1 := by
      simpa [per, (control_states hostRules n).ack] using ack
    have cyc : (host inputs n).cyc = true :=
      ((control_states hostRules n).pending (by simp [answered])).1
    have same : accepted inputs n = (requests inputs n).map wide := by
      rw [requests_eq hostRules, (accounts.answered answered).1, cyc, List.map_append,
        List.map_map]
      rfl
    refine ⟨same, ?_⟩
    rw [accounts.even, same, List.length_map]
  acknowledged n := by
    have accounts := accounts_states hostRules slave synchronous n
    by_cases answered : (states inputs n).state = .wait1
    · obtain ⟨_, earlier, data, received, answers, _⟩ := accounts.answered answered
      rw [received, answers.length_eq, List.take_left]
      exact answers
    · have answers := (accounts.quiet answered).2
      rw [answers.length_eq, List.take_length]
      exact answers
  requests_eq := requests_eq hostRules
  served := ack_of_cyc hostRules slave synchronous

/-- A run that comes to rest shows up to then whether the slave gives each request
one acknowledge. -/
theorem Slave.of_rest {inputs : Nat → Inputs} {last : Nat}
    (rest : ∀ n, last ≤ n → states inputs n = zeroState)
    (quiet : ∀ n, last ≤ n → (widePer inputs n).ack = false)
    (acks_le : ∀ n, n ≤ last → (slaveAcks inputs n).length ≤ (accepted inputs n).length)
    (answers : (accepted inputs last).length ≤ (slaveAcks inputs last).length) : Slave inputs := by
  have accepted_eq : ∀ n, last ≤ n → accepted inputs n = accepted inputs last := fun n le =>
    Trace.history_at_rest (fun m le => by simp [wideHost, rest m le, zeroState, WbHostType.new]) le
  have acks_eq : ∀ n, last ≤ n → slaveAcks inputs n = slaveAcks inputs last := fun n le =>
    Trace.history_at_rest (fun m le => by simp [quiet m le]) le
  constructor
  · intro n _
    refine ⟨n + last, by omega, fun stb => ?_⟩
    simp [wideHost, rest (n + last) (by omega), zeroState, WbHostType.new] at stb
  · intro n
    rcases Nat.le_total n last with early | late
    · exact acks_le n early
    · rw [accepted_eq n late, acks_eq n late]
      exact acks_le last le_rfl
  · intro n
    refine ⟨n + last, by omega, ?_⟩
    rw [acks_eq (n + last) (by omega)]
    refine le_trans ?_ answers
    rw [← accepted_eq (n + last) (by omega)]
    exact (Trace.history_prefix _ (by omega : n ≤ n + last)).length_le

/-! ### A store and a load -/

/-- Two bytes are stored at `0x10000004` and the word is loaded, from a slave that
stalls until it acknowledges. -/
def storeLoad (n : Nat) : Inputs where
  reset := false
  hostsideWbHost :=
    if n ≤ 2 then ⟨0x10000004, 0xcafe, 0x3, true, true⟩
    else ⟨0x10000004, 0, 0xf, false, n == 4 || n == 5 || n == 6⟩
  persideWbPer :=
    { stall := !(n == 1 || n == 5), ack := n == 1 || n == 5, data := 0xcafe00000000 }

theorem storeLoad_rest {n : Nat} (le : 7 ≤ n) : states storeLoad n = zeroState := by
  apply Trace.run_at_rest (by decide +kernel) _ le
  intro m le
  have low : ¬ m ≤ 2 ∧ m ≠ 4 ∧ m ≠ 5 ∧ m ≠ 6 := by omega
  simp [comb, storeLoad, zeroState, low]

theorem storeLoad_host : Host storeLoad where
  noReset n := rfl
  held n raised unacked := by
    have early : n < 7 := by
      by_contra late
      have low : ¬ n ≤ 2 ∧ n ≠ 4 ∧ n ≠ 5 ∧ n ≠ 6 := by omega
      simp [host, storeLoad, low] at raised
    revert raised unacked
    revert n early
    decide +kernel
  dropped n raised ack := by
    have early : n < 7 := by
      by_contra late
      simp [per, storeLoad_rest (by omega : 7 ≤ n), zeroState, PerBus.new] at ack
    revert raised ack
    revert n early
    decide +kernel

theorem storeLoad_slave : Slave storeLoad := by
  apply Slave.of_rest (fun n le => storeLoad_rest le)
  · intro n le
    have unacked : n ≠ 1 ∧ n ≠ 5 := by omega
    simp [widePer, storeLoad, unacked]
  · decide +kernel
  · decide +kernel

theorem storeLoad_speaksSafely :
    (acked storeLoad 7).map Prod.snd = [0, 0xcafe] ∧ SpeaksSafely storeLoad := by
  refine ⟨by decide +kernel, ?_⟩
  refine wideWbDdr3_speaksSafely storeLoad storeLoad_host storeLoad_slave fun n => ?_
  by_cases early : n < 7
  · revert n
    unfold Synchronous
    decide +kernel
  · have rest := storeLoad_rest (by omega : 7 ≤ n)
    constructor <;> simp [rest, zeroState]

/-! ### A load -/

/-- A load of `0x10000000` from a slave that stalls until the third cycle, and
acknowledges in the cycle after the one in which it accepts. -/
def lateLoad (n : Nat) : Inputs where
  reset := false
  hostsideWbHost := ⟨0x10000000, 0, 0xf, false, decide (n ≤ 5)⟩
  persideWbPer :=
    { stall := decide (n ≠ 3 ∧ n ≠ 4), ack := decide (n = 4 ∨ n = 5), data := 0xcafe }

theorem lateLoad_rest {n : Nat} (le : 6 ≤ n) : states lateLoad n = zeroState := by
  apply Trace.run_at_rest (by decide +kernel) _ le
  intro m le
  have low : ¬ m ≤ 5 := by omega
  simp [comb, lateLoad, zeroState, low]

theorem lateLoad_host : Host lateLoad where
  noReset n := rfl
  held n raised unacked := by
    have early : n < 6 := by
      by_contra late
      have low : ¬ n ≤ 5 := by omega
      simp [host, lateLoad, low] at raised
    revert raised unacked
    revert n
    decide +kernel
  dropped n raised ack := by
    have early : n < 6 := by
      by_contra late
      simp [per, lateLoad_rest (by omega : 6 ≤ n), zeroState, PerBus.new] at ack
    revert raised ack
    revert n
    decide +kernel

theorem lateLoad_slave : Slave lateLoad := by
  apply Slave.of_rest (fun n le => lateLoad_rest le)
  · intro n le
    have unacked : n ≠ 4 ∧ n ≠ 5 := by omega
    simp [widePer, lateLoad, unacked]
  · decide +kernel
  · decide +kernel

/-- A slave that accepts in one cycle and acknowledges in the next accepts the
load twice. -/
theorem wideWbDdr3_accepts_twice :
    ¬ ∀ inputs : Nat → Inputs, Host inputs → Slave inputs → SpeaksSafely inputs := by
  intro claim
  have safe := claim lateLoad lateLoad_host lateLoad_slave
  have once := (safe.once 6).length_le
  revert once
  decide +kernel

end WideWbDdr3

end Cocoapuffs

import Cocoapuffs.WbCdc

/-!
# The crossing transfers each request exactly once

Along a trace, the requests of a well-behaved host, the cycles presented to the
peripheral, the peripheral's answers and the answers given to the host are four
lists.  The crossing keeps each a prefix of the one before it, with at most one
request between the first and the last, so the lists agree entry by entry.
-/

namespace Cocoapuffs

namespace WbCdc

/-! ### What one instant can do -/

/-- The host process either keeps what others see of it or makes one of the
three moves of the handshake. -/
inductive HostMove (i : Inputs) (s : State) (next : State) : Prop where
  | quiet (state : next.host.hostState = s.host.hostState)
      (held : next.held = s.held) (hostO : next.host.hostO = s.host.hostO)
      (idle : ¬ (i.clkHost = true ∧ s.host.hostState = .stHostIdle ∧
        i.hostI.cyc = true))
      (unanswered : ¬ (i.clkHost = true ∧ s.host.hostState = .stHostReq ∧
        s.host.hostAckChain.sync = true))
  | capture (tick : i.clkHost = true) (idle : s.host.hostState = .stHostIdle)
      (cyc : i.hostI.cyc = true) (state : next.host.hostState = .stHostReq)
      (held : next.held = i.hostI.request) (hostO : next.host.hostO = s.host.hostO)
  | answer (tick : i.clkHost = true) (req : s.host.hostState = .stHostReq)
      (answered : s.host.hostAckChain.sync = true)
      (state : next.host.hostState = .stHostWaitAckLow)
      (held : next.held = s.held) (hostO : next.host.hostO = ⟨s.per.perRdt, true⟩)
  | release (tick : i.clkHost = true)
      (waiting : s.host.hostState = .stHostWaitAckLow)
      (state : next.host.hostState = .stHostIdle)
      (held : next.held = s.held)
      (hostO : next.host.hostO = { s.host.hostO with ack := false })

/-- The peripheral process likewise. -/
inductive PerMove (i : Inputs) (s : State) (next : State) : Prop where
  | quiet (state : next.per.perState = s.per.perState)
      (perO : next.per.perO = s.per.perO) (perRdt : next.per.perRdt = s.per.perRdt)
      (unserved : ¬ (i.clkPer = true ∧ s.per.perState = .stPerStart ∧
        i.perI.ack = true))
      (unseen : ¬ (i.clkPer = true ∧ s.per.perState = .stPerIdle ∧
        s.per.perReqChain.sync = true))
  | present (tick : i.clkPer = true) (idle : s.per.perState = .stPerIdle)
      (seen : s.per.perReqChain.sync = true)
      (state : next.per.perState = .stPerStart)
      (perO : next.per.perO =
        ⟨s.host.hostAdr, s.host.hostDat, s.host.hostSel, s.host.hostWe, true⟩)
  | serve (tick : i.clkPer = true) (started : s.per.perState = .stPerStart)
      (ack : i.perI.ack = true) (state : next.per.perState = .stPerWait)
      (perRdt : next.per.perRdt = i.perI.rdt)
      (perO : next.per.perO = { s.per.perO with cyc := false })
  | rest (tick : i.clkPer = true) (waiting : s.per.perState = .stPerWait)
      (withdrawn : s.per.perReqChain.sync = false)
      (state : next.per.perState = .stPerIdle)
      (perO : next.per.perO = s.per.perO) (perRdt : next.per.perRdt = s.per.perRdt)

private theorem eq_of_ack {bus : PerBus} {ack : Bool} (same : bus.ack = ack) :
    { bus with ack := ack } = bus := by
  cases bus
  cases same
  rfl

private theorem eq_of_cyc {bus : HostBus} {cyc : Bool} (same : bus.cyc = cyc) :
    { bus with cyc := cyc } = bus := by
  cases bus
  cases same
  rfl

theorem hostMove {s : State} (control : Control s) (i : Inputs)
    (noReset : i.rst = false) : HostMove i s (step i s) := by
  cases tick : i.clkHost with
  | false =>
      refine .quiet ?_ ?_ ?_ ?_ ?_ <;> simp [step, noReset, tick, State.held]
  | true =>
      have hostAck := control.hostAck
      cases phase : s.host.hostState with
      | stHostIdle =>
          have ackLow : { s.host.hostO with ack := false } = s.host.hostO :=
            eq_of_ack (by simp [hostAck, phase])
          cases cyc : i.hostI.cyc with
          | true =>
              refine .capture tick phase cyc ?_ ?_ ?_ <;>
                simp [step, noReset, tick, hostEdge, phase, cyc, State.held,
                  HostBus.request, ackLow]
          | false =>
              refine .quiet ?_ ?_ ?_ ?_ ?_ <;>
                simp [step, noReset, tick, hostEdge, phase, cyc, State.held, ackLow]
      | stHostReq =>
          cases answered : s.host.hostAckChain.sync with
          | true =>
              refine .answer tick phase answered ?_ ?_ ?_ <;>
                simp [step, noReset, tick, hostEdge, phase, answered, State.held]
          | false =>
              refine .quiet ?_ ?_ ?_ ?_ ?_ <;>
                simp [step, noReset, tick, hostEdge, phase, answered, State.held]
      | stHostWaitAckLow =>
          have ackHigh : { s.host.hostO with ack := true } = s.host.hostO :=
            eq_of_ack (by simp [hostAck, phase])
          cases answered : s.host.hostAckChain.sync with
          | true =>
              refine .quiet ?_ ?_ ?_ ?_ ?_ <;>
                simp [step, noReset, tick, hostEdge, phase, answered, State.held, ackHigh]
          | false =>
              refine .release tick phase ?_ ?_ ?_ <;>
                simp [step, noReset, tick, hostEdge, phase, answered, State.held]

theorem perMove {s : State} (control : Control s) (i : Inputs)
    (noReset : i.rst = false) : PerMove i s (step i s) := by
  cases tick : i.clkPer with
  | false =>
      refine .quiet ?_ ?_ ?_ ?_ ?_ <;> simp [step, noReset, tick]
  | true =>
      have cyc := control.cyc
      have cycLow : s.per.perState ≠ .stPerStart →
          { s.per.perO with cyc := false } = s.per.perO := fun other =>
        eq_of_cyc (by simp [cyc, other])
      cases phase : s.per.perState with
      | stPerIdle =>
          cases seen : s.per.perReqChain.sync with
          | true =>
              refine .present tick phase seen ?_ ?_ <;>
                simp [step, noReset, tick, perEdge, phase, seen]
          | false =>
              refine .quiet ?_ ?_ ?_ ?_ ?_ <;>
                simp [step, noReset, tick, perEdge, phase, seen, cycLow]
      | stPerStart =>
          have cycHigh : { s.per.perO with cyc := true } = s.per.perO :=
            eq_of_cyc (by simp [cyc, phase])
          cases ack : i.perI.ack with
          | true =>
              refine .serve tick phase ack ?_ ?_ ?_ <;>
                simp [step, noReset, tick, perEdge, phase, ack]
          | false =>
              refine .quiet ?_ ?_ ?_ ?_ ?_ <;>
                simp [step, noReset, tick, perEdge, phase, ack, cycHigh]
      | stPerWait =>
          cases seen : s.per.perReqChain.sync with
          | true =>
              refine .quiet ?_ ?_ ?_ ?_ ?_ <;>
                simp [step, noReset, tick, perEdge, phase, seen, cycLow]
          | false =>
              refine .rest tick phase seen ?_ ?_ ?_ <;>
                simp [step, noReset, tick, perEdge, phase, seen, cycLow]
      | stPerDone => exact absurd phase control.notDone

/-! ### The lists seen along a trace -/

/-- A host that raises `cyc` only while `ack` is low, holds its request until
`ack` is high, and has dropped `cyc` when the acknowledge pulse ends. -/
structure PoliteHost (bus : Nat → HostBus) (ack : Nat → Bool) : Prop where
  raise : ∀ n, (bus n).cyc = false → (bus (n + 1)).cyc = true →
    ack n = false ∨ ack (n + 1) = false
  hold : ∀ n, (bus n).cyc = true → ack n = false → ack (n + 1) = false →
    bus (n + 1) = bus n
  drop : ∀ n, (bus n).cyc = true → ack n = true → ack (n + 1) = false →
    (bus (n + 1)).cyc = false

section Lists

variable (start : State) (inputs : Nat → Inputs)

/-- The states of the crossing after a reset. -/
abbrev states : Nat → State := Trace.run step start.reset inputs

/-- The host's requests. -/
def requests : Nat → List Request :=
  Trace.pulses (fun n => (inputs n).hostI.cyc) fun n => (inputs n).hostI.request

/-- The requests that reached the host domain's registers. -/
def captured : Nat → List Request :=
  Trace.history fun n =>
    if (inputs n).clkHost && decide ((states start inputs n).host.hostState = .stHostIdle) &&
        (inputs n).hostI.cyc
    then some (inputs n).hostI.request else none

/-- The cycles presented to the peripheral. -/
def presented : Nat → List Request :=
  Trace.pulses (fun n => (states start inputs n).per.perO.cyc)
    fun n => (states start inputs n).per.perO.request

/-- The data of the peripheral's acknowledges. -/
def perAnswers : Nat → List (BitVec 32) :=
  Trace.history fun n =>
    if (inputs n).clkPer && ((states start inputs n).per.perO.cyc && (inputs n).perI.ack)
    then some (inputs n).perI.rdt else none

/-- The requests of the peripheral's acknowledges. -/
def perServed : Nat → List Request :=
  servedRequests (fun n => (inputs n).clkPer) (fun n => (states start inputs n).per.perO)
    fun n => (inputs n).perI

/-- The data of the acknowledges given to the host. -/
def hostAnswers : Nat → List (BitVec 32) :=
  Trace.pulses (fun n => (states start inputs n).host.hostO.ack)
    fun n => (states start inputs n).host.hostO.rdt

variable {start} {inputs}

theorem control_states (start : State) (noReset : ∀ n, (inputs n).rst = false) (n : Nat) :
    Control (states start inputs n) :=
  Trace.run_invariant Control (control_reset start)
    (fun n _ control => control.step (inputs n) (noReset n)) n

theorem hostMove_states (start : State) (noReset : ∀ n, (inputs n).rst = false) (n : Nat) :
    HostMove (inputs n) (states start inputs n) (states start inputs (n + 1)) :=
  hostMove (control_states start noReset n) (inputs n) (noReset n)

theorem perMove_states (start : State) (noReset : ∀ n, (inputs n).rst = false) (n : Nat) :
    PerMove (inputs n) (states start inputs n) (states start inputs (n + 1)) :=
  perMove (control_states start noReset n) (inputs n) (noReset n)

/-- The host side: everything requested has been captured, except a request
raised since the host process was last idle. -/
theorem requests_eq (noReset : ∀ n, (inputs n).rst = false)
    (polite : PoliteHost (fun n => (inputs n).hostI)
      fun n => (states start inputs n).host.hostO.ack) (n : Nat) :
    requests inputs n = captured start inputs n ++
        (if (states start inputs n).host.hostState = .stHostIdle ∧ (inputs n).hostI.cyc = true
          then [(inputs n).hostI.request] else []) ∧
      ((states start inputs n).host.hostState = .stHostReq → (inputs n).hostI.cyc = true) := by
  induction n with
  | zero =>
      refine ⟨?_, fun waiting => by cases waiting⟩
      simp [requests, captured, Trace.pulses, State.reset, HostDomain.reset]
  | succ n ih =>
      obtain ⟨listed, held⟩ := ih
      have hostAck := (control_states start noReset n).hostAck
      have hostAck' := (control_states start noReset (n + 1)).hostAck
      have raise := polite.raise n
      have hold := polite.hold n
      have drop := polite.drop n
      simp only [requests, captured, Trace.pulses, Trace.history_succ] at listed ⊢
      rw [listed]
      rcases hostMove_states start noReset n with
        ⟨state, _, _, idle, _⟩ | ⟨tick, idle, cyc, state, _, _⟩ | ⟨tick, req, _, state, _, _⟩ |
        ⟨tick, waiting, state, _, _⟩
      · cases phase : (states start inputs n).host.hostState <;>
          cases cyc : (inputs n).hostI.cyc <;> cases cyc' : (inputs (n + 1)).hostI.cyc <;>
          simp_all
      · simp_all
      · simp_all
      · cases cyc : (inputs n).hostI.cyc <;> cases cyc' : (inputs (n + 1)).hostI.cyc <;>
          simp_all

/-- Between the domains: everything captured has been presented, except a
request the peripheral side has not seen yet. -/
theorem captured_eq (start : State) (noReset : ∀ n, (inputs n).rst = false) (n : Nat) :
    captured start inputs n = presented start inputs n ++
        (if (states start inputs n).host.hostState = .stHostReq ∧
            (states start inputs n).per.perState = .stPerIdle
          then [(states start inputs n).held] else []) ∧
      ((states start inputs n).per.perState = .stPerStart →
        (states start inputs n).per.perO.request = (states start inputs n).held) := by
  induction n with
  | zero =>
      refine ⟨?_, fun started => by cases started⟩
      simp [captured, presented, Trace.pulses, State.reset, HostDomain.reset,
        PerDomain.reset, HostBus.new]
  | succ n ih =>
      obtain ⟨listed, carried⟩ := ih
      have control := control_states start noReset n
      have cyc := control.cyc
      have cyc' := (control_states start noReset (n + 1)).cyc
      have started := control.hostReq_of_start
      have seen := control.hostReq_of_seen
      have answered := control.perWait_of_answered
      have resting := control.perIdle_of_idle
      have given := control.seen_of_perWait
      simp only [captured, presented, Trace.pulses, Trace.history_succ] at listed ⊢
      rw [listed]
      rcases hostMove_states start noReset n with
        ⟨state, held, _, idle, _⟩ | ⟨tick, idle, hostCyc, state, held, _⟩ |
        ⟨tick, req, sync, state, held, _⟩ | ⟨tick, waiting, state, held, _⟩ <;>
      rcases perMove_states start noReset n with
        ⟨perState, perO, _, unserved, _⟩ | ⟨perTick, perIdle, perSeen, perState, perO⟩ |
        ⟨perTick, perStarted, ack, perState, _, perO⟩ |
        ⟨perTick, perWaiting, withdrawn, perState, perO, _⟩
      all_goals simp_all [HostBus.request, State.held]

/-- The peripheral side: every cycle presented has been answered, except the
one in progress. -/
theorem presented_eq (start : State) (noReset : ∀ n, (inputs n).rst = false) (n : Nat) :
    presented start inputs n = perServed start inputs n ++
      (if (states start inputs n).per.perState = .stPerStart
        then [(states start inputs n).per.perO.request] else []) := by
  have pulses := pulses_eq_served (fun n => (inputs n).clkPer)
    (fun n => (states start inputs n).per.perO) (fun n => (inputs n).perI) ?_ ?_ n
  · simp only [(control_states start noReset n).cyc, decide_eq_true_eq] at pulses
    exact pulses
  · intro n cyc unanswered
    have high := (control_states start noReset n).cyc
    rcases perMove_states start noReset n <;> simp_all
  · intro n cyc tick ack
    have high := (control_states start noReset n).cyc
    have high' := (control_states start noReset (n + 1)).cyc
    rcases perMove_states start noReset n <;> simp_all

theorem perAnswers_eq_map (start : State) (inputs : Nat → Inputs) (n : Nat) :
    perAnswers start inputs n =
      (exchanges (fun n => (inputs n).clkPer) (fun n => (states start inputs n).per.perO)
        (fun n => (inputs n).perI) n).map Prod.snd := by
  rw [exchanges, Trace.history_map, perAnswers]
  congr 1
  funext m
  split <;> rfl

theorem perServed_length (start : State) (inputs : Nat → Inputs) (n : Nat) :
    (perServed start inputs n).length = (perAnswers start inputs n).length := by
  rw [perServed, servedRequests_eq_map, perAnswers_eq_map, List.length_map, List.length_map]

theorem presented_length (start : State) (noReset : ∀ n, (inputs n).rst = false) (n : Nat) :
    (presented start inputs n).length = (perAnswers start inputs n).length +
      (if (states start inputs n).per.perState = .stPerStart then 1 else 0) := by
  rw [presented_eq start noReset n, List.length_append, perServed_length]
  split <;> rfl

/-- The way back: every answer of the peripheral has been given to the host,
except one the host side has not seen yet. -/
theorem perAnswers_eq (start : State) (noReset : ∀ n, (inputs n).rst = false) (n : Nat) :
    perAnswers start inputs n = hostAnswers start inputs n ++
      (if (states start inputs n).host.hostState = .stHostReq ∧
          (states start inputs n).per.perState = .stPerWait
        then [(states start inputs n).per.perRdt] else []) := by
  induction n with
  | zero =>
      simp [perAnswers, hostAnswers, Trace.pulses, State.reset, HostDomain.reset, PerBus.new]
  | succ n ih =>
      have control := control_states start noReset n
      have hostAck := control.hostAck
      have hostAck' := (control_states start noReset (n + 1)).hostAck
      have cyc := control.cyc
      have started := control.hostReq_of_start
      have answered := control.perWait_of_answered
      have resting := control.perIdle_of_idle
      have given := control.seen_of_perWait
      simp only [perAnswers, hostAnswers, Trace.pulses, Trace.history_succ] at ih ⊢
      rw [ih]
      rcases hostMove_states start noReset n with
        ⟨state, held, _, idle, _⟩ | ⟨tick, idle, hostCyc, state, held, _⟩ |
        ⟨tick, req, sync, state, held, hostO⟩ | ⟨tick, waiting, state, held, _⟩ <;>
      rcases perMove_states start noReset n with
        ⟨perState, _, perRdt, unserved, _⟩ | ⟨perTick, perIdle, perSeen, perState, _⟩ |
        ⟨perTick, perStarted, ack, perState, perRdt, _⟩ |
        ⟨perTick, perWaiting, withdrawn, perState, _, perRdt⟩
      all_goals simp_all

theorem hostO_stable (start : State) (noReset : ∀ n, (inputs n).rst = false) (n : Nat)
    (ack : (states start inputs n).host.hostO.ack = true)
    (ack' : (states start inputs (n + 1)).host.hostO.ack = true) :
    (states start inputs (n + 1)).host.hostO = (states start inputs n).host.hostO := by
  have high := (control_states start noReset n).hostAck
  have high' := (control_states start noReset (n + 1)).hostAck
  rcases hostMove_states start noReset n <;> simp_all

/-- Cycles are presented in the order of the host's requests. -/
theorem presented_requests (noReset : ∀ n, (inputs n).rst = false)
    (polite : PoliteHost (fun n => (inputs n).hostI)
      fun n => (states start inputs n).host.hostO.ack) (n : Nat) :
    presented start inputs n <+: requests inputs n := by
  rw [(requests_eq noReset polite n).1, (captured_eq start noReset n).1,
    List.append_assoc]
  exact List.prefix_append _ _

theorem presented_of_low (noReset : ∀ n, (inputs n).rst = false)
    (polite : PoliteHost (fun n => (inputs n).hostI)
      fun n => (states start inputs n).host.hostO.ack) {n : Nat}
    (low : (inputs n).hostI.cyc = false) :
    presented start inputs n = requests inputs n := by
  obtain ⟨listed, held⟩ := requests_eq noReset polite n
  have notReq : (states start inputs n).host.hostState ≠ .stHostReq := fun req => by
    simp [held req] at low
  rw [listed, (captured_eq start noReset n).1]
  simp [low, notReq]

/-- Under the host's acknowledge every request has been served, and the data
shown is that of the last one. -/
theorem exchanges_of_ack (noReset : ∀ n, (inputs n).rst = false)
    (polite : PoliteHost (fun n => (inputs n).hostI)
      fun n => (states start inputs n).host.hostO.ack) {n : Nat}
    (ack : (states start inputs n).host.hostO.ack = true) :
    perServed start inputs n = requests inputs n ∧
      ∃ earlier, perAnswers start inputs n =
        earlier ++ [(states start inputs n).host.hostO.rdt] := by
  have control := control_states start noReset n
  have waiting : (states start inputs n).host.hostState = .stHostWaitAckLow := by
    simpa [control.hostAck] using ack
  have notStart : (states start inputs n).per.perState ≠ .stPerStart := fun started => by
    simp [control.hostReq_of_start started] at waiting
  refine ⟨?_, ?_⟩
  · rw [(requests_eq noReset polite n).1, (captured_eq start noReset n).1,
      presented_eq start noReset n]
    simp [waiting, notStart]
  · obtain ⟨earlier, last⟩ := Trace.pulses_of_high
      (fun n => (states start inputs n).host.hostO.ack)
      (fun n => (states start inputs n).host.hostO.rdt)
      (fun m high high' => congrArg PerBus.rdt (hostO_stable start noReset m high high')) ack
    rw [perAnswers_eq start noReset n, hostAnswers, last]
    exact ⟨earlier, by simp [waiting]⟩

end Lists

/-! ### Every request completes -/

section Progress

variable {start : State} {inputs : Nat → Inputs}

theorem perReqChain_succ (start : State) (noReset : ∀ n, (inputs n).rst = false) (n : Nat) :
    (states start inputs (n + 1)).per.perReqChain =
      if (inputs n).clkPer
      then (states start inputs n).per.perReqChain.shift (states start inputs n).host.hostReq
      else (states start inputs n).per.perReqChain := by
  rw [states, Trace.run_succ]
  cases tick : (inputs n).clkPer with
  | false => simp [step, noReset n, tick]
  | true =>
      simp only [step, noReset n, tick, perEdge, if_true, Bool.false_eq_true, if_false]
      cases phase : (Trace.run step start.reset inputs n).per.perState <;> dsimp only <;>
        repeat' split
      all_goals rfl

theorem hostAckChain_succ (start : State) (noReset : ∀ n, (inputs n).rst = false) (n : Nat) :
    (states start inputs (n + 1)).host.hostAckChain =
      if (inputs n).clkHost
      then (states start inputs n).host.hostAckChain.shift (states start inputs n).per.perAck
      else (states start inputs n).host.hostAckChain := by
  rw [states, Trace.run_succ]
  cases tick : (inputs n).clkHost with
  | false => simp [step, noReset n, tick]
  | true =>
      simp only [step, noReset n, tick, hostEdge, if_true, Bool.false_eq_true, if_false]
      cases phase : (Trace.run step start.reset inputs n).host.hostState <;> dsimp only <;>
        repeat' split
      all_goals rfl

variable (noReset : ∀ n, (inputs n).rst = false)
  (hostClock : Trace.Recurs fun n => (inputs n).clkHost = true)
  (perClock : Trace.Recurs fun n => (inputs n).clkPer = true)
  (serves : Serves (fun n => (inputs n).clkPer)
    (fun n => (states start inputs n).per.perO) fun n => (inputs n).perI)

include noReset perClock serves in
/-- A request that stays visible to the peripheral side is answered there, and
the answer stays. -/
private theorem perWait_of_seen {from_ : Nat}
    (seen : ∀ n, from_ ≤ n → (states start inputs n).per.perReqChain.sync = true) :
    ∃ settled, from_ ≤ settled ∧
      ∀ n, settled ≤ n → (states start inputs n).per.perState = .stPerWait := by
  have persists : ∀ n, from_ ≤ n → (states start inputs n).per.perState = .stPerWait →
      (states start inputs (n + 1)).per.perState = .stPerWait := by
    intro n after waiting
    have up := seen n after
    rcases perMove_states start noReset n <;> simp_all
  have fromStart : Trace.LeadsTo
      (fun n => from_ ≤ n ∧ (states start inputs n).per.perState = .stPerStart)
      (fun n => from_ ≤ n ∧ (states start inputs n).per.perState = .stPerWait) := by
    refine Trace.LeadsTo.of_event
      (fun n => (inputs n).clkPer = true ∧ (inputs n).perI.ack = true) ?_ ?_ ?_
    · rintro n ⟨_, started⟩
      exact serves n (by simp [(control_states start noReset n).cyc, started])
    · rintro n ⟨after, started⟩ quiet
      refine ⟨by omega, ?_⟩
      rcases perMove_states start noReset n <;> simp_all
    · rintro n ⟨after, started⟩ ⟨tick, ack⟩
      refine ⟨by omega, ?_⟩
      rcases perMove_states start noReset n <;> simp_all
  have fromIdle : Trace.LeadsTo
      (fun n => from_ ≤ n ∧ (states start inputs n).per.perState = .stPerIdle)
      (fun n => from_ ≤ n ∧ (states start inputs n).per.perState = .stPerStart) := by
    refine Trace.LeadsTo.of_recurs perClock ?_ ?_
    · rintro n ⟨after, idle⟩ quiet
      refine ⟨by omega, ?_⟩
      rcases perMove_states start noReset n <;> simp_all
    · rintro n ⟨after, idle⟩ tick
      have up := seen n after
      refine ⟨by omega, ?_⟩
      rcases perMove_states start noReset n <;> simp_all
  obtain ⟨settled, after, _, waiting⟩ : ∃ m, from_ ≤ m ∧ from_ ≤ m ∧
      (states start inputs m).per.perState = .stPerWait := by
    cases phase : (states start inputs from_).per.perState with
    | stPerIdle => exact fromIdle.trans fromStart from_ ⟨le_rfl, phase⟩
    | stPerStart => exact fromStart from_ ⟨le_rfl, phase⟩
    | stPerWait => exact ⟨from_, le_rfl, le_rfl, phase⟩
    | stPerDone => exact absurd phase (control_states start noReset from_).notDone
  refine ⟨settled, after, fun n le => ?_⟩
  induction n, le using Nat.le_induction with
  | base => exact waiting
  | succ n le ih => exact persists n (by omega) ih

include noReset hostClock perClock serves in
theorem answer_of_captured :
    Trace.LeadsTo (fun n => (states start inputs n).host.hostState = .stHostReq)
      (fun n => (states start inputs n).host.hostState = .stHostReq ∧
        (states start inputs (n + 1)).host.hostState = .stHostWaitAckLow) := by
  intro n waiting
  by_contra never
  push Not at never
  -- Unanswered, the request stays up for ever and travels the whole ring.
  have stuck : ∀ m, n ≤ m → (states start inputs m).host.hostState = .stHostReq := by
    intro m le
    induction m, le using Nat.le_induction with
    | base => exact waiting
    | succ m le ih =>
        have unanswered := never m le ih
        rcases hostMove_states start noReset m <;> simp_all
  obtain ⟨first, nLe, seen⟩ := SyncChain.eventually_sync
    (fun n => (states start inputs n).per.perReqChain)
    (fun n => (states start inputs n).host.hostReq) true (perReqChain_succ start noReset) perClock
    (fun m (le : n ≤ m) => by simp [(control_states start noReset m).req, stuck m le])
  obtain ⟨second, firstLe, given⟩ := perWait_of_seen noReset perClock serves seen
  obtain ⟨third, secondLe, answered⟩ := SyncChain.eventually_sync
    (fun n => (states start inputs n).host.hostAckChain)
    (fun n => (states start inputs n).per.perAck) true (hostAckChain_succ start noReset) hostClock
    (fun m (le : second ≤ m) => by
      simp [(control_states start noReset m).perAck, given m le])
  obtain ⟨edge, thirdLe, tick⟩ := hostClock third
  have req := stuck edge (by omega)
  have sync := answered edge thirdLe
  have unanswered := never edge (by omega) req
  rcases hostMove_states start noReset edge <;> simp_all

include noReset hostClock in
theorem captured_of_raised
    (polite : PoliteHost (fun n => (inputs n).hostI)
      fun n => (states start inputs n).host.hostO.ack) :
    Trace.LeadsTo
      (fun n => (states start inputs n).host.hostState = .stHostIdle ∧
        (inputs n).hostI.cyc = true)
      (fun n => (states start inputs n).host.hostState = .stHostReq) := by
  refine Trace.LeadsTo.of_recurs hostClock ?_ ?_
  · rintro n ⟨idle, cyc⟩ quiet
    have hostAck := (control_states start noReset n).hostAck
    have hostAck' := (control_states start noReset (n + 1)).hostAck
    have hold := polite.hold n cyc
    rcases hostMove_states start noReset n <;> simp_all
  · rintro n ⟨idle, cyc⟩ tick
    rcases hostMove_states start noReset n <;> simp_all

include noReset hostClock perClock serves in
theorem ack_of_raised
    (polite : PoliteHost (fun n => (inputs n).hostI)
      fun n => (states start inputs n).host.hostO.ack) :
    Trace.LeadsTo (fun n => (inputs n).hostI.cyc = true)
      (fun n => (states start inputs n).host.hostO.ack = true) := by
  have answered : Trace.LeadsTo
      (fun n => (states start inputs n).host.hostState = .stHostReq)
      (fun n => (states start inputs n).host.hostO.ack = true) := by
    intro n req
    obtain ⟨m, le, _, waiting⟩ := answer_of_captured noReset hostClock perClock serves n req
    exact ⟨m + 1, by omega, by simp [(control_states start noReset (m + 1)).hostAck, waiting]⟩
  intro n cyc
  cases phase : (states start inputs n).host.hostState with
  | stHostIdle =>
      exact (captured_of_raised noReset hostClock polite).trans answered n ⟨phase, cyc⟩
  | stHostReq => exact answered n phase
  | stHostWaitAckLow =>
      exact ⟨n, le_rfl, by simp [(control_states start noReset n).hostAck, phase]⟩

end Progress

/-- What "each request is transferred exactly once" means of a trace. -/
structure TransfersOnce (start : State) (inputs : Nat → Inputs) : Prop where
  /-- The cycles presented are the host's requests, in the host's order. -/
  presented_requests : ∀ n, presented start inputs n <+: requests inputs n
  /-- A presented cycle does not change while it lasts. -/
  presented_stable : ∀ n, (states start inputs n).per.perO.cyc = true →
    (states start inputs (n + 1)).per.perO.cyc = true →
    (states start inputs (n + 1)).per.perO = (states start inputs n).per.perO
  /-- Cycles are presented one at a time, each until its acknowledge. -/
  answered_presented : ∀ n,
    (perAnswers start inputs n).length ≤ (presented start inputs n).length ∧
      (presented start inputs n).length ≤ (perAnswers start inputs n).length + 1
  /-- The host's acknowledges carry the data of the peripheral's, in order, and
  come after them. -/
  hostAnswers_perAnswers : ∀ n,
    hostAnswers start inputs n <+: perAnswers start inputs n
  hostAnswer_stable : ∀ n, (states start inputs n).host.hostO.ack = true →
    (states start inputs (n + 1)).host.hostO.ack = true →
    (states start inputs (n + 1)).host.hostO = (states start inputs n).host.hostO
  /-- At most one request is without its acknowledge, -/
  outstanding : ∀ n,
    (requests inputs n).length ≤ (hostAnswers start inputs n).length + 1
  /-- and it gets it. -/
  completed : ∀ n, ∃ m, n ≤ m ∧
    (requests inputs n).length ≤ (hostAnswers start inputs m).length

section Transfer

variable {start : State} {inputs : Nat → Inputs}

theorem outstanding_le (noReset : ∀ n, (inputs n).rst = false)
    (polite : PoliteHost (fun n => (inputs n).hostI)
      fun n => (states start inputs n).host.hostO.ack) (n : Nat) :
    (requests inputs n).length = (hostAnswers start inputs n).length +
      (if (states start inputs n).host.hostState = .stHostReq ∨
          (states start inputs n).host.hostState = .stHostIdle ∧ (inputs n).hostI.cyc = true
        then 1 else 0) := by
  have control := control_states start noReset n
  have started := control.hostReq_of_start
  have resting := control.perIdle_of_idle
  have notDone := control.notDone
  rw [(requests_eq noReset polite n).1, (captured_eq start noReset n).1]
  simp only [List.length_append, presented_length start noReset n,
    perAnswers_eq start noReset n]
  cases host : (states start inputs n).host.hostState <;>
    cases per : (states start inputs n).per.perState <;>
    cases cyc : (inputs n).hostI.cyc <;> simp_all

theorem hostAnswers_succ_of_answer (noReset : ∀ n, (inputs n).rst = false) {n : Nat}
    (req : (states start inputs n).host.hostState = .stHostReq)
    (answered : (states start inputs (n + 1)).host.hostState = .stHostWaitAckLow) :
    (hostAnswers start inputs (n + 1)).length =
      (hostAnswers start inputs n).length + 1 := by
  have low := (control_states start noReset n).hostAck
  have high := (control_states start noReset (n + 1)).hostAck
  rw [hostAnswers, Trace.pulses_succ_of_rise (by simp [low, req]) (by simp [high, answered])]
  simp

/-- The crossing transfers every request of a well-behaved host exactly once,
for every interleaving of the two clocks and every latency of the
peripheral. -/
theorem wbCdc_transfers_once (start : State) (inputs : Nat → Inputs)
    (noReset : ∀ n, (inputs n).rst = false)
    (hostClock : Trace.Recurs fun n => (inputs n).clkHost = true)
    (perClock : Trace.Recurs fun n => (inputs n).clkPer = true)
    (polite : PoliteHost (fun n => (inputs n).hostI)
      fun n => (states start inputs n).host.hostO.ack)
    (serves : Serves (fun n => (inputs n).clkPer)
      (fun n => (states start inputs n).per.perO) fun n => (inputs n).perI) :
    TransfersOnce start inputs where
  presented_requests := presented_requests noReset polite
  presented_stable n cyc cyc' := by
    have high := (control_states start noReset n).cyc
    have high' := (control_states start noReset (n + 1)).cyc
    rcases perMove_states start noReset n <;> simp_all
  answered_presented n := by
    rw [presented_length start noReset n]
    split <;> omega
  hostAnswers_perAnswers n := by
    rw [perAnswers_eq start noReset n]
    exact List.prefix_append _ _
  hostAnswer_stable := hostO_stable start noReset
  outstanding n := by
    rw [outstanding_le noReset polite n]
    split <;> omega
  completed n := by
    have answers : Trace.LeadsTo
        (fun m => (states start inputs m).host.hostState = .stHostReq ∨
          (states start inputs m).host.hostState = .stHostIdle ∧ (inputs m).hostI.cyc = true)
        (fun m => (states start inputs m).host.hostState = .stHostReq ∧
          (states start inputs (m + 1)).host.hostState = .stHostWaitAckLow) :=
      have captured := answer_of_captured noReset hostClock perClock serves
      captured.or ((captured_of_raised noReset hostClock polite).trans captured)
    by_cases pending : (states start inputs n).host.hostState = .stHostReq ∨
        (states start inputs n).host.hostState = .stHostIdle ∧ (inputs n).hostI.cyc = true
    · obtain ⟨m, after, req, answered⟩ := answers n pending
      have grown : (requests inputs n).length ≤ (requests inputs m).length :=
        (Trace.pulses_prefix _ _ after).length_le
      have count := outstanding_le noReset polite m
      rw [if_pos (Or.inl req)] at count
      have more := hostAnswers_succ_of_answer noReset req answered
      exact ⟨m + 1, by omega, by omega⟩
    · have count := outstanding_le noReset polite n
      rw [if_neg pending] at count
      exact ⟨n, le_rfl, by omega⟩

/-- Registers as a simulator leaves them before reset. -/
def powerUp : State :=
  ⟨⟨.stHostIdle, 0, 0, 0, false, false, SyncChain.zero, PerBus.new⟩,
    ⟨.stPerIdle, SyncChain.zero, false, 0, HostBus.new⟩⟩

/-- A byte is stored and its word is read, with both clocks rising together: the host
drops `cyc` two instants into the acknowledge pulse. -/
def storeRead (n : Nat) : Inputs where
  clkHost := true
  clkPer := true
  rst := false
  hostI :=
    if n ≤ 16 then ⟨0x40, 0xab00, 0b0010, true, decide (1 ≤ n ∧ n ≤ 13)⟩
    else ⟨0x40, 0, 0b1111, false, decide (20 ≤ n ∧ n ≤ 32)⟩
  perI := ⟨if n ≤ 16 then 0 else 0xabfe, decide (n = 7 ∨ n = 26)⟩

theorem storeRead_rest {n : Nat} (le : 40 ≤ n) :
    states powerUp storeRead n = states powerUp storeRead 40 := by
  refine Trace.run_at_rest rfl (fun n le => ?_) le
  have quiet : storeRead n = storeRead 40 := by
    have late : ¬ n ≤ 16 ∧ ¬ n ≤ 32 ∧ n ≠ 7 ∧ n ≠ 26 := by omega
    simp [storeRead, late]
  rw [quiet]
  decide +kernel

theorem storeRead_early {n : Nat} (high : (storeRead n).hostI.cyc = true) : n < 40 := by
  by_contra late
  simp [storeRead, show ¬ n ≤ 16 ∧ ¬ n ≤ 32 by omega] at high

theorem wbCdc_transfers_once_storeRead :
    hostAnswers powerUp storeRead 40 = [0, 0xabfe] ∧ TransfersOnce powerUp storeRead := by
  refine ⟨by decide +kernel, wbCdc_transfers_once powerUp storeRead (fun _ => rfl)
    (fun n => ⟨n, le_rfl, rfl⟩) (fun n => ⟨n, le_rfl, rfl⟩) ⟨?_, ?_, ?_⟩ ?_⟩
  · intro n low high
    have early : n < 40 := by
      have next := storeRead_early high
      omega
    revert low high
    revert n early
    decide +kernel
  · intro n high
    have early := storeRead_early high
    revert high
    revert n early
    decide +kernel
  · intro n high
    have early := storeRead_early high
    revert high
    revert n early
    decide +kernel
  · intro n high
    have early : n < 40 := by
      by_contra late
      have atRest := storeRead_rest (n := n) (by omega)
      simp only [atRest] at high
      exact absurd high (by decide +kernel)
    have served : ∀ n < 40, (states powerUp storeRead n).per.perO.cyc = true →
        n ≤ 7 ∨ 25 ≤ n ∧ n ≤ 26 := by
      decide +kernel
    rcases served n early high with first | ⟨-, second⟩
    · exact ⟨7, first, rfl, rfl⟩
    · exact ⟨26, second, rfl, rfl⟩

end Transfer

end WbCdc

end Cocoapuffs

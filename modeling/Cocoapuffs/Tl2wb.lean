import Cocoapuffs.TlPort

/-!
# The plain TileLink to Wishbone converter

The entity `tl2wb`: every captured request becomes one Wishbone cycle.
-/

namespace Cocoapuffs

namespace Tl2wb

open TileLink

/-- `state_t`. -/
inductive StateT where
  | idle
  | wbWait
  | tlResp
deriving DecidableEq

structure State where
  state : StateT
  savedA : AType
  savedWbDat : BitVec 32
  tlO : PerType
  wbO : HostBus
deriving DecidableEq

/-- The ports at one edge. -/
structure Inputs where
  rst : Bool
  tlI : HostType
  wbI : PerBus

def State.reset (s : State) : State :=
  { s with state := .idle, tlO := PerType.new, wbO := HostBus.new }

/-- The process on a rising edge of `clk`. -/
def step (i : Inputs) (s : State) : State :=
  if i.rst then s.reset
  else
    -- Default assignments
    let v := { s with
      wbO := { s.wbO with cyc := false }
      tlO := { aReady := false, d := { s.tlO.d with valid := false } } }
    match s.state with
    | .idle =>
        if i.tlI.a.valid then { v with savedA := i.tlI.a, state := .wbWait }
        else { v with tlO := { v.tlO with aReady := true } }
    | .wbWait =>
        let v := { v with
          wbO :=
            { adr := s.savedA.address
              dat := s.savedA.data
              sel := s.savedA.mask
              we := isPut s.savedA.opcode
              cyc := !i.wbI.ack } }
        if i.wbI.ack then { v with savedWbDat := i.wbI.rdt, state := .tlResp } else v
    | .tlResp =>
        let d : DType := { s.tlO.d with
          valid := true
          opcode := if s.savedA.opcode = opGet then opAccessAckData else opAccessAck
          data := if s.savedA.opcode = opGet then s.savedWbDat else 0
          size := s.savedA.size
          source := s.savedA.source
          sink := 0
          corrupt := false }
        { v with
          tlO := { v.tlO with d := d }
          state := if i.tlI.dReady then .idle else .tlResp }

/-- The converter as a port. -/
def State.port (s : State) : TlPort.Port where
  phase :=
    match s.state with
    | .idle => .idle
    | .wbWait => .busy
    | .tlResp => .respond
  tlO := s.tlO

/-- The Wishbone request of a beat. -/
def request (a : AType) : Request := ⟨a.address, a.data, a.mask, isPut a.opcode⟩

/-- What the converter drives while it waits for the bus. -/
def driven (a : AType) : HostBus := ⟨a.address, a.data, a.mask, isPut a.opcode, true⟩

/-- What one edge out of reset does on the Wishbone side. -/
inductive Move (i : Inputs) (s next : State) : Prop where
  | wait (idle : s.state = .idle) (low : i.tlI.a.valid = false) (state : next.state = .idle)
      (cyc : next.wbO.cyc = false)
  | capture (idle : s.state = .idle) (raised : i.tlI.a.valid = true)
      (state : next.state = .wbWait) (saved : next.savedA = i.tlI.a)
      (cyc : next.wbO.cyc = false)
  | raise (waiting : s.state = .wbWait) (unacked : i.wbI.ack = false)
      (state : next.state = .wbWait) (saved : next.savedA = s.savedA)
      (wbO : next.wbO = driven s.savedA)
  | serve (waiting : s.state = .wbWait) (acked : i.wbI.ack = true)
      (state : next.state = .tlResp) (cyc : next.wbO.cyc = false)
  | respond (responding : s.state = .tlResp) (state : next.state ≠ .wbWait)
      (cyc : next.wbO.cyc = false)

theorem move (i : Inputs) (s : State) (noReset : i.rst = false) : Move i s (step i s) := by
  cases phase : s.state with
  | idle =>
      cases raised : i.tlI.a.valid with
      | false => apply Move.wait phase raised <;> simp [step, noReset, phase, raised]
      | true => apply Move.capture phase raised <;> simp [step, noReset, phase, raised]
  | wbWait =>
      cases acked : i.wbI.ack with
      | false =>
          apply Move.raise phase acked <;> simp [step, noReset, phase, acked, driven]
      | true => apply Move.serve phase acked <;> simp [step, noReset, phase, acked]
  | tlResp =>
      apply Move.respond phase <;> cases taken : i.tlI.dReady <;>
        simp [step, noReset, phase, taken]

section Lists

variable (start : State) (inputs : Nat → Inputs)

/-- The states after a reset. -/
abbrev states : Nat → State := Trace.run step start.reset inputs

abbrev ports (n : Nat) : TlPort.Port := (states start inputs n).port

/-- The Wishbone cycles raised. -/
def wbRequests : Nat → List Request :=
  Trace.pulses (fun n => (states start inputs n).wbO.cyc)
    fun n => (states start inputs n).wbO.request

/-- A Wishbone slave that answers each raised cycle, and nothing else. -/
structure AnsweringSlave : Prop where
  ack_cyc : ∀ n, (inputs n).wbI.ack = true → (states start inputs n).wbO.cyc = true
  serves : Serves (fun _ => true) (fun n => (states start inputs n).wbO) fun n => (inputs n).wbI

variable {start} {inputs} (noReset : ∀ n, (inputs n).rst = false)
include noReset

theorem runs (start : State) : TlPort.Runs (ports start inputs) fun n => (inputs n).tlI where
  phase := rfl
  tlO := rfl
  next n := by
    change TlPort.Step _ _ (step (inputs n) (states start inputs n)).port
    cases phase : (states start inputs n).state with
    | idle =>
        cases raised : (inputs n).tlI.a.valid with
        | false =>
            apply TlPort.Step.wait _ raised <;>
              simp [State.port, step, noReset n, phase, raised]
        | true =>
            apply TlPort.Step.capture _ raised <;>
              simp [State.port, step, noReset n, phase, raised]
    | wbWait =>
        apply TlPort.Step.work <;>
          cases ack : (inputs n).wbI.ack <;> simp [State.port, step, noReset n, phase, ack]
    | tlResp =>
        cases taken : (inputs n).tlI.dReady with
        | false =>
            apply TlPort.Step.hold _ taken <;>
              simp [State.port, step, noReset n, phase, taken]
        | true =>
            apply TlPort.Step.leave _ taken <;>
              simp [State.port, step, noReset n, phase, taken]

theorem move_states (start : State) (n : Nat) :
    Move (inputs n) (states start inputs n) (states start inputs (n + 1)) :=
  move (inputs n) _ (noReset n)

theorem wbO_of_cyc (n : Nat) (cyc : (states start inputs n).wbO.cyc = true) :
    (states start inputs n).state = .wbWait ∧
      (states start inputs n).wbO = driven (states start inputs n).savedA := by
  cases n with
  | zero => cases cyc
  | succ n =>
      rcases move_states noReset start n with ⟨_, _, _, low⟩ | ⟨_, _, _, _, low⟩ |
        ⟨_, _, state, saved, wbO⟩ | ⟨_, _, _, low⟩ | ⟨_, _, low⟩
      · simp [low] at cyc
      · simp [low] at cyc
      · exact ⟨state, by rw [saved, wbO]⟩
      · simp [low] at cyc
      · simp [low] at cyc

/-- Every captured request has been served, but for the one being served. -/
theorem captured_eq (slave : AnsweringSlave start inputs) (n : Nat) :
    (TlPort.captured (ports start inputs) (fun n => (inputs n).tlI) n).map request =
      servedRequests (fun _ => true) (fun n => (states start inputs n).wbO)
          (fun n => (inputs n).wbI) n ++
        if (states start inputs n).state = .wbWait
        then [request (states start inputs n).savedA] else [] := by
  induction n with
  | zero => rfl
  | succ n ih =>
      have quiet : (states start inputs n).state ≠ .idle →
          TlPort.captured (ports start inputs) (fun n => (inputs n).tlI) (n + 1) =
            TlPort.captured (ports start inputs) (fun n => (inputs n).tlI) n := by
        intro active
        apply TlPort.captured_succ_of_quiet
        rintro ⟨idle, _⟩
        simp only [State.port] at idle
        split at idle <;> simp_all
      have unserved : (states start inputs n).state ≠ .wbWait →
          (states start inputs n).wbO.cyc = false := by
        intro active
        by_contra cyc
        exact active (wbO_of_cyc noReset n (by simpa using cyc)).1
      rw [servedRequests, Trace.history_succ, ← servedRequests]
      rcases move_states noReset start n with ⟨idle, low, state, _⟩ |
        ⟨idle, raised, state, saved, _⟩ | ⟨waiting, unacked, state, saved, _⟩ |
        ⟨waiting, acked, state, _⟩ | ⟨responding, state, _⟩
      · rw [TlPort.captured_succ_of_quiet (by simp [low]), ih, unserved (by simp [idle])]
        simp [idle, state]
      · rw [TlPort.captured_succ_of_capture (by simp [State.port, idle]) raised, List.map_append,
          ih, unserved (by simp [idle])]
        simp [idle, state, saved]
      · rw [quiet (by simp [waiting]), ih, unacked]
        simp [waiting, state, saved]
      · have cyc := slave.ack_cyc n acked
        rw [quiet (by simp [waiting]), ih, cyc, acked, (wbO_of_cyc noReset n cyc).2]
        simp [waiting, state, driven, HostBus.request, request]
      · rw [quiet (by simp [responding]), ih, unserved (by simp [responding])]
        simp [responding, state]

/-- The cycles raised are those of the captured requests, -/
theorem wbRequests_eq (n : Nat) :
    wbRequests start inputs n =
      servedRequests (fun _ => true) (fun n => (states start inputs n).wbO)
          (fun n => (inputs n).wbI) n ++
        if (states start inputs n).wbO.cyc then [(states start inputs n).wbO.request] else [] := by
  apply pulses_eq_served
  · intro n cyc unanswered
    obtain ⟨waiting, same⟩ := wbO_of_cyc noReset n cyc
    rcases move_states noReset start n with ⟨idle, _, _, _⟩ | ⟨idle, _, _, _, _⟩ |
      ⟨_, _, _, _, wbO⟩ | ⟨_, acked, _, _⟩ | ⟨responding, _, _⟩
    · simp [waiting] at idle
    · simp [waiting] at idle
    · rw [wbO, same]
    · simp [acked] at unanswered
    · simp [waiting] at responding
  · intro n cyc _ acked
    rcases move_states noReset start n with ⟨_, _, _, low⟩ | ⟨_, _, _, _, low⟩ |
      ⟨_, unacked, _, _, _⟩ | ⟨_, _, _, low⟩ | ⟨_, _, low⟩
    · exact low
    · exact low
    · simp [acked] at unacked
    · exact low
    · exact low

theorem tlResp_of_wbWait (slave : AnsweringSlave start inputs) :
    Trace.LeadsTo (fun n => (ports start inputs n).phase = .busy)
      fun n => (ports start inputs n).phase = .respond := by
  have wbWait : ∀ n, (ports start inputs n).phase = .busy →
      (states start inputs n).state = .wbWait := by
    intro n busy
    cases phase : (states start inputs n).state <;> simp_all [State.port]
  have acked : Trace.LeadsTo (fun n => (ports start inputs n).phase = .busy)
      fun n => (inputs n).wbI.ack = true := by
    intro n busy
    by_cases now : (inputs n).wbI.ack = true
    · exact ⟨n, le_rfl, now⟩
    · have raised : (states start inputs (n + 1)).wbO.cyc = true := by
        have waiting := wbWait n busy
        rcases move_states noReset start n <;> simp_all [driven]
      obtain ⟨m, after, _, ack⟩ := slave.serves (n + 1) raised
      exact ⟨m, by omega, ack⟩
  apply Trace.LeadsTo.of_event _ acked
  · intro n busy unacked
    have waiting := wbWait n busy
    rcases move_states noReset start n <;> simp_all [State.port]
  · intro n busy ack
    have waiting := wbWait n busy
    rcases move_states noReset start n <;> simp_all [State.port]

/-- Where idle converters are ready and the master takes each response once, the
Wishbone cycles are those of the accepted requests. -/
theorem executesOnce (slave : AnsweringSlave start inputs)
    (master : TlPort.Master (ports start inputs) fun n => (inputs n).tlI)
    (accepting : ∀ n, TlPort.Accepting (ports start inputs) (fun n => (inputs n).tlI) n)
    (timely : ∀ n, TlPort.Timely (ports start inputs) (fun n => (inputs n).tlI) n) :
    TlPort.ExecutesOnce (ports start inputs) (fun n => (inputs n).tlI)
      (fun a => some (request a)) (wbRequests start inputs) := by
  have mapped : ∀ beats : List AType,
      beats.filterMap (fun a => some (request a)) = beats.map request :=
    fun beats => congrFun List.filterMap_eq_map' beats
  apply (runs noReset start).executesOnce master accepting timely
    (tlResp_of_wbWait noReset slave)
  · intro n
    rw [wbRequests_eq noReset, mapped, captured_eq noReset slave]
    apply (List.prefix_append_right_inj _).mpr
    cases cyc : (states start inputs n).wbO.cyc with
    | false => simp
    | true =>
        obtain ⟨waiting, same⟩ := wbO_of_cyc noReset n cyc
        simp [waiting, same, driven, HostBus.request, request]
  · intro n idle
    have resting : (states start inputs n).state = .idle := by
      cases phase : (states start inputs n).state <;> simp_all [State.port]
    have low : (states start inputs n).wbO.cyc = false := by
      by_contra cyc
      simp [(wbO_of_cyc noReset n (by simpa using cyc)).1] at resting
    rw [wbRequests_eq noReset, mapped, captured_eq noReset slave, low, resting]
    simp

end Lists

end Tl2wb

end Cocoapuffs

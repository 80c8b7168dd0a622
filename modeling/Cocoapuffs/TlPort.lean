import Cocoapuffs.TileLink

/-!
# Ports that serve one beat at a time

What the request and response channels of `tl2wb` and of `tl_ethernet` have in
common: an idle port takes whatever request is valid, whether or not it has
shown `a_ready`, and a response is raised one cycle after it is decided to leave
the response state.  One instant is one rising edge of `clk`.
-/

namespace Cocoapuffs

namespace TlPort

open TileLink

inductive Phase where
  | idle
  | busy
  | respond
deriving DecidableEq

/-- The state of a port and what it drives. -/
structure Port where
  phase : Phase
  tlO : PerType
deriving DecidableEq

/-- What one edge out of reset can do. -/
inductive Step (i : HostType) (p next : Port) : Prop where
  | wait (idle : p.phase = .idle) (low : i.a.valid = false) (phase : next.phase = .idle)
      (ready : next.tlO.aReady = true) (unanswered : next.tlO.d.valid = false)
  | capture (idle : p.phase = .idle) (raised : i.a.valid = true) (phase : next.phase ≠ .idle)
      (ready : next.tlO.aReady = false) (unanswered : next.tlO.d.valid = false)
  | work (busy : p.phase = .busy) (phase : next.phase ≠ .idle)
      (ready : next.tlO.aReady = false) (unanswered : next.tlO.d.valid = false)
  | hold (responding : p.phase = .respond) (untaken : i.dReady = false)
      (phase : next.phase = .respond) (ready : next.tlO.aReady = false)
      (answered : next.tlO.d.valid = true)
  | leave (responding : p.phase = .respond) (taken : i.dReady = true)
      (phase : next.phase = .idle) (ready : next.tlO.aReady = false)
      (answered : next.tlO.d.valid = true)

section Lists

variable (port : Nat → Port) (tlI : Nat → HostType)

/-- The port along a trace that begins after a reset. -/
structure Runs : Prop where
  phase : (port 0).phase = .idle
  tlO : (port 0).tlO = PerType.new
  next : ∀ n, Step (tlI n) (port n) (port (n + 1))

/-- The handshakes of the request channel. -/
def handshakes : Nat → List AType :=
  Trace.history fun n =>
    if (port n).tlO.aReady && (tlI n).a.valid then some (tlI n).a else none

/-- The requests that an idle port takes. -/
def captured : Nat → List AType :=
  Trace.history fun n =>
    if (port n).phase = .idle ∧ (tlI n).a.valid then some (tlI n).a else none

/-- The handshakes of the response channel. -/
def delivered : Nat → List DType :=
  Trace.history fun n =>
    if (port n).tlO.d.valid && (tlI n).dReady then some (port n).tlO.d else none

/-- A master that holds its request until the handshake, and takes a response
in the end. -/
structure Master : Prop where
  held : ∀ n, (tlI n).a.valid = true → (port n).tlO.aReady = false →
    (tlI (n + 1)).a = (tlI n).a
  takes : Trace.LeadsTo (fun n => (port n).tlO.d.valid = true) fun n => (tlI n).dReady = true

/-- A request that an idle port sees is one that it is ready for. -/
def Accepting (n : Nat) : Prop :=
  (port n).phase = .idle → (tlI n).a.valid = true → (port n).tlO.aReady = true

/-- In the cycle after the response state the master is ready exactly if it has
not seen the response before. -/
def Timely (n : Nat) : Prop :=
  (port n).phase = .respond → (tlI n).dReady = true →
    (tlI (n + 1)).dReady = !(port n).tlO.d.valid

/-- What it means to execute the accepted requests, each once. -/
structure ExecutesOnce {Operation : Type} (operation : AType → Option Operation)
    (executed : Nat → List Operation) : Prop where
  never_more : ∀ n, executed n <+: (handshakes port tlI n).filterMap operation
  responses_le : ∀ n, (delivered port tlI n).length ≤ (handshakes port tlI n).length
  /-- When the port is ready nothing is pending. -/
  settled : ∀ n, (port n).tlO.aReady = true →
    executed n = (handshakes port tlI n).filterMap operation ∧
      (delivered port tlI n).length = (handshakes port tlI n).length
  completes : ∀ n, ∃ m, n ≤ m ∧ (handshakes port tlI n).filterMap operation <+: executed m
  responds : ∀ n, ∃ m, n ≤ m ∧ (handshakes port tlI n).length ≤ (delivered port tlI m).length

variable {port} {tlI}

theorem captured_succ_of_capture {n : Nat} (idle : (port n).phase = .idle)
    (raised : (tlI n).a.valid = true) :
    captured port tlI (n + 1) = captured port tlI n ++ [(tlI n).a] :=
  Trace.history_succ_some (by simp [idle, raised])

theorem captured_succ_of_quiet {n : Nat}
    (quiet : ¬ ((port n).phase = .idle ∧ (tlI n).a.valid = true)) :
    captured port tlI (n + 1) = captured port tlI n :=
  Trace.history_succ_none (if_neg quiet)

variable (runs : Runs port tlI)
include runs

/-- A port that is ready is idle, and its last response is over. -/
theorem Runs.ready (n : Nat) (ready : (port n).tlO.aReady = true) :
    (port n).phase = .idle ∧ (port n).tlO.d.valid = false := by
  cases n with
  | zero => simp [runs.tlO, PerType.new] at ready
  | succ n =>
      rcases runs.next n with ⟨_, _, phase, _, unanswered⟩ | ⟨_, _, _, low, _⟩ |
        ⟨_, _, low, _⟩ | ⟨_, _, _, low, _⟩ | ⟨_, _, _, low, _⟩
      · exact ⟨phase, unanswered⟩
      all_goals simp [low] at ready

/-- No response is shown while a request is being served. -/
theorem Runs.unanswered_of_busy (n : Nat) (busy : (port n).phase = .busy) :
    (port n).tlO.d.valid = false := by
  cases n with
  | zero => simp [runs.phase] at busy
  | succ n =>
      rcases runs.next n with ⟨_, _, _, _, low⟩ | ⟨_, _, _, _, low⟩ | ⟨_, _, _, low⟩ |
        ⟨_, _, phase, _, _⟩ | ⟨_, _, phase, _, _⟩
      · exact low
      · exact low
      · exact low
      · simp [phase] at busy
      · simp [phase] at busy

/-- Where idle ports are ready, the captured requests are the accepted ones. -/
theorem Runs.captured_eq (accepting : ∀ n, Accepting port tlI n) (n : Nat) :
    captured port tlI n = handshakes port tlI n := by
  unfold captured handshakes
  congr 1
  funext n
  by_cases raised : (tlI n).a.valid = true
  · have same : (port n).phase = .idle ↔ (port n).tlO.aReady = true :=
      ⟨fun idle => accepting n idle raised, fun ready => (runs.ready n ready).1⟩
    simp [raised, same]
  · simp [raised]

theorem Runs.timely_of_ready (ready : ∀ n, (tlI n).dReady = true) (n : Nat) :
    Timely port tlI n := by
  intro responding _
  cases n with
  | zero => simp [runs.phase] at responding
  | succ n =>
      have fresh : (port (n + 1)).tlO.d.valid = false := by
        rcases runs.next n with ⟨_, _, _, _, low⟩ | ⟨_, _, _, _, low⟩ | ⟨_, _, _, low⟩ |
          ⟨_, untaken, _, _, _⟩ | ⟨_, _, phase, _, _⟩
        · exact low
        · exact low
        · exact low
        · simp [ready n] at untaken
        · simp [phase] at responding
      rw [ready, fresh]
      rfl

/-! ### Responses -/

omit runs in
/-- Is the response to the last captured request still to be delivered? -/
def owed (port : Nat → Port) (tlI : Nat → HostType) (n : Nat) : Nat :=
  match (port n).phase with
  | .idle => if (port n).tlO.d.valid && (tlI n).dReady then 1 else 0
  | _ => 1

omit runs in
theorem owed_of_active {n : Nat} (active : (port n).phase ≠ .idle) : owed port tlI n = 1 := by
  unfold owed
  split
  · contradiction
  · rfl

/-- Every captured request is answered once, but for the last one. -/
theorem Runs.delivered_add_owed (timely : ∀ n, Timely port tlI n) (n : Nat) :
    (delivered port tlI n).length + owed port tlI n = (captured port tlI n).length := by
  induction n with
  | zero => simp [delivered, captured, owed, runs.phase, runs.tlO, PerType.new, DType.new]
  | succ n ih =>
      have given : (delivered port tlI (n + 1)).length = (delivered port tlI n).length +
          if (port n).tlO.d.valid && (tlI n).dReady then 1 else 0 := by
        rw [delivered, Trace.history_succ, List.length_append]
        split <;> rfl
      rw [given]
      rcases runs.next n with ⟨idle, low, phase, _, unanswered⟩ | ⟨idle, raised, phase, _, _⟩ |
        ⟨busy, phase, _, _⟩ | ⟨responding, untaken, phase, _, _⟩ |
        ⟨responding, taken, phase, _, answered⟩
      · rw [captured_succ_of_quiet (by simp [low]), ← ih]
        simp [owed, idle, phase, unanswered]
      · rw [captured_succ_of_capture idle raised, List.length_append, ← ih,
          owed_of_active phase]
        simp [owed, idle]
      · rw [captured_succ_of_quiet (by simp [busy]), ← ih, owed_of_active phase,
          owed_of_active (by simp [busy]), runs.unanswered_of_busy n busy]
        simp
      · rw [captured_succ_of_quiet (by simp [responding]), ← ih,
          owed_of_active (by simp [phase]), owed_of_active (by simp [responding]), untaken]
        simp
      · have next := timely n responding taken
        rw [captured_succ_of_quiet (by simp [responding]), ← ih,
          owed_of_active (n := n) (by simp [responding])]
        cases seen : (port n).tlO.d.valid <;>
          simp [owed, phase, answered, next, seen, taken]

theorem Runs.delivered_le (timely : ∀ n, Timely port tlI n) (n : Nat) :
    (delivered port tlI n).length ≤ (captured port tlI n).length := by
  have account := runs.delivered_add_owed timely n
  omega

theorem Runs.delivered_of_ready (timely : ∀ n, Timely port tlI n) {n : Nat}
    (ready : (port n).tlO.aReady = true) :
    (delivered port tlI n).length = (captured port tlI n).length := by
  have account := runs.delivered_add_owed timely n
  obtain ⟨idle, unanswered⟩ := runs.ready n ready
  simpa [owed, idle, unanswered] using account

/-- After one idle cycle every earlier request has been answered. -/
theorem Runs.delivered_succ_of_idle (timely : ∀ n, Timely port tlI n) {n : Nat}
    (idle : (port n).phase = .idle) :
    (delivered port tlI (n + 1)).length = (captured port tlI n).length := by
  have account := runs.delivered_add_owed timely (n + 1)
  rcases runs.next n with ⟨_, low, phase, _, unanswered⟩ | ⟨_, raised, phase, _, _⟩ |
    ⟨busy, _, _, _⟩ | ⟨responding, _, _, _, _⟩ | ⟨responding, _, _, _, _⟩
  · rw [captured_succ_of_quiet (by simp [low])] at account
    simpa [owed, phase, unanswered] using account
  · rw [captured_succ_of_capture idle raised, List.length_append, owed_of_active phase] at account
    simpa using account
  · simp [idle] at busy
  · simp [idle] at responding
  · simp [idle] at responding

theorem Runs.idle_of_respond (master : Master port tlI) :
    Trace.LeadsTo (fun n => (port n).phase = .respond) fun n => (port n).phase = .idle := by
  have taken : Trace.LeadsTo (fun n => (port n).phase = .respond)
      fun n => (tlI n).dReady = true := by
    intro n responding
    by_cases now : (tlI n).dReady = true
    · exact ⟨n, le_rfl, now⟩
    · have shown : (port (n + 1)).tlO.d.valid = true := by
        rcases runs.next n <;> simp_all
      obtain ⟨m, after, ready⟩ := master.takes (n + 1) shown
      exact ⟨m, by omega, ready⟩
  apply Trace.LeadsTo.of_event _ taken
  · intro n responding untaken
    rcases runs.next n <;> simp_all
  · intro n responding ready
    rcases runs.next n <;> simp_all

theorem Runs.idle_recurs (master : Master port tlI)
    (served : Trace.LeadsTo (fun n => (port n).phase = .busy)
      fun n => (port n).phase = .respond) :
    Trace.Recurs fun n => (port n).phase = .idle := by
  intro n
  cases phase : (port n).phase with
  | idle => exact ⟨n, le_rfl, phase⟩
  | busy => exact served.trans (runs.idle_of_respond master) n phase
  | respond => exact runs.idle_of_respond master n phase

/-- A port that has executed its captured requests whenever it is idle executes
the accepted ones, where both conditions hold. -/
theorem Runs.executesOnce {Operation : Type} {operation : AType → Option Operation}
    {executed : Nat → List Operation} (master : Master port tlI)
    (accepting : ∀ n, Accepting port tlI n) (timely : ∀ n, Timely port tlI n)
    (served : Trace.LeadsTo (fun n => (port n).phase = .busy)
      fun n => (port n).phase = .respond)
    (within : ∀ n, executed n <+: (captured port tlI n).filterMap operation)
    (atRest : ∀ n, (port n).phase = .idle →
      executed n = (captured port tlI n).filterMap operation) :
    ExecutesOnce port tlI operation executed where
  never_more n := by
    rw [← runs.captured_eq accepting]
    exact within n
  responses_le n := by
    rw [← runs.captured_eq accepting]
    exact runs.delivered_le timely n
  settled n ready := by
    rw [← runs.captured_eq accepting]
    exact ⟨atRest n (runs.ready n ready).1, runs.delivered_of_ready timely ready⟩
  completes n := by
    rw [← runs.captured_eq accepting]
    obtain ⟨m, after, idle⟩ := runs.idle_recurs master served n
    refine ⟨m, after, ?_⟩
    rw [atRest m idle]
    exact (Trace.history_prefix _ after).filterMap operation
  responds n := by
    rw [← runs.captured_eq accepting]
    obtain ⟨m, after, idle⟩ := runs.idle_recurs master served n
    refine ⟨m + 1, by omega, ?_⟩
    rw [runs.delivered_succ_of_idle timely idle]
    exact (Trace.history_prefix _ after).length_le

end Lists

end TlPort

end Cocoapuffs

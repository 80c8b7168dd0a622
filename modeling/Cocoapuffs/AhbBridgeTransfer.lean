import Cocoapuffs.AhbBridge

/-!
# The bridge carries out the transfers of the AHB bus

Along a trace the transfers completed on the AHB bus, each with the data it
returned, are the Wishbone cycles acknowledged so far, but for the transfer
whose data phase is still on the bus.
-/

namespace Cocoapuffs

/-- A request without the data that a read leaves unspecified. -/
def Request.normal (request : Request) : Request :=
  if request.we then request else { request with dat := 0 }

namespace AhbBridge

open Ahb

/-- The Wishbone request of a transfer. -/
def request (t : Transfer) : Request :=
  ⟨t.addr.haddr, t.hwdata, strobes t.addr.hsize t.addr.haddr, t.addr.hwrite⟩

/-- The request in the AHB domain's registers. -/
def State.held (s : State) : Request :=
  ⟨s.ahb.ahbHaddr, s.ahb.ahbHwdata, s.ahb.ahbSel, s.ahb.ahbHwrite⟩

/-! ### What one instant can do -/

inductive AhbMove (index : Nat) (i : Inputs) (s next : State) : Prop where
  | quiet (state : next.ahb.ahbState = s.ahb.ahbState) (held : next.held = s.held)
      (hrdata : next.ahb.ahbHrdata = s.ahb.ahbHrdata)
      (unstarted : ¬ (i.clkAhb = true ∧ s.ahb.ahbState = .ahbIdle ∧
        i.ahbsi.starts index = true))
      (notData : ¬ (i.clkAhb = true ∧ s.ahb.ahbState = .ahbDataPhase))
      (unanswered : ¬ (i.clkAhb = true ∧ s.ahb.ahbState = .ahbWaitAck ∧
        s.ahb.ahbAckChain.sync = true))
      (pending : ¬ (i.clkAhb = true ∧ s.ahb.ahbState = .ahbCleanup ∧
        s.ahb.ahbAckChain.sync = false))
  | capture (tick : i.clkAhb = true) (idle : s.ahb.ahbState = .ahbIdle)
      (starts : i.ahbsi.starts index = true)
      (state : next.ahb.ahbState =
        if i.ahbsi.hwrite then .ahbDataPhase else .ahbWaitAck)
      (held : next.held = ⟨i.ahbsi.haddr, s.ahb.ahbHwdata,
        strobes i.ahbsi.hsize i.ahbsi.haddr, i.ahbsi.hwrite⟩)
      (hrdata : next.ahb.ahbHrdata = s.ahb.ahbHrdata)
  | data (tick : i.clkAhb = true) (data : s.ahb.ahbState = .ahbDataPhase)
      (state : next.ahb.ahbState = .ahbWaitAck)
      (held : next.held = { s.held with dat := i.ahbsi.hwdata })
      (hrdata : next.ahb.ahbHrdata = s.ahb.ahbHrdata)
  | answer (tick : i.clkAhb = true) (waiting : s.ahb.ahbState = .ahbWaitAck)
      (answered : s.ahb.ahbAckChain.sync = true)
      (state : next.ahb.ahbState = .ahbCleanup) (held : next.held = s.held)
      (hrdata : next.ahb.ahbHrdata = s.wb.wbHrdataReg)
  | release (tick : i.clkAhb = true) (cleanup : s.ahb.ahbState = .ahbCleanup)
      (withdrawn : s.ahb.ahbAckChain.sync = false)
      (state : next.ahb.ahbState = .ahbIdle) (held : next.held = s.held)
      (hrdata : next.ahb.ahbHrdata = s.ahb.ahbHrdata)

inductive WbMove (i : Inputs) (s next : State) : Prop where
  | quiet (state : next.wb.wbState = s.wb.wbState) (wbo : next.wbo = s.wbo)
      (rdt : next.wb.wbHrdataReg = s.wb.wbHrdataReg)
      (unseen : ¬ (i.clkWb = true ∧ s.wb.wbState = .wbIdle ∧ s.wb.wbReqChain.sync = true))
      (unstarted : ¬ (i.clkWb = true ∧ s.wb.wbState = .wbStart))
      (unserved : ¬ (i.clkWb = true ∧ s.wb.wbState = .wbWait ∧ i.wbi.ack = true))
      (pending : ¬ (i.clkWb = true ∧ s.wb.wbState = .wbDone ∧
        s.wb.wbReqChain.sync = false))
  | accept (tick : i.clkWb = true) (idle : s.wb.wbState = .wbIdle)
      (seen : s.wb.wbReqChain.sync = true) (state : next.wb.wbState = .wbStart)
      (wbo : next.wbo.request = s.held)
  | raise (tick : i.clkWb = true) (started : s.wb.wbState = .wbStart)
      (state : next.wb.wbState = .wbWait) (wbo : next.wbo = { s.wbo with cyc := true })
  | serve (tick : i.clkWb = true) (waiting : s.wb.wbState = .wbWait)
      (ack : i.wbi.ack = true) (state : next.wb.wbState = .wbDone)
      (rdt : next.wb.wbHrdataReg = i.wbi.rdt)
  | rest (tick : i.clkWb = true) (done : s.wb.wbState = .wbDone)
      (withdrawn : s.wb.wbReqChain.sync = false) (state : next.wb.wbState = .wbIdle)

theorem ahbMove (index : Nat) (i : Inputs) (s : State) (noReset : i.rst = false) :
    AhbMove index i s (step index i s) := by
  cases tick : i.clkAhb with
  | false => refine .quiet ?_ ?_ ?_ ?_ ?_ ?_ ?_ <;> simp [step, tick, State.held]
  | true =>
      cases phase : s.ahb.ahbState with
      | ahbIdle =>
          cases starts : i.ahbsi.starts index with
          | true =>
              refine .capture tick phase starts ?_ ?_ ?_ <;>
                cases write : i.ahbsi.hwrite <;>
                simp [step, noReset, tick, ahbEdge, phase, starts, write, State.held]
          | false =>
              refine .quiet ?_ ?_ ?_ ?_ ?_ ?_ ?_ <;>
                simp [step, noReset, tick, ahbEdge, phase, starts, State.held]
      | ahbDataPhase =>
          refine .data tick phase ?_ ?_ ?_ <;>
            simp [step, noReset, tick, ahbEdge, phase, State.held]
      | ahbWaitAck =>
          cases answered : s.ahb.ahbAckChain.sync with
          | true =>
              refine .answer tick phase answered ?_ ?_ ?_ <;>
                simp [step, noReset, tick, ahbEdge, phase, answered, State.held]
          | false =>
              refine .quiet ?_ ?_ ?_ ?_ ?_ ?_ ?_ <;>
                simp [step, noReset, tick, ahbEdge, phase, answered, State.held]
      | ahbCleanup =>
          cases answered : s.ahb.ahbAckChain.sync with
          | true =>
              refine .quiet ?_ ?_ ?_ ?_ ?_ ?_ ?_ <;>
                simp [step, noReset, tick, ahbEdge, phase, answered, State.held]
          | false =>
              refine .release tick phase answered ?_ ?_ ?_ <;>
                simp [step, noReset, tick, ahbEdge, phase, answered, State.held]

theorem wbMove (index : Nat) (i : Inputs) (s : State) (noReset : i.rst = false) :
    WbMove i s (step index i s) := by
  cases tick : i.clkWb with
  | false => refine .quiet ?_ ?_ ?_ ?_ ?_ ?_ ?_ <;> simp [step, tick, State.wbo]
  | true =>
      cases phase : s.wb.wbState with
      | wbIdle =>
          cases seen : s.wb.wbReqChain.sync with
          | true =>
              refine .accept tick phase seen ?_ ?_ <;>
                simp [step, noReset, tick, wbEdge, phase, seen, State.wbo, State.held,
                  HostBus.request]
          | false =>
              refine .quiet ?_ ?_ ?_ ?_ ?_ ?_ ?_ <;>
                simp [step, noReset, tick, wbEdge, phase, seen, State.wbo]
      | wbStart =>
          refine .raise tick phase ?_ ?_ <;>
            simp [step, noReset, tick, wbEdge, phase, State.wbo]
      | wbWait =>
          cases ack : i.wbi.ack with
          | true =>
              refine .serve tick phase ack ?_ ?_ <;>
                simp [step, noReset, tick, wbEdge, phase, ack]
          | false =>
              refine .quiet ?_ ?_ ?_ ?_ ?_ ?_ ?_ <;>
                simp [step, noReset, tick, wbEdge, phase, ack, State.wbo]
      | wbDone =>
          cases seen : s.wb.wbReqChain.sync with
          | true =>
              refine .quiet ?_ ?_ ?_ ?_ ?_ ?_ ?_ <;>
                simp [step, noReset, tick, wbEdge, phase, seen, State.wbo]
          | false =>
              refine .rest tick phase seen ?_
              simp [step, noReset, tick, wbEdge, phase, seen]

/-! ### The lists seen along a trace -/

section Lists

variable (index : Nat) (start : State) (inputs : Nat → Inputs)

/-- The states of the bridge after a reset. -/
abbrev states : Nat → State := Trace.run (step index) start.reset inputs

/-- The transfer whose data phase the bridge owns. -/
def transfer : Nat → Option Transfer :=
  Ahb.current (fun n => (inputs n).clkAhb) (fun n => (inputs n).ahbsi) index

/-- The transfers completed on the AHB bus, each with its read data. -/
def completed : Nat → List (Transfer × BitVec 32) :=
  Ahb.completed (fun n => (inputs n).clkAhb) (fun n => (inputs n).ahbsi) index
    fun n => (states index start inputs n).ahbso

/-- The Wishbone cycles raised. -/
def wbRequests : Nat → List Request :=
  Trace.pulses (fun n => (states index start inputs n).wbo.cyc)
    fun n => (states index start inputs n).wbo.request

/-- The Wishbone cycles acknowledged, each with its read data. -/
def wbExchanges : Nat → List (Request × BitVec 32) :=
  exchanges (fun n => (inputs n).clkWb) (fun n => (states index start inputs n).wbo)
    fun n => (inputs n).wbi

/-- Does the bus take its next step: does a data phase end, or none go on? -/
def Advances (n : Nat) : Prop :=
  (inputs n).clkAhb = true ∧ (inputs n).ahbsi.hready = true

instance (n : Nat) : Decidable (Advances inputs n) :=
  inferInstanceAs (Decidable (_ ∧ _))

/-- The rules of the AHB bus, and a Wishbone slave that answers. -/
structure SharedBus : Prop where
  noReset : ∀ n, (inputs n).rst = false
  ahbClock : Trace.Recurs fun n => (inputs n).clkAhb = true
  wbClock : Trace.Recurs fun n => (inputs n).clkWb = true
  /-- `hready` is that of the slave that owns the data phase. -/
  owned : ∀ n, (transfer index inputs n).isSome →
    (inputs n).ahbsi.hready = (states index start inputs n).ahbso.hready
  /-- The master holds its address phase until it is accepted -/
  addrHeld : ∀ n, (inputs n).ahbsi.starts index = true → ¬ Advances inputs n →
    (inputs (n + 1)).ahbsi.starts index = true ∧
      (inputs (n + 1)).ahbsi.addressPhase = (inputs n).ahbsi.addressPhase
  /-- and its write data during the data phase. -/
  dataHeld : ∀ n, (transfer index inputs n).isSome → ¬ Advances inputs n →
    (inputs (n + 1)).ahbsi.hwdata = (inputs n).ahbsi.hwdata
  serves : Serves (fun n => (inputs n).clkWb) (fun n => (states index start inputs n).wbo)
    fun n => (inputs n).wbi

/-- An address phase that an idle bridge sees at an edge is one that the bus
accepts. -/
def Qualified (n : Nat) : Prop :=
  (inputs n).clkAhb = true → (states index start inputs n).ahb.ahbState = .ahbIdle →
    (inputs n).ahbsi.starts index = true → (inputs n).ahbsi.hready = true

variable {index} {start} {inputs}

theorem control_states (index : Nat) (start : State)
    (noReset : ∀ n, (inputs n).rst = false) (n : Nat) :
    Control (states index start inputs n) :=
  Trace.run_invariant Control (control_reset start)
    (fun n _ control => control.step index (inputs n) (noReset n)) n

theorem ahbMove_states (index : Nat) (start : State)
    (noReset : ∀ n, (inputs n).rst = false) (n : Nat) :
    AhbMove index (inputs n) (states index start inputs n)
      (states index start inputs (n + 1)) :=
  ahbMove index (inputs n) _ (noReset n)

theorem wbMove_states (index : Nat) (start : State)
    (noReset : ∀ n, (inputs n).rst = false) (n : Nat) :
    WbMove (inputs n) (states index start inputs n) (states index start inputs (n + 1)) :=
  wbMove index (inputs n) _ (noReset n)

theorem transfer_of_advance (index : Nat) {n : Nat} (advances : Advances inputs n) :
    transfer index inputs (n + 1) =
      if (inputs n).ahbsi.starts index
      then some ((inputs n).ahbsi.addressPhase.transfer (inputs (n + 1)).ahbsi.hwdata)
      else none := by
  simp only [transfer, current, dataPhase, advances.1, advances.2, Bool.and_self, if_true]
  split <;> rfl

theorem transfer_of_stay (bus : SharedBus index start inputs) {n : Nat}
    (stays : ¬ Advances inputs n) :
    transfer index inputs (n + 1) = transfer index inputs n := by
  have edge : ((inputs n).clkAhb && (inputs n).ahbsi.hready) = false := by
    simpa [Advances] using stays
  have held := bus.dataHeld n
  simp only [transfer, current, Option.isSome_map] at held
  simp only [transfer, current, dataPhase, edge, Bool.false_eq_true, if_false]
  cases owned : dataPhase (fun n => (inputs n).clkAhb) (fun n => (inputs n).ahbsi) index n with
  | none => rfl
  | some a => rw [held (by simp [owned]) stays]

theorem transfer_none_of_stay {n : Nat} (stays : ¬ Advances inputs n)
    (free : transfer index inputs n = none) : transfer index inputs (n + 1) = none := by
  have edge : ((inputs n).clkAhb && (inputs n).ahbsi.hready) = false := by
    simpa [Advances] using stays
  simp only [transfer, current, Option.map_eq_none_iff, dataPhase, edge, Bool.false_eq_true,
    if_false] at free ⊢
  exact free

/-- What the bridge holds belongs to the transfer whose data phase it owns. -/
structure Owns (index : Nat) (start : State) (inputs : Nat → Inputs) (n : Nat) : Prop where
  data : (states index start inputs n).ahb.ahbState = .ahbDataPhase →
    ∃ t, transfer index inputs n = some t ∧
      ({ (states index start inputs n).held with dat := (inputs n).ahbsi.hwdata }).normal =
        request t
  wait : (states index start inputs n).ahb.ahbState = .ahbWaitAck →
    ∃ t, transfer index inputs n = some t ∧
      (states index start inputs n).held.normal = request t
  cleanup : (states index start inputs n).ahb.ahbState = .ahbCleanup →
    ∃ t, transfer index inputs n = some t
  busy : (states index start inputs n).wb.wbState = .wbStart ∨
      (states index start inputs n).wb.wbState = .wbWait →
    (states index start inputs n).wbo.request = (states index start inputs n).held

/-- The bus advances only when the bridge is idle, -/
theorem Owns.idle_of_advance (bus : SharedBus index start inputs) {n : Nat}
    (owns : Owns index start inputs n) (advances : Advances inputs n) :
    (states index start inputs n).ahb.ahbState = .ahbIdle := by
  have ready : (transfer index inputs n).isSome →
      (states index start inputs n).ahb.ahbState = .ahbIdle := by
    intro owned
    have same := bus.owned n owned
    rw [advances.2] at same
    simpa [State.ahbso, (control_states index start bus.noReset n).hready] using same.symm
  cases phase : (states index start inputs n).ahb.ahbState with
  | ahbIdle => rfl
  | ahbDataPhase =>
      obtain ⟨t, owned, _⟩ := owns.data phase
      exact phase ▸ ready (by simp [owned])
  | ahbWaitAck =>
      obtain ⟨t, owned, _⟩ := owns.wait phase
      exact phase ▸ ready (by simp [owned])
  | ahbCleanup =>
      obtain ⟨t, owned⟩ := owns.cleanup phase
      exact phase ▸ ready (by simp [owned])

/-- and an idle bridge stays idle when the bus does not advance. -/
theorem stays_idle (bus : SharedBus index start inputs) {n : Nat}
    (qualified : Qualified index start inputs n) (stays : ¬ Advances inputs n)
    (idle : (states index start inputs n).ahb.ahbState = .ahbIdle) :
    (states index start inputs (n + 1)).ahb.ahbState = .ahbIdle ∧
      (states index start inputs (n + 1)).ahb.ahbHrdata =
        (states index start inputs n).ahb.ahbHrdata := by
  rcases ahbMove_states index start bus.noReset n with
    ⟨state, _, hrdata, _, _, _, _⟩ | ⟨tick, _, starts, _, _, _⟩ | ⟨_, data, _, _, _⟩ |
    ⟨_, waiting, _, _, _, _⟩ | ⟨_, cleanup, _, _, _, _⟩
  · exact ⟨state.trans idle, hrdata⟩
  · exact absurd ⟨tick, qualified tick idle starts⟩ stays
  · simp [idle] at data
  · simp [idle] at waiting
  · simp [idle] at cleanup

theorem wb_quiet_of_idle (index : Nat) (start : State)
    (noReset : ∀ n, (inputs n).rst = false) {n : Nat}
    (quiet : (states index start inputs n).ahb.ahbState = .ahbIdle ∨
      (states index start inputs n).ahb.ahbState = .ahbDataPhase) :
    (states index start inputs n).wb.wbState = .wbIdle ∧
      (states index start inputs (n + 1)).wb.wbState = .wbIdle := by
  have control := control_states index start noReset n
  have idle := control.wbIdle_of_quiet quiet
  have low : (states index start inputs n).wb.wbReqChain.sync = false :=
    congrArg (fun link => link.reqChain.sync) (control.link_of_quiet quiet)
  refine ⟨idle, ?_⟩
  rcases wbMove_states index start noReset n <;> simp_all

theorem held_of_waitAck (noReset : ∀ n, (inputs n).rst = false) {n : Nat}
    (waiting : (states index start inputs n).ahb.ahbState = .ahbWaitAck) :
    (states index start inputs (n + 1)).held = (states index start inputs n).held := by
  rcases ahbMove_states index start noReset n with
    ⟨_, held, _, _, _, _, _⟩ | ⟨_, idle, _, _, _, _⟩ | ⟨_, data, _, _, _⟩ |
    ⟨_, _, _, _, held, _⟩ | ⟨_, cleanup, _, _, _, _⟩
  · exact held
  · simp [waiting] at idle
  · simp [waiting] at data
  · exact held
  · simp [waiting] at cleanup

private theorem owns_busy (bus : SharedBus index start inputs) {n : Nat}
    (owns : Owns index start inputs n)
    (busy : (states index start inputs (n + 1)).wb.wbState = .wbStart ∨
      (states index start inputs (n + 1)).wb.wbState = .wbWait) :
    (states index start inputs (n + 1)).wbo.request =
      (states index start inputs (n + 1)).held := by
  have control := control_states index start bus.noReset n
  rcases wbMove_states index start bus.noReset n with
    ⟨state, wbo, _, _, _, _, _⟩ | ⟨_, idle, seen, _, wbo⟩ | ⟨_, started, _, wbo⟩ |
    ⟨_, _, _, state, _⟩ | ⟨_, _, _, state⟩
  · rw [state] at busy
    rw [held_of_waitAck bus.noReset (control.waitAck_of_busy busy), wbo, owns.busy busy]
  · rw [held_of_waitAck bus.noReset (control.waitAck_of_seen idle seen), wbo]
  · have was : (states index start inputs n).wb.wbState = .wbStart ∨
        (states index start inputs n).wb.wbState = .wbWait := Or.inl started
    rw [held_of_waitAck bus.noReset (control.waitAck_of_busy was), wbo, ← owns.busy was]
    rfl
  · simp [state] at busy
  · simp [state] at busy

theorem owns_states (bus : SharedBus index start inputs)
    (qualified : ∀ n, Qualified index start inputs n) (n : Nat) :
    Owns index start inputs n := by
  induction n with
  | zero =>
      constructor <;> intro phase
      · cases phase
      · cases phase
      · cases phase
      · rcases phase with phase | phase <;> cases phase
  | succ n owns =>
      have busy := owns_busy bus owns
      by_cases advances : Advances inputs n
      · have idle := owns.idle_of_advance bus advances
        have next := transfer_of_advance index advances
        rcases ahbMove_states index start bus.noReset n with
          ⟨state, _, _, _, _, _, _⟩ | ⟨tick, _, starts, state, held, _⟩ | ⟨_, data, _, _, _⟩ |
          ⟨_, waiting, _, _, _, _⟩ | ⟨_, cleanup, _, _, _, _⟩
        · constructor <;> simp_all
        · rw [if_pos starts] at next
          cases write : (inputs n).ahbsi.hwrite <;> constructor <;>
            simp_all [Request.normal, request, AddressPhase.transfer, SlvIn.addressPhase]
        · simp [idle] at data
        · simp [idle] at waiting
        · simp [idle] at cleanup
      · have next := transfer_of_stay bus advances
        have stays := stays_idle bus (qualified n) advances
        rcases ahbMove_states index start bus.noReset n with
          ⟨state, held, _, _, _, _, _⟩ | ⟨_, idle, _, state, _, _⟩ | ⟨_, data, state, held, _⟩ |
          ⟨_, waiting, _, state, _, _⟩ | ⟨_, cleanup, _, state, _, _⟩
        · refine ⟨fun data' => ?_, fun wait' => ?_, fun cleanup' => ?_, busy⟩
          · obtain ⟨t, owned, same⟩ := owns.data (state.symm.trans data')
            rw [next, held, bus.dataHeld n (by simp [owned]) advances]
            exact ⟨t, owned, same⟩
          · rw [next, held]
            exact owns.wait (state.symm.trans wait')
          · rw [next]
            exact owns.cleanup (state.symm.trans cleanup')
        · obtain ⟨idle', _⟩ := stays idle
          refine ⟨?_, ?_, ?_, busy⟩ <;> simp [idle']
        · refine ⟨?_, fun _ => ?_, ?_, busy⟩
          · simp [state]
          · rw [next, held]
            exact owns.data data
          · simp [state]
        · obtain ⟨t, owned, _⟩ := owns.wait waiting
          refine ⟨?_, ?_, fun _ => ⟨t, next.trans owned⟩, busy⟩ <;> simp [state]
        · refine ⟨?_, ?_, ?_, busy⟩ <;> simp [state]

/-- The data with which the bridge's current access has been answered, if it
has. -/
def State.answered (s : State) : Option (BitVec 32) :=
  match s.ahb.ahbState with
  | .ahbIdle => some s.ahb.ahbHrdata
  | .ahbDataPhase => none
  | .ahbWaitAck => if s.wb.wbState = .wbDone then some s.wb.wbHrdataReg else none
  | .ahbCleanup => some s.ahb.ahbHrdata

/-- The exchange of the data phase on the bus, once it has been answered. -/
def openExchange (t : Option Transfer) (answered : Option (BitVec 32)) :
    List (Request × BitVec 32) :=
  match t, answered with
  | some t, some data => [(request t, data)]
  | _, _ => []

@[simp]
theorem openExchange_none (t : Option Transfer) : openExchange t none = [] := by
  cases t <;> rfl

theorem wbExchanges_succ_of_quiet (index : Nat) (start : State)
    (noReset : ∀ n, (inputs n).rst = false) {n : Nat}
    (quiet : ¬ ((inputs n).clkWb = true ∧
      (states index start inputs n).wb.wbState = .wbWait ∧ (inputs n).wbi.ack = true)) :
    wbExchanges index start inputs (n + 1) = wbExchanges index start inputs n := by
  refine Trace.history_succ_none (if_neg ?_)
  have cyc := (control_states index start noReset n).cyc
  simp only [Bool.and_eq_true, State.wbo, cyc, decide_eq_true_eq]
  exact quiet

theorem completed_succ_of_stay {n : Nat} (stays : ¬ Advances inputs n) :
    completed index start inputs (n + 1) = completed index start inputs n := by
  refine Trace.history_succ_none (if_neg ?_)
  simpa [Advances] using stays

theorem completed_succ_of_advance (index : Nat) (start : State) {n : Nat}
    (advances : Advances inputs n) :
    completed index start inputs (n + 1) = completed index start inputs n ++
      ((transfer index inputs n).map fun t =>
        (t, (states index start inputs n).ahb.ahbHrdata)).toList := by
  rw [completed, Ahb.completed, Trace.history_succ, advances.1, advances.2]
  rfl

private theorem closed_of_advance (noReset : ∀ n, (inputs n).rst = false) {n : Nat}
    (idle : (states index start inputs n).ahb.ahbState = .ahbIdle)
    (advances : Advances inputs n) :
    openExchange (transfer index inputs (n + 1))
      (states index start inputs (n + 1)).answered = [] := by
  have wbIdle := (wb_quiet_of_idle index start noReset
    (Or.inl idle)).2
  rw [transfer_of_advance index advances]
  rcases ahbMove_states index start noReset n with
    ⟨_, _, _, unstarted, _, _, _⟩ | ⟨_, _, starts, state, _, _⟩ | ⟨_, data, _, _, _⟩ |
    ⟨_, waiting, _, _, _, _⟩ | ⟨_, cleanup, _, _, _, _⟩
  · have none : (inputs n).ahbsi.starts index = false := by
      simpa using fun starts => unstarted ⟨advances.1, idle, starts⟩
    simp [none, openExchange]
  · cases write : (inputs n).ahbsi.hwrite <;>
      simp [State.answered, state, write, wbIdle]
  · simp [idle] at data
  · simp [idle] at waiting
  · simp [idle] at cleanup

/-- While the bridge waits, its access is answered when the slave acknowledges
it. -/
private theorem exchanges_of_waitAck (bus : SharedBus index start inputs) {n : Nat}
    (owns : Owns index start inputs n)
    (waiting : (states index start inputs n).ahb.ahbState = .ahbWaitAck)
    {done : List (Request × BitVec 32)}
    (before : (wbExchanges index start inputs n).map
        (fun exchange => (exchange.1.normal, exchange.2)) =
      done ++ openExchange (transfer index inputs n) (states index start inputs n).answered) :
    (wbExchanges index start inputs (n + 1)).map
        (fun exchange => (exchange.1.normal, exchange.2)) =
      done ++ openExchange (transfer index inputs n)
        (states index start inputs (n + 1)).answered := by
  have control := control_states index start bus.noReset n
  have seen := control.seen_of_done waiting
  have quiet := wbExchanges_succ_of_quiet index start bus.noReset
    (n := n)
  rcases ahbMove_states index start bus.noReset n with
    ⟨state, _, _, _, _, _, _⟩ | ⟨_, idle, _, _, _, _⟩ | ⟨_, data, _, _, _⟩ |
    ⟨_, _, answered, state, _, hrdata⟩ | ⟨_, cleanup, _, _, _, _⟩
  · rw [waiting] at state
    rcases wbMove_states index start bus.noReset n with
      ⟨wbState, _, rdt, _, _, unserved, _⟩ | ⟨_, idle, _, wbState, _⟩ |
      ⟨_, started, wbState, _⟩ | ⟨tick, wbWait, ack, wbState, rdt⟩ | ⟨_, done, withdrawn, _⟩
    · rw [quiet unserved, before]
      simp [State.answered, waiting, state, wbState, rdt]
    · rw [quiet (by simp [idle]), before]
      simp [State.answered, waiting, state, idle, wbState]
    · rw [quiet (by simp [started]), before]
      simp [State.answered, waiting, state, started, wbState]
    · obtain ⟨t, owned, same⟩ := owns.wait waiting
      have one : wbExchanges index start inputs (n + 1) =
          wbExchanges index start inputs n ++
            [((states index start inputs n).wbo.request, (inputs n).wbi.rdt)] :=
        Trace.history_succ_some (by simp [tick, ack, State.wbo, control.cyc, wbWait])
      rw [one, List.map_append, before, List.map_cons, owns.busy (Or.inr wbWait), same]
      simp [State.answered, waiting, state, wbWait, wbState, rdt, owned, openExchange]
    · simp [seen done] at withdrawn
  · simp [waiting] at idle
  · simp [waiting] at data
  · have wbDone := control.done_of_answered waiting answered
    rw [quiet (by simp [wbDone]), before]
    simp [State.answered, waiting, state, wbDone, hrdata]
  · simp [waiting] at cleanup

private theorem answered_of_data (noReset : ∀ n, (inputs n).rst = false) {n : Nat}
    (data : (states index start inputs n).ahb.ahbState = .ahbDataPhase) :
    (states index start inputs (n + 1)).answered = none := by
  have wbIdle := (wb_quiet_of_idle index start noReset
    (Or.inr data)).2
  rcases ahbMove_states index start noReset n with
    ⟨state, _, _, _, _, _, _⟩ | ⟨_, idle, _, _, _, _⟩ | ⟨_, _, state, _, _⟩ |
    ⟨_, waiting, _, _, _, _⟩ | ⟨_, cleanup, _, _, _, _⟩
  · simp [State.answered, state, data]
  · simp [data] at idle
  · simp [State.answered, state, wbIdle]
  · simp [data] at waiting
  · simp [data] at cleanup

private theorem answered_of_cleanup (noReset : ∀ n, (inputs n).rst = false) {n : Nat}
    (cleanup : (states index start inputs n).ahb.ahbState = .ahbCleanup) :
    (states index start inputs (n + 1)).answered =
      some (states index start inputs n).ahb.ahbHrdata := by
  rcases ahbMove_states index start noReset n with
    ⟨state, _, hrdata, _, _, _, _⟩ | ⟨_, idle, _, _, _, _⟩ | ⟨_, data, _, _, _⟩ |
    ⟨_, waiting, _, _, _, _⟩ | ⟨_, _, _, state, _, hrdata⟩
  · simp [State.answered, state, cleanup, hrdata]
  · simp [cleanup] at idle
  · simp [cleanup] at data
  · simp [cleanup] at waiting
  · simp [State.answered, state, hrdata]

/-- The Wishbone exchanges are the completed transfers, and the one whose data
phase goes on once it has been answered. -/
theorem exchanges_eq (bus : SharedBus index start inputs)
    (qualified : ∀ n, Qualified index start inputs n) (n : Nat) :
    (wbExchanges index start inputs n).map (fun exchange => (exchange.1.normal, exchange.2)) =
      (completed index start inputs n).map (fun exchange =>
          (request exchange.1, exchange.2)) ++
        openExchange (transfer index inputs n) (states index start inputs n).answered := by
  induction n with
  | zero => rfl
  | succ n ih =>
      have owns := owns_states bus qualified n
      have control := control_states index start bus.noReset n
      have quiet := wbExchanges_succ_of_quiet index start bus.noReset
        (n := n)
      by_cases advances : Advances inputs n
      · have idle := owns.idle_of_advance bus advances
        have wbIdle := (wb_quiet_of_idle index start bus.noReset
          (Or.inl idle)).1
        rw [quiet (by simp [wbIdle]), ih, completed_succ_of_advance index start advances,
          closed_of_advance bus.noReset idle advances]
        cases transfer index inputs n <;>
          simp [openExchange, State.answered, idle]
      rw [completed_succ_of_stay advances, transfer_of_stay bus advances]
      cases phase : (states index start inputs n).ahb.ahbState with
      | ahbIdle =>
          have wbIdle := (wb_quiet_of_idle index start bus.noReset
            (Or.inl phase)).1
          obtain ⟨state, hrdata⟩ := stays_idle bus (qualified n) advances phase
          rw [quiet (by simp [wbIdle]), ih]
          simp [State.answered, phase, state, hrdata]
      | ahbDataPhase =>
          have wbIdle := (wb_quiet_of_idle index start bus.noReset
            (Or.inr phase)).1
          rw [quiet (by simp [wbIdle]), ih, answered_of_data bus.noReset phase]
          simp [State.answered, phase]
      | ahbWaitAck => exact exchanges_of_waitAck bus owns phase ih
      | ahbCleanup =>
          have notWait : (states index start inputs n).wb.wbState ≠ .wbWait := fun wait => by
            simp [control.waitAck_of_busy (Or.inr wait)] at phase
          rw [quiet (by simp [notWait]), ih, answered_of_cleanup bus.noReset phase]
          simp [State.answered, phase]

/-- Each Wishbone cycle is acknowledged once, but for the current one. -/
theorem wbRequests_eq (index : Nat) (start : State) (noReset : ∀ n, (inputs n).rst = false)
    (n : Nat) :
    wbRequests index start inputs n = (wbExchanges index start inputs n).map Prod.fst ++
      if (states index start inputs n).wbo.cyc
      then [(states index start inputs n).wbo.request] else [] := by
  have wait : ∀ n, (states index start inputs n).wbo.cyc = true →
      (states index start inputs n).wb.wbState = .wbWait := fun n cyc => by
    simpa [State.wbo, (control_states index start noReset n).cyc] using cyc
  rw [wbExchanges, ← servedRequests_eq_map]
  refine pulses_eq_served _ _ _ (fun n cyc unanswered => ?_)
    (fun n cyc tick ack => ?_) n
  · rcases wbMove_states index start noReset n with
      ⟨_, wbo, _, _, _, _, _⟩ | ⟨_, idle, _, _, _⟩ | ⟨_, started, _, _⟩ | ⟨tick, _, ack, _, _⟩ |
      ⟨_, done, _, _⟩
    · exact wbo
    · simp [wait n cyc] at idle
    · simp [wait n cyc] at started
    · exact absurd ⟨tick, ack⟩ unanswered
    · simp [wait n cyc] at done
  · have cyc' := (control_states index start noReset (n + 1)).cyc
    rcases wbMove_states index start noReset n with
      ⟨_, _, _, _, _, unserved, _⟩ | ⟨_, idle, _, _, _⟩ | ⟨_, started, _, _⟩ |
      ⟨_, _, _, state, _⟩ | ⟨_, done, _, _⟩
    · exact absurd ⟨tick, wait n cyc, ack⟩ unserved
    · simp [wait n cyc] at idle
    · simp [wait n cyc] at started
    · simp [State.wbo, cyc', state]
    · simp [wait n cyc] at done

/-- The bridge holds its Wishbone request until an edge of `clk_wb` with the acknowledge, -/
theorem wbo_held (index : Nat) (start : State) (noReset : ∀ n, (inputs n).rst = false) {n : Nat}
    (raised : (states index start inputs n).wbo.cyc = true)
    (unanswered : ¬ ((inputs n).clkWb = true ∧ (inputs n).wbi.ack = true)) :
    (states index start inputs (n + 1)).wbo = (states index start inputs n).wbo := by
  have wait : (states index start inputs n).wb.wbState = .wbWait := by
    simpa [State.wbo, (control_states index start noReset n).cyc] using raised
  rcases wbMove_states index start noReset n with
    ⟨_, wbo, _, _, _, _, _⟩ | ⟨_, idle, _, _, _⟩ | ⟨_, started, _, _⟩ | ⟨tick, _, ack, _, _⟩ |
    ⟨_, done, _, _⟩
  · exact wbo
  · simp [wait] at idle
  · simp [wait] at started
  · exact absurd ⟨tick, ack⟩ unanswered
  · simp [wait] at done

/-- and withdraws it then. -/
theorem wbo_dropped (index : Nat) (start : State) (noReset : ∀ n, (inputs n).rst = false) {n : Nat}
    (raised : (states index start inputs n).wbo.cyc = true) (tick : (inputs n).clkWb = true)
    (ack : (inputs n).wbi.ack = true) :
    (states index start inputs (n + 1)).wbo.cyc = false := by
  have wait : (states index start inputs n).wb.wbState = .wbWait := by
    simpa [State.wbo, (control_states index start noReset n).cyc] using raised
  have cyc := (control_states index start noReset (n + 1)).cyc
  rcases wbMove_states index start noReset n with
    ⟨_, _, _, _, _, unserved, _⟩ | ⟨_, idle, _, _, _⟩ | ⟨_, started, _, _⟩ |
    ⟨_, _, _, state, _⟩ | ⟨_, done, _, _⟩
  · exact absurd ⟨tick, wait, ack⟩ unserved
  · simp [wait] at idle
  · simp [wait] at started
  · simp [State.wbo, cyc, state]
  · simp [wait] at done

/-- Between two edges of `clk_wb` the Wishbone side is still. -/
theorem wb_still (index : Nat) (start : State) {n : Nat} (quiet : (inputs n).clkWb = false) :
    (states index start inputs (n + 1)).wb = (states index start inputs n).wb := by
  rw [states, Trace.run_succ, step, quiet, if_neg Bool.false_ne_true]

end Lists

/-! ### Every transfer completes -/

section Progress

variable {index : Nat} {start : State} {inputs : Nat → Inputs}

theorem wbReqChain_succ (index : Nat) (start : State)
    (noReset : ∀ n, (inputs n).rst = false) (n : Nat) :
    (states index start inputs (n + 1)).wb.wbReqChain =
      if (inputs n).clkWb
      then (states index start inputs n).wb.wbReqChain.shift
        (states index start inputs n).ahb.ahbReq
      else (states index start inputs n).wb.wbReqChain := by
  rw [states, Trace.run_succ]
  cases tick : (inputs n).clkWb with
  | false => simp [step, tick]
  | true =>
      simp only [step, noReset n, tick, wbEdge, if_true, Bool.false_eq_true, if_false]
      cases phase : (Trace.run (step index) start.reset inputs n).wb.wbState <;>
        dsimp only <;> repeat' split
      all_goals rfl

theorem ahbAckChain_succ (index : Nat) (start : State)
    (noReset : ∀ n, (inputs n).rst = false) (n : Nat) :
    (states index start inputs (n + 1)).ahb.ahbAckChain =
      if (inputs n).clkAhb
      then (states index start inputs n).ahb.ahbAckChain.shift
        (states index start inputs n).wb.wbAck
      else (states index start inputs n).ahb.ahbAckChain := by
  rw [states, Trace.run_succ]
  cases tick : (inputs n).clkAhb with
  | false => simp [step, tick]
  | true =>
      simp only [step, noReset n, tick, ahbEdge, if_true, Bool.false_eq_true, if_false]
      cases phase : (Trace.run (step index) start.reset inputs n).ahb.ahbState <;>
        dsimp only <;> repeat' split
      all_goals rfl

variable (bus : SharedBus index start inputs)
include bus

/-- A request that stays visible to the Wishbone side is served, and the
acknowledge stays. -/
private theorem done_of_seen {from_ : Nat}
    (seen : ∀ n, from_ ≤ n → (states index start inputs n).wb.wbReqChain.sync = true) :
    ∃ settled, from_ ≤ settled ∧
      ∀ n, settled ≤ n → (states index start inputs n).wb.wbState = .wbDone := by
  have persists : ∀ n, from_ ≤ n → (states index start inputs n).wb.wbState = .wbDone →
      (states index start inputs (n + 1)).wb.wbState = .wbDone := by
    intro n after done
    have up := seen n after
    rcases wbMove_states index start bus.noReset n <;> simp_all
  have fromWait : Trace.LeadsTo
      (fun n => from_ ≤ n ∧ (states index start inputs n).wb.wbState = .wbWait)
      (fun n => from_ ≤ n ∧ (states index start inputs n).wb.wbState = .wbDone) := by
    refine Trace.LeadsTo.of_event
      (fun n => (inputs n).clkWb = true ∧ (inputs n).wbi.ack = true) ?_ ?_ ?_
    · rintro n ⟨_, waiting⟩
      exact bus.serves n (by
        simp [State.wbo, (control_states index start bus.noReset n).cyc, waiting])
    · rintro n ⟨after, waiting⟩ quiet
      refine ⟨by omega, ?_⟩
      rcases wbMove_states index start bus.noReset n <;> simp_all
    · rintro n ⟨after, waiting⟩ ⟨tick, ack⟩
      refine ⟨by omega, ?_⟩
      rcases wbMove_states index start bus.noReset n <;> simp_all
  have fromStart : Trace.LeadsTo
      (fun n => from_ ≤ n ∧ (states index start inputs n).wb.wbState = .wbStart)
      (fun n => from_ ≤ n ∧ (states index start inputs n).wb.wbState = .wbWait) := by
    refine Trace.LeadsTo.of_recurs bus.wbClock ?_ ?_
    · rintro n ⟨after, started⟩ quiet
      refine ⟨by omega, ?_⟩
      rcases wbMove_states index start bus.noReset n <;> simp_all
    · rintro n ⟨after, started⟩ tick
      refine ⟨by omega, ?_⟩
      rcases wbMove_states index start bus.noReset n <;> simp_all
  have fromIdle : Trace.LeadsTo
      (fun n => from_ ≤ n ∧ (states index start inputs n).wb.wbState = .wbIdle)
      (fun n => from_ ≤ n ∧ (states index start inputs n).wb.wbState = .wbStart) := by
    refine Trace.LeadsTo.of_recurs bus.wbClock ?_ ?_
    · rintro n ⟨after, idle⟩ quiet
      refine ⟨by omega, ?_⟩
      rcases wbMove_states index start bus.noReset n <;> simp_all
    · rintro n ⟨after, idle⟩ tick
      have up := seen n after
      refine ⟨by omega, ?_⟩
      rcases wbMove_states index start bus.noReset n <;> simp_all
  obtain ⟨settled, after, _, done⟩ : ∃ m, from_ ≤ m ∧ from_ ≤ m ∧
      (states index start inputs m).wb.wbState = .wbDone := by
    cases phase : (states index start inputs from_).wb.wbState with
    | wbIdle => exact (fromIdle.trans (fromStart.trans fromWait)) from_ ⟨le_rfl, phase⟩
    | wbStart => exact (fromStart.trans fromWait) from_ ⟨le_rfl, phase⟩
    | wbWait => exact fromWait from_ ⟨le_rfl, phase⟩
    | wbDone => exact ⟨from_, le_rfl, le_rfl, phase⟩
  refine ⟨settled, after, fun n le => ?_⟩
  induction n, le using Nat.le_induction with
  | base => exact done
  | succ n le ih => exact persists n (by omega) ih

theorem cleanup_of_waitAck :
    Trace.LeadsTo (fun n => (states index start inputs n).ahb.ahbState = .ahbWaitAck)
      (fun n => (states index start inputs n).ahb.ahbState = .ahbCleanup) := by
  intro n waiting
  by_contra never
  push Not at never
  -- Unanswered, the request stays up for ever and travels the whole ring.
  have stuck : ∀ m, n ≤ m → (states index start inputs m).ahb.ahbState = .ahbWaitAck := by
    intro m le
    induction m, le using Nat.le_induction with
    | base => exact waiting
    | succ m le ih =>
        have unanswered := never (m + 1) (by omega)
        rcases ahbMove_states index start bus.noReset m <;> simp_all
  obtain ⟨first, nLe, seen⟩ := SyncChain.eventually_sync
    (fun n => (states index start inputs n).wb.wbReqChain)
    (fun n => (states index start inputs n).ahb.ahbReq) true
    (wbReqChain_succ index start bus.noReset) bus.wbClock
    (fun m (le : n ≤ m) => by
      simp [(control_states index start bus.noReset m).req, stuck m le])
  obtain ⟨second, firstLe, done⟩ := done_of_seen bus seen
  obtain ⟨third, secondLe, answered⟩ := SyncChain.eventually_sync
    (fun n => (states index start inputs n).ahb.ahbAckChain)
    (fun n => (states index start inputs n).wb.wbAck) true
    (ahbAckChain_succ index start bus.noReset) bus.ahbClock
    (fun m (le : second ≤ m) => by
      simp [(control_states index start bus.noReset m).ack, done m le])
  obtain ⟨edge, thirdLe, tick⟩ := bus.ahbClock third
  have req := stuck edge (by omega)
  have sync := answered edge thirdLe
  have unanswered := never (edge + 1) (by omega)
  rcases ahbMove_states index start bus.noReset edge <;> simp_all

theorem idle_of_cleanup :
    Trace.LeadsTo (fun n => (states index start inputs n).ahb.ahbState = .ahbCleanup)
      (fun n => (states index start inputs n).ahb.ahbState = .ahbIdle) := by
  intro n cleanup
  by_contra never
  push Not at never
  -- The withdrawn request travels the ring as the request did.
  have stuck : ∀ m, n ≤ m → (states index start inputs m).ahb.ahbState = .ahbCleanup := by
    intro m le
    induction m, le using Nat.le_induction with
    | base => exact cleanup
    | succ m le ih =>
        have pending := never (m + 1) (by omega)
        rcases ahbMove_states index start bus.noReset m <;> simp_all
  obtain ⟨first, nLe, unseen⟩ := SyncChain.eventually_sync
    (fun n => (states index start inputs n).wb.wbReqChain)
    (fun n => (states index start inputs n).ahb.ahbReq) false
    (wbReqChain_succ index start bus.noReset) bus.wbClock
    (fun m (le : n ≤ m) => by
      simp [(control_states index start bus.noReset m).req, stuck m le])
  obtain ⟨second, firstLe, wbIdle⟩ : ∃ settled, first ≤ settled ∧
      ∀ m, settled ≤ m → (states index start inputs m).wb.wbState = .wbIdle := by
    have notBusy : ∀ m, n ≤ m → (states index start inputs m).wb.wbState ≠ .wbStart ∧
        (states index start inputs m).wb.wbState ≠ .wbWait := by
      intro m le
      have busy := (control_states index start bus.noReset m).waitAck_of_busy
      have state := stuck m le
      constructor <;> intro phase <;> simp_all
    obtain ⟨edge, firstLe, tick⟩ := bus.wbClock first
    refine ⟨edge + 1, by omega, fun m le => ?_⟩
    induction m, le using Nat.le_induction with
    | base =>
        have low := unseen edge firstLe
        have free := notBusy edge (by omega)
        cases phase : (states index start inputs edge).wb.wbState <;>
          rcases wbMove_states index start bus.noReset edge <;> simp_all
    | succ m le ih =>
        have low := unseen m (by omega)
        rcases wbMove_states index start bus.noReset m <;> simp_all
  obtain ⟨third, secondLe, withdrawn⟩ := SyncChain.eventually_sync
    (fun n => (states index start inputs n).ahb.ahbAckChain)
    (fun n => (states index start inputs n).wb.wbAck) false
    (ahbAckChain_succ index start bus.noReset) bus.ahbClock
    (fun m (le : second ≤ m) => by
      simp [(control_states index start bus.noReset m).ack, wbIdle m le])
  obtain ⟨edge, thirdLe, tick⟩ := bus.ahbClock third
  have cleanup' := stuck edge (by omega)
  have sync := withdrawn edge thirdLe
  have pending := never (edge + 1) (by omega)
  rcases ahbMove_states index start bus.noReset edge <;> simp_all

end Progress

end AhbBridge

end Cocoapuffs

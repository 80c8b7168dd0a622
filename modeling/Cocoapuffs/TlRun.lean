import Cocoapuffs.TlRefinement

/-!
# Runs of the converters

Traces of the state machine: which request beats it has taken, which bus
requests have been served and which response beats have been delivered, and how
these stand to the sequential memory as long as `d_ready` is high.
-/

namespace Cocoapuffs

namespace TlConverter

open TileLink

/-- A trace of the state machine from a reset on, with no further reset. -/
structure Runs (p : Profile) (core : Nat → Core) (inputs : Nat → Inputs) : Prop where
  start : ∃ s : Core, core 0 = s.reset
  next : ∀ n, core (n + 1) = Core.step p (inputs n) (core n)
  noReset : ∀ n, (inputs n).rst = false

/-- The request beats taken before an instant. -/
def accepted (core : Nat → Core) (inputs : Nat → Inputs) : Nat → List AType :=
  Trace.history fun n =>
    if (inputs n).clk && ((inputs n).a.valid && (core n).aReady) then some (inputs n).a
    else none

/-- The bus requests acknowledged before an instant. -/
def served (core : Nat → Core) (inputs : Nat → Inputs) : Nat → List Request :=
  servedRequests (fun n => (inputs n).clk) (fun n => (core n).wbO) fun n => (inputs n).wbI

/-- The response beats delivered before an instant. -/
def delivered (core : Nat → Core) (inputs : Nat → Inputs) : Nat → List DType :=
  Trace.history fun n =>
    if (inputs n).clk && ((core n).d.valid && (inputs n).dReady) then some (core n).d
    else none

/-- The response beat on the channel. -/
def Core.onChannel (s : Core) : List DType := if s.d.valid then [s.d] else []

/-- What a trace has done before an instant to a memory. -/
def doneBefore (memory : WordMemory) (core : Nat → Core) (inputs : Nat → Inputs)
    (n : Nat) : Outcome where
  memory := Request.applyAll memory (served core inputs n)
  writes := (served core inputs n).filter Request.we
  responses := delivered core inputs n ++ (core n).onChannel

section Run

variable {p : Profile} {core : Nat → Core} {inputs : Nat → Inputs}

theorem Runs.signals (runs : Runs p core inputs) (n : Nat) : Signals (core n) := by
  induction n with
  | zero =>
      obtain ⟨s, start⟩ := runs.start
      rw [start]
      exact signals_reset s
  | succ n ih =>
      rw [runs.next]
      exact ih.step p (inputs n) (runs.noReset n)

theorem Runs.next_of_tick (runs : Runs p core inputs) {n : Nat}
    (tick : (inputs n).clk = true) : core (n + 1) = (core n).edge p (inputs n) := by
  simp [runs.next, Core.step, tick, runs.noReset n]

theorem Runs.next_of_quiet (runs : Runs p core inputs) {n : Nat}
    (quiet : (inputs n).clk = false) : core (n + 1) = core n := by
  simp [runs.next, Core.step, quiet]

/-- The requests served are all that changes what has been done, besides the
response registered at the edge. -/
theorem Runs.doneBefore_succ (runs : Runs p core inputs) (memory : WordMemory) {n : Nat}
    (tick : (inputs n).clk = true)
    (dReady : (core n).d.valid = true → (inputs n).dReady = true) :
    doneBefore memory core inputs (n + 1) =
      (core n).doneAfter p (inputs n) (doneBefore memory core inputs n) := by
  have moved : delivered core inputs (n + 1) =
      delivered core inputs n ++ (core n).onChannel := by
    rw [delivered, Trace.history_succ]
    congr 1
    cases valid : (core n).d.valid with
    | true => simp [Core.onChannel, tick, valid, dReady valid]
    | false => simp [Core.onChannel, valid]
  have onChannel : (core (n + 1)).onChannel =
      if ((core n).edge p (inputs n)).d.valid then [((core n).edge p (inputs n)).d]
      else [] := by
    rw [runs.next_of_tick tick, Core.onChannel]
  by_cases now : (core n).wbO.cyc = true ∧ (inputs n).wbI.ack = true
  · have one : served core inputs (n + 1) =
        served core inputs n ++ [(core n).wbO.request] :=
      Trace.history_succ_some (by simp [tick, now])
    by_cases write : (core n).wbO.request.we = true
    · simp [doneBefore, Core.doneAfter, Outcome.serve, Outcome.write, Outcome.respond, now,
        one, write, moved, onChannel]
    · simp [doneBefore, Core.doneAfter, Outcome.serve, Outcome.respond, now, one, write,
        moved, onChannel, Request.apply_of_read]
  · have none : served core inputs (n + 1) = served core inputs n :=
      Trace.history_succ_none (by simpa [tick] using now)
    have notBoth : ((core n).wbO.cyc && (inputs n).wbI.ack) = false := by
      simpa using now
    simp [doneBefore, Core.doneAfter, Outcome.respond, notBoth, none, moved, onChannel]

theorem Runs.doneBefore_of_quiet (runs : Runs p core inputs) (memory : WordMemory) {n : Nat}
    (quiet : (inputs n).clk = false) :
    doneBefore memory core inputs (n + 1) = doneBefore memory core inputs n := by
  have served' : served core inputs (n + 1) = served core inputs n :=
    Trace.history_succ_none (by simp [quiet])
  have delivered' : delivered core inputs (n + 1) = delivered core inputs n :=
    Trace.history_succ_none (by simp [quiet])
  simp [doneBefore, served', delivered', runs.next_of_quiet quiet]

/-- What the converter needs of the bus at each rising edge: no acknowledge but
to a raised cycle, while it waits for one, and reads of the memory as the
served requests have left it. -/
structure HonestBus (core : Nat → Core) (inputs : Nat → Inputs) (memory : WordMemory) :
    Prop where
  raised : ∀ n, (inputs n).clk = true → (core n).Waiting → (inputs n).wbI.ack = true →
    (core n).wbO.cyc = true
  read : ∀ n, (inputs n).clk = true → (core n).wbO.cyc = true →
    (inputs n).wbI.ack = true → (core n).wbO.we = false →
    (inputs n).wbI.rdt =
      (Request.applyAll memory (served core inputs n)).word (core n).wbO.adr

theorem HonestBus.of_slave {memory : Nat → WordMemory}
    (slave : MemorySlave (fun n => (inputs n).clk) (fun n => (core n).wbO)
      (fun n => (inputs n).wbI) memory) : HonestBus core inputs (memory 0) where
  raised n tick _ ack := slave.ack_cyc n tick ack
  read n tick _ ack read := by
    have word := slave.read n tick ack read
    rw [slave.memory_eq n] at word
    exact word

/-- Along a run the converter keeps its place in the sequential run of the
beats it has taken. -/
theorem Runs.tracks (runs : Runs p core inputs) {memory : WordMemory}
    (honest : HonestBus core inputs memory)
    (dReady : ∀ n, (core n).state = .tlResp ∨ (core n).d.valid = true → (inputs n).dReady = true)
    (n : Nat)
    (admissible : Burst.Admissible p (Burst.start memory) (accepted core inputs n)) :
    Tracks p (core n) (doneBefore memory core inputs n)
      ((accepted core inputs n).foldl (Burst.accept p) (Burst.start memory)) := by
  induction n with
  | zero =>
      obtain ⟨s, start⟩ := runs.start
      refine .idle ?_ rfl ?_
      · rw [start]
        rfl
      · simp [accepted, Burst.start, doneBefore, served, servedRequests, delivered, start,
          Core.onChannel, Core.reset, DType.new]
  | succ n ih =>
      have tracks := ih (Burst.admissible_of_prefix
        (Trace.history_prefix _ (Nat.le_succ n)) admissible)
      cases tick : (inputs n).clk with
      | false =>
          have same : accepted core inputs (n + 1) = accepted core inputs n :=
            Trace.history_succ_none (by simp [tick])
          rw [same, runs.doneBefore_of_quiet memory tick, runs.next_of_quiet tick]
          exact tracks
      | true =>
          rw [runs.doneBefore_succ memory tick fun valid => dReady n (Or.inr valid),
            runs.next_of_tick tick]
          have edge := tracks.edge (runs.signals n) (honest.raised n tick)
            (honest.read n tick) fun state => dReady n (Or.inl state)
          by_cases taken : (core n).Takes (inputs n)
          · have one : accepted core inputs (n + 1) =
                accepted core inputs n ++ [(inputs n).a] :=
              Trace.history_succ_some (by simp [tick, taken.1, taken.2])
            rw [one, Burst.admissible_append] at admissible
            rw [one, List.foldl_append]
            simpa [taken] using edge fun _ => admissible.2.1
          · have none : accepted core inputs (n + 1) = accepted core inputs n :=
              Trace.history_succ_none (by simpa [tick, Core.Takes] using taken)
            rw [none]
            simpa [taken] using edge fun now => absurd now taken

section Messages

variable (runs : Runs p core inputs) {memory : WordMemory}
  (honest : HonestBus core inputs memory) (dReady : ∀ n, (inputs n).dReady = true)
  {n : Nat} {messages : List (Message p)}

include runs honest dReady

theorem Runs.tracks_messages
    (isPrefix : accepted core inputs n <+: messages.flatMap Message.beats) :
    Tracks p (core n) (doneBefore memory core inputs n)
      ((accepted core inputs n).foldl (Burst.accept p) (Burst.start memory)) :=
  runs.tracks honest (fun n _ => dReady n) n
    (Burst.admissible_of_prefix isPrefix (Burst.admissible_messages memory messages))

/-- The response beats are those of the sequential memory, in order. -/
theorem Runs.delivered_sequential
    (isPrefix : accepted core inputs n <+: messages.flatMap Message.beats) :
    delivered core inputs n <+: (sequential memory messages).responses := by
  have tracks := runs.tracks_messages honest dReady isPrefix
  obtain ⟨rest, whole⟩ := isPrefix
  obtain ⟨final, sequentially⟩ := Burst.foldl_messages memory messages
  rw [← whole, List.foldl_append] at sequentially
  calc delivered core inputs n
      <+: (doneBefore memory core inputs n).responses := List.prefix_append _ _
    _ <+: _ := tracks.responses
    _ <+: _ := Burst.foldl_responses p _ rest
    _ = (sequential memory messages).responses := by rw [sequentially]

/-- After whole messages the converter is where their sequential run is. -/
theorem Runs.tracks_sequential (all : accepted core inputs n = messages.flatMap Message.beats) :
    ∃ final, Tracks p (core n) (doneBefore memory core inputs n)
      ⟨sequential memory messages, 0, final⟩ := by
  have tracks := runs.tracks_messages honest dReady (by rw [all])
  obtain ⟨final, sequentially⟩ := Burst.foldl_messages memory messages
  rw [all, sequentially] at tracks
  exact ⟨final, tracks⟩

/-- Once all the responses are there, everything has been done. -/
theorem Runs.done_of_answered (all : accepted core inputs n = messages.flatMap Message.beats)
    (answered : delivered core inputs n = (sequential memory messages).responses) :
    doneBefore memory core inputs n = sequential memory messages := by
  obtain ⟨final, tracks⟩ := runs.tracks_sequential honest dReady all
  exact (tracks.outcome_of_answered rfl (by simp [doneBefore, answered])).symm

/-- When `a_ready` is offered between messages, all the responses are there. -/
theorem Runs.answered_of_ready
    (all : accepted core inputs n = messages.flatMap Message.beats)
    (ready : (core n).aReady = true) :
    delivered core inputs n = (sequential memory messages).responses := by
  obtain ⟨final, tracks⟩ := runs.tracks_sequential honest dReady all
  have signals := runs.signals n
  have outcome : sequential memory messages = doneBefore memory core inputs n :=
    (tracks.outcome_of_offering (signals.ready ready)).1
  rw [outcome]
  simp [doneBefore, Core.onChannel, signals.ready_quiet ready]

end Messages

theorem accepted_until_ready (recurs : Trace.Recurs fun n => (core n).aReady = true)
    (n : Nat) : ∃ m, n ≤ m ∧ (core m).aReady = true ∧
      accepted core inputs m = accepted core inputs n := by
  obtain ⟨later, after, ready⟩ := recurs n
  obtain ⟨wait, rfl⟩ := Nat.exists_eq_add_of_le after
  induction wait generalizing n with
  | zero => exact ⟨n, le_rfl, ready, rfl⟩
  | succ wait ih =>
      cases now : (core n).aReady with
      | true => exact ⟨n, le_rfl, now, rfl⟩
      | false =>
          have same : accepted core inputs (n + 1) = accepted core inputs n :=
            Trace.history_succ_none (by simp [now])
          obtain ⟨m, le, found, equal⟩ := ih (n + 1) (by omega)
            (by simpa [Nat.add_right_comm, Nat.add_assoc] using ready)
          exact ⟨m, by omega, found, equal.trans same⟩

/-! ### Progress -/

theorem Runs.tick_of_ready (runs : Runs p core inputs)
    (clock : Trace.Recurs fun n => (inputs n).clk = true) :
    Trace.LeadsTo (fun n => (core n).aReady = true)
      (fun n => (core n).aReady = true ∧ (inputs n).clk = true) := by
  refine Trace.LeadsTo.until_event (fun n _ => clock n) fun n ready quiet => ?_
  rw [runs.next_of_quiet (by simpa using quiet)]
  exact ready

/-- Is the converter in a state that offers `a_ready`? -/
def Core.Offering (s : Core) : Prop := s.state = .idle ∨ s.state = .aWait

def Phase.distance : Phase → Nat
  | .wbRdWait => 4
  | .alu => 3
  | .wbWrWait => 2
  | .tlResp => 1
  | _ => 0

/-- How far the converter is from offering `a_ready` again. -/
def Core.distance (s : Core) : Nat := 6 * s.beatCount.toNat + s.state.distance

theorem edge_stored (p : Profile) {s : Core} {i : Inputs} (state : s.state = .wbWrWait)
    (ack : i.wbI.ack = true) :
    (s.edge p i).state = .aWait ∨
      (s.edge p i).state = .tlResp ∧ (s.edge p i).beatCount = s.beatCount := by
  by_cases atomic : isAtomic s.savedA.opcode = true <;>
    by_cases put : isPut s.savedA.opcode = true <;>
    by_cases more : 1#8 < s.beatCount <;>
    simp [Core.edge, state, Core.wbWrWaitEdge, ack, atomic, put, more]

theorem edge_stalled (p : Profile) {s : Core} {i : Inputs} (waiting : s.Waiting)
    (silent : i.wbI.ack = false) :
    (s.edge p i).state = s.state ∧ (s.edge p i).beatCount = s.beatCount ∧
      (s.edge p i).savedA = s.savedA ∧ (s.edge p i).wbO.cyc = true := by
  rcases waiting with state | state
  · simp [Core.edge, state, Core.wbRdWaitEdge, silent]
  · by_cases atomic : isAtomic s.savedA.opcode = true <;>
      simp [Core.edge, state, Core.wbWrWaitEdge, silent, atomic]

/-- An edge with the acknowledge that the state waits for, if it waits for one,
brings the converter closer. -/
theorem edge_distance (p : Profile) {s : Core} {i : Inputs} (busy : ¬ s.Offering)
    (answered : s.Waiting → i.wbI.ack = true)
    (dReady : s.state = .tlResp → i.dReady = true) :
    (s.edge p i).Offering ∨
      ¬ (s.edge p i).Offering ∧ (s.edge p i).distance < s.distance := by
  cases state : s.state with
  | idle => exact absurd (Or.inl state) busy
  | aWait => exact absurd (Or.inr state) busy
  | wbRdWait =>
      right
      have ack := answered (Or.inl state)
      by_cases read : p.isRead s.savedA.opcode = true <;>
        simp [Core.edge, state, Core.wbRdWaitEdge, ack, read, Core.Offering,
          Core.distance, Phase.distance]
  | alu =>
      right
      simp [Core.edge, state, Core.Offering, Core.distance, Phase.distance]
  | wbWrWait =>
      have ack := answered (Or.inr state)
      rcases edge_stored p state ack with next | ⟨next, count⟩
      · exact Or.inl (Or.inr next)
      · right
        simp [Core.Offering, Core.distance, next, count, state, Phase.distance]
  | tlResp =>
      by_cases more : 1#8 < s.beatCount
      · have lowered := toNat_pred more
        have many := BitVec.lt_def.mp more
        have shrinks : 6 * (s.beatCount.toNat - 1) + 4 < 6 * s.beatCount.toNat + 1 := by
          simp at many
          omega
        by_cases put : isPut s.savedA.opcode = true <;>
          by_cases read : p.isRead s.savedA.opcode = true <;>
          simp [Core.edge, state, Core.tlRespEdge, dReady state, put, more, read, lowered,
            Core.Offering, Core.distance, Phase.distance, shrinks]
      · left
        exact Or.inl (edge_lastAnswer state (dReady state) (Or.inr more))

section Progress

variable (runs : Runs p core inputs)
  (dReady : ∀ n, (inputs n).clk = true → (core n).state = .tlResp → (inputs n).dReady = true)
  (clock : Trace.Recurs fun n => (inputs n).clk = true)
  (raised : ∀ n, (inputs n).clk = true → (core n).Waiting → (inputs n).wbI.ack = true →
    (core n).wbO.cyc = true)
  (serves : Serves (fun n => (inputs n).clk) (fun n => (core n).wbO)
    fun n => (inputs n).wbI)

include runs clock raised serves

/-- While the converter waits for the bus, the bus comes to acknowledge. -/
theorem Runs.ack_of_waiting :
    Trace.LeadsTo (fun n => (core n).Waiting)
      (fun n => (inputs n).clk = true ∧ (inputs n).wbI.ack = true) := by
  have raises : Trace.LeadsTo (fun n => (core n).Waiting ∧ (core n).wbO.cyc = false)
      (fun n => (core n).wbO.cyc = true) := by
    refine Trace.LeadsTo.of_recurs clock ?_ ?_
    · rintro n ⟨waiting, low⟩ quiet
      rw [runs.next_of_quiet (by simpa using quiet)]
      exact ⟨waiting, low⟩
    · rintro n ⟨waiting, low⟩ tick
      have silent : (inputs n).wbI.ack = false := by
        by_contra ack
        have := raised n tick waiting (by simpa using ack)
        simp [low] at this
      rw [runs.next_of_tick tick]
      exact (edge_stalled p waiting silent).2.2.2
  intro n waiting
  cases cyc : (core n).wbO.cyc with
  | true => exact serves n cyc
  | false => exact raises.trans serves n ⟨waiting, cyc⟩

include dReady

theorem Runs.offering_of_busy :
    Trace.LeadsTo (fun n => ¬ (core n).Offering) (fun n => (core n).Offering) := by
  refine Trace.LeadsTo.of_rank (fun n => (core n).distance) fun bound => ?_
  have waits : Trace.LeadsTo
      (fun n => (¬ (core n).Offering ∧ (core n).distance = bound) ∧ (core n).Waiting)
      (fun n => (core n).Offering ∨
        ¬ (core n).Offering ∧ (core n).distance < bound) := by
    refine Trace.LeadsTo.of_event
      (fun n => (inputs n).clk = true ∧ (inputs n).wbI.ack = true) ?_ ?_ ?_
    · exact fun n now => runs.ack_of_waiting clock raised serves n now.2
    · rintro n ⟨⟨busy, rank⟩, waiting⟩ quiet
      cases tick : (inputs n).clk with
      | false =>
          rw [runs.next_of_quiet tick]
          exact ⟨⟨busy, rank⟩, waiting⟩
      | true =>
          have silent : (inputs n).wbI.ack = false := by simpa [tick] using quiet
          obtain ⟨state, count, _⟩ := edge_stalled p waiting silent
          rw [runs.next_of_tick tick]
          simpa [Core.Offering, Core.distance, Core.Waiting, state, count] using
            And.intro (And.intro busy rank) waiting
    · rintro n ⟨⟨busy, rfl⟩, _⟩ ⟨tick, ack⟩
      rw [runs.next_of_tick tick]
      exact edge_distance p busy (fun _ => ack) (dReady n tick)
  have moves : Trace.LeadsTo
      (fun n => (¬ (core n).Offering ∧ (core n).distance = bound) ∧ ¬ (core n).Waiting)
      (fun n => (core n).Offering ∨
        ¬ (core n).Offering ∧ (core n).distance < bound) := by
    refine Trace.LeadsTo.of_recurs clock ?_ ?_
    · rintro n now quiet
      rw [runs.next_of_quiet (by simpa using quiet)]
      exact now
    · rintro n ⟨⟨busy, rfl⟩, notWaiting⟩ tick
      rw [runs.next_of_tick tick]
      exact edge_distance p busy (fun waiting => absurd waiting notWaiting) (dReady n tick)
  intro n now
  by_cases waiting : (core n).Waiting
  · exact waits n ⟨now, waiting⟩
  · exact moves n ⟨now, waiting⟩

theorem Runs.aReady_recurs : Trace.Recurs fun n => (core n).aReady = true := by
  have offers : Trace.LeadsTo
      (fun n => (core n).Offering ∧ (core n).aReady = false)
      (fun n => (core n).aReady = true) := by
    refine Trace.LeadsTo.of_recurs clock ?_ ?_
    · rintro n now quiet
      rw [runs.next_of_quiet (by simpa using quiet)]
      exact now
    · rintro n ⟨offering, low⟩ tick
      rw [runs.next_of_tick tick, edge_offers offering (by simp [Core.Takes, low])]
  have offered : Trace.LeadsTo (fun n => (core n).Offering)
      (fun n => (core n).aReady = true) := by
    intro n offering
    cases ready : (core n).aReady with
    | true => exact ⟨n, le_rfl, ready⟩
    | false => exact offers n ⟨offering, ready⟩
  intro n
  by_cases offering : (core n).Offering
  · exact offered n offering
  · exact (runs.offering_of_busy dReady clock raised serves).trans offered n offering

end Progress

/-- Messages that have been taken are carried out before the next beat is taken. -/
theorem Runs.completes (runs : Runs p core inputs) {memory : WordMemory}
    (honest : HonestBus core inputs memory) (dReady : ∀ n, (inputs n).dReady = true)
    (clock : Trace.Recurs fun n => (inputs n).clk = true)
    (serves : Serves (fun n => (inputs n).clk) (fun n => (core n).wbO) fun n => (inputs n).wbI)
    {n : Nat} {messages : List (Message p)}
    (all : accepted core inputs n = messages.flatMap Message.beats) :
    ∃ m, n ≤ m ∧ (core m).aReady = true ∧ accepted core inputs m = accepted core inputs n ∧
      delivered core inputs m = (sequential memory messages).responses ∧
      doneBefore memory core inputs m = sequential memory messages := by
  have recurs := runs.aReady_recurs (fun n _ _ => dReady n) clock honest.raised serves
  obtain ⟨m, after, ready, same⟩ := accepted_until_ready recurs n
  have answered := runs.answered_of_ready honest dReady (same.trans all) ready
  have done := runs.done_of_answered honest dReady (same.trans all) answered
  exact ⟨m, after, ready, same, answered, done⟩

/-- A response on the channel means that its access is over. -/
theorem edge_responded (p : Profile) {s : Core} {i : Inputs} (answering : s.state = .tlResp)
    (dReady : i.dReady = true) :
    (s.edge p i).wbO.cyc = false ∧
      ((s.edge p i).state = .idle ∨ (s.edge p i).state = .aWait ∨
        (s.edge p i).state = .wbRdWait ∧ p.isRead (s.edge p i).savedA.opcode = true) := by
  by_cases put : isPut s.savedA.opcode = true <;>
    by_cases more : 1#8 < s.beatCount <;>
    by_cases read : p.isRead s.savedA.opcode = true <;>
    simp [Core.edge, answering, Core.tlRespEdge, dReady, put, more, read]

theorem Runs.responded (runs : Runs p core inputs) (dReady : ∀ n, (inputs n).dReady = true)
    (n : Nat) (valid : (core n).d.valid = true) :
    (core n).wbO.cyc = false ∧
      ((core n).state = .idle ∨ (core n).state = .aWait ∨
        (core n).state = .wbRdWait ∧ p.isRead (core n).savedA.opcode = true) := by
  induction n with
  | zero =>
      obtain ⟨s, start⟩ := runs.start
      rw [start] at valid
      cases valid
  | succ n ih =>
      cases tick : (inputs n).clk with
      | false =>
          rw [runs.next_of_quiet tick] at valid ⊢
          exact ih valid
      | true =>
          rw [runs.next_of_tick tick] at valid ⊢
          rw [edge_dValid, decide_eq_true_eq] at valid
          exact edge_responded p valid (dReady n)

/-! ### The converter as a host of the bus -/

/-- What a waiting converter drives on the bus. -/
def Core.driven (p : Profile) (s : Core) : HostBus :=
  if s.state = .wbRdWait then
    ⟨if p.isRead s.savedA.opcode then s.getAddress else s.savedA.address, s.wbO.dat,
      0b1111, false, true⟩
  else if isAtomic s.savedA.opcode then
    ⟨s.savedA.address,
      (s.savedWbDat &&& ~~~maskedValue 0xffffffff s.savedA.mask) |||
        maskedValue (aluRes s.savedA s.savedWbDat) s.savedA.mask,
      s.savedA.mask, true, true⟩
  else ⟨s.savedA.address, s.savedA.data, s.savedA.mask, isPut s.savedA.opcode, true⟩

theorem edge_driven (p : Profile) {s : Core} {i : Inputs} (waiting : s.Waiting)
    (silent : i.wbI.ack = false) :
    (s.edge p i).wbO = s.driven p ∧ (s.edge p i).driven p = s.driven p := by
  rcases waiting with state | state
  · simp [Core.edge, state, Core.wbRdWaitEdge, silent, Core.driven]
  · by_cases atomic : isAtomic s.savedA.opcode = true <;>
      simp [Core.edge, state, Core.wbWrWaitEdge, silent, Core.driven, atomic]

/-- Only an unacknowledged wait leaves `cyc` high. -/
theorem edge_cyc {p : Profile} {s : Core} {i : Inputs}
    (cyc : (s.edge p i).wbO.cyc = true) : s.Waiting ∧ i.wbI.ack = false := by
  cases state : s.state <;> simp only [Core.edge, state] at cyc
  case idle => unfold Core.idleEdge at cyc; (repeat' split at cyc) <;> cases cyc
  case aWait => unfold Core.aWaitEdge at cyc; (repeat' split at cyc) <;> cases cyc
  case wbRdWait =>
    cases ack : i.wbI.ack with
    | false => exact ⟨Or.inl state, rfl⟩
    | true => simp [Core.wbRdWaitEdge, ack] at cyc
  case alu => cases cyc
  case wbWrWait =>
    cases ack : i.wbI.ack with
    | false => exact ⟨Or.inr state, rfl⟩
    | true =>
        simp only [Core.wbWrWaitEdge, ack, if_true] at cyc
        (repeat' split at cyc) <;> cases cyc
  case tlResp =>
    unfold Core.tlRespEdge at cyc
    dsimp only at cyc
    (repeat' split at cyc) <;> cases cyc

section Host

variable (runs : Runs p core inputs)
include runs

theorem Runs.wbO_driven (n : Nat) (cyc : (core n).wbO.cyc = true) :
    (core n).wbO = (core n).driven p := by
  induction n with
  | zero =>
      obtain ⟨s, start⟩ := runs.start
      rw [start] at cyc
      cases cyc
  | succ n ih =>
      cases tick : (inputs n).clk with
      | false =>
          rw [runs.next_of_quiet tick] at cyc ⊢
          exact ih cyc
      | true =>
          rw [runs.next_of_tick tick] at cyc ⊢
          obtain ⟨waiting, silent⟩ := edge_cyc cyc
          obtain ⟨bus, same⟩ := edge_driven p waiting silent
          rw [bus, same]

theorem Runs.wbO_held {n : Nat} (cyc : (core n).wbO.cyc = true)
    (unanswered : ¬ ((inputs n).clk = true ∧ (inputs n).wbI.ack = true)) :
    (core (n + 1)).wbO = (core n).wbO := by
  cases tick : (inputs n).clk with
  | false => rw [runs.next_of_quiet tick]
  | true =>
      have waiting := (runs.signals n).cyc cyc
      rw [runs.next_of_tick tick, runs.wbO_driven n cyc]
      exact (edge_driven p waiting (by simpa [tick] using unanswered)).1

theorem Runs.cyc_low_of_ack {n : Nat} (tick : (inputs n).clk = true)
    (ack : (inputs n).wbI.ack = true) : (core (n + 1)).wbO.cyc = false := by
  rw [runs.next_of_tick tick]
  by_contra high
  have silent := (edge_cyc (by simpa using high)).2
  simp [ack] at silent

/-- Every cycle raised is one request, acknowledged but for the current one. -/
theorem Runs.requests_eq (n : Nat) :
    Trace.pulses (fun n => (core n).wbO.cyc) (fun n => (core n).wbO.request) n =
      served core inputs n ++
        if (core n).wbO.cyc then [(core n).wbO.request] else [] :=
  pulses_eq_served (fun n => (inputs n).clk) (fun n => (core n).wbO)
    (fun n => (inputs n).wbI) (fun _ => runs.wbO_held)
    (fun _ _ tick ack => runs.cyc_low_of_ack tick ack) n

end Host

end Run

end TlConverter

/-! ### The two converters -/

namespace TlUh2wblite

open TlConverter

/-- The states from a reset on. -/
def states (start : State) (inputs : Nat → Inputs) : Nat → State :=
  Trace.run step start.reset inputs

theorem runs (start : State) {inputs : Nat → Inputs}
    (noReset : ∀ n, (inputs n).rst = false) :
    Runs uhProfile (states start inputs) (fun n => (inputs n).core) where
  start := ⟨start, rfl⟩
  next _ := rfl
  noReset := noReset

end TlUh2wblite

namespace TlC2wblite

open TlConverter

/-- The states from a reset on. -/
def states (start : State) (inputs : Nat → Inputs) : Nat → State :=
  Trace.run step start.reset inputs

theorem runs (start : State) {inputs : Nat → Inputs}
    (noReset : ∀ n, (inputs n).rst = false) :
    Runs cProfile (fun n => (states start inputs n).core) (fun n => (inputs n).core) where
  start := ⟨start.core, rfl⟩
  next n := step_core (inputs n) (states start inputs n)
  noReset := noReset

end TlC2wblite

end Cocoapuffs

import Cocoapuffs.TlRun

/-!
# Requests without data

The cached converter also takes requests of one beat that ask for no data.
`Command` adds them to the messages, and `Follows` adds their two states to the
relation between the converter and the sequential memory.
-/

namespace Cocoapuffs

namespace TlC2wblite

open TileLink TlConverter

/-- The opcodes that ask for no data. -/
def isNoData (opcode : BitVec 3) : Bool := opcode == opIntent || opcode == opAcquirePerm

theorem isNoData_apart {opcode : BitVec 3} (noData : isNoData opcode = true) :
    cProfile.isRead opcode = false ∧ isPut opcode = false ∧ isAtomic opcode = false ∧
      cProfile.respData opcode = false := by
  revert opcode
  decide

/-- A message, or a request of one beat without data. -/
inductive Command where
  | message (m : Message cProfile)
  | noData (a : AType) (kind : isNoData a.opcode = true)

def Command.beats : Command → List AType
  | .message m => m.beats
  | .noData a _ => [a]

/-- A request without data has one response beat, and nothing else happens. -/
def carryOutNext (o : Outcome) : Command → Outcome
  | .message m => o.message m
  | .noData a _ => o.respond [response cProfile a 0]

/-- The sequential meaning of a list of commands on a memory. -/
def carryOut (memory : WordMemory) (commands : List Command) : Outcome :=
  commands.foldl carryOutNext ⟨memory, [], []⟩

/-! ### Beat by beat -/

def take (q : Burst) (a : AType) : Burst :=
  if isNoData a.opcode then ⟨q.outcome.respond [response cProfile a 0], 0, a⟩
  else q.accept cProfile a

/-- A request without data may come between messages. -/
def Admits (q : Burst) (a : AType) : Prop :=
  if isNoData a.opcode then q.remaining = 0 else q.Admits cProfile a

def Admissible : Burst → List AType → Prop
  | _, [] => True
  | q, a :: beats => Admits q a ∧ Admissible (take q a) beats

theorem admissible_append (q : Burst) (first second : List AType) :
    Admissible q (first ++ second) ↔
      Admissible q first ∧ Admissible (first.foldl take q) second := by
  induction first generalizing q with
  | nil => simp [Admissible]
  | cons a first ih => simp [Admissible, ih, and_assoc]

theorem foldl_take_of_data {beats : List AType}
    (data : ∀ beat ∈ beats, isNoData beat.opcode = false) (q : Burst) :
    beats.foldl take q = beats.foldl (Burst.accept cProfile) q ∧
      (Admissible q beats ↔ Burst.Admissible cProfile q beats) := by
  induction beats generalizing q with
  | nil => exact ⟨rfl, Iff.rfl⟩
  | cons a beats ih =>
      obtain ⟨first, others⟩ := List.forall_mem_cons.mp data
      obtain ⟨same, iff⟩ := ih others (q.accept cProfile a)
      have taken : take q a = q.accept cProfile a := by simp [take, first]
      constructor
      · rw [List.foldl_cons, List.foldl_cons, taken, same]
      · simp only [Admissible, Burst.Admissible, taken, iff, Admits, first, Bool.false_eq_true,
          if_false]

theorem Command.message_data (m : Message cProfile) :
    ∀ beat ∈ m.beats, isNoData beat.opcode = false := by
  have head : isNoData m.head.opcode = false := by
    by_contra noData
    obtain ⟨notRead, notPut, notAtomic, _⟩ := isNoData_apart (by simpa using noData)
    rcases m.kind with ⟨read, _⟩ | ⟨put | atomic, _⟩
    · rw [notRead] at read
      cases read
    · rw [notPut] at put
      cases put
    · rw [notAtomic] at atomic
      cases atomic
  rw [Message.beats, List.forall_mem_cons]
  exact ⟨head, fun beat mem => by rw [(m.control beat mem).1]; exact head⟩

/-- Carrying out a command beat by beat is carrying it out whole. -/
theorem foldl_command (command : Command) (o : Outcome) (last : AType) :
    Admissible ⟨o, 0, last⟩ command.beats ∧
      ∃ final, command.beats.foldl take ⟨o, 0, last⟩ = ⟨carryOutNext o command, 0, final⟩ := by
  cases command with
  | message m =>
      obtain ⟨same, iff⟩ := foldl_take_of_data (Command.message_data m) ⟨o, 0, last⟩
      rw [Command.beats, same, iff]
      exact ⟨Burst.admissible_message m o last, Burst.foldl_message m o last⟩
  | noData a kind =>
      refine ⟨⟨by simp [Admits, kind], trivial⟩, a, ?_⟩
      simp [Command.beats, take, kind, carryOutNext]

theorem foldl_commands (commands : List Command) (o : Outcome) (last : AType) :
    Admissible ⟨o, 0, last⟩ (commands.flatMap Command.beats) ∧
      ∃ final, (commands.flatMap Command.beats).foldl take ⟨o, 0, last⟩ =
        ⟨commands.foldl carryOutNext o, 0, final⟩ := by
  induction commands generalizing o last with
  | nil => exact ⟨trivial, last, rfl⟩
  | cons command commands ih =>
      obtain ⟨admissible, middle, whole⟩ := foldl_command command o last
      rw [List.flatMap_cons, admissible_append, List.foldl_append, whole]
      exact ⟨⟨admissible, (ih _ middle).1⟩, (ih _ middle).2⟩

theorem take_grows (q : Burst) (a : AType) :
    q.outcome.responses <+: (take q a).outcome.responses ∧
      q.outcome.writes <+: (take q a).outcome.writes := by
  unfold take
  split
  · exact ⟨List.prefix_append _ _, List.prefix_refl _⟩
  · exact ⟨Burst.accept_responses cProfile q a, Burst.accept_writes cProfile q a⟩

theorem foldl_take_grows (q : Burst) (beats : List AType) :
    q.outcome.responses <+: (beats.foldl take q).outcome.responses ∧
      q.outcome.writes <+: (beats.foldl take q).outcome.writes := by
  induction beats generalizing q with
  | nil => exact ⟨List.prefix_refl _, List.prefix_refl _⟩
  | cons a beats ih =>
      obtain ⟨responses, writes⟩ := take_grows q a
      exact ⟨responses.trans (ih _).1, writes.trans (ih _).2⟩

/-- The first beats of commands do a part of what the commands do. -/
theorem carryOut_of_prefix (memory : WordMemory) {beats : List AType} {commands : List Command}
    (isPrefix : beats <+: commands.flatMap Command.beats) :
    Admissible (Burst.start memory) beats ∧
      (beats.foldl take (Burst.start memory)).outcome.responses <+:
        (carryOut memory commands).responses ∧
      (beats.foldl take (Burst.start memory)).outcome.writes <+:
        (carryOut memory commands).writes := by
  obtain ⟨rest, eq⟩ := isPrefix
  obtain ⟨admissible, final, sequentially⟩ :=
    foldl_commands commands ⟨memory, [], []⟩ AType.new
  rw [← eq, admissible_append] at admissible
  rw [← eq, List.foldl_append] at sequentially
  have later := foldl_take_grows (beats.foldl take (Burst.start memory)) rest
  rw [Burst.start, sequentially] at later
  exact ⟨admissible.1, later⟩

/-! ### The converter -/

/-- The converter's place in the sequential run `q`: one it has with messages, or
one with a request without data, of which the response is still to come. -/
inductive Follows (s : Core) (done : Outcome) (q : Burst) : Prop where
  | tracks (tracks : Tracks cProfile s done q)
  | noData (state : s.state = .wbWrWait ∨ s.state = .tlResp)
      (kind : isNoData s.savedA.opcode = true) (count : s.beatCount = 1)
      (bus : s.wbO.cyc = true → s.wbO.we = false) (between : q.remaining = 0)
      (outcome : q.outcome = done.respond [response cProfile s.savedA 0])

section Edges

variable {s : Core} {i : TlConverter.Inputs} {done : Outcome} {q : Burst}

theorem response_noData {a : AType} (kind : isNoData a.opcode = true) (data : BitVec 32) :
    response cProfile a data = response cProfile a 0 := by
  simp [response, (isNoData_apart kind).2.2.2]

theorem follows_taken (state : s.state = .idle) (taken : s.Takes i)
    (kind : isNoData i.a.opcode = true) (small : getTotalBeats i.a.size = 1) :
    Follows (s.edge cProfile i) q.outcome (take q i.a) := by
  obtain ⟨valid, ready⟩ := taken
  obtain ⟨notRead, -, notAtomic, -⟩ := isNoData_apart kind
  cases perm : cProfile.isPerm i.a.opcode with
  | true =>
      apply Follows.noData <;>
        simp [Core.edge, state, Core.idleEdge, valid, ready, notRead, perm, kind, small, take]
  | false =>
      apply Follows.noData <;>
        simp [Core.edge, state, Core.idleEdge, valid, ready, notRead, perm, notAtomic, kind,
          small, take]

theorem follows_noData (signals : Signals s) (dReady : i.dReady = true)
    (state : s.state = .wbWrWait ∨ s.state = .tlResp)
    (kind : isNoData s.savedA.opcode = true) (count : s.beatCount = 1)
    (bus : s.wbO.cyc = true → s.wbO.we = false) (between : q.remaining = 0)
    (outcome : q.outcome = done.respond [response cProfile s.savedA 0]) :
    Follows (s.edge cProfile i) (s.doneAfter cProfile i done) q := by
  obtain ⟨-, notPut, notAtomic, -⟩ := isNoData_apart kind
  rcases state with state | state
  · have unserved : s.doneAfter cProfile i done = done := by
      rw [doneAfter_of_waiting cProfile i done (Or.inr state)]
      split_ifs with served
      · rw [Bool.and_eq_true] at served
        simp [Outcome.serve, HostBus.request, bus served.1]
      · rfl
    rw [unserved]
    cases ack : i.wbI.ack with
    | true =>
        apply Follows.noData <;>
          simp [Core.edge, state, Core.wbWrWaitEdge, ack, notPut, notAtomic, kind, count,
            between, outcome]
    | false =>
        apply Follows.noData <;>
          simp [Core.edge, state, Core.wbWrWaitEdge, ack, notPut, notAtomic, kind, count,
            between, outcome]
  · have single : ¬ 1#8 < s.beatCount := by simp [count]
    rw [doneAfter_of_answering signals cProfile i done state, response_noData kind, ← outcome]
    exact .tracks (.idle (edge_lastAnswer state dReady (Or.inr single)) between rfl)

/-- One rising edge is at most one step of the sequential machine. -/
theorem Follows.edge (follows : Follows s done q) (signals : Signals s)
    (raised : s.Waiting → i.wbI.ack = true → s.wbO.cyc = true)
    (reads : s.wbO.cyc = true → i.wbI.ack = true → s.wbO.we = false →
      i.wbI.rdt = done.memory.word s.wbO.adr)
    (dReady : i.dReady = true) (admits : s.Takes i → Admits q i.a)
    (small : s.Takes i → isNoData i.a.opcode = true → getTotalBeats i.a.size = 1) :
    Follows (s.edge cProfile i) (s.doneAfter cProfile i done)
      (if s.Takes i then take q i.a else q) := by
  cases follows with
  | noData state kind count bus between outcome =>
      have busy : ¬ s.Takes i := by
        intro taken
        rcases signals.ready taken.2 with other | other <;> simp [other] at state
      rw [if_neg busy]
      exact follows_noData signals dReady state kind count bus between outcome
  | tracks tracks =>
      by_cases new : s.Takes i ∧ isNoData i.a.opcode = true
      · obtain ⟨taken, kind⟩ := new
        have between : q.remaining = 0 := by
          simpa [Admits, kind] using admits taken
        have offering := signals.ready taken.2
        have idle : s.state = .idle ∧ q.outcome = done := by
          cases tracks <;> simp_all
        rw [if_pos taken, doneAfter_of_quiet signals cProfile i done
          (by simp [Core.Waiting, idle.1]) (by simp [idle.1]), ← idle.2]
        exact follows_taken idle.1 taken kind (small taken kind)
      · have data : s.Takes i → isNoData i.a.opcode = false := fun taken => by
          by_contra kind
          exact new ⟨taken, by simpa using kind⟩
        have next := tracks.edge signals raised reads (fun _ => dReady) fun taken => by
          simpa [Admits, data taken] using admits taken
        have same : (if s.Takes i then take q i.a else q) =
            if s.Takes i then q.accept cProfile i.a else q := by
          by_cases taken : s.Takes i
          · simp [taken, take, data taken]
          · simp [taken]
        rw [same]
        exact .tracks next

end Edges

theorem Follows.responses {s : Core} {done : Outcome} {q : Burst} (follows : Follows s done q) :
    done.responses <+: q.outcome.responses := by
  cases follows with
  | tracks tracks => exact tracks.responses
  | noData _ _ _ _ _ outcome =>
      rw [outcome]
      exact List.prefix_append _ _

theorem Follows.writes {s : Core} {done : Outcome} {q : Burst} (follows : Follows s done q)
    (signals : Signals s) : done.writes <+: q.outcome.writes := by
  cases follows with
  | tracks tracks => exact (List.prefix_append _ _).trans (tracks.writes signals)
  | noData _ _ _ _ _ outcome =>
      rw [outcome]
      exact List.prefix_refl _

theorem Follows.outcome_of_offering {s : Core} {done : Outcome} {q : Burst}
    (follows : Follows s done q) (offering : s.state = .idle ∨ s.state = .aWait) :
    q.outcome = done ∧ (q.remaining = 0 → s.state = .idle) := by
  cases follows with
  | tracks tracks => exact tracks.outcome_of_offering offering
  | noData state => rcases offering with other | other <;> simp [other] at state

/-! ### Runs -/

/-- A trace carries out the commands that it takes, one after the other. -/
structure CarriesOut (core : Nat → Core) (inputs : Nat → TlConverter.Inputs)
    (memory : WordMemory) : Prop where
  /-- The response beats are those of the commands, in order, -/
  responses : ∀ n (commands : List Command),
    accepted core inputs n <+: commands.flatMap Command.beats →
    delivered core inputs n <+: (carryOut memory commands).responses
  /-- and so are the writes. -/
  writes : ∀ n (commands : List Command),
    accepted core inputs n <+: commands.flatMap Command.beats →
    (served core inputs n).filter Request.we <+: (carryOut memory commands).writes
  /-- All of them come before the next beat is taken. -/
  completes : ∀ n (commands : List Command),
    accepted core inputs n = commands.flatMap Command.beats →
    ∃ m, n ≤ m ∧ accepted core inputs m = accepted core inputs n ∧
      delivered core inputs m = (carryOut memory commands).responses ∧
      (served core inputs m).filter Request.we = (carryOut memory commands).writes
  /-- A beat after whole commands is taken as a new request. -/
  fresh : ∀ n (commands : List Command),
    accepted core inputs n = commands.flatMap Command.beats →
    (inputs n).clk = true → (core n).Takes (inputs n) →
    (core (n + 1)).beatCount = getTotalBeats (inputs n).a.size ∧
      (cProfile.isRead (inputs n).a.opcode = true →
        (core (n + 1)).getAddress = (inputs n).a.address)

/-- The size of the request, if it is one without data, is that of one beat. -/
def SingleBeat (s : Core) (i : TlConverter.Inputs) : Prop :=
  i.clk = true → s.Takes i → isNoData i.a.opcode = true → i.a.size.toNat ≤ 2

section Run

variable {core : Nat → Core} {inputs : Nat → TlConverter.Inputs} {memory : WordMemory}
  (runs : Runs cProfile core inputs) (honest : HonestBus core inputs memory)
  (dReady : ∀ n, (inputs n).dReady = true) (single : ∀ n, SingleBeat (core n) (inputs n))

include runs honest dReady single

theorem follows_run (n : Nat)
    (admissible : Admissible (Burst.start memory) (accepted core inputs n)) :
    Follows (core n) (doneBefore memory core inputs n)
      ((accepted core inputs n).foldl take (Burst.start memory)) := by
  induction n with
  | zero =>
      obtain ⟨s, start⟩ := runs.start
      refine .tracks (.idle ?_ rfl ?_)
      · rw [start]
        rfl
      · simp [accepted, Burst.start, doneBefore, served, servedRequests, delivered, start,
          Core.onChannel, Core.reset, DType.new]
  | succ n ih =>
      obtain ⟨new, grown⟩ : accepted core inputs n <+: accepted core inputs (n + 1) :=
        Trace.history_prefix _ (Nat.le_succ n)
      have follows := ih (by
        rw [← grown, admissible_append] at admissible
        exact admissible.1)
      cases tick : (inputs n).clk with
      | false =>
          have same : accepted core inputs (n + 1) = accepted core inputs n :=
            Trace.history_succ_none (by simp [tick])
          rw [same, runs.doneBefore_of_quiet memory tick, runs.next_of_quiet tick]
          exact follows
      | true =>
          rw [runs.doneBefore_succ memory tick fun _ => dReady n, runs.next_of_tick tick]
          have edge := follows.edge (runs.signals n) (honest.raised n tick)
            (honest.read n tick) (dReady n)
          by_cases taken : (core n).Takes (inputs n)
          · have one : accepted core inputs (n + 1) =
                accepted core inputs n ++ [(inputs n).a] :=
              Trace.history_succ_some (by simp [tick, taken.1, taken.2])
            have small : isNoData (inputs n).a.opcode = true →
                getTotalBeats (inputs n).a.size = 1 := fun kind => by
              rw [getTotalBeats, if_pos (single n tick taken kind)]
            rw [one, admissible_append] at admissible
            rw [one, List.foldl_append]
            simpa [taken] using edge (fun _ => admissible.2.1) fun _ => small
          · have none : accepted core inputs (n + 1) = accepted core inputs n :=
              Trace.history_succ_none (by simpa [tick, Core.Takes] using taken)
            rw [none]
            simpa [taken] using
              edge (fun now => absurd now taken) fun now => absurd now taken

/-- After whole commands the converter is where their sequential run is. -/
theorem follows_commands {n : Nat} {commands : List Command}
    (all : accepted core inputs n = commands.flatMap Command.beats) :
    ∃ final, Follows (core n) (doneBefore memory core inputs n)
      ⟨carryOut memory commands, 0, final⟩ := by
  obtain ⟨admissible, final, sequentially⟩ :=
    foldl_commands commands ⟨memory, [], []⟩ AType.new
  have follows := follows_run runs honest dReady single n (by rw [all]; exact admissible)
  rw [all, Burst.start, sequentially] at follows
  exact ⟨final, follows⟩

theorem carriesOut (clock : Trace.Recurs fun n => (inputs n).clk = true)
    (serves : Serves (fun n => (inputs n).clk) (fun n => (core n).wbO)
      fun n => (inputs n).wbI) : CarriesOut core inputs memory := by
  constructor
  · intro n commands isPrefix
    obtain ⟨admissible, responses, -⟩ := carryOut_of_prefix memory isPrefix
    have follows := follows_run runs honest dReady single n admissible
    calc delivered core inputs n
        <+: (doneBefore memory core inputs n).responses := List.prefix_append _ _
      _ <+: _ := follows.responses
      _ <+: (carryOut memory commands).responses := responses
  · intro n commands isPrefix
    obtain ⟨admissible, -, writes⟩ := carryOut_of_prefix memory isPrefix
    have follows := follows_run runs honest dReady single n admissible
    exact (follows.writes (runs.signals n)).trans writes
  · intro n commands all
    have recurs := runs.aReady_recurs (fun m _ _ => dReady m) clock
      (fun m tick waiting => honest.raised m tick waiting) serves
    obtain ⟨m, after, ready, same⟩ := accepted_until_ready recurs n
    obtain ⟨final, follows⟩ := follows_commands runs honest dReady single (same.trans all)
    have outcome : carryOut memory commands = doneBefore memory core inputs m :=
      (follows.outcome_of_offering ((runs.signals m).ready ready)).1
    refine ⟨m, after, same, ?_, ?_⟩
    · rw [outcome]
      simp [doneBefore, Core.onChannel, (runs.signals m).ready_quiet ready]
    · rw [outcome]
      rfl
  · intro n commands all tick taken
    obtain ⟨final, follows⟩ := follows_commands runs honest dReady single all
    have idle : (core n).state = .idle :=
      (follows.outcome_of_offering ((runs.signals n).ready taken.2)).2 rfl
    obtain ⟨valid, ready⟩ := taken
    rw [runs.next_of_tick tick]
    cases read : cProfile.isRead (inputs n).a.opcode <;>
      cases perm : cProfile.isPerm (inputs n).a.opcode <;>
      cases atomic : isAtomic (inputs n).a.opcode <;>
      simp [Core.edge, idle, Core.idleEdge, valid, ready, read, perm, atomic]

end Run

/-- If every request without data has the size of one beat, the cached converter
carries out its commands, whatever the latency of the slave. -/
theorem tlC2wblite_carriesOut (start : State) (inputs : Nat → Inputs)
    (memory : Nat → WordMemory) (noReset : ∀ n, (inputs n).rst = false)
    (clock : Trace.Recurs fun n => (inputs n).clk = true)
    (dReady : ∀ n, (inputs n).tlI.dReady = true)
    (slave : MemorySlave (fun n => (inputs n).clk) (fun n => (states start inputs n).core.wbO)
      (fun n => (inputs n).wbI) memory)
    (serves : Serves (fun n => (inputs n).clk) (fun n => (states start inputs n).core.wbO)
      fun n => (inputs n).wbI)
    (single : ∀ n, SingleBeat (states start inputs n).core (inputs n).core) :
    CarriesOut (fun n => (states start inputs n).core) (fun n => (inputs n).core) (memory 0) :=
  carriesOut (runs start noReset) (HonestBus.of_slave slave) dReady single clock serves

/-! ### A request for permission, and a read of two words -/

def powerUp : State :=
  ⟨⟨.idle, AType.new, 0, 0, 0, false, DType.new, HostBus.new⟩, BType.new, false, false⟩

def acquirePerm (size : BitVec 3) : AType := ⟨opAcquirePerm, 0, size, 1, 0x80, 0xf, 0, false, true⟩

/-- The slave answers at the instants of `answers`. -/
def permThenGet (size : BitVec 3) (answers : List Nat) (n : Nat) : Inputs where
  clk := true
  rst := false
  tlI :=
    ⟨if n ≤ 1 then acquirePerm size
      else ⟨opGet, 0, 3, 2, 0x40, 0xf, 0, false, decide (n ≤ 4)⟩,
      CType.new, EType.new, true, true⟩
  wbI := ⟨0, decide (n ∈ answers)⟩

/-- With a request of one beat, and of two. -/
def oneBeat : Nat → Inputs := permThenGet 2 [6, 9]

def twoBeats : Nat → Inputs := permThenGet 3 [6]

section PermThenGet

variable {inputs : Nat → Inputs} (either : inputs = oneBeat ∨ inputs = twoBeats)
include either

theorem permThenGet_noReset (n : Nat) :
    (inputs n).clk = true ∧ (inputs n).rst = false ∧ (inputs n).tlI.dReady = true := by
  rcases either with rfl | rfl <;> exact ⟨rfl, rfl, rfl⟩

theorem permThenGet_rest {n : Nat} (le : 13 ≤ n) :
    states powerUp inputs n = states powerUp inputs 13 := by
  refine Trace.run_at_rest rfl (fun n le => ?_) le
  have late : ¬ n ≤ 1 ∧ ¬ n ≤ 4 ∧ n ≠ 6 ∧ n ≠ 9 := by omega
  have quiet : inputs n = inputs 13 := by
    rcases either with rfl | rfl <;> simp [oneBeat, twoBeats, permThenGet, late]
  rw [quiet]
  rcases either with rfl | rfl <;> decide +kernel

theorem permThenGet_early {n : Nat} (ack : (inputs n).wbI.ack = true) : n < 13 := by
  rcases either with rfl | rfl <;> simp [oneBeat, twoBeats, permThenGet] at ack <;> omega

theorem permThenGet_slave :
    MemorySlave (fun n => (inputs n).clk) (fun n => (states powerUp inputs n).core.wbO)
      (fun n => (inputs n).wbI)
      (memoryTrace (fun _ => true) (fun n => (states powerUp inputs n).core.wbO)
        (fun n => (inputs n).wbI) fun _ => 0) := by
  refine ⟨?_, ?_, fun n => ?_⟩
  · rintro n - ack
    have early := permThenGet_early either ack
    revert ack
    revert n early
    rcases either with rfl | rfl <;> decide +kernel
  · rintro n - ack read
    have early := permThenGet_early either ack
    revert ack read
    revert n early
    rcases either with rfl | rfl <;> decide +kernel
  · rcases either with rfl | rfl <;> rfl

theorem permThenGet_serves :
    Serves (fun n => (inputs n).clk) (fun n => (states powerUp inputs n).core.wbO)
      fun n => (inputs n).wbI := by
  apply Serves.of_rest 13
  · intro n late
    rw [permThenGet_rest either late]
    rcases either with rfl | rfl <;> decide +kernel
  · rcases either with rfl | rfl <;> decide +kernel

end PermThenGet

theorem tlC2wblite_carriesOut_oneBeat :
    (delivered (fun n => (states powerUp oneBeat n).core) (fun n => (oneBeat n).core) 13).map
        DType.opcode = [opGrant, opAccessAckData, opAccessAckData] ∧
      CarriesOut (fun n => (states powerUp oneBeat n).core) (fun n => (oneBeat n).core)
        fun _ => 0 := by
  have conditions := permThenGet_noReset (Or.inl rfl : oneBeat = oneBeat ∨ _)
  refine ⟨by decide +kernel, tlC2wblite_carriesOut powerUp oneBeat _
    (fun n => (conditions n).2.1) (fun n => ⟨n, le_rfl, (conditions n).1⟩)
    (fun n => (conditions n).2.2) (permThenGet_slave (Or.inl rfl))
    (permThenGet_serves (Or.inl rfl)) ?_⟩
  intro n _ _ noData
  have early : n ≤ 1 := by
    by_contra late
    simp [oneBeat, permThenGet, Inputs.core, late, isNoData] at noData
  simp [oneBeat, permThenGet, Inputs.core, early, acquirePerm]

/-- After a request for permission of two beats' size a read is not taken as a new
request. -/
theorem tlC2wblite_not_carriesOut :
    ¬ ∀ (start : State) (inputs : Nat → Inputs) (memory : Nat → WordMemory),
      (∀ n, (inputs n).rst = false) → (Trace.Recurs fun n => (inputs n).clk = true) →
      (∀ n, (inputs n).tlI.dReady = true) →
      MemorySlave (fun n => (inputs n).clk) (fun n => (states start inputs n).core.wbO)
        (fun n => (inputs n).wbI) memory →
      (Serves (fun n => (inputs n).clk) (fun n => (states start inputs n).core.wbO)
        fun n => (inputs n).wbI) →
      CarriesOut (fun n => (states start inputs n).core) (fun n => (inputs n).core)
        (memory 0) := by
  intro claim
  have conditions := permThenGet_noReset (Or.inr rfl : twoBeats = oneBeat ∨ _)
  have carries := claim powerUp twoBeats _ (fun n => (conditions n).2.1)
    (fun n => ⟨n, le_rfl, (conditions n).1⟩) (fun n => (conditions n).2.2)
    (permThenGet_slave (Or.inr rfl)) (permThenGet_serves (Or.inr rfl))
  have fresh := carries.fresh 4 [.noData (acquirePerm 3) rfl] (by decide +kernel) rfl
    (by decide +kernel)
  exact absurd fresh.1 (by decide +kernel)

end TlC2wblite

end Cocoapuffs

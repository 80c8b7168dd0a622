import Cocoapuffs.TlSequential

/-!
# The converters refine the sequential memory

`Tracks` relates a state of the converter, and what it has done so far on the
bus and on the response channel, to the beat-by-beat sequential state: there is
one case for each thing the converter can be in the middle of, and it says what
is still to be done.
-/

namespace Cocoapuffs

namespace TlConverter

open TileLink

/-! ### Facts of the state machine alone -/

/-- Is the converter in a state that accesses the bus? -/
def Core.Waiting (s : Core) : Prop := s.state = .wbRdWait ∨ s.state = .wbWrWait

instance (s : Core) : Decidable s.Waiting := inferInstanceAs (Decidable (_ ∨ _))

/-- How the handshake signals go with the state. -/
structure Signals (s : Core) : Prop where
  ready : s.aReady = true → s.state = .idle ∨ s.state = .aWait
  ready_quiet : s.aReady = true → s.d.valid = false
  cyc : s.wbO.cyc = true → s.Waiting
  dParam : s.d.param = 0

theorem signals_reset (s : Core) : Signals s.reset where
  ready ready := by cases ready
  ready_quiet ready := by cases ready
  cyc cyc := by cases cyc
  dParam := rfl

theorem Signals.edge {s : Core} (signals : Signals s) (p : Profile) (i : Inputs) :
    Signals (s.edge p i) := by
  have dParam := signals.dParam
  cases phase : s.state <;> simp only [Core.edge, phase]
  case idle =>
    unfold Core.idleEdge
    constructor <;> (repeat' split) <;> simp_all [Core.Waiting]
  case aWait =>
    unfold Core.aWaitEdge
    constructor <;> (repeat' split) <;> simp_all [Core.Waiting]
  case wbRdWait =>
    unfold Core.wbRdWaitEdge
    constructor <;> (dsimp only; split) <;> simp_all [Core.Waiting]
  case alu =>
    constructor <;> simp_all
  case wbWrWait =>
    unfold Core.wbWrWaitEdge
    constructor <;> (dsimp only; repeat' split) <;> simp_all [Core.Waiting]
  case tlResp =>
    unfold Core.tlRespEdge
    constructor <;> (dsimp only; repeat' split) <;> simp_all [Core.Waiting]

theorem Signals.step {s : Core} (signals : Signals s) (p : Profile) (i : Inputs)
    (noReset : i.rst = false) : Signals (s.step p i) := by
  unfold Core.step
  cases i.clk with
  | false => exact signals
  | true => simpa [noReset] using signals.edge p i

/-! ### What is done and what is still to do -/

/-- A request served by the slave; reads leave the memory alone. -/
def Outcome.serve (o : Outcome) (request : Request) : Outcome :=
  if request.we then o.write request else o

@[simp]
theorem Outcome.respond_nil (o : Outcome) : o.respond [] = o := by
  simp [Outcome.respond]

/-- The converter's place in the sequential run `q`, given what it has done:
the requests served, and the responses delivered or on the response channel. -/
inductive Tracks (p : Profile) (s : Core) (done : Outcome) (q : Burst) : Prop where
  | idle (state : s.state = .idle) (between : q.remaining = 0)
      (outcome : q.outcome = done)
  | aWait (state : s.state = .aWait)
      (kind : isPut s.savedA.opcode = true ∨ isAtomic s.savedA.opcode = true)
      (last : q.last = s.savedA) (count : q.remaining = s.beatCount.toNat)
      (more : 0 < s.beatCount.toNat) (outcome : q.outcome = done)
  | reading (state : s.state = .wbRdWait) (kind : p.isRead s.savedA.opcode = true)
      (between : q.remaining = 0) (more : 0 < s.beatCount.toNat)
      (bus : s.wbO.cyc = true → s.wbO.adr = s.getAddress ∧ s.wbO.we = false)
      (outcome : q.outcome = done.respond
        (readBeats p s.savedA done.memory s.getAddress s.beatCount.toNat))
  | fetching (state : s.state = .wbRdWait) (kind : isAtomic s.savedA.opcode = true)
      (last : q.last = s.savedA) (count : q.remaining + 1 = s.beatCount.toNat)
      (bus : s.wbO.cyc = true → s.wbO.adr = s.savedA.address ∧ s.wbO.we = false)
      (outcome : q.outcome = done.atomicBeat p s.savedA)
  | computing (state : s.state = .alu) (kind : isAtomic s.savedA.opcode = true)
      (last : q.last = s.savedA) (count : q.remaining + 1 = s.beatCount.toNat)
      (fetched : s.savedWbDat = done.memory.word s.savedA.address)
      (outcome : q.outcome = done.atomicBeat p s.savedA)
  | storing (state : s.state = .wbWrWait) (kind : isAtomic s.savedA.opcode = true)
      (last : q.last = s.savedA) (count : q.remaining + 1 = s.beatCount.toNat)
      (fetched : s.savedWbDat = done.memory.word s.savedA.address)
      (bus : s.wbO.cyc = true → s.wbO.request = atomicWrite s.savedA s.savedWbDat)
      (outcome : q.outcome = done.atomicBeat p s.savedA)
  | putting (state : s.state = .wbWrWait) (kind : isPut s.savedA.opcode = true)
      (last : q.last = s.savedA) (count : q.remaining + 1 = s.beatCount.toNat)
      (bus : s.wbO.cyc = true → s.wbO.request = putWrite s.savedA)
      (outcome : q.outcome =
        if q.remaining = 0 then (done.putBeat s.savedA).respond [response p s.savedA 0]
        else done.putBeat s.savedA)
  | answeringRead (state : s.state = .tlResp) (kind : p.isRead s.savedA.opcode = true)
      (between : q.remaining = 0) (more : 0 < s.beatCount.toNat)
      (outcome : q.outcome = done.respond
        (response p s.savedA s.savedWbDat ::
          readBeats p s.savedA done.memory (s.getAddress + 4) (s.beatCount.toNat - 1)))
  | answeringAtomic (state : s.state = .tlResp) (kind : isAtomic s.savedA.opcode = true)
      (last : q.last = s.savedA) (count : q.remaining + 1 = s.beatCount.toNat)
      (outcome : q.outcome = done.respond [response p s.savedA s.savedWbDat])
  | answeringPut (state : s.state = .tlResp) (kind : isPut s.savedA.opcode = true)
      (between : q.remaining = 0)
      (outcome : q.outcome = done.respond [response p s.savedA 0])

/-- The responses so far are a prefix of the sequential ones. -/
theorem Tracks.responses {p : Profile} {s : Core} {done : Outcome} {q : Burst}
    (tracks : Tracks p s done q) : done.responses <+: q.outcome.responses := by
  cases tracks with
  | idle _ _ outcome => rw [outcome]
  | aWait _ _ _ _ _ outcome => rw [outcome]
  | reading _ _ _ _ _ outcome => rw [outcome]; exact List.prefix_append _ _
  | fetching _ _ _ _ _ outcome => rw [outcome]; exact List.prefix_append _ _
  | computing _ _ _ _ _ outcome => rw [outcome]; exact List.prefix_append _ _
  | storing _ _ _ _ _ _ outcome => rw [outcome]; exact List.prefix_append _ _
  | putting _ _ _ _ _ outcome =>
      rw [outcome]
      split
      · exact List.prefix_append _ _
      · exact List.prefix_refl _
  | answeringRead _ _ _ _ outcome => rw [outcome]; exact List.prefix_append _ _
  | answeringAtomic _ _ _ _ outcome => rw [outcome]; exact List.prefix_append _ _
  | answeringPut _ _ _ outcome => rw [outcome]; exact List.prefix_append _ _

/-- Between messages, once every response has been given nothing is left to
do. -/
theorem Tracks.outcome_of_answered {p : Profile} {s : Core} {done : Outcome} {q : Burst}
    (tracks : Tracks p s done q) (between : q.remaining = 0)
    (answered : q.outcome.responses.length ≤ done.responses.length) :
    q.outcome = done := by
  cases tracks with
  | idle _ _ outcome => exact outcome
  | aWait _ _ _ _ _ outcome => exact outcome
  | reading _ _ _ more _ outcome =>
      obtain ⟨count, counted⟩ := Nat.exists_eq_add_of_lt more
      simp [outcome, counted, Outcome.respond, readBeats] at answered
  | fetching _ _ _ _ _ outcome =>
      simp [outcome, Outcome.respond, Outcome.atomicBeat, Outcome.write] at answered
  | computing _ _ _ _ _ outcome =>
      simp [outcome, Outcome.respond, Outcome.atomicBeat, Outcome.write] at answered
  | storing _ _ _ _ _ _ outcome =>
      simp [outcome, Outcome.respond, Outcome.atomicBeat, Outcome.write] at answered
  | putting _ _ _ _ _ outcome =>
      simp [outcome, between, Outcome.respond, Outcome.putBeat, Outcome.write] at answered
  | answeringRead _ _ _ _ outcome => simp [outcome, Outcome.respond] at answered
  | answeringAtomic _ _ _ _ outcome => simp [outcome, Outcome.respond] at answered
  | answeringPut _ _ _ outcome => simp [outcome, Outcome.respond] at answered

/-- The writes so far, with the one on the bus, are a prefix of the sequential
ones. -/
theorem Tracks.writes {p : Profile} {s : Core} {done : Outcome} {q : Burst}
    (tracks : Tracks p s done q) (signals : Signals s) :
    done.writes ++ (if s.wbO.cyc && s.wbO.we then [s.wbO.request] else []) <+:
      q.outcome.writes := by
  have quiet : ¬ s.Waiting → s.wbO.cyc = false := fun notWaiting => by
    by_contra high
    exact notWaiting (signals.cyc (by simpa using high))
  have reads : (s.wbO.cyc = true → s.wbO.we = false) →
      (s.wbO.cyc && s.wbO.we) = false := by
    cases s.wbO.cyc <;> simp
  cases tracks with
  | idle state _ outcome => simp [quiet (by simp [Core.Waiting, state]), outcome]
  | aWait state _ _ _ _ outcome => simp [quiet (by simp [Core.Waiting, state]), outcome]
  | reading _ _ _ _ bus outcome =>
      simp [reads fun cyc => (bus cyc).2, outcome, Outcome.respond]
  | fetching _ _ _ _ bus outcome =>
      simp [reads fun cyc => (bus cyc).2, outcome, Outcome.respond, Outcome.atomicBeat,
        Outcome.write]
  | computing state _ _ _ _ outcome =>
      simp [quiet (by simp [Core.Waiting, state]), outcome, Outcome.respond,
        Outcome.atomicBeat, Outcome.write]
  | storing _ _ _ _ fetched bus outcome =>
      cases cyc : s.wbO.cyc with
      | false => simp [outcome, Outcome.respond, Outcome.atomicBeat, Outcome.write]
      | true =>
          simp only [outcome, Outcome.respond, Outcome.atomicBeat, Outcome.write, bus cyc,
            fetched]
          split <;> simp
  | putting _ _ _ _ bus outcome =>
      have written : q.outcome.writes = done.writes ++ [putWrite s.savedA] := by
        rw [outcome]
        split <;> rfl
      cases cyc : s.wbO.cyc with
      | false => simp [written]
      | true =>
          rw [written, bus cyc]
          split <;> simp
  | answeringRead state _ _ _ outcome =>
      simp [quiet (by simp [Core.Waiting, state]), outcome, Outcome.respond]
  | answeringAtomic state _ _ _ outcome =>
      simp [quiet (by simp [Core.Waiting, state]), outcome, Outcome.respond]
  | answeringPut state _ _ outcome =>
      simp [quiet (by simp [Core.Waiting, state]), outcome, Outcome.respond]

/-- Nothing is left to write while the converter waits for a request beat or
reads. -/
theorem Tracks.writes_eq {p : Profile} {s : Core} {done : Outcome} {q : Burst}
    (tracks : Tracks p s done q)
    (written : s.state = .idle ∨ s.state = .aWait ∨
      s.state = .wbRdWait ∧ p.isRead s.savedA.opcode = true) :
    done.writes = q.outcome.writes := by
  have notRead : isAtomic s.savedA.opcode = true → p.isRead s.savedA.opcode = false :=
    fun atomic => (p.atomic_apart _ atomic).1
  cases tracks <;> simp_all [Outcome.respond]

/-- Where a beat may be taken nothing is left to do. -/
theorem Tracks.outcome_of_offering {p : Profile} {s : Core} {done : Outcome} {q : Burst}
    (tracks : Tracks p s done q) (offering : s.state = .idle ∨ s.state = .aWait) :
    q.outcome = done ∧ (q.remaining = 0 → s.state = .idle) := by
  cases tracks with
  | idle state _ outcome => exact ⟨outcome, fun _ => state⟩
  | aWait _ _ _ count more outcome => exact ⟨outcome, fun between => by omega⟩
  | _ state => rcases offering with other | other <;> simp [other] at state

/-- Is a request beat taken at this edge? -/
def Core.Takes (s : Core) (i : Inputs) : Prop := i.a.valid = true ∧ s.aReady = true

instance (s : Core) (i : Inputs) : Decidable (s.Takes i) :=
  inferInstanceAs (Decidable (_ ∧ _))

/-- What is done after a rising edge: a raised and acknowledged request has
been served, and the response registered at the edge is on the channel. -/
def Core.doneAfter (p : Profile) (s : Core) (i : Inputs) (done : Outcome) : Outcome :=
  (if s.wbO.cyc && i.wbI.ack then done.serve s.wbO.request else done).respond
    (if (s.edge p i).d.valid then [(s.edge p i).d] else [])

theorem put_not_atomic {opcode : BitVec 3} (put : isPut opcode = true) :
    isAtomic opcode = false := by
  revert put
  decide +revert

theorem atomic_not_put {opcode : BitVec 3} (atomic : isAtomic opcode = true) :
    isPut opcode = false := by
  revert atomic
  decide +revert

theorem toNat_pred {count : BitVec 8} (more : 1#8 < count) :
    (count - 1#8).toNat = count.toNat - 1 :=
  BitVec.toNat_sub_of_le (BitVec.le_of_lt more)

private theorem maskedValue_ones (sel : BitVec 4) :
    maskedValue 0xffffffff sel = laneMask sel :=
  BitVec.allOnes_and

theorem edge_dValid (p : Profile) (s : Core) (i : Inputs) :
    (s.edge p i).d.valid = decide (s.state = .tlResp) := by
  cases phase : s.state <;>
    simp only [Core.edge, phase, Core.idleEdge, Core.aWaitEdge, Core.wbRdWaitEdge,
      Core.wbWrWaitEdge, Core.tlRespEdge] <;>
    (repeat' split) <;> rfl

theorem edge_d {s : Core} (signals : Signals s) (p : Profile) (i : Inputs)
    (answering : s.state = .tlResp) :
    (s.edge p i).d = response p s.savedA s.savedWbDat := by
  have dParam := signals.dParam
  simp only [Core.edge, answering, Core.tlRespEdge]
  (repeat' split) <;> simp_all [response]

theorem doneAfter_of_quiet {s : Core} (signals : Signals s) (p : Profile) (i : Inputs)
    (done : Outcome) (notWaiting : ¬ s.Waiting) (notAnswering : s.state ≠ .tlResp) :
    s.doneAfter p i done = done := by
  have low : s.wbO.cyc = false := by
    by_contra high
    exact notWaiting (signals.cyc (by simpa using high))
  simp [Core.doneAfter, low, edge_dValid, notAnswering]

theorem doneAfter_of_waiting {s : Core} (p : Profile) (i : Inputs) (done : Outcome)
    (waiting : s.Waiting) :
    s.doneAfter p i done =
      if s.wbO.cyc && i.wbI.ack then done.serve s.wbO.request else done := by
  have notAnswering : s.state ≠ .tlResp := by
    rcases waiting with h | h <;> simp [h]
  simp [Core.doneAfter, edge_dValid, notAnswering]

theorem doneAfter_of_answering {s : Core} (signals : Signals s) (p : Profile)
    (i : Inputs) (done : Outcome) (answering : s.state = .tlResp) :
    s.doneAfter p i done = done.respond [response p s.savedA s.savedWbDat] := by
  have low : s.wbO.cyc = false := by
    by_contra high
    rcases signals.cyc (by simpa using high) with h | h <;> simp [answering] at h
  simp [Core.doneAfter, low, edge_d signals p i answering, response]

theorem edge_offers {p : Profile} {s : Core} {i : Inputs}
    (offering : s.state = .idle ∨ s.state = .aWait) (notTaken : ¬ s.Takes i) :
    s.edge p i = { s with wbO.cyc := false, aReady := true, d.valid := false } := by
  have none : (i.a.valid && s.aReady) = false := by
    simpa [Core.Takes] using notTaken
  rcases offering with state | state
  · simp only [Core.edge, state, Core.idleEdge, none, Bool.false_eq_true, if_false]
  · simp only [Core.edge, state, Core.aWaitEdge, none, Bool.false_eq_true, if_false]

private theorem take_idle {p : Profile} {s : Core} {i : Inputs} {q : Burst}
    (state : s.state = .idle) (between : q.remaining = 0) (taken : s.Takes i)
    (admits : q.Admits p i.a) :
    Tracks p (s.edge p i) q.outcome (q.accept p i.a) := by
  obtain ⟨valid, ready⟩ := taken
  rw [Burst.Admits, if_pos between] at admits
  have total := getTotalBeats_toNat i.a.size
  have positive := totalBeats_pos i.a.size
  rcases admits with read | put | atomic
  · have apart := p.read_apart _ read
    refine .reading ?_ ?_ ?_ ?_ ?_ ?_ <;>
      simp [Core.edge, state, Core.idleEdge, valid, ready, read, Burst.accept, total,
        positive, Outcome.readBeat]
  · have apart := p.put_apart _ put
    have notAtomic := put_not_atomic put
    refine .putting ?_ ?_ ?_ ?_ ?_ ?_ <;>
      simp [Core.edge, state, Core.idleEdge, valid, ready, put, apart, notAtomic,
        Burst.accept, Burst.left, between, total, Nat.sub_add_cancel positive]
  · have apart := p.atomic_apart _ atomic
    refine .fetching ?_ ?_ ?_ ?_ ?_ ?_ <;>
      simp [Core.edge, state, Core.idleEdge, valid, ready, atomic, apart,
        Burst.accept, Burst.left, between, total, Nat.sub_add_cancel positive]

private theorem take_aWait {p : Profile} {s : Core} {i : Inputs} {q : Burst}
    (state : s.state = .aWait)
    (kind : isPut s.savedA.opcode = true ∨ isAtomic s.savedA.opcode = true)
    (last : q.last = s.savedA) (count : q.remaining = s.beatCount.toNat)
    (more : 0 < s.beatCount.toNat) (taken : s.Takes i) (admits : q.Admits p i.a) :
    Tracks p (s.edge p i) q.outcome (q.accept p i.a) := by
  obtain ⟨valid, ready⟩ := taken
  have inBurst : q.remaining ≠ 0 := by omega
  have leftEq : q.left i.a + 1 = s.beatCount.toNat := by
    rw [Burst.left, if_neg inBurst]
    omega
  rw [Burst.Admits, if_neg inBurst, last] at admits
  rw [← admits.1] at kind
  rcases kind with put | atomic
  · have apart := p.put_apart _ put
    have notAtomic := put_not_atomic put
    refine .putting ?_ ?_ ?_ ?_ ?_ ?_ <;>
      simp [Core.edge, state, Core.aWaitEdge, valid, ready, put, apart, notAtomic,
        Burst.accept, leftEq]
  · have apart := p.atomic_apart _ atomic
    refine .fetching ?_ ?_ ?_ ?_ ?_ ?_ <;>
      simp [Core.edge, state, Core.aWaitEdge, valid, ready, atomic, apart,
        Burst.accept, leftEq]

private theorem edge_reading_waits {p : Profile} {s : Core} {i : Inputs}
    (state : s.state = .wbRdWait) (unanswered : i.wbI.ack = false) :
    s.edge p i = { s with
      wbO := ⟨if p.isRead s.savedA.opcode then s.getAddress else s.savedA.address,
        s.wbO.dat, 0b1111, false, true⟩
      aReady := false
      d := { s.d with valid := false } } := by
  simp [Core.edge, state, Core.wbRdWaitEdge, unanswered]

private theorem word_of_served {s : Core} {i : Inputs} {done : Outcome} {adr : BitVec 32}
    (raised : s.Waiting → i.wbI.ack = true → s.wbO.cyc = true)
    (reads : s.wbO.cyc = true → i.wbI.ack = true → s.wbO.we = false →
      i.wbI.rdt = done.memory.word s.wbO.adr)
    (bus : s.wbO.cyc = true → s.wbO.adr = adr ∧ s.wbO.we = false)
    (waiting : s.Waiting) (answered : i.wbI.ack = true) :
    i.wbI.rdt = done.memory.word adr ∧ done.serve s.wbO.request = done := by
  have cyc := raised waiting answered
  obtain ⟨sameAdr, read⟩ := bus cyc
  refine ⟨by rw [reads cyc answered read, sameAdr], ?_⟩
  simp [Outcome.serve, HostBus.request, read]

section WaitingForTheBus

variable {p : Profile} {s : Core} {i : Inputs} {done : Outcome} {q : Burst}
  (raised : s.Waiting → i.wbI.ack = true → s.wbO.cyc = true)
  (reads : s.wbO.cyc = true → i.wbI.ack = true → s.wbO.we = false →
    i.wbI.rdt = done.memory.word s.wbO.adr)

include raised reads

private theorem edge_reading (state : s.state = .wbRdWait)
    (kind : p.isRead s.savedA.opcode = true) (between : q.remaining = 0)
    (more : 0 < s.beatCount.toNat)
    (bus : s.wbO.cyc = true → s.wbO.adr = s.getAddress ∧ s.wbO.we = false)
    (outcome : q.outcome = done.respond
      (readBeats p s.savedA done.memory s.getAddress s.beatCount.toNat)) :
    Tracks p (s.edge p i) (s.doneAfter p i done) q := by
  have waiting : s.Waiting := Or.inl state
  rw [doneAfter_of_waiting p i done waiting]
  cases answered : i.wbI.ack with
  | false =>
      simp only [Bool.and_false, Bool.false_eq_true, if_false,
        edge_reading_waits state answered]
      exact .reading state kind between more (fun _ => by simp [kind]) outcome
  | true =>
      obtain ⟨word, same⟩ := word_of_served raised reads bus waiting answered
      simp only [raised waiting answered, Bool.and_self, if_true, same]
      obtain ⟨count, counted⟩ : ∃ count, s.beatCount.toNat = count + 1 :=
        ⟨s.beatCount.toNat - 1, by omega⟩
      rw [counted, readBeats] at outcome
      refine .answeringRead ?_ ?_ between ?_ ?_ <;>
        simp [Core.edge, state, Core.wbRdWaitEdge, answered, kind, counted, word, outcome]

private theorem edge_fetching (state : s.state = .wbRdWait)
    (kind : isAtomic s.savedA.opcode = true)
    (last : q.last = s.savedA) (count : q.remaining + 1 = s.beatCount.toNat)
    (bus : s.wbO.cyc = true → s.wbO.adr = s.savedA.address ∧ s.wbO.we = false)
    (outcome : q.outcome = done.atomicBeat p s.savedA) :
    Tracks p (s.edge p i) (s.doneAfter p i done) q := by
  have waiting : s.Waiting := Or.inl state
  have notRead := (p.atomic_apart _ kind).1
  rw [doneAfter_of_waiting p i done waiting]
  cases answered : i.wbI.ack with
  | false =>
      simp only [Bool.and_false, Bool.false_eq_true, if_false,
        edge_reading_waits state answered]
      exact .fetching state kind last count (fun _ => by simp [notRead]) outcome
  | true =>
      obtain ⟨word, same⟩ := word_of_served raised reads bus waiting answered
      simp only [raised waiting answered, Bool.and_self, if_true, same]
      refine .computing ?_ ?_ ?_ ?_ ?_ ?_ <;>
        simp [Core.edge, state, Core.wbRdWaitEdge, answered, notRead, kind, last, count,
          word, outcome]

omit reads in
private theorem edge_storing (state : s.state = .wbWrWait)
    (kind : isAtomic s.savedA.opcode = true)
    (last : q.last = s.savedA) (count : q.remaining + 1 = s.beatCount.toNat)
    (fetched : s.savedWbDat = done.memory.word s.savedA.address)
    (bus : s.wbO.cyc = true → s.wbO.request = atomicWrite s.savedA s.savedWbDat)
    (outcome : q.outcome = done.atomicBeat p s.savedA) :
    Tracks p (s.edge p i) (s.doneAfter p i done) q := by
  have waiting : s.Waiting := Or.inr state
  have notPut := atomic_not_put kind
  rw [doneAfter_of_waiting p i done waiting]
  cases answered : i.wbI.ack with
  | false =>
      simp only [Bool.and_false, Bool.false_eq_true, if_false]
      have data : (s.savedWbDat &&& ~~~maskedValue 0xffffffff s.savedA.mask) |||
          maskedValue (aluRes s.savedA s.savedWbDat) s.savedA.mask =
          (atomicWrite s.savedA s.savedWbDat).dat := by
        rw [aluRes_eq_amo s.savedA _ kind, maskedValue_ones]
        rfl
      refine .storing ?_ ?_ ?_ ?_ ?_ ?_ ?_ <;>
        simp_all [Core.edge, Core.wbWrWaitEdge, HostBus.request, atomicWrite]
  | true =>
      simp only [raised waiting answered, Bool.and_self, if_true,
        bus (raised waiting answered)]
      refine .answeringAtomic ?_ ?_ ?_ ?_ ?_ <;>
        simp [Core.edge, state, Core.wbWrWaitEdge, answered, kind, notPut, last, count,
          outcome, Outcome.serve, Outcome.atomicBeat, atomicWrite, fetched]

omit reads in
private theorem edge_putting (state : s.state = .wbWrWait)
    (kind : isPut s.savedA.opcode = true)
    (last : q.last = s.savedA) (count : q.remaining + 1 = s.beatCount.toNat)
    (bus : s.wbO.cyc = true → s.wbO.request = putWrite s.savedA)
    (outcome : q.outcome =
      if q.remaining = 0 then (done.putBeat s.savedA).respond [response p s.savedA 0]
      else done.putBeat s.savedA) :
    Tracks p (s.edge p i) (s.doneAfter p i done) q := by
  have waiting : s.Waiting := Or.inr state
  have notAtomic := put_not_atomic kind
  rw [doneAfter_of_waiting p i done waiting]
  cases answered : i.wbI.ack with
  | false =>
      simp only [Bool.and_false, Bool.false_eq_true, if_false]
      refine .putting ?_ ?_ ?_ ?_ ?_ ?_ <;>
        simp [Core.edge, state, Core.wbWrWaitEdge, answered, kind, notAtomic, last, count,
          outcome, HostBus.request, putWrite]
  | true =>
      have served : done.serve s.wbO.request = done.putBeat s.savedA := by
        rw [bus (raised waiting answered)]
        simp [Outcome.serve, Outcome.putBeat, putWrite]
      simp only [raised waiting answered, Bool.and_self, if_true, served]
      by_cases final : q.remaining = 0
      · have lastBeat : ¬ 1#8 < s.beatCount := by
          rw [BitVec.lt_def]
          simp
          omega
        refine .answeringPut ?_ ?_ final ?_ <;>
          simp [Core.edge, state, Core.wbWrWaitEdge, answered, kind, notAtomic, lastBeat,
            outcome, final]
      · have moreBeats : 1#8 < s.beatCount := by
          rw [BitVec.lt_def]
          simp
          omega
        have lowered : (s.beatCount - 1#8).toNat = q.remaining := by
          rw [BitVec.toNat_sub_of_le (BitVec.le_of_lt moreBeats)]
          simp
          omega
        refine .aWait ?_ ?_ ?_ ?_ ?_ ?_ <;>
          simp [Core.edge, state, Core.wbWrWaitEdge, answered, kind, notAtomic, moreBeats,
            outcome, final, last, lowered]
        omega

end WaitingForTheBus

section Answering

variable {p : Profile} {s : Core} {i : Inputs} {done : Outcome} {q : Burst}

theorem edge_lastAnswer (state : s.state = .tlResp) (dReady : i.dReady = true)
    (last : isPut s.savedA.opcode = true ∨ ¬ 1#8 < s.beatCount) :
    (s.edge p i).state = .idle := by
  rcases last with put | single
  · simp [Core.edge, state, Core.tlRespEdge, dReady, put]
  · by_cases put : isPut s.savedA.opcode = true <;>
      simp [Core.edge, state, Core.tlRespEdge, dReady, put, single]

private theorem edge_answeringRead (state : s.state = .tlResp) (dReady : i.dReady = true)
    (kind : p.isRead s.savedA.opcode = true) (between : q.remaining = 0)
    (outcome : q.outcome = done.respond
      (response p s.savedA s.savedWbDat ::
        readBeats p s.savedA done.memory (s.getAddress + 4) (s.beatCount.toNat - 1))) :
    Tracks p (s.edge p i) (done.respond [response p s.savedA s.savedWbDat]) q := by
  by_cases more : 1#8 < s.beatCount
  · have notPut : isPut s.savedA.opcode = false := by
      by_contra put
      simp [(p.put_apart _ (by simpa using put)).1] at kind
    have lowered := toNat_pred more
    have positive : 0 < s.beatCount.toNat - 1 := by
      have := BitVec.lt_def.mp more
      simp at this
      omega
    refine .reading ?_ ?_ between ?_ ?_ ?_ <;>
      simp [Core.edge, state, Core.tlRespEdge, dReady, kind, notPut, more, lowered,
        positive, outcome, Outcome.respond]
  · have none : s.beatCount.toNat - 1 = 0 := by
      have single : s.beatCount.toNat ≤ 1 := by simpa [BitVec.lt_def] using more
      omega
    rw [none, readBeats] at outcome
    exact .idle (edge_lastAnswer state dReady (Or.inr more)) between outcome

private theorem edge_answeringAtomic (state : s.state = .tlResp) (dReady : i.dReady = true)
    (kind : isAtomic s.savedA.opcode = true)
    (last : q.last = s.savedA) (count : q.remaining + 1 = s.beatCount.toNat)
    (outcome : q.outcome = done.respond [response p s.savedA s.savedWbDat]) :
    Tracks p (s.edge p i) (done.respond [response p s.savedA s.savedWbDat]) q := by
  have notRead := (p.atomic_apart _ kind).1
  have notPut := atomic_not_put kind
  by_cases more : 1#8 < s.beatCount
  · have lowered := toNat_pred more
    have positive : 0 < q.remaining := by
      have := BitVec.lt_def.mp more
      simp at this
      omega
    refine .aWait ?_ ?_ ?_ ?_ ?_ ?_ <;>
      simp [Core.edge, state, Core.tlRespEdge, dReady, kind, notPut, notRead, more,
        lowered, positive, outcome, last, ← count]
  · have single : s.beatCount.toNat ≤ 1 := by simpa [BitVec.lt_def] using more
    exact .idle (edge_lastAnswer state dReady (Or.inr more)) (by omega) outcome

private theorem edge_answeringPut (state : s.state = .tlResp) (dReady : i.dReady = true)
    (kind : isPut s.savedA.opcode = true) (between : q.remaining = 0)
    (outcome : q.outcome = done.respond [response p s.savedA 0]) :
    Tracks p (s.edge p i) (done.respond [response p s.savedA s.savedWbDat]) q := by
  have sameAnswer : response p s.savedA s.savedWbDat = response p s.savedA 0 := by
    simp [response, p.put_apart _ kind]
  rw [sameAnswer]
  exact .idle (edge_lastAnswer state dReady (Or.inl kind)) between outcome

end Answering

/-- One rising edge of the converter is at most one step of the sequential
machine. -/
theorem Tracks.edge {p : Profile} {s : Core} {i : Inputs} {done : Outcome} {q : Burst}
    (tracks : Tracks p s done q) (signals : Signals s)
    (raised : s.Waiting → i.wbI.ack = true → s.wbO.cyc = true)
    (reads : s.wbO.cyc = true → i.wbI.ack = true → s.wbO.we = false →
      i.wbI.rdt = done.memory.word s.wbO.adr)
    (dReady : s.state = .tlResp → i.dReady = true)
    (admits : s.Takes i → q.Admits p i.a) :
    Tracks p (s.edge p i) (s.doneAfter p i done)
      (if s.Takes i then q.accept p i.a else q) := by
  have takes : s.Takes i → s.state = .idle ∨ s.state = .aWait :=
    fun taken => signals.ready taken.2
  cases tracks with
  | idle state between outcome =>
      rw [doneAfter_of_quiet signals p i done (by simp [Core.Waiting, state]) (by simp [state]),
        ← outcome]
      split
      · rename_i taken
        exact take_idle state between taken (admits taken)
      · rename_i notTaken
        rw [edge_offers (Or.inl state) notTaken]
        exact .idle state between rfl
  | aWait state kind last count more outcome =>
      rw [doneAfter_of_quiet signals p i done (by simp [Core.Waiting, state]) (by simp [state]),
        ← outcome]
      split
      · rename_i taken
        exact take_aWait state kind last count more taken (admits taken)
      · rename_i notTaken
        rw [edge_offers (Or.inr state) notTaken]
        exact .aWait state kind last count more rfl
  | reading state kind between more bus outcome =>
      rw [if_neg (fun taken => by simpa [state] using takes taken)]
      exact edge_reading raised reads state kind between more bus outcome
  | fetching state kind last count bus outcome =>
      rw [if_neg (fun taken => by simpa [state] using takes taken)]
      exact edge_fetching raised reads state kind last count bus outcome
  | computing state kind last count fetched outcome =>
      rw [if_neg (fun taken => by simpa [state] using takes taken),
        doneAfter_of_quiet signals p i done (by simp [Core.Waiting, state]) (by simp [state])]
      refine .storing ?_ ?_ ?_ ?_ ?_ ?_ ?_ <;> simp [Core.edge, state, kind, last, count,
        fetched, outcome]
  | storing state kind last count fetched bus outcome =>
      rw [if_neg (fun taken => by simpa [state] using takes taken)]
      exact edge_storing raised state kind last count fetched bus outcome
  | putting state kind last count bus outcome =>
      rw [if_neg (fun taken => by simpa [state] using takes taken)]
      exact edge_putting raised state kind last count bus outcome
  | answeringRead state kind between more outcome =>
      rw [if_neg (fun taken => by simpa [state] using takes taken),
        doneAfter_of_answering signals p i done state]
      exact edge_answeringRead state (dReady state) kind between outcome
  | answeringAtomic state kind last count outcome =>
      rw [if_neg (fun taken => by simpa [state] using takes taken),
        doneAfter_of_answering signals p i done state]
      exact edge_answeringAtomic state (dReady state) kind last count outcome
  | answeringPut state kind between outcome =>
      rw [if_neg (fun taken => by simpa [state] using takes taken),
        doneAfter_of_answering signals p i done state]
      exact edge_answeringPut state (dReady state) kind between outcome

end TlConverter

end Cocoapuffs

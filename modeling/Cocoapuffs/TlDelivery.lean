import Cocoapuffs.TlRun

/-!
# How often response beats are delivered

Both converters leave `TL_RESP` on the `d_ready` of the cycle before the
response becomes visible.  Each response beat is therefore delivered exactly
once only as long as `d_ready` is high in both cycles.  Only the number of
beats matters here, so the slave may return any data.
-/

namespace Cocoapuffs

namespace TlConverter

open TileLink

/-! ### What requests require -/

/-- Does every beat of such a request carry data? -/
def carriesData (opcode : BitVec 3) : Bool := isPut opcode || isAtomic opcode

theorem carriesData_apart (p : Profile) {opcode : BitVec 3}
    (carries : carriesData opcode = true) : p.isRead opcode = false := by
  rcases Bool.or_eq_true _ _ |>.mp carries with put | atomic
  · exact (p.put_apart _ put).1
  · exact (p.atomic_apart _ atomic).1

theorem isPut_eq_not_isAtomic {opcode : BitVec 3} (carries : carriesData opcode = true) :
    isPut opcode = !isAtomic opcode := by
  revert carries
  decide +revert

/-- A request of any opcode with all its beats. -/
structure Transaction where
  head : AType
  tail : List AType
  length : tail.length + 1 = if carriesData head.opcode then totalBeats head.size else 1
  control : ∀ beat ∈ tail, beat.opcode = head.opcode ∧ beat.size = head.size

def Transaction.beats (t : Transaction) : List AType := t.head :: t.tail

/-- The number of response beats: the words of a read, one for each beat of an
atomic operation, one for anything else. -/
def Transaction.required (p : Profile) (t : Transaction) : Nat :=
  if p.isRead t.head.opcode || isAtomic t.head.opcode then totalBeats t.head.size else 1

/-- The count between request beats: the beats of the current request still to
come, the beat taken last and the response beats required so far. -/
structure Demand where
  remaining : Nat
  last : AType
  required : Nat

namespace Demand

def start : Demand := ⟨0, AType.new, 0⟩

/-- Beats left in the request after this one. -/
def left (q : Demand) (a : AType) : Nat :=
  if carriesData a.opcode then
    if q.remaining = 0 then totalBeats a.size - 1 else q.remaining - 1
  else 0

def accept (p : Profile) (q : Demand) (a : AType) : Demand where
  remaining := q.left a
  last := a
  required := q.required +
    if p.isRead a.opcode then totalBeats a.size
    else if isPut a.opcode && decide (q.left a ≠ 0) then 0
    else 1

/-- Within a request, the opcode and the size do not change. -/
def Admits (q : Demand) (a : AType) : Prop :=
  q.remaining ≠ 0 → a.opcode = q.last.opcode ∧ a.size = q.last.size

def Admissible (p : Profile) : Demand → List AType → Prop
  | _, [] => True
  | q, a :: beats => q.Admits a ∧ Admissible p (q.accept p a) beats

theorem admissible_append (p : Profile) (q : Demand) (first second : List AType) :
    Admissible p q (first ++ second) ↔
      Admissible p q first ∧ Admissible p (first.foldl (accept p) q) second := by
  induction first generalizing q with
  | nil => simp [Admissible]
  | cons a first ih => simp [Admissible, ih, and_assoc]

theorem required_le_foldl (p : Profile) (q : Demand) (beats : List AType) :
    q.required ≤ (beats.foldl (accept p) q).required := by
  induction beats generalizing q with
  | nil => exact le_rfl
  | cons a beats ih => exact (Nat.le_add_right _ _).trans (ih (q.accept p a))

theorem foldl_tail (p : Profile) {head : AType} (carries : carriesData head.opcode = true)
    (tail : List AType)
    (control : ∀ beat ∈ tail, beat.opcode = head.opcode ∧ beat.size = head.size)
    (q : Demand) (count : q.remaining = tail.length)
    (last : q.last.opcode = head.opcode ∧ q.last.size = head.size) :
    Admissible p q tail ∧ (tail.foldl (accept p) q).remaining = 0 ∧
      (tail.foldl (accept p) q).required = q.required +
        if isAtomic head.opcode then tail.length else if tail = [] then 0 else 1 := by
  induction tail generalizing q with
  | nil => exact ⟨trivial, count, by simp⟩
  | cons a tail ih =>
      obtain ⟨opcode, size⟩ := control a (by simp)
      have leftEq : q.left a = tail.length := by
        simp [left, opcode, carries, count]
      obtain ⟨admissible, done, required⟩ := ih
        (fun beat mem => control beat (by simp [mem])) (q.accept p a) leftEq ⟨opcode, size⟩
      refine ⟨⟨fun _ => ?_, admissible⟩, done, ?_⟩
      · rw [opcode, size, last.1, last.2]
        exact ⟨rfl, rfl⟩
      · rw [List.foldl_cons, required]
        simp only [accept, leftEq, opcode, carriesData_apart p carries,
          isPut_eq_not_isAtomic carries]
        cases isAtomic head.opcode with
        | true =>
            simp
            omega
        | false => cases tail <;> simp

theorem foldl_transaction (p : Profile) (t : Transaction) (q : Demand)
    (between : q.remaining = 0) :
    Admissible p q t.beats ∧ (t.beats.foldl (accept p) q).remaining = 0 ∧
      (t.beats.foldl (accept p) q).required = q.required + t.required p := by
  have length := t.length
  cases carries : carriesData t.head.opcode with
  | true =>
      rw [carries, if_pos rfl] at length
      have leftEq : q.left t.head = t.tail.length := by
        simp [left, carries, between, ← length]
      obtain ⟨admissible, done, required⟩ := foldl_tail p carries t.tail t.control
        (q.accept p t.head) leftEq ⟨rfl, rfl⟩
      refine ⟨⟨fun inBurst => absurd between inBurst, admissible⟩, done, ?_⟩
      rw [Transaction.beats, List.foldl_cons, required]
      simp only [accept, leftEq, carriesData_apart p carries, isPut_eq_not_isAtomic carries,
        Transaction.required, ← length]
      cases isAtomic t.head.opcode with
      | true =>
          simp
          omega
      | false => cases t.tail <;> simp
  | false =>
      rw [carries, if_neg (by simp)] at length
      have single : t.tail = [] := List.eq_nil_of_length_eq_zero (by omega)
      have kinds : isPut t.head.opcode = false ∧ isAtomic t.head.opcode = false := by
        simpa [carriesData] using carries
      refine ⟨⟨fun inBurst => absurd between inBurst, by rw [single]; trivial⟩, ?_, ?_⟩
      · simp [Transaction.beats, single, accept, left, carries]
      · simp [Transaction.beats, single, accept, Transaction.required, kinds]

theorem foldl_transactions (p : Profile) (ts : List Transaction) (q : Demand)
    (between : q.remaining = 0) :
    Admissible p q (ts.flatMap Transaction.beats) ∧
      ((ts.flatMap Transaction.beats).foldl (accept p) q).remaining = 0 ∧
      ((ts.flatMap Transaction.beats).foldl (accept p) q).required =
        q.required + (ts.map (Transaction.required p)).sum := by
  induction ts generalizing q with
  | nil => exact ⟨trivial, between, rfl⟩
  | cons t ts ih =>
      obtain ⟨admissible, middle, required⟩ := foldl_transaction p t q between
      obtain ⟨admissible', done, required'⟩ := ih (t.beats.foldl (accept p) q) middle
      rw [List.flatMap_cons, List.foldl_append, admissible_append, List.map_cons,
        List.sum_cons]
      exact ⟨⟨admissible, admissible'⟩, done, by rw [required', required, Nat.add_assoc]⟩

end Demand

/-! ### What the converter still owes -/

/-- The converter's place in the count `q`, given the response beats it has
given so far. -/
inductive Owes (p : Profile) (s : Core) (given : Nat) (q : Demand) : Prop where
  | idle (state : s.state = .idle) (between : q.remaining = 0)
      (total : q.required = given)
  | aWait (state : s.state = .aWait) (kind : carriesData s.savedA.opcode = true)
      (last : q.last = s.savedA) (count : q.remaining = s.beatCount.toNat)
      (more : 0 < s.beatCount.toNat) (total : q.required = given)
  /-- A request without data is not a burst, but waits as one. -/
  | stranded (state : s.state = .aWait) (kind : carriesData s.savedA.opcode = false)
      (between : q.remaining = 0) (total : q.required = given)
  | reading (state : s.state = .wbRdWait ∨ s.state = .tlResp)
      (kind : p.isRead s.savedA.opcode = true) (between : q.remaining = 0)
      (more : 0 < s.beatCount.toNat) (total : q.required = given + s.beatCount.toNat)
  | atomic (state : s.state = .wbRdWait ∨ s.state = .alu ∨ s.state = .wbWrWait ∨
        s.state = .tlResp)
      (kind : isAtomic s.savedA.opcode = true) (last : q.last = s.savedA)
      (count : q.remaining + 1 = s.beatCount.toNat) (total : q.required = given + 1)
  | putting (state : s.state = .wbWrWait) (kind : isPut s.savedA.opcode = true)
      (last : q.last = s.savedA) (count : q.remaining + 1 = s.beatCount.toNat)
      (total : q.required = given + if q.remaining = 0 then 1 else 0)
  | answeringPut (state : s.state = .tlResp) (kind : isPut s.savedA.opcode = true)
      (between : q.remaining = 0) (total : q.required = given + 1)
  | single (state : s.state = .wbWrWait ∨ s.state = .tlResp)
      (kind : carriesData s.savedA.opcode = false ∧ p.isRead s.savedA.opcode = false)
      (between : q.remaining = 0) (total : q.required = given + 1)

theorem Owes.given_le {p : Profile} {s : Core} {given : Nat} {q : Demand}
    (owes : Owes p s given q) : given ≤ q.required := by
  cases owes <;> omega

theorem Owes.given_of_offering {p : Profile} {s : Core} {given : Nat} {q : Demand}
    (owes : Owes p s given q) (offering : s.state = .idle ∨ s.state = .aWait) :
    q.required = given := by
  cases owes <;> rcases offering with state | state <;> simp_all

section Edges

variable {p : Profile} {s : Core} {i : Inputs} {given : Nat} {q : Demand}

private theorem owes_take_idle (state : s.state = .idle) (between : q.remaining = 0)
    (total : q.required = given) (taken : s.Takes i) :
    Owes p (s.edge p i) given (q.accept p i.a) := by
  obtain ⟨valid, ready⟩ := taken
  have beats := getTotalBeats_toNat i.a.size
  have positive := totalBeats_pos i.a.size
  cases read : p.isRead i.a.opcode with
  | true =>
      have noData : carriesData i.a.opcode = false := by
        by_contra carries
        simp [carriesData_apart p (by simpa using carries)] at read
      refine .reading ?_ ?_ ?_ ?_ ?_ <;>
        simp [Core.edge, state, Core.idleEdge, valid, ready, read, Demand.accept,
          Demand.left, noData, beats, positive, total]
  | false =>
      cases carries : carriesData i.a.opcode with
      | true =>
          have notPerm : p.isPerm i.a.opcode = false := by
            rcases Bool.or_eq_true _ _ |>.mp carries with put | atomic
            · exact (p.put_apart _ put).2.1
            · exact (p.atomic_apart _ atomic).2.1
          have putEq := isPut_eq_not_isAtomic carries
          cases atomic : isAtomic i.a.opcode with
          | true =>
              refine .atomic ?_ ?_ ?_ ?_ ?_ <;>
                simp [Core.edge, state, Core.idleEdge, valid, ready, read, notPerm, atomic,
                  Demand.accept, Demand.left, carries, between, beats, putEq, total,
                  Nat.sub_add_cancel positive]
          | false =>
              refine .putting ?_ ?_ ?_ ?_ ?_ <;>
                simp [Core.edge, state, Core.idleEdge, valid, ready, read, notPerm, atomic,
                  Demand.accept, Demand.left, carries, between, beats, putEq, total,
                  Nat.sub_add_cancel positive]
      | false =>
          have kinds : isPut i.a.opcode = false ∧ isAtomic i.a.opcode = false := by
            simpa [carriesData] using carries
          cases perm : p.isPerm i.a.opcode <;> refine .single ?_ ?_ ?_ ?_ <;>
            simp [Core.edge, state, Core.idleEdge, valid, ready, read, perm, kinds,
              Demand.accept, Demand.left, carries, total]

private theorem owes_take_aWait (state : s.state = .aWait)
    (kind : carriesData s.savedA.opcode = true) (last : q.last = s.savedA)
    (count : q.remaining = s.beatCount.toNat) (more : 0 < s.beatCount.toNat)
    (total : q.required = given) (taken : s.Takes i) (admits : q.Admits i.a) :
    Owes p (s.edge p i) given (q.accept p i.a) := by
  obtain ⟨valid, ready⟩ := taken
  have inBurst : q.remaining ≠ 0 := by omega
  have opcode : i.a.opcode = s.savedA.opcode := by
    rw [← last]
    exact (admits inBurst).1
  rw [← opcode] at kind
  have leftEq : q.left i.a + 1 = s.beatCount.toNat := by
    rw [Demand.left, if_pos kind, if_neg inBurst]
    omega
  have notRead := carriesData_apart p kind
  have putEq := isPut_eq_not_isAtomic kind
  cases atomic : isAtomic i.a.opcode with
  | true =>
      refine .atomic ?_ ?_ ?_ ?_ ?_ <;>
        simp [Core.edge, state, Core.aWaitEdge, valid, ready, atomic, Demand.accept, leftEq,
          notRead, putEq, total]
  | false =>
      refine .putting ?_ ?_ ?_ ?_ ?_ <;>
        simp [Core.edge, state, Core.aWaitEdge, valid, ready, atomic, Demand.accept, leftEq,
          notRead, putEq, total]

private theorem owes_answering (state : s.state = .tlResp) (dReady : i.dReady = true)
    (owes : Owes p s given q) : Owes p (s.edge p i) (given + 1) q := by
  by_cases more : 1#8 < s.beatCount
  · have lowered := toNat_pred more
    have many : 1 < s.beatCount.toNat := by simpa using BitVec.lt_def.mp more
    cases owes with
    | idle other => simp [state] at other
    | aWait other => simp [state] at other
    | stranded other => simp [state] at other
    | putting other => simp [state] at other
    | reading _ kind between _ total =>
        have notPut : isPut s.savedA.opcode = false := by
          by_contra put
          simp [(p.put_apart _ (by simpa using put)).1] at kind
        refine .reading ?_ ?_ between ?_ ?_ <;>
          simp [Core.edge, state, Core.tlRespEdge, dReady, more, kind, notPut, lowered]
        all_goals omega
    | atomic _ kind last count total =>
        have notPut := atomic_not_put kind
        have notRead := (p.atomic_apart _ kind).1
        refine .aWait ?_ ?_ ?_ ?_ ?_ total <;>
          simp [Core.edge, state, Core.tlRespEdge, dReady, more, kind, notPut, notRead,
            carriesData, last, lowered]
        all_goals omega
    | answeringPut _ kind between total =>
        exact .idle (edge_lastAnswer state dReady (Or.inl kind)) between total
    | single _ kind between total =>
        have kinds : isPut s.savedA.opcode = false ∧ isAtomic s.savedA.opcode = false := by
          simpa [carriesData] using kind.1
        refine .stranded ?_ ?_ between total <;>
          simp [Core.edge, state, Core.tlRespEdge, dReady, more, kind, kinds]
  · have single : s.beatCount.toNat ≤ 1 := by simpa [BitVec.lt_def] using more
    have toIdle : (s.edge p i).state = .idle := edge_lastAnswer state dReady (Or.inr more)
    cases owes with
    | idle other => simp [state] at other
    | aWait other => simp [state] at other
    | stranded other => simp [state] at other
    | putting other => simp [state] at other
    | reading _ _ between _ total => exact .idle toIdle between (by omega)
    | atomic _ _ _ count total => exact .idle toIdle (by omega) total
    | answeringPut _ _ between total => exact .idle toIdle between total
    | single _ _ between total => exact .idle toIdle between total

theorem Owes.congr {s' : Core} (owes : Owes p s given q) (state : s'.state = s.state)
    (savedA : s'.savedA = s.savedA) (beatCount : s'.beatCount = s.beatCount) :
    Owes p s' given q := by
  cases s
  cases s'
  cases state
  cases savedA
  cases beatCount
  cases owes with
  | idle state between total => exact .idle state between total
  | aWait state kind last count more total => exact .aWait state kind last count more total
  | stranded state kind between total => exact .stranded state kind between total
  | reading state kind between more total => exact .reading state kind between more total
  | atomic state kind last count total => exact .atomic state kind last count total
  | putting state kind last count total => exact .putting state kind last count total
  | answeringPut state kind between total => exact .answeringPut state kind between total
  | single state kind between total => exact .single state kind between total

private theorem owes_answered (waiting : s.Waiting) (ack : i.wbI.ack = true)
    (owes : Owes p s given q) : Owes p (s.edge p i) given q := by
  rcases waiting with state | state
  · cases owes with
    | idle other => simp [state] at other
    | aWait other => simp [state] at other
    | stranded other => simp [state] at other
    | putting other => simp [state] at other
    | answeringPut other => simp [state] at other
    | single other => simp [state] at other
    | reading _ kind between more total =>
        refine .reading ?_ ?_ between ?_ ?_ <;>
          simp [Core.edge, state, Core.wbRdWaitEdge, ack, kind, more, total]
    | atomic _ kind last count total =>
        have notRead := (p.atomic_apart _ kind).1
        refine .atomic ?_ ?_ ?_ ?_ ?_ <;>
          simp [Core.edge, state, Core.wbRdWaitEdge, ack, kind, notRead, last, count, total]
  · cases owes with
    | idle other => simp [state] at other
    | aWait other => simp [state] at other
    | stranded other => simp [state] at other
    | reading other => simp [state] at other
    | answeringPut other => simp [state] at other
    | atomic _ kind last count total =>
        have notPut := atomic_not_put kind
        refine .atomic ?_ ?_ ?_ ?_ ?_ <;>
          simp [Core.edge, state, Core.wbWrWaitEdge, ack, kind, notPut, last, count, total]
    | putting _ kind last count total =>
        have notAtomic := put_not_atomic kind
        by_cases more : 1#8 < s.beatCount
        · have lowered := toNat_pred more
          have many : 1 < s.beatCount.toNat := by simpa using BitVec.lt_def.mp more
          rw [if_neg (by omega), Nat.add_zero] at total
          refine .aWait ?_ ?_ ?_ ?_ ?_ total <;>
            simp [Core.edge, state, Core.wbWrWaitEdge, ack, kind, notAtomic, more, last,
              carriesData, lowered]
          all_goals omega
        · have single : s.beatCount.toNat ≤ 1 := by simpa [BitVec.lt_def] using more
          have final : q.remaining = 0 := by omega
          refine .answeringPut ?_ ?_ final ?_ <;>
            simp [Core.edge, state, Core.wbWrWaitEdge, ack, kind, notAtomic, more, total,
              final]
    | single _ kind between total =>
        have kinds : isPut s.savedA.opcode = false ∧ isAtomic s.savedA.opcode = false := by
          simpa [carriesData] using kind.1
        refine .single ?_ ?_ between total <;>
          simp [Core.edge, state, Core.wbWrWaitEdge, ack, kind, kinds]

private theorem owes_computing (state : s.state = .alu) (owes : Owes p s given q) :
    Owes p (s.edge p i) given q := by
  cases owes with
  | idle other => simp [state] at other
  | aWait other => simp [state] at other
  | stranded other => simp [state] at other
  | reading other => simp [state] at other
  | putting other => simp [state] at other
  | answeringPut other => simp [state] at other
  | single other => simp [state] at other
  | atomic _ kind last count total =>
      refine .atomic ?_ ?_ ?_ ?_ total <;> simp [Core.edge, state, kind, last, count]

private theorem owes_taken (owes : Owes p s given q) (signals : Signals s)
    (taken : s.Takes i) (admits : q.Admits i.a)
    (fresh : s.state = .aWait → carriesData s.savedA.opcode = true) :
    Owes p (s.edge p i) given (q.accept p i.a) := by
  have offering := signals.ready taken.2
  cases owes with
  | idle state between total => exact owes_take_idle state between total taken
  | aWait state kind last count more total =>
      exact owes_take_aWait state kind last count more total taken admits
  | stranded state kind => simp [fresh state] at kind
  | reading state => rcases offering with other | other <;> simp [other] at state
  | atomic state => rcases offering with other | other <;> simp [other] at state
  | putting state => rcases offering with other | other <;> simp [other] at state
  | answeringPut state => rcases offering with other | other <;> simp [other] at state
  | single state => rcases offering with other | other <;> simp [other] at state

/-- One edge gives at most one response and takes at most one request beat. -/
theorem Owes.edge (owes : Owes p s given q) (signals : Signals s)
    (dReady : s.state = .tlResp → i.dReady = true) (admits : s.Takes i → q.Admits i.a)
    (fresh : s.Takes i → s.state = .aWait → carriesData s.savedA.opcode = true) :
    Owes p (s.edge p i) (given + if s.state = .tlResp then 1 else 0)
      (if s.Takes i then q.accept p i.a else q) := by
  by_cases taken : s.Takes i
  · have notAnswering : s.state ≠ .tlResp := by
      rcases signals.ready taken.2 with state | state <;> simp [state]
    rw [if_pos taken, if_neg notAnswering]
    exact owes_taken owes signals taken (admits taken) (fresh taken)
  rw [if_neg taken]
  cases state : s.state with
  | idle =>
      rw [edge_offers (Or.inl state) taken]
      exact owes.congr rfl rfl rfl
  | aWait =>
      rw [edge_offers (Or.inr state) taken]
      exact owes.congr rfl rfl rfl
  | alu => exact owes_computing state owes
  | tlResp => exact owes_answering state (dReady state) owes
  | wbRdWait =>
      cases ack : i.wbI.ack with
      | true => exact owes_answered (Or.inl state) ack owes
      | false =>
          obtain ⟨same, count, savedA, _⟩ := edge_stalled p (Or.inl state) ack
          exact owes.congr same savedA count
  | wbWrWait =>
      cases ack : i.wbI.ack with
      | true => exact owes_answered (Or.inr state) ack owes
      | false =>
          obtain ⟨same, count, savedA, _⟩ := edge_stalled p (Or.inr state) ack
          exact owes.congr same savedA count

end Edges

/-! ### Runs -/

/-- A bus that acknowledges raised cycles only, each of them in the end. -/
structure AnsweringBus (core : Nat → Core) (inputs : Nat → Inputs) : Prop where
  clock : Trace.Recurs fun n => (inputs n).clk = true
  ack_cyc : ∀ n, (inputs n).clk = true → (inputs n).wbI.ack = true → (core n).wbO.cyc = true
  serves : Serves (fun n => (inputs n).clk) (fun n => (core n).wbO) fun n => (inputs n).wbI

/-- The discipline of the response channel. -/
structure DeliversOnce (p : Profile) (core : Nat → Core) (inputs : Nat → Inputs) : Prop where
  /-- A response stays on the channel until it is taken. -/
  held : ∀ n, (core n).d.valid = true →
    ¬ ((inputs n).clk = true ∧ (inputs n).dReady = true) →
    (core (n + 1)).d.valid = true ∧ (core (n + 1)).d.opcode = (core n).d.opcode ∧
      (core (n + 1)).d.size = (core n).d.size ∧
      (core (n + 1)).d.source = (core n).d.source ∧
      (core (n + 1)).d.data = (core n).d.data
  /-- No more response beats are delivered than the requests require, -/
  never_more : ∀ n (ts : List Transaction),
    accepted core inputs n <+: ts.flatMap Transaction.beats →
    (delivered core inputs n).length ≤ (ts.map (Transaction.required p)).sum
  /-- and no fewer. -/
  all : ∀ n (ts : List Transaction),
    accepted core inputs n = ts.flatMap Transaction.beats →
    ∃ m, n ≤ m ∧ accepted core inputs m = accepted core inputs n ∧
      (delivered core inputs m).length = (ts.map (Transaction.required p)).sum

/-- `d_ready` is high when a response is about to become visible and when it is
visible. -/
def Prompt (s : Core) (i : Inputs) : Prop :=
  i.clk = true → s.state = .tlResp ∨ s.d.valid = true → i.dReady = true

/-- The beat taken in `A_WAIT`, if one is taken, continues a burst. -/
def Continues (s : Core) (i : Inputs) : Prop :=
  i.clk = true → s.Takes i → s.state = .aWait → carriesData s.savedA.opcode = true

section Run

variable {p : Profile} {core : Nat → Core} {inputs : Nat → Inputs}
  (runs : Runs p core inputs) (prompt : ∀ n, Prompt (core n) (inputs n))
  (continues : ∀ n, Continues (core n) (inputs n))

include runs prompt continues

theorem Runs.owes (n : Nat) (admissible : Demand.Admissible p Demand.start
      (accepted core inputs n)) :
    Owes p (core n) ((delivered core inputs n).length + (core n).onChannel.length)
      ((accepted core inputs n).foldl (Demand.accept p) Demand.start) := by
  induction n with
  | zero =>
      obtain ⟨s, start⟩ := runs.start
      refine .idle ?_ rfl ?_
      · rw [start]
        rfl
      · simp [accepted, delivered, start, Core.onChannel, Core.reset, DType.new,
          Demand.start]
  | succ n ih =>
      obtain ⟨new, grown⟩ : accepted core inputs n <+: accepted core inputs (n + 1) :=
        Trace.history_prefix _ (Nat.le_succ n)
      have owes := ih (by
        rw [← grown, Demand.admissible_append] at admissible
        exact admissible.1)
      cases tick : (inputs n).clk with
      | false =>
          have same : accepted core inputs (n + 1) = accepted core inputs n :=
            Trace.history_succ_none (by simp [tick])
          have same' : delivered core inputs (n + 1) = delivered core inputs n :=
            Trace.history_succ_none (by simp [tick])
          rw [same, same', runs.next_of_quiet tick]
          exact owes
      | true =>
          have moved : (delivered core inputs (n + 1)).length +
                (core (n + 1)).onChannel.length =
              (delivered core inputs n).length + (core n).onChannel.length +
                if (core n).state = .tlResp then 1 else 0 := by
            have taken : ((core n).d.valid && (inputs n).dReady) = (core n).d.valid := by
              cases valid : (core n).d.valid with
              | false => rfl
              | true => exact prompt n tick (Or.inr valid)
            rw [delivered, Trace.history_succ, List.length_append, tick, Bool.true_and,
              taken, Core.onChannel, Core.onChannel, runs.next_of_tick tick, edge_dValid]
            cases (core n).d.valid <;>
              by_cases answering : (core n).state = .tlResp <;> simp [answering]
          rw [moved, runs.next_of_tick tick]
          have edge := owes.edge (runs.signals n) (i := inputs n)
            (fun state => prompt n tick (Or.inl state))
          by_cases taken : (core n).Takes (inputs n)
          · have one : accepted core inputs (n + 1) =
                accepted core inputs n ++ [(inputs n).a] :=
              Trace.history_succ_some (by simp [tick, taken.1, taken.2])
            rw [one, Demand.admissible_append] at admissible
            rw [one, List.foldl_append]
            simpa [taken] using edge (fun _ => admissible.2.1) (continues n tick)
          · have none : accepted core inputs (n + 1) = accepted core inputs n :=
              Trace.history_succ_none (by simpa [tick, Core.Takes] using taken)
            rw [none]
            simpa [taken] using edge (fun now => absurd now taken) (continues n tick)

theorem Runs.owes_transactions {n : Nat} {ts : List Transaction}
    (isPrefix : accepted core inputs n <+: ts.flatMap Transaction.beats) :
    Owes p (core n) ((delivered core inputs n).length + (core n).onChannel.length)
      ((accepted core inputs n).foldl (Demand.accept p) Demand.start) := by
  obtain ⟨rest, whole⟩ := isPrefix
  have admissible := (Demand.foldl_transactions p ts Demand.start rfl).1
  rw [← whole, Demand.admissible_append] at admissible
  exact runs.owes prompt continues n admissible.1

/-- With `d_ready` high in time, every response beat is delivered exactly once. -/
theorem Runs.deliversOnce (bus : AnsweringBus core inputs) :
    DeliversOnce p core inputs where
  held n valid stalled := by
    have quiet : (inputs n).clk = false := by
      by_contra tick
      have ready := prompt n (by simpa using tick) (Or.inr valid)
      exact stalled ⟨by simpa using tick, ready⟩
    rw [runs.next_of_quiet quiet]
    exact ⟨valid, rfl, rfl, rfl, rfl⟩
  never_more n ts isPrefix := by
    have owes := runs.owes_transactions prompt continues isPrefix
    obtain ⟨rest, whole⟩ := isPrefix
    have required := (Demand.foldl_transactions p ts Demand.start rfl).2.2
    rw [← whole, List.foldl_append] at required
    have grows := Demand.required_le_foldl p
      ((accepted core inputs n).foldl (Demand.accept p) Demand.start) rest
    have given := owes.given_le
    simp only [Demand.start] at required grows given
    omega
  all n ts whole := by
    have recurs := runs.aReady_recurs (fun m tick state => prompt m tick (Or.inl state))
      bus.clock (fun m tick _ ack => bus.ack_cyc m tick ack) bus.serves
    obtain ⟨m, le, ready, same⟩ := accepted_until_ready recurs n
    have isPrefix : accepted core inputs m <+: ts.flatMap Transaction.beats := by
      rw [same, whole]
    have owes := runs.owes_transactions prompt continues isPrefix
    have required := (Demand.foldl_transactions p ts Demand.start rfl).2.2
    have given := owes.given_of_offering ((runs.signals m).ready ready)
    rw [same, whole, required] at given
    refine ⟨m, le, same, ?_⟩
    simpa [Core.onChannel, (runs.signals m).ready_quiet ready, Demand.start] using given.symm

end Run

/-- Both converters deliver every response beat exactly once in every run in
which `d_ready` is high whenever a response is about to become visible or is
visible, and `A_WAIT` only ever continues bursts. -/
theorem tlConverters_deliverOnce (uhStart : TlUh2wblite.State)
    (uhInputs : Nat → TlUh2wblite.Inputs) (cStart : TlC2wblite.State)
    (cInputs : Nat → TlC2wblite.Inputs) :
    ((∀ n, (uhInputs n).rst = false) →
      AnsweringBus (TlUh2wblite.states uhStart uhInputs) (fun n => (uhInputs n).core) →
      (∀ n, Prompt (TlUh2wblite.states uhStart uhInputs n) (uhInputs n).core) →
      (∀ n, Continues (TlUh2wblite.states uhStart uhInputs n) (uhInputs n).core) →
      DeliversOnce uhProfile (TlUh2wblite.states uhStart uhInputs)
        fun n => (uhInputs n).core) ∧
    ((∀ n, (cInputs n).rst = false) →
      AnsweringBus (fun n => (TlC2wblite.states cStart cInputs n).core)
        (fun n => (cInputs n).core) →
      (∀ n, Prompt (TlC2wblite.states cStart cInputs n).core (cInputs n).core) →
      (∀ n, Continues (TlC2wblite.states cStart cInputs n).core (cInputs n).core) →
      DeliversOnce cProfile (fun n => (TlC2wblite.states cStart cInputs n).core)
        fun n => (cInputs n).core) := by
  constructor
  · intro noReset bus prompt continues
    exact (TlUh2wblite.runs uhStart noReset).deliversOnce prompt continues bus
  · intro noReset bus prompt continues
    exact (TlC2wblite.runs cStart noReset).deliversOnce prompt continues bus

/-! ### One read under two waveforms of `d_ready` -/

/-- A read of one word. -/
def oneWord : Transaction where
  head := ⟨opGet, 0, 2, 1, 0x40, 0xf, 0, false, true⟩
  tail := []
  length := by decide
  control := by simp

/-- Registers as a simulator leaves them before reset. -/
def powerUp : Core := ⟨.idle, AType.new, 0, 0, 0, false, DType.new, HostBus.new⟩

/-- The read is offered until it is taken and the slave answers at once. -/
def readUnder (dReady : Nat → Bool) (n : Nat) : Inputs where
  clk := true
  rst := false
  a := { oneWord.head with valid := decide (n ≤ 1) }
  dReady := dReady n
  wbI := ⟨0xcafe, decide (n = 3)⟩

def uhReadUnder (dReady : Nat → Bool) (n : Nat) : TlUh2wblite.Inputs :=
  ⟨true, false, ⟨(readUnder dReady n).a, dReady n⟩, (readUnder dReady n).wbI⟩

def cReadUnder (dReady : Nat → Bool) (n : Nat) : TlC2wblite.Inputs :=
  ⟨true, false, ⟨(readUnder dReady n).a, CType.new, EType.new, true, dReady n⟩,
    (readUnder dReady n).wbI⟩

/-- `d_ready` in time, and one cycle late. -/
def inTime (n : Nat) : Bool := decide (n = 4 ∨ n = 5)

def late (n : Nat) : Bool := decide (5 ≤ n)

section ReadUnder

variable {p : Profile} {core : Nat → Core} {dReady : Nat → Bool}
  (profile : p = uhProfile ∨ p = cProfile) (waveform : dReady = inTime ∨ dReady = late)
  (reset : core 0 = powerUp.reset)
  (next : ∀ n, core (n + 1) = Core.step p (readUnder dReady n) (core n))

include reset next in
theorem readUnder_run (n : Nat) :
    core n = Trace.run (Core.step p) powerUp.reset (readUnder dReady) n := by
  induction n with
  | zero => exact reset
  | succ n ih => rw [next, ih, Trace.run_succ]

include profile waveform in
theorem readUnder_rest {n : Nat} (le : 8 ≤ n) :
    Trace.run (Core.step p) powerUp.reset (readUnder dReady) n =
      Trace.run (Core.step p) powerUp.reset (readUnder dReady) 8 := by
  refine Trace.run_at_rest rfl (fun n le => ?_) le
  have quiet : readUnder dReady n = { readUnder dReady 8 with dReady := dReady n } := by
    have after : ¬ n ≤ 1 ∧ n ≠ 3 := by omega
    simp [readUnder, after]
  rw [quiet]
  cases dReady n <;> rcases profile with rfl | rfl <;> rcases waveform with rfl | rfl <;>
    decide +kernel

include profile waveform reset next in
theorem readUnder_bus : AnsweringBus core (readUnder dReady) where
  clock n := ⟨n, le_rfl, rfl⟩
  ack_cyc n _ ack := by
    obtain rfl : n = 3 := by simpa [readUnder] using ack
    rw [readUnder_run reset next]
    rcases profile with rfl | rfl <;> rcases waveform with rfl | rfl <;> decide +kernel
  serves := by
    intro n high
    simp only [readUnder_run reset next] at high
    have early : n < 8 := by
      by_contra after
      rw [readUnder_rest profile waveform (Nat.le_of_not_lt after)] at high
      revert high
      rcases profile with rfl | rfl <;> rcases waveform with rfl | rfl <;> decide +kernel
    have served : ∀ n < 8, (Trace.run (Core.step p) powerUp.reset (readUnder dReady)
        n).wbO.cyc = true → n ≤ 3 := by
      rcases profile with rfl | rfl <;> rcases waveform with rfl | rfl <;> decide +kernel
    exact ⟨3, served n early high, rfl, rfl⟩

end ReadUnder

section Waveforms

variable {p : Profile} (core : Nat → Core) (profile : p = uhProfile ∨ p = cProfile)

include profile in
theorem inTime_conditions (reset : core 0 = powerUp.reset)
    (next : ∀ n, core (n + 1) = Core.step p (readUnder inTime n) (core n)) (n : Nat) :
    Prompt (core n) (readUnder inTime n) ∧ Continues (core n) (readUnder inTime n) := by
  have checked : ∀ n < 9,
      ((Trace.run (Core.step p) powerUp.reset (readUnder inTime) n).state = .tlResp ∨
        (Trace.run (Core.step p) powerUp.reset (readUnder inTime) n).d.valid = true →
        inTime n = true) ∧
      (Trace.run (Core.step p) powerUp.reset (readUnder inTime) n).state ≠ .aWait := by
    rcases profile with rfl | rfl <;> decide +kernel
  have quiet : (Trace.run (Core.step p) powerUp.reset (readUnder inTime) 8).state ≠ .tlResp ∧
      (Trace.run (Core.step p) powerUp.reset (readUnder inTime) 8).d.valid = false := by
    rcases profile with rfl | rfl <;> decide +kernel
  rw [readUnder_run reset next]
  by_cases early : n < 8
  · obtain ⟨prompt, noWait⟩ := checked n (by omega)
    exact ⟨fun _ => prompt, fun _ _ wait => absurd wait noWait⟩
  · rw [readUnder_rest profile (Or.inl rfl) (Nat.le_of_not_lt early)]
    refine ⟨fun _ visible => ?_, fun _ _ wait => absurd wait (checked 8 (by decide)).2⟩
    rcases visible with answering | valid
    · exact absurd answering quiet.1
    · simp [quiet.2] at valid

include profile in
/-- With `d_ready` one cycle late the response is delivered twice. -/
theorem late_delivers_twice (reset : core 0 = powerUp.reset)
    (next : ∀ n, core (n + 1) = Core.step p (readUnder late n) (core n)) :
    ¬ DeliversOnce p core (readUnder late) := by
  obtain rfl : core = Trace.run (Core.step p) powerUp.reset (readUnder late) :=
    funext (readUnder_run reset next)
  intro delivers
  have once := delivers.never_more 8 [oneWord]
  revert once
  rcases profile with rfl | rfl <;> decide +kernel

end Waveforms

def cPowerUp : TlC2wblite.State := ⟨powerUp, BType.new, false, false⟩

theorem tlConverters_deliverOnce_inTime :
    DeliversOnce uhProfile (TlUh2wblite.states powerUp (uhReadUnder inTime))
        (fun n => (uhReadUnder inTime n).core) ∧
      DeliversOnce cProfile (fun n => (TlC2wblite.states cPowerUp (cReadUnder inTime) n).core)
        (fun n => (cReadUnder inTime n).core) := by
  have uhNext := (TlUh2wblite.runs powerUp fun n =>
    show (uhReadUnder inTime n).rst = false from rfl).next
  have cNext := (TlC2wblite.runs cPowerUp fun n =>
    show (cReadUnder inTime n).rst = false from rfl).next
  have uhConditions := inTime_conditions _ (Or.inl rfl) rfl uhNext
  have cConditions := inTime_conditions (fun n =>
    (TlC2wblite.states cPowerUp (cReadUnder inTime) n).core) (Or.inr rfl) rfl cNext
  obtain ⟨uhDelivers, cDelivers⟩ := tlConverters_deliverOnce powerUp (uhReadUnder inTime)
    cPowerUp (cReadUnder inTime)
  constructor
  · exact uhDelivers (fun _ => rfl) (readUnder_bus (Or.inl rfl) (Or.inl rfl) rfl uhNext)
      (fun n => (uhConditions n).1) (fun n => (uhConditions n).2)
  · exact cDelivers (fun _ => rfl) (readUnder_bus (Or.inr rfl) (Or.inl rfl) rfl cNext)
      (fun n => (cConditions n).1) (fun n => (cConditions n).2)

/-- A master that raises `d_ready` when it sees the response gets it twice. -/
theorem tlConverters_late_twice :
    (AnsweringBus (TlUh2wblite.states powerUp (uhReadUnder late))
        (fun n => (uhReadUnder late n).core) ∧
      ¬ DeliversOnce uhProfile (TlUh2wblite.states powerUp (uhReadUnder late))
        fun n => (uhReadUnder late n).core) ∧
    (AnsweringBus (fun n => (TlC2wblite.states cPowerUp (cReadUnder late) n).core)
        (fun n => (cReadUnder late n).core) ∧
      ¬ DeliversOnce cProfile (fun n => (TlC2wblite.states cPowerUp (cReadUnder late) n).core)
        fun n => (cReadUnder late n).core) := by
  have uhNext := (TlUh2wblite.runs powerUp fun n =>
    show (uhReadUnder late n).rst = false from rfl).next
  have cNext := (TlC2wblite.runs cPowerUp fun n =>
    show (cReadUnder late n).rst = false from rfl).next
  exact ⟨⟨readUnder_bus (Or.inl rfl) (Or.inr rfl) rfl uhNext,
      late_delivers_twice _ (Or.inl rfl) rfl uhNext⟩,
    readUnder_bus (Or.inr rfl) (Or.inr rfl) rfl cNext,
    late_delivers_twice _ (Or.inr rfl) rfl cNext⟩

end TlConverter

end Cocoapuffs

import Cocoapuffs.TlConverter

/-!
# The sequential meaning of TileLink messages

What a converter is for: messages are carried out one after the other on a word
memory.  A message is stated whole, with all its beats; `Burst` carries out the
same messages beat by beat, which is the form a state machine can be compared
with.
-/

namespace Cocoapuffs

namespace TlConverter

open TileLink

/-! ### Atomic operations -/

/-- The atomic memory operations, on numbers; undefined parameters exchange. -/
def amo (opcode param : BitVec 3) (old operand : BitVec 32) : BitVec 32 :=
  if opcode = opArithmeticData then
    if param = paramArithMin then BitVec.ofInt 32 (min old.toInt operand.toInt)
    else if param = paramArithMax then BitVec.ofInt 32 (max old.toInt operand.toInt)
    else if param = paramArithMinu then BitVec.ofNat 32 (min old.toNat operand.toNat)
    else if param = paramArithMaxu then BitVec.ofNat 32 (max old.toNat operand.toNat)
    else if param = paramArithAdd then BitVec.ofNat 32 (old.toNat + operand.toNat)
    else operand
  else
    if param = paramLogicXor then old ^^^ operand
    else if param = paramLogicOr then old ||| operand
    else if param = paramLogicAnd then old &&& operand
    else operand

theorem ofInt_min {w : Nat} (x y : BitVec w) :
    BitVec.ofInt w (min x.toInt y.toInt) = if x.slt y then x else y := by
  by_cases less : x.toInt < y.toInt
  · simp [BitVec.slt, less, min_eq_left less.le]
  · simp [BitVec.slt, less, min_eq_right (not_lt.mp less)]

theorem ofInt_max {w : Nat} (x y : BitVec w) :
    BitVec.ofInt w (max x.toInt y.toInt) = if y.slt x then x else y := by
  by_cases less : y.toInt < x.toInt
  · simp [BitVec.slt, less, max_eq_left less.le]
  · simp [BitVec.slt, less, max_eq_right (not_lt.mp less)]

theorem ofNat_min {w : Nat} (x y : BitVec w) :
    BitVec.ofNat w (min x.toNat y.toNat) = if x.ult y then x else y := by
  by_cases less : x.toNat < y.toNat
  · simp [BitVec.ult, less, min_eq_left less.le]
  · simp [BitVec.ult, less, min_eq_right (not_lt.mp less)]

theorem ofNat_max {w : Nat} (x y : BitVec w) :
    BitVec.ofNat w (max x.toNat y.toNat) = if y.ult x then x else y := by
  by_cases less : y.toNat < x.toNat
  · simp [BitVec.ult, less, max_eq_left less.le]
  · simp [BitVec.ult, less, max_eq_right (not_lt.mp less)]

theorem aluRes_eq_amo (a : AType) (old : BitVec 32)
    (atomic : isAtomic a.opcode = true) :
    aluRes a old = amo a.opcode a.param old a.data := by
  have opcode : a.opcode = opArithmeticData ∨ a.opcode = opLogicalData := by
    simpa [isAtomic] using atomic
  simp only [aluRes, amo, ofInt_min, ofInt_max, ofNat_min, ofNat_max, BitVec.ofNat_add,
    BitVec.ofNat_toNat, BitVec.setWidth_eq, beq_iff_eq, ite_self]
  rcases opcode with arithmetic | logical
  · simp only [arithmetic, if_true]
  · simp only [logical]
    rfl

/-! ### Messages -/

/-- The number of 32-bit beats in `2 ^ size` bytes, at least one. -/
def totalBeats (size : BitVec 3) : Nat := 2 ^ (size.toNat - 2)

theorem totalBeats_pos (size : BitVec 3) : 0 < totalBeats size :=
  Nat.two_pow_pos _

theorem getTotalBeats_toNat :
    ∀ size : BitVec 3, (getTotalBeats size).toNat = totalBeats size := by
  decide

/-- A request with all its beats: one for a read, as many as the size asks for
otherwise, with the control fields shared by the beats. -/
structure Message (p : Profile) where
  head : AType
  tail : List AType
  kind : p.isRead head.opcode = true ∧ tail = [] ∨
    (isPut head.opcode = true ∨ isAtomic head.opcode = true) ∧
      tail.length + 1 = totalBeats head.size
  control : ∀ beat ∈ tail, beat.opcode = head.opcode ∧ beat.param = head.param ∧
    beat.size = head.size ∧ beat.source = head.source

def Message.beats {p : Profile} (message : Message p) : List AType :=
  message.head :: message.tail

/-- The response beat to a request beat, with the given data if it has any. -/
def response (p : Profile) (a : AType) (data : BitVec 32) : DType where
  opcode := p.respOpcode a.opcode
  param := 0
  size := a.size
  source := a.source
  sink := 0
  data := if p.respData a.opcode then data else 0
  corrupt := false
  valid := true

/-- The write of an atomic beat to a word with the given old value. -/
def atomicWrite (a : AType) (old : BitVec 32) : Request :=
  ⟨a.address, mergeLanes a.mask old (amo a.opcode a.param old a.data), a.mask, true⟩

/-- The write of a Put beat. -/
def putWrite (a : AType) : Request := ⟨a.address, a.data, a.mask, true⟩

/-- The response beats of a read: consecutive words from an address on. -/
def readBeats (p : Profile) (a : AType) (memory : WordMemory) :
    BitVec 32 → Nat → List DType
  | _, 0 => []
  | address, count + 1 =>
      response p a (memory.word address) :: readBeats p a memory (address + 4) count

theorem readBeats_eq_map (p : Profile) (a : AType) (memory : WordMemory)
    (address : BitVec 32) (count : Nat) :
    readBeats p a memory address count =
      (List.range count).map fun i =>
        response p a (memory.word (address + 4 * BitVec.ofNat 32 i)) := by
  induction count generalizing address with
  | zero => rfl
  | succ count ih =>
      rw [readBeats, ih, List.range_succ_eq_map, List.map_cons, List.map_map]
      congr 1
      · simp
      · apply List.map_congr_left
        intro i _
        have next : address + 4 + 4 * BitVec.ofNat 32 i =
            address + 4 * BitVec.ofNat 32 (i + 1) := by
          rw [BitVec.ofNat_add, BitVec.mul_add, BitVec.mul_one, BitVec.add_assoc,
            BitVec.add_comm 4]
        exact congrArg (fun adr => response p a (memory.word adr)) next

/-- What carrying out requests has produced: the memory, the writes made to it
and the response beats, oldest first. -/
structure Outcome where
  memory : WordMemory
  writes : List Request
  responses : List DType

namespace Outcome

def write (o : Outcome) (request : Request) : Outcome :=
  { o with memory := request.apply o.memory, writes := o.writes ++ [request] }

def respond (o : Outcome) (beats : List DType) : Outcome :=
  { o with responses := o.responses ++ beats }

def readBeat (p : Profile) (o : Outcome) (a : AType) : Outcome :=
  o.respond (readBeats p a o.memory a.address (totalBeats a.size))

def putBeat (o : Outcome) (a : AType) : Outcome := o.write (putWrite a)

def atomicBeat (p : Profile) (o : Outcome) (a : AType) : Outcome :=
  (o.write (atomicWrite a (o.memory.word a.address))).respond
    [response p a (o.memory.word a.address)]

/-- One message: a read answers with its words, each atomic beat with the old
word, a Put once after its last write. -/
def message {p : Profile} (o : Outcome) (m : Message p) : Outcome :=
  if p.isRead m.head.opcode then o.readBeat p m.head
  else if isAtomic m.head.opcode then m.beats.foldl (atomicBeat p) o
  else (m.beats.foldl putBeat o).respond [response p m.head 0]

end Outcome

/-- The sequential meaning of a list of messages on a memory. -/
def sequential {p : Profile} (memory : WordMemory) (messages : List (Message p)) :
    Outcome :=
  messages.foldl Outcome.message ⟨memory, [], []⟩

/-! ### Beat by beat -/

/-- The state between beats: how many beats of the current message are still to
come, and the beat taken last. -/
structure Burst where
  outcome : Outcome
  remaining : Nat
  last : AType

namespace Burst

/-- The state before any beat. -/
def start (memory : WordMemory) : Burst := ⟨⟨memory, [], []⟩, 0, AType.new⟩

/-- Beats left in the message after this one. -/
def left (q : Burst) (a : AType) : Nat :=
  if q.remaining = 0 then totalBeats a.size - 1 else q.remaining - 1

def accept (p : Profile) (q : Burst) (a : AType) : Burst :=
  if p.isRead a.opcode then ⟨q.outcome.readBeat p a, 0, a⟩
  else if isAtomic a.opcode then ⟨q.outcome.atomicBeat p a, q.left a, a⟩
  else
    ⟨if q.left a = 0 then (q.outcome.putBeat a).respond [response p a 0]
      else q.outcome.putBeat a, q.left a, a⟩

/-- The beats that may come next: a supported opcode between messages, the
control fields of the message within one. -/
def Admits (p : Profile) (q : Burst) (a : AType) : Prop :=
  if q.remaining = 0 then
    p.isRead a.opcode = true ∨ isPut a.opcode = true ∨ isAtomic a.opcode = true
  else a.opcode = q.last.opcode ∧ a.param = q.last.param ∧ a.size = q.last.size ∧
    a.source = q.last.source

/-- Every beat of the list may come when it does. -/
def Admissible (p : Profile) : Burst → List AType → Prop
  | _, [] => True
  | q, a :: beats => q.Admits p a ∧ Admissible p (q.accept p a) beats

theorem admissible_append (p : Profile) (q : Burst) (first second : List AType) :
    Admissible p q (first ++ second) ↔
      Admissible p q first ∧ Admissible p (first.foldl (accept p) q) second := by
  induction first generalizing q with
  | nil => simp [Admissible]
  | cons a first ih => simp [Admissible, ih, and_assoc]

theorem admissible_of_prefix {p : Profile} {q : Burst} {first second : List AType}
    (isPrefix : first <+: second) (admissible : Admissible p q second) :
    Admissible p q first := by
  obtain ⟨rest, rfl⟩ := isPrefix
  exact ((admissible_append p q first rest).mp admissible).1

theorem accept_responses (p : Profile) (q : Burst) (a : AType) :
    q.outcome.responses <+: (q.accept p a).outcome.responses := by
  unfold accept
  split
  · exact List.prefix_append _ _
  split
  · exact List.prefix_append _ _
  dsimp only
  split
  · exact List.prefix_append _ _
  · exact List.prefix_refl _

theorem accept_writes (p : Profile) (q : Burst) (a : AType) :
    q.outcome.writes <+: (q.accept p a).outcome.writes := by
  unfold accept
  split
  · exact List.prefix_refl _
  split
  · exact List.prefix_append _ _
  dsimp only
  split
  · exact List.prefix_append _ _
  · exact List.prefix_append _ _

theorem foldl_responses (p : Profile) (q : Burst) (beats : List AType) :
    q.outcome.responses <+: (beats.foldl (accept p) q).outcome.responses := by
  induction beats generalizing q with
  | nil => exact List.prefix_refl _
  | cons a beats ih => exact (accept_responses p q a).trans (ih _)

theorem foldl_writes (p : Profile) (q : Burst) (beats : List AType) :
    q.outcome.writes <+: (beats.foldl (accept p) q).outcome.writes := by
  induction beats generalizing q with
  | nil => exact List.prefix_refl _
  | cons a beats ih => exact (accept_writes p q a).trans (ih _)

theorem response_congr (p : Profile) {a b : AType} (opcode : a.opcode = b.opcode)
    (size : a.size = b.size) (source : a.source = b.source) (data : BitVec 32) :
    response p a data = response p b data := by
  simp [response, opcode, size, source]

theorem foldl_atomic (p : Profile) {opcode : BitVec 3} (atomic : isAtomic opcode = true)
    (beats : List AType) (shared : ∀ beat ∈ beats, beat.opcode = opcode)
    (o : Outcome) (last : AType) (count : beats.length ≠ 0) :
    ∃ final, beats.foldl (accept p) ⟨o, beats.length, last⟩ =
      ⟨beats.foldl (Outcome.atomicBeat p) o, 0, final⟩ := by
  have notRead := (p.atomic_apart opcode atomic).1
  induction beats generalizing o last with
  | nil => exact absurd rfl count
  | cons a beats ih =>
      have here : a.opcode = opcode := shared a (by simp)
      have accepted : accept p ⟨o, (a :: beats).length, last⟩ a =
          ⟨o.atomicBeat p a, beats.length, a⟩ := by
        simp [accept, here, notRead, atomic, left]
      rw [List.foldl_cons, accepted, List.foldl_cons]
      cases beats with
      | nil => exact ⟨a, rfl⟩
      | cons b beats =>
          exact ih (fun beat mem => shared beat (by simp [mem])) _ _ (by simp)

/-- The beats of a Put are written one by one; the last one is answered. -/
theorem foldl_put (p : Profile) {head : AType} (put : isPut head.opcode = true)
    (beats : List AType)
    (shared : ∀ beat ∈ beats, beat.opcode = head.opcode ∧ beat.size = head.size ∧
      beat.source = head.source)
    (o : Outcome) (last : AType) (count : beats.length ≠ 0) :
    ∃ final, beats.foldl (accept p) ⟨o, beats.length, last⟩ =
      ⟨(beats.foldl Outcome.putBeat o).respond [response p head 0], 0, final⟩ := by
  have notRead := (p.put_apart head.opcode put).1
  have notAtomic : isAtomic head.opcode = false := by
    revert put
    generalize head.opcode = opcode
    decide +revert
  induction beats generalizing o last with
  | nil => exact absurd rfl count
  | cons a beats ih =>
      obtain ⟨opcode, size, source⟩ := shared a (by simp)
      rw [List.foldl_cons, List.foldl_cons]
      cases beats with
      | nil =>
          refine ⟨a, ?_⟩
          simp [accept, opcode, notRead, notAtomic, left,
            response_congr p opcode size source]
      | cons b beats =>
          have accepted : accept p ⟨o, (a :: b :: beats).length, last⟩ a =
              ⟨o.putBeat a, (b :: beats).length, a⟩ := by
            simp [accept, opcode, notRead, notAtomic, left]
          rw [accepted]
          exact ih (fun beat mem => shared beat (by simp [mem])) _ _ (by simp)

/-- Carrying out a message beat by beat is carrying it out whole. -/
theorem foldl_message {p : Profile} (m : Message p) (o : Outcome) (last : AType) :
    ∃ final, m.beats.foldl (accept p) ⟨o, 0, last⟩ = ⟨o.message m, 0, final⟩ := by
  -- A message may as well start with all its beats still to come.
  have entry : isPut m.head.opcode = true ∨ isAtomic m.head.opcode = true →
      m.tail.length + 1 = totalBeats m.head.size →
      p.isRead m.head.opcode = false →
      m.beats.foldl (accept p) ⟨o, 0, last⟩ =
        m.beats.foldl (accept p) ⟨o, m.beats.length, last⟩ := by
    intro _ count notRead
    have first : accept p ⟨o, 0, last⟩ m.head =
        accept p ⟨o, m.beats.length, last⟩ m.head := by
      simp [accept, notRead, left, Message.beats, ← count]
    simp only [Message.beats, List.foldl_cons] at first ⊢
    rw [first]
  rcases m.kind with ⟨read, single⟩ | ⟨written, count⟩
  · refine ⟨m.head, ?_⟩
    simp [Message.beats, single, accept, read, Outcome.message]
  · rcases written with put | atomic
    · have apart := p.put_apart _ put
      have notAtomic : isAtomic m.head.opcode = false := by
        revert put
        generalize m.head.opcode = opcode
        decide +revert
      rw [entry (Or.inl put) count apart.1]
      simp only [Outcome.message, apart.1, notAtomic, Bool.false_eq_true, if_false]
      refine foldl_put p put m.beats (fun beat mem => ?_) o last (by simp [Message.beats])
      rcases List.mem_cons.mp mem with rfl | inTail
      · exact ⟨rfl, rfl, rfl⟩
      · obtain ⟨opcode, _, size, source⟩ := m.control beat inTail
        exact ⟨opcode, size, source⟩
    · have apart := p.atomic_apart _ atomic
      rw [entry (Or.inr atomic) count apart.1]
      simp only [Outcome.message, apart.1, atomic, Bool.false_eq_true, if_false, if_true]
      refine foldl_atomic p atomic m.beats (fun beat mem => ?_) o last (by simp [Message.beats])
      rcases List.mem_cons.mp mem with rfl | inTail
      · rfl
      · exact (m.control beat inTail).1

/-- Beat by beat, a list of messages comes to its sequential meaning. -/
theorem foldl_messages {p : Profile} (memory : WordMemory) (messages : List (Message p)) :
    ∃ final, (messages.flatMap Message.beats).foldl (accept p) (start memory) =
      ⟨sequential memory messages, 0, final⟩ := by
  have general : ∀ (o : Outcome) (last : AType), ∃ final,
      (messages.flatMap Message.beats).foldl (accept p) ⟨o, 0, last⟩ =
        ⟨messages.foldl Outcome.message o, 0, final⟩ := by
    induction messages with
    | nil => exact fun o last => ⟨last, rfl⟩
    | cons m messages ih =>
        intro o last
        obtain ⟨middle, whole⟩ := foldl_message m o last
        rw [List.flatMap_cons, List.foldl_append, whole]
        exact ih (o.message m) middle
  exact general _ _

/-- The later beats of a message may come, each after the one before. -/
private theorem admissible_tail {p : Profile} {head : AType}
    (notRead : p.isRead head.opcode = false) (rest : List AType)
    (shared : ∀ beat ∈ rest, beat.opcode = head.opcode ∧ beat.param = head.param ∧
      beat.size = head.size ∧ beat.source = head.source) (q : Burst)
    (count : q.remaining = rest.length)
    (last : q.last.opcode = head.opcode ∧ q.last.param = head.param ∧
      q.last.size = head.size ∧ q.last.source = head.source) :
    Admissible p q rest := by
  induction rest generalizing q with
  | nil => trivial
  | cons a rest ih =>
      obtain ⟨opcode, param, size, source⟩ := shared a (by simp)
      obtain ⟨lastOpcode, lastParam, lastSize, lastSource⟩ := last
      have inBurst : q.remaining ≠ 0 := by simp [count]
      have leftEq : q.left a = rest.length := by simp [left, count]
      refine ⟨?_, ih (fun beat mem => shared beat (by simp [mem])) _ ?_ ?_⟩
      · rw [Admits, if_neg inBurst]
        exact ⟨opcode.trans lastOpcode.symm, param.trans lastParam.symm,
          size.trans lastSize.symm, source.trans lastSource.symm⟩
      · unfold accept
        simp only [opcode, notRead, Bool.false_eq_true, if_false, leftEq]
        split <;> rfl
      · unfold accept
        simp only [opcode, notRead, Bool.false_eq_true, if_false]
        split <;> exact ⟨opcode, param, size, source⟩

theorem admissible_message {p : Profile} (m : Message p) (o : Outcome) (last : AType) :
    Admissible p ⟨o, 0, last⟩ m.beats := by
  refine ⟨?_, ?_⟩
  · rw [Admits, if_pos rfl]
    rcases m.kind with ⟨read, _⟩ | ⟨written, _⟩
    · exact Or.inl read
    · exact Or.inr written
  · rcases m.kind with ⟨_, single⟩ | ⟨written, count⟩
    · rw [single]
      trivial
    · have notRead : p.isRead m.head.opcode = false := by
        rcases written with put | atomic
        · exact (p.put_apart _ put).1
        · exact (p.atomic_apart _ atomic).1
      apply admissible_tail notRead m.tail m.control
      · unfold accept
        simp only [notRead, Bool.false_eq_true, if_false, left, if_true, ← count,
          Nat.add_sub_cancel]
        split <;> rfl
      · unfold accept
        simp only [notRead, Bool.false_eq_true, if_false]
        split <;> exact ⟨rfl, rfl, rfl, rfl⟩

/-- The first beats of a Put may come, whether or not the others follow. -/
theorem admissible_put {p : Profile} {head : AType} (put : isPut head.opcode = true)
    (rest : List AType)
    (shared : ∀ beat ∈ rest, beat.opcode = head.opcode ∧ beat.param = head.param ∧
      beat.size = head.size ∧ beat.source = head.source)
    (few : rest.length + 1 ≤ totalBeats head.size) (o : Outcome) (last : AType) :
    Admissible p ⟨o, 0, last⟩ (head :: rest) := by
  let whole : Message p :=
    { head := head
      tail := rest ++ List.replicate (totalBeats head.size - (rest.length + 1)) head
      kind := Or.inr ⟨Or.inl put, by simp; omega⟩
      control := fun beat mem => by
        rcases List.mem_append.mp mem with inRest | added
        · exact shared beat inRest
        · rw [List.eq_of_mem_replicate added]
          exact ⟨rfl, rfl, rfl, rfl⟩ }
  exact admissible_of_prefix ⟨_, rfl⟩ (admissible_message whole o last)

theorem foldl_put_memory (p : Profile) (beats : List AType)
    (put : ∀ beat ∈ beats, isPut beat.opcode = true) (q : Burst) :
    (beats.foldl (accept p) q).outcome.memory =
      Request.applyAll q.outcome.memory (beats.map putWrite) := by
  induction beats generalizing q with
  | nil => rfl
  | cons a beats ih =>
      obtain ⟨first, others⟩ := List.forall_mem_cons.mp put
      have notAtomic : isAtomic a.opcode = false := by
        revert first
        generalize a.opcode = opcode
        decide +revert
      have written : (q.accept p a).outcome.memory = (putWrite a).apply q.outcome.memory := by
        simp only [accept, (p.put_apart _ first).1, notAtomic, Bool.false_eq_true, if_false]
        split <;> rfl
      rw [List.foldl_cons, ih others, written]
      rfl

theorem admissible_messages {p : Profile} (memory : WordMemory)
    (messages : List (Message p)) :
    Admissible p (start memory) (messages.flatMap Message.beats) := by
  have general : ∀ (o : Outcome) (last : AType),
      Admissible p ⟨o, 0, last⟩ (messages.flatMap Message.beats) := by
    induction messages with
    | nil => exact fun _ _ => trivial
    | cons m messages ih =>
        intro o last
        obtain ⟨middle, whole⟩ := foldl_message m o last
        rw [List.flatMap_cons, admissible_append, whole]
        exact ⟨admissible_message m o last, ih _ _⟩
  exact general _ _

end Burst

end TlConverter

end Cocoapuffs

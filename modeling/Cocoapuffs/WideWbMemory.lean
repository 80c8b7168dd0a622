import Cocoapuffs.WideWbDdr3

/-!
# The wide memory as a memory of words

Behind the adapter `wide_wb_ddr3` is a memory of bursts of 32 bytes.  To its
host the two are a memory of words at the address bits 29 to 2: a burst is
eight words, and a request reaches the bytes of one of them.
-/

namespace Cocoapuffs

namespace WideWbDdr3

/-- The memory of the slave: the bytes of the bursts. -/
abbrev WideMemory := BitVec 25 → Fin 32 → BitVec 8

def burstByte (data : BitVec 256) (byte : Fin 32) : BitVec 8 := data.extractLsb' (8 * byte.val) 8

/-- A request on the wide bus as an access of the slave. -/
def WbHostType.access (h : WbHostType) : LaneMemory.Access (BitVec 25) (Fin 32) (BitVec 8) where
  index := h.adr
  write := h.we
  sel byte := h.sel.getLsbD byte
  data byte := burstByte h.data byte

/-- The place of a byte of a word in its burst. -/
def place (word : Nat) (lane : Fin 4) (few : word < 8) : Fin 32 := ⟨4 * word + lane.val, by omega⟩

/-- Which word of its burst a word is. -/
def inBurst (index : BitVec 28) : Nat := (index.extractLsb' 0 3).toNat

theorem inBurst_lt (index : BitVec 28) : inBurst index < 8 := (index.extractLsb' 0 3).isLt

/-- The memory as bytes of words. -/
def WideMemory.words (memory : WideMemory) : BitVec 28 → Fin 4 → BitVec 8 := fun index lane =>
  memory (index.extractLsb' 3 25) (place (inBurst index) lane (inBurst_lt index))

/-- The word that an address falls into. -/
def wordAt (adr : BitVec 32) : BitVec 28 := adr.extractLsb' 2 28

/-- A request of the host as an access of the words. -/
def wordAccess (request : Request) : LaneMemory.Access (BitVec 28) (Fin 4) (BitVec 8) where
  index := wordAt request.adr
  write := request.we
  sel lane := request.sel.getLsbD lane
  data lane := byteLane request.dat lane

theorem wordOfBurst_eq (adr : BitVec 32) : wordOfBurst adr = inBurst (wordAt adr) := by
  unfold wordOfBurst inBurst wordAt
  rw [BitVec.extractLsb'_toNat, BitVec.extractLsb'_toNat, BitVec.extractLsb'_toNat]
  simp only [Nat.shiftRight_eq_div_pow]
  omega

theorem burst_eq (adr : BitVec 32) :
    adr.extractLsb' 5 25 = (wordAt adr).extractLsb' 3 25 := by
  apply BitVec.eq_of_toNat_eq
  simp only [wordAt, BitVec.extractLsb'_toNat, Nat.shiftRight_eq_div_pow]
  omega

/-- A word is determined by its burst and its place there. -/
theorem wordAt_eq_iff (first second : BitVec 28) :
    first = second ↔
      first.extractLsb' 3 25 = second.extractLsb' 3 25 ∧ inBurst first = inBurst second := by
  refine ⟨by rintro rfl; exact ⟨rfl, rfl⟩, fun ⟨burst, word⟩ => ?_⟩
  have upper := congrArg BitVec.toNat burst
  apply BitVec.eq_of_toNat_eq
  simp only [inBurst, BitVec.extractLsb'_toNat, Nat.shiftRight_eq_div_pow] at upper word
  omega

theorem sel_place (sel : BitVec 4) {target word : Nat} (lane : Fin 4) (few : word < 8) :
    (sel.setWidth 32 <<< (4 * target)).getLsbD (place word lane few) =
      (decide (target = word) && sel.getLsbD lane) := by
  simp only [place, BitVec.getLsbD_shiftLeft, BitVec.getLsbD_setWidth]
  by_cases same : target = word
  · subst same
    simp [show 4 * target + lane.val < 32 by omega, show lane.val < 32 by omega]
  · rcases Nat.lt_or_gt_of_ne same with less | greater
    · have beyond : sel.getLsbD (4 * word + lane.val - 4 * target) = false :=
        BitVec.getLsbD_of_ge _ _ (by omega)
      simp [same, beyond]
    · simp [same, show 4 * word + lane.val < 4 * target by omega]

theorem data_place (dat : BitVec 32) {word : Nat} (lane : Fin 4) (few : word < 8) :
    burstByte (dat.setWidth 256 <<< (32 * word)) (place word lane few) = byteLane dat lane := by
  apply BitVec.eq_of_getLsbD_eq
  intro i bound
  have inside : 8 * (4 * word + lane.val) + i < 256 := by omega
  have above : ¬ 8 * (4 * word + lane.val) + i < 32 * word := by omega
  have shifted : 8 * (4 * word + lane.val) + i - 32 * word = 8 * lane.val + i := by omega
  simp [burstByte, place, byteLane, bound, inside, above, shifted]

theorem burstWord_place (data : BitVec 256) {word : Nat} (lane : Fin 4) (few : word < 8) :
    byteLane (burstWord data word) lane = burstByte data (place word lane few) := by
  apply BitVec.eq_of_getLsbD_eq
  intro i bound
  have inside : 8 * lane.val + i < 32 := by omega
  have same : 32 * word + (8 * lane.val + i) = 8 * (4 * word + lane.val) + i := by omega
  simp [byteLane, burstWord, burstByte, place, bound, inside, same]

theorem words_apply (request : Request) (memory : WideMemory) :
    WideMemory.words ((wide request).access.apply memory) =
      (wordAccess request).apply memory.words := by
  funext index lane
  have touches : (wide request).access.touches (index.extractLsb' 3 25)
      (place (inBurst index) lane (inBurst_lt index)) = (wordAccess request).touches index lane := by
    simp only [LaneMemory.Access.touches, WbHostType.access, wide, wordAccess, sel_place,
      wordOfBurst_eq, burst_eq]
    rw [Bool.eq_iff_iff]
    simp only [Bool.and_eq_true, decide_eq_true_eq, wordAt_eq_iff (wordAt request.adr) index]
    tauto
  simp only [WideMemory.words, LaneMemory.Access.apply, touches]
  split
  · rename_i touched
    simp only [LaneMemory.Access.touches, wordAccess, Bool.and_eq_true] at touched
    obtain ⟨write, -, here⟩ := touched
    obtain rfl := of_decide_eq_true here
    simp only [WbHostType.access, wide, wordAccess, write, if_true, wordOfBurst_eq, data_place]
  · rfl

theorem apply_apply {Index Lane Value : Type*} [DecidableEq Index]
    (access : LaneMemory.Access Index Lane Value) (memory : Index → Lane → Value) :
    access.apply (access.apply memory) = access.apply memory := by
  funext index lane
  by_cases touched : access.touches index lane = true <;> simp [LaneMemory.Access.apply, touched]

/-! ### Runs -/

section Runs

variable (inputs : Nat → Inputs)

/-- The slave acknowledges, with `stall` low, the request on the bus. -/
def Serves (n : Nat) : Prop :=
  (wideHost inputs n).cyc = true ∧ (wideHost inputs n).stb = true ∧
    (widePer inputs n).stall = false ∧ (widePer inputs n).ack = true

instance (n : Nat) : Decidable (Serves inputs n) := by
  unfold Serves
  infer_instance

/-- A memory of bursts with byte enables, of any latency: what is served is
carried out, and nothing else.  Whether the request, held for one cycle more,
is served again in that cycle does not matter. -/
structure MemorySlave (memory : Nat → WideMemory) : Prop where
  read : ∀ n, Serves inputs n → (wideHost inputs n).we = false →
    ∀ byte, burstByte (widePer inputs n).data byte = memory n (wideHost inputs n).adr byte
  next : ∀ n, memory (n + 1) =
    if Serves inputs n then (wideHost inputs n).access.apply (memory n) else memory n

/-- The accesses of the acknowledged requests. -/
def ackedAccesses (n : Nat) : List (LaneMemory.Access (BitVec 28) (Fin 4) (BitVec 8)) :=
  (acked inputs n).map fun exchange => wordAccess exchange.1

/-- The request that the slave has served but the host has not been told of. -/
def inFlight (n : Nat) : List (LaneMemory.Access (BitVec 28) (Fin 4) (BitVec 8)) :=
  if (per inputs n).ack then [wordAccess (host inputs n).request] else []

/-- What it means to be a memory of words. -/
structure IsWordMemory (memory : Nat → WideMemory) : Prop where
  /-- Requests change the bytes that they write, in the order of their
  acknowledges, and no other byte of any burst. -/
  words_eq : ∀ n, (memory n).words =
    LaneMemory.replay (memory 0).words (ackedAccesses inputs n ++ inFlight inputs n)
  /-- A read returns the bytes last written to its word. -/
  read : ∀ n before request data after, acked inputs n = before ++ (request, data) :: after →
    request.we = false → ∀ lane, byteLane data lane =
      (LaneMemory.lastWritten (wordAt request.adr) lane
          (before.map fun exchange => wordAccess exchange.1)).getD
        ((memory 0).words (wordAt request.adr) lane)
  /-- A request is on the wide bus from the next cycle on, and is acknowledged when
  the slave serves it: -/
  presented : ∀ n, (host inputs n).cyc = true → (per inputs n).ack = false →
    wideHost inputs (n + 1) = wide (host inputs n).request
  answered : ∀ n, Serves inputs n → (per inputs n).ack = true ∨ (per inputs (n + 1)).ack = true
  /-- with a slave that serves what it is asked, every request is. -/
  served : Trace.LeadsTo (fun n => (wideHost inputs n).stb = true ∧ (per inputs n).ack = false)
      (Serves inputs) →
    Trace.LeadsTo (fun n => (host inputs n).cyc = true) fun n => (per inputs n).ack = true

/-- What the memory and the answer to the host are at an instant. -/
structure Kept (memory : Nat → WideMemory) (n : Nat) : Prop where
  words_eq : (memory n).words =
    LaneMemory.replay (memory 0).words (ackedAccesses inputs n ++ inFlight inputs n)
  answer : (per inputs n).ack = true → (host inputs n).we = false →
    ∀ lane, byteLane (per inputs n).rdt lane =
      LaneMemory.replay (memory 0).words (ackedAccesses inputs n) (wordAt (host inputs n).adr) lane

variable {inputs}

theorem ackedAccesses_succ_of_quiet {n : Nat} (unacked : (per inputs n).ack = false) :
    ackedAccesses inputs (n + 1) = ackedAccesses inputs n := by
  rw [ackedAccesses, acked_succ_of_quiet unacked]
  rfl

variable {memory : Nat → WideMemory} (hostRules : Host inputs)
  (slave : MemorySlave inputs memory)
include hostRules slave

omit hostRules in
/-- Where nothing is served and nobody is answered, nothing changes. -/
theorem Kept.still {n : Nat} (kept : Kept inputs memory n) (idle : ¬ Serves inputs n)
    (before : (per inputs n).ack = false) (after : (per inputs (n + 1)).ack = false) :
    Kept inputs memory (n + 1) where
  words_eq := by
    have words := kept.words_eq
    simp only [inFlight, before, Bool.false_eq_true, if_false] at words
    rw [slave.next, if_neg idle, words, ackedAccesses_succ_of_quiet before, inFlight, after]
    rfl
  answer ack := by
    rw [after] at ack
    cases ack

/-- The slave serves the request, and the host is to be given the answer. -/
theorem Kept.serve {n : Nat} (kept : Kept inputs memory n)
    (control : Control (inputs n) (states inputs n))
    (waiting : (states inputs n).state = .read1 ∨ (states inputs n).state = .write1)
    (unstalled : (widePer inputs n).stall = false) (ack : (widePer inputs n).ack = true)
    (given : (per inputs (n + 1)).ack = true)
    (rdt : (states inputs n).state = .read1 →
      (per inputs (n + 1)).rdt = burstWord (widePer inputs n).data (states inputs n).index) :
    Kept inputs memory (n + 1) := by
  have unacked : (per inputs n).ack = false := by
    simp [per, control.ack, (unanswered_of_waiting waiting).2]
  have loaded := (control.loaded_of_waiting waiting).2
  have serves : Serves inputs n := by
    refine ⟨?_, ?_, unstalled, ack⟩ <;> rw [wideHost, loaded] <;> rfl
  have held := hostRules.held_of_waiting control waiting
  have same := ackedAccesses_succ_of_quiet unacked
  have words := kept.words_eq
  simp only [inFlight, unacked, Bool.false_eq_true, if_false, List.append_nil] at words
  constructor
  · rw [slave.next, if_pos serves, wideHost, loaded, words_apply, words, same, inFlight,
      held, if_pos given, LaneMemory.replay_append]
    rfl
  · intro _ read lane
    rw [held] at read ⊢
    have reading := control.read1_of_waiting waiting read
    have we : (wideHost inputs n).we = false := by
      rw [wideHost, loaded]
      exact read
    have index : (states inputs n).index = inBurst (wordAt (host inputs n).adr) :=
      (control.reading reading).trans (wordOfBurst_eq _)
    rw [same, ← words, rdt reading, index, burstWord_place _ _ (inBurst_lt _)]
    apply (slave.read n serves we _).trans
    rw [wideHost, loaded, WideMemory.words, wide, ← burst_eq]
    rfl

omit hostRules in
/-- The host is given the answer. -/
theorem Kept.finish {n : Nat} (kept : Kept inputs memory n)
    (control : Control (inputs n) (states inputs n)) (answered : (states inputs n).state = .wait1)
    (silent : (per inputs (n + 1)).ack = false) : Kept inputs memory (n + 1) := by
  obtain ⟨raised, loaded⟩ := control.pending (by simp [answered])
  have cyc : (host inputs n).cyc = true := raised
  have ack : (per inputs n).ack = true := by simp [per, control.ack, answered]
  have acked_eq : acked inputs (n + 1) =
      acked inputs n ++ [((host inputs n).request, (per inputs n).rdt)] :=
    Trace.history_succ_some (by simp [cyc, ack])
  have words := kept.words_eq
  rw [inFlight, if_pos ack] at words
  -- A second service of the request would change nothing.
  have same : (memory (n + 1)).words = (memory n).words := by
    rw [slave.next]
    split
    · rw [wideHost, loaded, words_apply, words, LaneMemory.replay_append]
      exact apply_apply _ _
    · rfl
  constructor
  · rw [same, words, ackedAccesses, ackedAccesses, acked_eq, inFlight, silent, List.map_append]
    simp
  · intro given
    rw [silent] at given
    cases given

theorem kept_states (n : Nat) : Kept inputs memory n := by
  induction n with
  | zero => exact ⟨rfl, fun ack => by cases ack⟩
  | succ n kept =>
      have control := control_states hostRules n
      have control' := control_states hostRules (n + 1)
      have before (active : (states inputs n).state ≠ .wait1) : (per inputs n).ack = false := by
        simp [per, control.ack, active]
      have after (active : (states inputs (n + 1)).state ≠ .wait1) :
          (per inputs (n + 1)).ack = false := by
        simp [per, control'.ack, active]
      have silent (idle : (states inputs n).state = .idle) : ¬ Serves inputs n := fun serves => by
        simpa [wideHost, control.resting idle, WbHostType.new] using serves.1
      rcases move_states hostRules n with ⟨idle, low, same⟩ |
        ⟨idle, raised, state, buf, perBuf, index, we⟩ | ⟨waiting, unready, same⟩ |
        ⟨waiting, unstalled, ack, state, buf, given, rdt⟩ | ⟨answered, zero⟩
      · exact kept.still slave (silent idle) (before (by simp [idle]))
          (after (by simp [same, idle]))
      · exact kept.still slave (silent idle) (before (by simp [idle]))
          (after (unanswered_of_waiting state).2)
      · have quiet : ¬ Serves inputs n := fun serves => by
          have silent := unready serves.2.2.1
          simp [serves.2.2.2] at silent
        have active := (unanswered_of_waiting waiting).2
        exact kept.still slave quiet (before active) (after (same ▸ active))
      · exact kept.serve hostRules slave control waiting unstalled ack given rdt
      · exact kept.finish slave control answered (after (by simp [zero, zeroState]))

omit slave in
theorem wideHost_succ {n : Nat} (raised : (host inputs n).cyc = true)
    (unacked : (per inputs n).ack = false) :
    wideHost inputs (n + 1) = wide (host inputs n).request := by
  have control := control_states hostRules n
  rcases move_states hostRules n with ⟨idle, low, same⟩ |
    ⟨idle, cyc, state, buf, perBuf, index, we⟩ | ⟨waiting, unready, same⟩ |
    ⟨waiting, unstalled, ack, state, buf, given, rdt⟩ | ⟨answered, zero⟩
  · rw [show (host inputs n).cyc = false from low] at raised
    cases raised
  · exact buf
  · rw [wideHost, same]
    exact (control.loaded_of_waiting waiting).2
  · rw [wideHost, buf]
    exact (control.loaded_of_waiting waiting).2
  · rw [per, control.ack, answered] at unacked
    cases unacked

omit slave in
theorem ack_of_serves {n : Nat} (serves : Serves inputs n) :
    (per inputs n).ack = true ∨ (per inputs (n + 1)).ack = true := by
  have control := control_states hostRules n
  have active : (states inputs n).state ≠ .idle := fun idle => by
    simpa [wideHost, control.resting idle, WbHostType.new] using serves.1
  rcases move_states hostRules n with ⟨idle, low, same⟩ |
    ⟨idle, cyc, state, buf, perBuf, index, we⟩ | ⟨waiting, unready, same⟩ |
    ⟨waiting, unstalled, ack, state, buf, given, rdt⟩ | ⟨answered, zero⟩
  · exact absurd idle active
  · exact absurd idle active
  · have silent := unready serves.2.2.1
    simp [serves.2.2.2] at silent
  · exact .inr given
  · left
    simp [per, control.ack, answered]

omit slave in
theorem ack_of_served
    (serving : Trace.LeadsTo
      (fun n => (wideHost inputs n).stb = true ∧ (per inputs n).ack = false) (Serves inputs)) :
    Trace.LeadsTo (fun n => (host inputs n).cyc = true) fun n => (per inputs n).ack = true := by
  intro n raised
  cases now : (per inputs n).ack with
  | true => exact ⟨n, Nat.le_refl n, now⟩
  | false =>
      have presented := wideHost_succ hostRules raised now
      cases next : (per inputs (n + 1)).ack with
      | true => exact ⟨n + 1, Nat.le_succ n, next⟩
      | false =>
          obtain ⟨m, later, serves⟩ := serving (n + 1) ⟨by rw [presented]; rfl, next⟩
          rcases ack_of_serves hostRules serves with ack | ack
          · exact ⟨m, by omega, ack⟩
          · exact ⟨m + 1, by omega, ack⟩

/-- The adapter makes a memory of words of a memory of bursts. -/
theorem wideWbDdr3_isWordMemory : IsWordMemory inputs memory where
  words_eq n := (kept_states hostRules slave n).words_eq
  read n before request data after split read lane := by
    obtain ⟨m, -, seen, past⟩ := Trace.history_split split
    obtain ⟨⟨cyc, ack⟩, exchange⟩ : ((host inputs m).cyc = true ∧ (per inputs m).ack = true) ∧
        ((host inputs m).request, (per inputs m).rdt) = (request, data) := by
      simpa [Option.ite_none_right_eq_some, Bool.and_eq_true] using seen
    obtain ⟨rfl, rfl⟩ := Prod.mk.inj exchange
    rw [(kept_states hostRules slave m).answer ack read, LaneMemory.replay_eq_lastWritten]
    have same : ackedAccesses inputs m = before.map fun exchange => wordAccess exchange.1 := by
      rw [ackedAccesses, acked, exchanges, past]
    rw [same]
    rfl
  presented _ := wideHost_succ hostRules
  answered _ := ack_of_serves hostRules
  served := ack_of_served hostRules

end Runs

/-- The memory behind a bus on which everything served is carried out. -/
def wideTrace (inputs : Nat → Inputs) (memory : WideMemory) : Nat → WideMemory
  | 0 => memory
  | n + 1 =>
      if Serves inputs n then (wideHost inputs n).access.apply (wideTrace inputs memory n)
      else wideTrace inputs memory n

theorem storeLoad_memorySlave :
    MemorySlave storeLoad (wideTrace storeLoad fun _ _ => 0) where
  read n serves read := by
    have early : n < 7 := by
      by_contra late
      have rest := storeLoad_rest (by omega : 7 ≤ n)
      simp [Serves, wideHost, rest, zeroState, WbHostType.new] at serves
    revert serves read
    revert n early
    decide +kernel
  next n := rfl

theorem wideWbDdr3_isWordMemory_storeLoad :
    (acked storeLoad 7).map Prod.snd = [0, 0xcafe] ∧
      IsWordMemory storeLoad (wideTrace storeLoad fun _ _ => 0) :=
  ⟨by decide +kernel, wideWbDdr3_isWordMemory storeLoad_host storeLoad_memorySlave⟩

end WideWbDdr3

end Cocoapuffs

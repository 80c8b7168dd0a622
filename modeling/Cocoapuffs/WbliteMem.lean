import Cocoapuffs.WbBram

/-!
# The simulation memory beside the block RAM

The entity `wblite_mem` of the test benches, and `bram` of the same size run on
the same bus.  Both begin with a memory of zeros, and neither is reset again.
-/

namespace Cocoapuffs

namespace WbliteMem

open MmregDecoder (Control)
open LaneMemory (Access)

/-- The generics of `wblite_mem`; its logger has no part in the model. -/
structure Generics where
  baseAddress : BitVec 32
  memSizeLog2 : Nat

/-- The generic map of `decoder0`. -/
def Generics.decoder (g : Generics) : MmregDecoder.Generics := ⟨g.baseAddress, g.memSizeLog2⟩

/-- `mem_t`. -/
abbrev Mem (g : Generics) := Fin (2 ^ g.memSizeLog2) → BitVec 32

/-- `masked_value`. -/
def maskedValue (val : BitVec 32) (sel : BitVec 4) : BitVec 32 := val &&& laneMask sel

/-- The signals of the architecture; the index is always one of the array. -/
structure State (g : Generics) where
  decoder0 : MmregDecoder.Reg
  mem : Mem g
  inRange : decoder0.index < 2 ^ g.memSizeLog2

variable {g : Generics}

def State.index (s : State g) : Fin (2 ^ g.memSizeLog2) := ⟨s.decoder0.index, s.inRange⟩

/-- `per`, which shows the bytes that the host selects now. -/
def State.per (s : State g) (host : HostBus) : PerBus :=
  ⟨maskedValue (s.mem s.index) host.sel, s.decoder0.ack⟩

theorem comb_index_lt (reset : Bool) (host : HostBus) (s : State g) :
    (MmregDecoder.comb g.decoder reset host s.decoder0).index < 2 ^ g.memSizeLog2 := by
  have index_lt : g.decoder.index host.adr < 2 ^ g.memSizeLog2 := BitVec.isLt _
  have zero_lt : MmregDecoder.zeroReg.index < 2 ^ g.memSizeLog2 := Nat.two_pow_pos _
  unfold MmregDecoder.comb
  cases reset with
  | true => exact zero_lt
  | false =>
      cases s.decoder0.state with
      | wait1 => exact zero_lt
      | idle =>
          by_cases decodes : g.decoder.Decodes host.adr
          · cases host.cyc with
            | true => simpa [decodes] using index_lt
            | false => simpa [decodes] using s.inRange
          · simpa [decodes] using s.inRange

/-- One rising edge: the decoder, and the process `seq`. -/
def step (reset : Bool) (host : HostBus) (s : State g) : State g where
  decoder0 := MmregDecoder.comb g.decoder reset host s.decoder0
  mem :=
    if reset then fun _ => 0
    else if s.decoder0.write then
      Function.update s.mem s.index (maskedValue s.decoder0.data host.sel)
    else s.mem
  inRange := comb_index_lt reset host s

/-- The state after a reset. -/
def State.zero (g : Generics) : State g := ⟨MmregDecoder.zeroReg, fun _ => 0, Nat.two_pow_pos _⟩

/-- The block RAM of the same addresses, as its generics give them in bytes. -/
def Generics.bram (g : Generics) : Bram.Generics where
  baseAddress := g.baseAddress
  memsize := 4 * 2 ^ g.memSizeLog2
  regBitCount := g.memSizeLog2 + 2
  nonempty := Nat.le_mul_of_pos_right 4 (Nat.two_pow_pos _)
  words := Nat.le_add_left 2 _

/-- The simulation memory on a bus. -/
def simulated (g : Generics) (host : Nat → HostBus) : Nat → State g :=
  Trace.run (step false) (State.zero g) host

def hardware (g : Generics) (host : Nat → HostBus) : Nat → Bram.State g.bram :=
  Trace.run (Bram.step false) ⟨MmregDecoder.zeroReg, fun _ => 0⟩ host

/-- What a memory returns to a host that reads. -/
def readData (per : PerBus) (host : HostBus) : Option (BitVec 32) :=
  if per.ack && !host.we then some per.rdt else none

/-- A write keeps the bytes that it does not select, and the other words. -/
def Preserves {Index : Type} (selected : Index) (sel : BitVec 4)
    (before after : Index → BitVec 32) : Prop :=
  ∀ (i : Index) (lane : Fin 4), ¬ (i = selected ∧ sel.getLsbD lane = true) →
    byteLane (after i) lane = byteLane (before i) lane

/-- The hosts in question: a request is in the window and held until the
acknowledge, and a read selects the whole word. -/
structure Issues (g : Generics) (host : Nat → HostBus) : Prop where
  window : ∀ n, (host n).cyc = true → g.decoder.Decodes (host n).adr
  held : ∀ n, (host n).cyc = true → ((simulated g host n).per (host n)).ack = false →
    host (n + 1) = host n
  full : ∀ n, (host n).cyc = true → (host n).we = false → (host n).sel = BitVec.allOnes 4

/-- The two memories return the same read data, and a masked write changes only
the selected bytes in both. -/
structure Agree (g : Generics) (host : Nat → HostBus) : Prop where
  reads : ∀ n, readData ((simulated g host n).per (host n)) (host n) =
    readData (hardware g host n).wbo (host n)
  simulated : ∀ n, (simulated g host n).decoder0.write = true →
    Preserves (simulated g host n).index (host n).sel
      (simulated g host n).mem (simulated g host (n + 1)).mem
  hardware : ∀ n, (hardware g host n).decoder0.write = true →
    Preserves (hardware g host n).selected (host n).sel
      (hardware g host n).mem (hardware g host (n + 1)).mem

/-- The accesses acknowledged before an instant. -/
def served (g : Generics) (host : Nat → HostBus) :
    Nat → List (Access (Fin g.bram.memWords) (Fin 4) (BitVec 8)) :=
  Trace.history fun n =>
    if (hardware g host n).wbo.ack then some (g.bram.access (host n).request) else none

/-- Each byte that a write does not select was last written as zero, or never. -/
def OverZeros (g : Generics) (host : Nat → HostBus) : Prop :=
  ∀ n, (hardware g host n).wbo.ack = true → (host n).we = true →
    ∀ lane : Fin 4, (host n).sel.getLsbD lane = false →
      (LaneMemory.lastWritten (g.bram.wordOf (host n).adr) lane (served g host n)).getD 0 = 0

section Words

theorem eq_of_byteLane {first second : BitVec 32}
    (same : ∀ lane, byteLane first lane = byteLane second lane) : first = second := by
  apply BitVec.eq_of_getLsbD_eq
  intro i bound
  have bit := congrArg (fun byte => byte.getLsbD (i % 8)) (same ⟨i / 8, by omega⟩)
  have inside : i % 8 < 8 := Nat.mod_lt i (Nat.zero_lt_succ 7)
  simpa only [byteLane, BitVec.getLsbD_extractLsb', inside, decide_true, Bool.true_and,
    Nat.div_add_mod] using bit

theorem byteLane_maskedValue (val : BitVec 32) (sel : BitVec 4) (lane : Fin 4) :
    byteLane (maskedValue val sel) lane = if sel.getLsbD lane then byteLane val lane else 0 := by
  have masked : maskedValue val sel = mergeLanes sel 0 val := by
    simp [maskedValue, mergeLanes]
  have nothing : byteLane 0 lane = 0 := by revert lane; decide
  rw [masked, byteLane_mergeLanes, nothing]

theorem maskedValue_allOnes (val : BitVec 32) : maskedValue val (BitVec.allOnes 4) = val := by
  have mask : laneMask (BitVec.allOnes 4) = BitVec.allOnes 32 := by decide
  rw [maskedValue, mask, BitVec.and_allOnes]

theorem maskedValue_eq_mergeLanes {sel : BitVec 4} {old : BitVec 32} (new : BitVec 32)
    (clear : ∀ lane : Fin 4, sel.getLsbD lane = false → byteLane old lane = 0) :
    maskedValue new sel = mergeLanes sel old new := by
  apply eq_of_byteLane
  intro lane
  rw [byteLane_maskedValue, byteLane_mergeLanes]
  cases selected : sel.getLsbD lane with
  | true => rfl
  | false => exact (clear lane selected).symm

end Words

section Lockstep

variable {host : Nat → HostBus}

theorem memWords_bram (g : Generics) : 2 ^ g.memSizeLog2 = g.bram.memWords :=
  (Nat.mul_div_cancel_left _ (Nat.zero_lt_succ 3)).symm

theorem decoder_eq (g : Generics) (host : Nat → HostBus) (n : Nat) :
    (simulated g host n).decoder0 = (hardware g host n).decoder0 := by
  induction n with
  | zero => rfl
  | succ n ih =>
      change MmregDecoder.comb g.decoder false (host n) (simulated g host n).decoder0 = _
      rw [ih]
      rfl

theorem control (g : Generics) (host : Nat → HostBus) (n : Nat) :
    Control (hardware g host n).decoder0 :=
  Trace.run_invariant (fun s : Bram.State g.bram => Control s.decoder0) MmregDecoder.control_zero
    (fun n _ control => control.comb g.decoder (host n)) n

theorem selected_eq (g : Generics) (host : Nat → HostBus) (n : Nat) :
    (hardware g host n).selected = (simulated g host n).index.cast (memWords_bram g) := by
  apply Fin.ext
  have inRange := (simulated g host n).inRange
  simp only [Bram.State.selected, State.index, Fin.val_ofNat, Fin.val_cast, ← memWords_bram,
    decoder_eq] at inRange ⊢
  exact Nat.mod_eq_of_lt inRange

/-- A request is acknowledged while the host still holds it. -/
theorem latched (issues : Issues g host) {n : Nat}
    (acked : (hardware g host n).decoder0.ack = true) :
    Bram.Latched (hardware g host n) (host n) ∧ (host n).cyc = true := by
  cases n with
  | zero => cases acked
  | succ n =>
      have registers : (hardware g host (n + 1)).decoder0 =
        MmregDecoder.comb g.decoder false (host n) (hardware g host n).decoder0 := rfl
      have before := control g host n
      cases phase : (hardware g host n).decoder0.state with
      | wait1 =>
          rw [registers, MmregDecoder.comb_of_wait _ phase] at acked
          cases acked
      | idle =>
          have low : (hardware g host n).decoder0.ack = false := by simp [before.ack, phase]
          by_cases raised : g.decoder.Decodes (host n).adr ∧ (host n).cyc = true
          · rw [MmregDecoder.comb_of_raised before phase raised.1 raised.2] at registers
            have kept : host (n + 1) = host n := by
              apply issues.held n raised.2
              rw [State.per, decoder_eq, low]
            rw [kept]
            refine ⟨⟨?_, ?_, ?_, ?_⟩, raised.2⟩ <;> rw [registers]
            rfl
          · rw [registers, MmregDecoder.comb_of_unraised phase raised, low] at acked
            cases acked

theorem simulated_written {n : Nat} (write : (simulated g host n).decoder0.write = true) :
    (simulated g host (n + 1)).mem = Function.update (simulated g host n).mem
      (simulated g host n).index
      (maskedValue (simulated g host n).decoder0.data (host n).sel) := by
  change (if (simulated g host n).decoder0.write then _ else _ : Mem g) = _
  rw [write]
  rfl

theorem hardware_written {n : Nat} (write : (hardware g host n).decoder0.write = true) :
    (hardware g host (n + 1)).mem = Function.update (hardware g host n).mem
      (hardware g host n).selected
      (mergeLanes (host n).sel ((hardware g host n).mem (hardware g host n).selected)
        (hardware g host n).decoder0.data) := by
  change (if (hardware g host n).decoder0.write then _ else _ : Bram.Mem g.bram) = _
  rw [write]
  rfl

theorem simulated_kept {n : Nat} (quiet : (simulated g host n).decoder0.write = false) :
    (simulated g host (n + 1)).mem = (simulated g host n).mem := by
  change (if (simulated g host n).decoder0.write then _ else _ : Mem g) = _
  rw [quiet]
  rfl

theorem hardware_kept {n : Nat} (quiet : (hardware g host n).decoder0.write = false) :
    (hardware g host (n + 1)).mem = (hardware g host n).mem := by
  change (if (hardware g host n).decoder0.write then _ else _ : Bram.Mem g.bram) = _
  rw [quiet]
  rfl

/-- The bytes of the block RAM are what the acknowledged accesses make of zeros. -/
theorem hardware_bytes (issues : Issues g host) (n : Nat) :
    Bram.Mem.bytes (hardware g host n).mem =
      LaneMemory.replay (fun _ _ => 0) (served g host n) := by
  induction n with
  | zero =>
      funext index lane
      change byteLane 0 lane = 0
      revert lane
      decide
  | succ n ih =>
      have seen : served g host (n + 1) = served g host n ++
        (if (hardware g host n).wbo.ack then some (g.bram.access (host n).request)
          else none).toList := rfl
      rw [seen, LaneMemory.replay_append, ← ih]
      cases acked : (hardware g host n).wbo.ack with
      | true => exact (latched issues acked).1.mem_step
      | false =>
          have quiet : (hardware g host n).decoder0.write = false := by
            by_contra write
            have high := (control g host n).ack_of_write (Bool.eq_true_of_not_eq_false write)
            rw [show (hardware g host n).decoder0.ack = false from acked] at high
            cases high
          rw [hardware_kept quiet]
          rfl

def Same (g : Generics) (host : Nat → HostBus) (n : Nat) : Prop :=
  ∀ i, (simulated g host n).mem i = (hardware g host n).mem (i.cast (memWords_bram g))

/-- A write that has its effect finds zeros in the bytes that it does not select. -/
def Clear (g : Generics) (host : Nat → HostBus) (n : Nat) : Prop :=
  (hardware g host n).decoder0.write = true → ∀ lane : Fin 4, (host n).sel.getLsbD lane = false →
    byteLane ((hardware g host n).mem (hardware g host n).selected) lane = 0

theorem same_succ {n : Nat} (same : Same g host n) (clear : Clear g host n) :
    Same g host (n + 1) := by
  intro i
  cases write : (hardware g host n).decoder0.write with
  | false =>
      rw [simulated_kept (decoder_eq g host n ▸ write), hardware_kept write]
      exact same i
  | true =>
      rw [simulated_written (decoder_eq g host n ▸ write), hardware_written write, decoder_eq]
      by_cases chosen : i = (simulated g host n).index
      · subst chosen
        rw [← selected_eq, Function.update_self, Function.update_self]
        exact maskedValue_eq_mergeLanes _ (clear write)
      · have other : i.cast (memWords_bram g) ≠ (hardware g host n).selected := by
          rw [selected_eq]
          exact fun equal => chosen (Fin.cast_injective _ equal)
        rw [Function.update_of_ne chosen, Function.update_of_ne other]
        exact same i

theorem same_of_clear (clear : ∀ n, Clear g host n) (n : Nat) : Same g host n := by
  induction n with
  | zero => exact fun _ => rfl
  | succ n ih => exact same_succ ih (clear n)

theorem preserves_update {Index : Type} [DecidableEq Index] (selected : Index) (sel : BitVec 4)
    (mem : Index → BitVec 32) (new : BitVec 32) :
    Preserves selected sel mem
      (Function.update mem selected (mergeLanes sel (mem selected) new)) := by
  intro i lane apart
  by_cases chosen : i = selected
  · subst chosen
    rw [Function.update_self, byteLane_mergeLanes, if_neg fun on => apart ⟨rfl, on⟩]
  · rw [Function.update_of_ne chosen]

theorem hardware_preserves {n : Nat} (write : (hardware g host n).decoder0.write = true) :
    Preserves (hardware g host n).selected (host n).sel
      (hardware g host n).mem (hardware g host (n + 1)).mem := by
  rw [hardware_written write]
  exact preserves_update _ _ _ _

theorem simulated_preserves {n : Nat} (same : Same g host n) (clear : Clear g host n)
    (write : (simulated g host n).decoder0.write = true) :
    Preserves (simulated g host n).index (host n).sel
      (simulated g host n).mem (simulated g host (n + 1)).mem := by
  have zeros : ∀ lane : Fin 4, (host n).sel.getLsbD lane = false →
      byteLane ((simulated g host n).mem (simulated g host n).index) lane = 0 := by
    intro lane off
    rw [same, ← selected_eq]
    exact clear (decoder_eq g host n ▸ write) lane off
  rw [simulated_written write, maskedValue_eq_mergeLanes _ zeros]
  exact preserves_update _ _ _ _

theorem clear_of_preserves {n : Nat} (same : Same g host n)
    (preserves : (simulated g host n).decoder0.write = true →
      Preserves (simulated g host n).index (host n).sel
        (simulated g host n).mem (simulated g host (n + 1)).mem) : Clear g host n := by
  intro write lane off
  rw [← decoder_eq] at write
  have kept := preserves write (simulated g host n).index lane fun on => by
    rw [off] at on
    cases on.2
  rw [simulated_written write, Function.update_self, byteLane_maskedValue, off] at kept
  rw [selected_eq, ← same]
  exact kept.symm

theorem clear_of_agree (agree : Agree g host) (n : Nat) : Same g host n ∧ Clear g host n := by
  induction n with
  | zero =>
      have same : Same g host 0 := fun _ => rfl
      exact ⟨same, clear_of_preserves same (agree.simulated 0)⟩
  | succ n ih =>
      have same : Same g host (n + 1) := same_succ ih.1 ih.2
      exact ⟨same, clear_of_preserves same (agree.simulated (n + 1))⟩

theorem readData_eq (issues : Issues g host) {n : Nat} (same : Same g host n) :
    readData ((simulated g host n).per (host n)) (host n) =
      readData (hardware g host n).wbo (host n) := by
  have acks : ((simulated g host n).per (host n)).ack = (hardware g host n).wbo.ack :=
    congrArg MmregDecoder.Reg.ack (decoder_eq g host n)
  unfold readData
  rw [acks]
  cases acked : (hardware g host n).wbo.ack with
  | false => rfl
  | true =>
      cases we : (host n).we with
      | true => rfl
      | false =>
          have whole := issues.full n (latched issues acked).2 we
          have rdt : ((simulated g host n).per (host n)).rdt = (hardware g host n).wbo.rdt := by
            rw [State.per, whole, maskedValue_allOnes, same, ← selected_eq]
            rfl
          simp [rdt]

/-- The zeros that a write needs, by what the host has written. -/
theorem clear_iff (issues : Issues g host) : (∀ n, Clear g host n) ↔ OverZeros g host := by
  have stored : ∀ n, (hardware g host n).wbo.ack = true → ∀ lane : Fin 4,
      byteLane ((hardware g host n).mem (hardware g host n).selected) lane =
        (LaneMemory.lastWritten (g.bram.wordOf (host n).adr) lane (served g host n)).getD 0 := by
    intro n acked lane
    have word : (hardware g host n).selected = g.bram.wordOf (host n).adr := by
      rw [Bram.State.selected, (latched issues acked).1.index, Bram.wordOf_eq]
    rw [word, ← LaneMemory.replay_eq_lastWritten (fun _ _ => 0), ← hardware_bytes issues]
    rfl
  constructor
  · intro clear n acked we lane off
    rw [← stored n acked lane]
    exact clear n ((latched issues acked).1.write.trans we) lane off
  · intro zeros n write lane off
    have acked : (hardware g host n).wbo.ack = true := (control g host n).ack_of_write write
    rw [stored n acked lane]
    exact zeros n acked ((latched issues acked).1.write.symm.trans write) lane off

end Lockstep

/-- The two memories agree on exactly the hosts whose masked writes leave no
byte that was last written as anything but zero. -/
theorem agree_iff {host : Nat → HostBus} (issues : Issues g host) :
    Agree g host ↔ OverZeros g host := by
  rw [← clear_iff issues]
  constructor
  · exact fun agree n => (clear_of_agree agree n).2
  · intro clear
    have same := same_of_clear clear
    exact ⟨fun n => readData_eq issues (same n), fun n => simulated_preserves (same n) (clear n),
      fun n => hardware_preserves⟩

/-- A memory of one word at address zero. -/
def oneWord : Generics := ⟨0, 0⟩

/-- A host that writes a word, then a zero to the lowest byte of it, and reads it
back. -/
def maskedHost (word : BitVec 32) : Nat → HostBus
  | 0 | 1 => ⟨0, word, 0b1111, true, true⟩
  | 2 | 3 => ⟨0, 0, 0b0001, true, true⟩
  | 4 | 5 => ⟨0, 0, 0b1111, false, true⟩
  | _ => HostBus.new

theorem decodes_zero : oneWord.decoder.Decodes 0#32 := by decide

theorem maskedHost_issues (word : BitVec 32) : Issues oneWord (maskedHost word) where
  window n raised := by
    rcases n with _ | _ | _ | _ | _ | _ | n
    case succ.succ.succ.succ.succ.succ => cases raised
    all_goals exact decodes_zero
  held n raised pending := by
    rcases n with _ | _ | _ | _ | _ | _ | n
    case succ.succ.succ.succ.succ.succ => cases raised
    -- A request begins in the even cycles, and is acknowledged in the odd ones.
    case zero | succ.succ.zero | succ.succ.succ.succ.zero => rfl
    all_goals
      simp [simulated, Trace.run_succ, State.per, State.zero, step, MmregDecoder.comb,
        MmregDecoder.zeroReg, maskedHost, decodes_zero] at pending
  full n raised read := by
    rcases n with _ | _ | _ | _ | _ | _ | n
    case succ.succ.succ.succ.zero | succ.succ.succ.succ.succ.zero => rfl
    case succ.succ.succ.succ.succ.succ => cases raised
    all_goals cases read

theorem zeros_agree : Agree oneWord (maskedHost 0) := by
  refine (agree_iff (maskedHost_issues 0)).mpr fun n acked write => ?_
  rcases n with _ | _ | _ | _ | _ | _ | n
  case succ.succ.succ.succ.succ.succ => cases write
  all_goals decide

/-- After a word of ones the simulation memory has lost the other three bytes. -/
theorem ones_disagree : Issues oneWord (maskedHost 0xFFFFFFFF) ∧
    readData ((simulated oneWord (maskedHost 0xFFFFFFFF) 5).per (maskedHost 0xFFFFFFFF 5))
      (maskedHost 0xFFFFFFFF 5) = some 0 ∧
    readData (hardware oneWord (maskedHost 0xFFFFFFFF) 5).wbo (maskedHost 0xFFFFFFFF 5) =
      some 0xFFFFFF00 ∧
    ¬ Agree oneWord (maskedHost 0xFFFFFFFF) := by
  have lost : readData ((simulated oneWord (maskedHost 0xFFFFFFFF) 5).per
      (maskedHost 0xFFFFFFFF 5)) (maskedHost 0xFFFFFFFF 5) = some 0 := by decide
  have kept : readData (hardware oneWord (maskedHost 0xFFFFFFFF) 5).wbo
      (maskedHost 0xFFFFFFFF 5) = some 0xFFFFFF00 := by decide
  refine ⟨maskedHost_issues _, lost, kept, fun agree => ?_⟩
  have reads := agree.reads 5
  rw [lost, kept] at reads
  exact absurd reads (by decide)

end WbliteMem

end Cocoapuffs

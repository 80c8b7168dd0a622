import Cocoapuffs.WbBram

/-!
# Devices on one Wishbone bus

Devices with an `mmreg_decoder` each that answer different addresses, and the
entity `rdt_mux` that takes their responses back to the host.  One instant is one
rising edge of `clk`.
-/

namespace Cocoapuffs

namespace RdtMux

/-- The process `comb`: the loop goes down to input 0, and the last input with an
acknowledge stays. -/
def output (rst : Bool) (input : List PerBus) : PerBus :=
  if rst then PerBus.new
  else input.foldr (fun input output_v => if input.ack then input else output_v) PerBus.new

/-- An acknowledge comes from one of the inputs. -/
theorem mem_of_output_ack {input : List PerBus} (acked : (output false input).ack = true) :
    output false input ∈ input := by
  induction input with
  | nil => cases acked
  | cons per rest ih =>
      simp only [output, Bool.false_eq_true, if_false, List.foldr_cons] at acked ih ⊢
      split at acked
      · rename_i first
        rw [if_pos first]
        exact List.mem_cons_self
      · rename_i first
        rw [if_neg first]
        exact List.mem_cons_of_mem _ (ih acked)

theorem output_ack_iff {input : List PerBus} :
    (output false input).ack = true ↔ ∃ per ∈ input, per.ack = true := by
  refine ⟨fun acked => ⟨_, mem_of_output_ack acked, acked⟩, ?_⟩
  rintro ⟨per, mem, acked⟩
  induction input with
  | nil => exact absurd mem List.not_mem_nil
  | cons first rest ih =>
      simp only [output, Bool.false_eq_true, if_false, List.foldr_cons] at ih ⊢
      split
      · assumption
      · rename_i low
        rcases List.mem_cons.mp mem with rfl | later
        · exact absurd acked low
        · exact ih later

/-- It is the response of a device if no other device answers. -/
theorem output_eq {input : List PerBus} {per : PerBus} (mem : per ∈ input)
    (acked : per.ack = true) (only : ∀ other ∈ input, other.ack = true → other = per) :
    output false input = per := by
  have some_ack := output_ack_iff.mpr ⟨per, mem, acked⟩
  exact only _ (mem_of_output_ack some_ack) some_ack

end RdtMux

namespace WbFabric

/-- A device on the bus: the addresses for which the board hands it the cycle, and
the generic map of its decoder. -/
structure Device where
  enable : BitVec 32 → Bool
  decoder : MmregDecoder.Generics

/-- The bus as the device sees it. -/
def Device.wbi (d : Device) (bus : HostBus) : HostBus :=
  if d.enable bus.adr then bus else HostBus.new

/-- The device answers this address. -/
def Device.Answers (d : Device) (adr : BitVec 32) : Prop :=
  d.enable adr = true ∧ d.decoder.Decodes adr

instance (d : Device) (adr : BitVec 32) : Decidable (d.Answers adr) :=
  inferInstanceAs (Decidable (_ ∧ _))

theorem Device.wbi_of_enabled {d : Device} {bus : HostBus} (enabled : d.enable bus.adr = true) :
    d.wbi bus = bus :=
  if_pos enabled

theorem Device.unraised {d : Device} {bus : HostBus}
    (other : ¬ (d.Answers bus.adr ∧ bus.cyc = true)) :
    ¬ (d.decoder.Decodes (d.wbi bus).adr ∧ (d.wbi bus).cyc = true) := by
  unfold wbi
  split
  · rename_i enabled
    exact fun raised => other ⟨⟨enabled, raised.1⟩, raised.2⟩
  · exact fun raised => Bool.false_ne_true raised.2

variable {ι : Type*}

/-- What a decoder holds while its device acknowledges the request on the bus. -/
structure Latched (d : Device) (bus : HostBus) (r : MmregDecoder.Reg) : Prop where
  cyc : bus.cyc = true
  answers : d.Answers bus.adr
  reg : r = ⟨.wait1, bus.dat, d.decoder.index bus.adr, bus.we, true⟩

/-- Devices on the bus of a host that holds a request until its acknowledge. -/
structure Fabric (devices : ι → Device) (bus : Nat → HostBus) (per : Nat → PerBus)
    (regs : Nat → ι → MmregDecoder.Reg) : Prop where
  start : ∀ i, regs 0 i = MmregDecoder.zeroReg
  runs : ∀ n i, regs (n + 1) i =
    MmregDecoder.comb (devices i).decoder false ((devices i).wbi (bus n)) (regs n i)
  disjoint : ∀ i j adr, (devices i).Answers adr → (devices j).Answers adr → i = j
  /-- The host sees the acknowledge of every device. -/
  acks : ∀ n i, (regs n i).ack = true → (per n).ack = true
  /-- Any other acknowledge is for an address that no device answers. -/
  foreign : ∀ n, (per n).ack = true → (∀ i, (regs n i).ack = false) →
    (bus n).cyc = true ∧ ∀ i, ¬ (devices i).Answers (bus n).adr
  held : ∀ n, (bus n).cyc = true → (per n).ack = false → bus (n + 1) = bus n

section Fabric

variable {devices : ι → Device} {bus : Nat → HostBus} {per : Nat → PerBus}
  {regs : Nat → ι → MmregDecoder.Reg} (fabric : Fabric devices bus per regs)
include fabric

theorem Fabric.control (n : Nat) (i : ι) : MmregDecoder.Control (regs n i) :=
  @MmregDecoder.control_of_runs (devices i).decoder (fun _ => false)
    (fun n => (devices i).wbi (bus n)) (fun n => regs n i) (fun n => fabric.runs n i)
    (fabric.start i) n

theorem Fabric.ack_eq (n : Nat) (i : ι) :
    (regs n i).ack = decide ((regs n i).state = .wait1) :=
  (fabric.control n i).ack

/-- A decoder that is at rest takes the request that its device answers, and stays at
rest otherwise. -/
theorem Fabric.step_of_idle {n : Nat} {i : ι} (idle : (regs n i).state = .idle) :
    regs (n + 1) i =
      if (devices i).Answers (bus n).adr ∧ (bus n).cyc = true then
        ⟨.wait1, (bus n).dat, (devices i).decoder.index (bus n).adr, (bus n).we, true⟩
      else regs n i := by
  rw [fabric.runs]
  split
  · rename_i raised
    rw [Device.wbi_of_enabled raised.1.1]
    exact MmregDecoder.comb_of_raised (fabric.control n i) idle raised.1.2 raised.2
  · rename_i other
    exact MmregDecoder.comb_of_unraised idle (Device.unraised other)

theorem Fabric.step_of_wait {n : Nat} {i : ι} (waiting : (regs n i).state = .wait1) :
    regs (n + 1) i = MmregDecoder.zeroReg := by
  rw [fabric.runs]
  exact MmregDecoder.comb_of_wait _ waiting

/-- A device acknowledges only the request that is on the bus. -/
theorem Fabric.latched (n : Nat) (i : ι) (waiting : (regs n i).state = .wait1) :
    Latched (devices i) (bus n) (regs n i) := by
  induction n generalizing i with
  | zero =>
      rw [fabric.start] at waiting
      cases waiting
  | succ n ih =>
      cases before : (regs n i).state with
      | wait1 =>
          rw [fabric.step_of_wait before] at waiting
          cases waiting
      | idle =>
          have next := fabric.step_of_idle before
          split at next
          · rename_i raised
            -- Nobody else has acknowledged the request in the meantime.
            have unacked : (per n).ack = false := by
              by_contra acked
              rw [Bool.not_eq_false] at acked
              by_cases quiet : ∀ j, (regs n j).ack = false
              · exact (fabric.foreign n acked quiet).2 i raised.1
              · push Not at quiet
                obtain ⟨j, acks⟩ := quiet
                rw [fabric.ack_eq, Ne, decide_eq_false_iff_not, not_not] at acks
                have same := fabric.disjoint i j _ raised.1 (ih j acks).answers
                subst same
                rw [before] at acks
                cases acks
            have kept := fabric.held n raised.2 unacked
            rw [kept]
            exact ⟨raised.2, raised.1, next⟩
          · rw [next, before] at waiting
            cases waiting

theorem Fabric.latched_of_ack {n : Nat} {i : ι} (acks : (regs n i).ack = true) :
    Latched (devices i) (bus n) (regs n i) :=
  fabric.latched n i (by simpa [fabric.ack_eq] using acks)

/-- No two devices acknowledge at once. -/
theorem Fabric.unique {n : Nat} {i j : ι} (first : (regs n i).ack = true)
    (second : (regs n j).ack = true) : i = j :=
  fabric.disjoint i j _ (fabric.latched_of_ack first).answers
    (fabric.latched_of_ack second).answers

theorem Fabric.cyc_of_ack {n : Nat} (acked : (per n).ack = true) : (bus n).cyc = true := by
  by_cases quiet : ∀ i, (regs n i).ack = false
  · exact (fabric.foreign n acked quiet).1
  · push Not at quiet
    obtain ⟨i, acks⟩ := quiet
    exact (fabric.latched_of_ack (by simpa using acks)).cyc

/-- A request that a device answers is acknowledged by nobody else. -/
theorem Fabric.ack_of_answers {n : Nat} {i : ι} (acked : (per n).ack = true)
    (answers : (devices i).Answers (bus n).adr) : (regs n i).ack = true := by
  by_contra silent
  by_cases quiet : ∀ j, (regs n j).ack = false
  · exact (fabric.foreign n acked quiet).2 i answers
  · push Not at quiet
    obtain ⟨j, acks⟩ := quiet
    rw [Ne, Bool.not_eq_false] at acks
    have same := fabric.disjoint i j _ answers (fabric.latched_of_ack acks).answers
    exact silent (same ▸ acks)

theorem Fabric.ack_iff (n : Nat) (i : ι) : (regs n i).ack = true ↔
    (per n).ack = true ∧ (devices i).Answers (bus n).adr :=
  ⟨fun acks => ⟨fabric.acks n i acks, (fabric.latched_of_ack acks).answers⟩,
    fun both => fabric.ack_of_answers both.1 both.2⟩

/-- A request that a device answers is acknowledged by it, now or in the next cycle. -/
theorem Fabric.answered {n : Nat} {i : ι} (raised : (bus n).cyc = true)
    (answers : (devices i).Answers (bus n).adr) :
    (regs n i).ack = true ∨ (per n).ack = false ∧ (regs (n + 1) i).ack = true := by
  cases acked : (per n).ack with
  | true => exact .inl (fabric.ack_of_answers acked answers)
  | false =>
      right
      have idle : (regs n i).state = .idle := by
        cases phase : (regs n i).state with
        | idle => rfl
        | wait1 =>
            have acks := fabric.acks n i (by rw [fabric.ack_eq, phase]; rfl)
            rw [acked] at acks
            cases acks
      rw [fabric.step_of_idle idle, if_pos ⟨answers, raised⟩]
      exact ⟨rfl, rfl⟩

/-- A request that nobody answers stays on the bus. -/
theorem Fabric.stuck {n : Nat} (raised : (bus n).cyc = true)
    (unanswered : ∀ i, ¬ (devices i).Answers (bus n).adr)
    (silent : ∀ m, bus m = bus n → (∀ i, (regs m i).ack = false) → (per m).ack = false)
    (later : Nat) : bus (n + later) = bus n ∧ (per (n + later)).ack = false := by
  have quiet : ∀ m, bus m = bus n → (per m).ack = false := by
    intro m same
    refine silent m same fun i => ?_
    by_contra acks
    exact unanswered i (same ▸ (fabric.latched_of_ack (by simpa using acks)).answers)
  induction later with
  | zero => exact ⟨rfl, quiet n rfl⟩
  | succ later ih =>
      have kept := fabric.held (n + later) (by rw [ih.1, raised]) ih.2
      rw [← Nat.add_assoc, kept]
      exact ⟨ih.1, quiet _ (kept.trans ih.1)⟩

/-! ### Registers and block RAMs -/

omit fabric in
/-- The register write that a request is for a device. -/
def Device.registerWrite (d : Device) (request : Request) : Option (Nat × BitVec 32) :=
  if request.we = true ∧ d.Answers request.adr then
    some (d.decoder.index request.adr, request.dat)
  else none

omit fabric in
/-- The write that a decoder hands to its device. -/
def strobe (r : MmregDecoder.Reg) : Option (Nat × BitVec 32) :=
  if r.write then some (r.index, r.data) else none

theorem Fabric.strobe_eq (n : Nat) (i : ι) : strobe (regs n i) =
    if (per n).ack then (devices i).registerWrite (bus n).request else none := by
  cases acks : (regs n i).ack with
  | true =>
      have latched := fabric.latched_of_ack acks
      rw [fabric.acks n i acks, if_pos rfl, latched.reg, strobe, Device.registerWrite]
      simp only [HostBus.request, latched.answers, and_true]
  | false =>
      have quiet : (regs n i).write = false := by
        by_contra write
        have acked := (fabric.control n i).ack_of_write (by simpa using write)
        rw [acks] at acked
        cases acked
      rw [strobe, quiet, if_neg Bool.false_ne_true]
      split
      · rename_i acked
        have other : ¬ (devices i).Answers (bus n).adr := by
          intro answers
          rw [fabric.ack_of_answers acked answers] at acks
          cases acks
        exact (if_neg fun write => other write.2).symm
      · rfl

/-- A device is handed the writes that are acknowledged, each once and in order. -/
theorem Fabric.strobes (i : ι) (n : Nat) : Trace.history (fun n => strobe (regs n i)) n =
    (servedRequests (fun _ => true) bus per n).filterMap (devices i).registerWrite := by
  induction n with
  | zero => rfl
  | succ n ih =>
      rw [Trace.history_succ, ih, servedRequests, Trace.history_succ, ← servedRequests,
        List.filterMap_append, fabric.strobe_eq]
      cases acked : (per n).ack with
      | true => rw [fabric.cyc_of_ack acked]; cases found :
          (devices i).registerWrite (bus n).request <;> simp [found]
      | false => simp

section Bram

variable {g : Bram.Generics} (bram : Nat → Bram.State g) {i : ι}
  (decoder : (devices i).decoder = g.decoder) (holds : ∀ n, (bram n).decoder0 = regs n i)
include decoder holds

theorem Fabric.bramLatched {n : Nat} (acks : (regs n i).ack = true) :
    Bram.Latched (bram n) (bus n) := by
  have latched := (holds n).trans (fabric.latched_of_ack acks).reg
  constructor <;> simp [latched, decoder]

/-- A block RAM makes the accesses that it acknowledges. -/
theorem Fabric.bram_bytes
    (next : ∀ n, bram (n + 1) = Bram.step false ((devices i).wbi (bus n)) (bram n)) (n : Nat) :
    (bram (n + 1)).mem.bytes =
      if (regs n i).ack then (g.access (bus n).request).apply (bram n).mem.bytes
      else (bram n).mem.bytes := by
  rw [next]
  split
  · rename_i acks
    rw [Device.wbi_of_enabled (fabric.latched_of_ack acks).answers.1]
    exact (fabric.bramLatched bram decoder holds acks).mem_step
  · rename_i quiet
    have unwritten : (bram n).decoder0.write = false := by
      by_contra write
      rw [holds] at write
      exact quiet ((fabric.control n i).ack_of_write (by simpa using write))
    rw [Bram.step, unwritten, if_neg Bool.false_ne_true]

end Bram

end Fabric

/-! ### Byte memories -/

/-- A request as an access, if its address is one of a memory. -/
def access {Cell : Type*} (cell : BitVec 32 → Option Cell) (request : Request) :
    Option (LaneMemory.Access Cell (Fin 4) (BitVec 8)) :=
  (cell request.adr).map fun index =>
    { index := index
      write := request.we
      sel := fun lane => request.sel.getLsbD lane
      data := fun lane => byteLane request.dat lane }

/-- A memory behind the bus, at some of the addresses: reads return its bytes, and
the requests that are acknowledged make the accesses. -/
structure ByteMemory {Cell : Type*} [DecidableEq Cell] (cell : BitVec 32 → Option Cell)
    (bus : Nat → HostBus) (per : Nat → PerBus)
    (bytes : Nat → Cell → Fin 4 → BitVec 8) : Prop where
  ack_cyc : ∀ n, (per n).ack = true → (bus n).cyc = true
  read : ∀ n index, (per n).ack = true → cell (bus n).adr = some index →
    ∀ lane, byteLane (per n).rdt lane = bytes n index lane
  next : ∀ n, bytes (n + 1) =
    if (per n).ack then
      LaneMemory.replay (bytes n) (access cell (bus n).request).toList
    else bytes n

/-- The memory is what the served requests have made of it. -/
theorem ByteMemory.bytes_eq {Cell : Type*} [DecidableEq Cell] {cell : BitVec 32 → Option Cell}
    {bus : Nat → HostBus} {per : Nat → PerBus} {bytes : Nat → Cell → Fin 4 → BitVec 8}
    (memory : ByteMemory cell bus per bytes) (n : Nat) :
    bytes n = LaneMemory.replay (bytes 0)
      ((servedRequests (fun _ => true) bus per n).filterMap (access cell)) := by
  induction n with
  | zero => rfl
  | succ n ih =>
      rw [memory.next, servedRequests, Trace.history_succ, ← servedRequests,
        List.filterMap_append, LaneMemory.replay_append, ← ih]
      cases acked : (per n).ack with
      | false => simp [LaneMemory.replay]
      | true =>
          have raised := memory.ack_cyc n acked
          cases found : access cell (bus n).request with
          | none => simp [raised, found, LaneMemory.replay]
          | some made => simp [raised, found]

end WbFabric

end Cocoapuffs

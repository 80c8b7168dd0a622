import Cocoapuffs.MuntjacTileLink
import Cocoapuffs.TlCommands

/-!
# Requests of the 64-bit core

A naturally aligned request of the core with its 64-bit beats, what it should do to
a memory of bytes, and what the converter makes of it.
-/

namespace Cocoapuffs

/-- The byte at an address. -/
def WordMemory.byteAt (memory : WordMemory) (address : BitVec 32) : BitVec 8 :=
  byteLane (memory.word address) ⟨address.toNat % 4, Nat.mod_lt _ (by decide)⟩

theorem wordIndex_eq_iff (first second : BitVec 32) :
    wordIndex first = wordIndex second ↔ first.toNat / 4 = second.toNat / 4 := by
  have index : ∀ address : BitVec 32, (wordIndex address).toNat = address.toNat / 4 := by
    intro address
    have bound := address.isLt
    rw [wordIndex, BitVec.extractLsb'_toNat, Nat.shiftRight_eq_div_pow, Nat.mod_eq_of_lt]
    omega
  rw [← index, ← index, BitVec.toNat_inj]

theorem Request.byteAt_apply {request : Request} (write : request.we = true)
    (memory : WordMemory) (address : BitVec 32) :
    (request.apply memory).byteAt address =
      if request.adr.toNat / 4 = address.toNat / 4 ∧
          request.sel.getLsbD (address.toNat % 4) = true
      then byteLane request.dat ⟨address.toNat % 4, Nat.mod_lt _ (by decide)⟩
      else memory.byteAt address := by
  have bytes := congrFun (congrFun (request.apply_bytes memory) (wordIndex address))
    ⟨address.toNat % 4, Nat.mod_lt _ (by decide)⟩
  apply bytes.trans
  simp only [Request.access, LaneMemory.Access.apply, LaneMemory.Access.touches, write,
    Bool.true_and, Bool.and_eq_true, decide_eq_true_eq, wordIndex_eq_iff, and_comm]
  rfl

theorem map_mapIdx {α β γ : Type*} (f : Nat → α → β) (g : β → γ) (values : List α) :
    (values.mapIdx f).map g = values.mapIdx fun i value => g (f i value) := by
  ext1 i
  simp [Function.comp_def]

theorem Request.byteAt_applyAll {β : Type*} (request : Nat → β → Request)
    (hits : β → Option (BitVec 8)) (only : Nat) (address : BitVec 32) (memory : WordMemory)
    (beats : List β)
    (writes : ∀ j beat, beats[j]? = some beat → ∀ memory,
      ((request j beat).apply memory).byteAt address =
        (if j = only then hits beat else none).getD (memory.byteAt address)) :
    (Request.applyAll memory (beats.mapIdx request)).byteAt address =
      (beats[only]?.bind hits).getD (memory.byteAt address) := by
  induction beats using List.reverseRecOn with
  | nil => rfl
  | append_singleton beats beat ih =>
      have before := ih fun j earlier here =>
        writes j earlier (by
          rw [List.getElem?_append_left (List.getElem?_eq_some_iff.mp here).1]
          exact here)
      have last := writes beats.length beat (by simp)
        (Request.applyAll memory (beats.mapIdx request))
      rw [List.mapIdx_concat, Request.applyAll_concat, last, before]
      by_cases now : beats.length = only
      · subst now
        simp
      · rw [if_neg now, Option.getD_none]
        rcases Nat.lt_or_gt_of_ne now with less | greater
        · rw [List.getElem?_eq_none (by omega), List.getElem?_eq_none (by simp; omega)]
        · rw [List.getElem?_append_left greater]

namespace MuntjacTileLink

open TileLink TlConverter

/-- Is a byte among the `2 ^ size` from an address on? -/
def Covers (address : BitVec 32) (size byte : Nat) : Prop :=
  address.toNat ≤ byte ∧ byte < address.toNat + 2 ^ size

/-- The byte that travels in a lane of a beat. -/
def laneByte (address : BitVec 32) (beat lane : Nat) : Nat :=
  8 * (address.toNat / 8 + beat) + lane

structure CoreBeat where
  mask : BitVec 8
  corrupt : Bool
  data : BitVec 64

/-- A naturally aligned read or write of `2 ^ size` bytes. -/
structure CoreRequest where
  opcode : BitVec 3
  param : BitVec 3
  size : Nat
  source : BitVec 4
  address : BitVec 32
  /-- Does the address move on with the beats, or stay that of the first? -/
  advances : Bool
  beats : List CoreBeat
  kind : opcode = opGet ∨ isPut opcode = true
  size_le : size ≤ 6
  aligned : 2 ^ size ∣ address.toNat
  length_eq : beats.length = if opcode = opGet then 1 else max 1 (2 ^ (size - 3))
  /-- The active lanes are those of the request's bytes, and some of them in a
  `PutPartialData`. -/
  lanes : ∀ j beat, beats[j]? = some beat → ∀ lane < 8,
    (beat.mask.getLsbD lane = true → Covers address size (laneByte address j lane)) ∧
      (opcode ≠ opPutPartialData → Covers address size (laneByte address j lane) →
        beat.mask.getLsbD lane = true)

namespace CoreRequest

variable (r : CoreRequest)

def beatAddress (j : Nat) : BitVec 32 :=
  if r.advances then r.address + BitVec.ofNat 32 (8 * j) else r.address

/-- The request on the core's A channel. -/
def packed : List (BitVec 143) :=
  r.beats.mapIdx fun j beat =>
    packBeat r.opcode r.param (BitVec.ofNat 4 r.size) r.source (0#24 ++ r.beatAddress j)
      beat.mask beat.corrupt beat.data

/-- What a write should leave in a byte, if it writes it. -/
def written (address : BitVec 32) : Option (BitVec 8) :=
  if r.address.toNat / 8 ≤ address.toNat / 8 then
    r.beats[address.toNat / 8 - r.address.toNat / 8]?.bind fun beat =>
      if beat.mask.getLsbD (address.toNat % 8) then
        some (beatByte beat.data (address.toNat % 8))
      else none
  else none

/-- The beats that the core got, and the memory at the end, are those of the request:
a read is answered with its bytes in their lanes, a write changes its active bytes. -/
structure Carried (memory : WordMemory) (beats : List (BitVec 81)) (final : WordMemory) :
    Prop where
  length_eq : r.opcode = opGet → beats.length = max 1 (2 ^ (r.size - 3))
  read : r.opcode = opGet → ∀ address : BitVec 32, Covers r.address r.size address.toNat →
    ∃ beat, beats[address.toNat / 8 - r.address.toNat / 8]? = some beat ∧
      beatByte (beatData beat) (address.toNat % 8) = memory.byteAt address
  write : r.opcode ≠ opGet → ∀ address,
    final.byteAt address = (r.written address).getD (memory.byteAt address)

/-- The system carries out the request in the end. -/
def Carries : Prop :=
  ∀ start memory choices, Fair start memory r.packed choices →
    ∃ settled, ∀ n, settled ≤ n →
      r.Carried memory (received start memory r.packed choices n)
        (states start memory r.packed choices n).memory

/-- The request fits the lower halves of the beats that the converter addresses. -/
structure Fits : Prop where
  read : r.opcode = opGet → r.size ≤ 2 ∧ r.address.toNat % 8 < 4
  write : r.opcode ≠ opGet → ∀ j beat, r.beats[j]? = some beat → ∀ lane < 8,
    beat.mask.getLsbD lane = true → lane < 4 ∧ (j = 0 ∨ r.advances = true)

/-! ### The request on the converter's side -/

/-- A beat as the converter gets it. -/
def aBeat (j : Nat) (beat : CoreBeat) : AType :=
  ⟨r.opcode, r.param, BitVec.ofNat 3 r.size, 0#4 ++ r.source, r.beatAddress j,
    beat.mask.extractLsb' 0 4, beat.data.extractLsb' 0 32, beat.corrupt, true⟩

theorem packed_offered : r.packed.map offered = r.beats.mapIdx r.aBeat := by
  have size : (BitVec.ofNat 4 r.size).extractLsb' 0 3 = BitVec.ofNat 3 r.size := by
    apply BitVec.eq_of_toNat_eq
    have small := r.size_le
    rw [BitVec.extractLsb'_toNat, BitVec.toNat_ofNat, BitVec.toNat_ofNat]
    omega
  have address : ∀ j, (0#24 ++ r.beatAddress j).extractLsb' 0 32 = r.beatAddress j :=
    fun j => BitVec.extractLsb'_append_eq_right
  rw [packed, map_mapIdx]
  simp only [offered, unpackTlA_packBeat, size, address]
  rfl

theorem totalBeats_size : totalBeats (BitVec.ofNat 3 r.size) = 2 ^ (r.size - 2) := by
  have small := r.size_le
  rw [totalBeats, BitVec.toNat_ofNat, Nat.mod_eq_of_lt (by omega)]

@[simp]
theorem beatAddress_zero : r.beatAddress 0 = r.address := by
  simp [beatAddress]

/-! ### Alignment -/

section Alignment

variable {r} {byte : Nat}

theorem lt_of_covers (covers : Covers r.address r.size byte) : byte < 2 ^ 32 := by
  have small := r.size_le
  have whole : 2 ^ r.size ∣ 2 ^ 32 - r.address.toNat :=
    Nat.dvd_sub (pow_dvd_pow 2 (by omega)) r.aligned
  have room := Nat.le_of_dvd (by have := r.address.isLt; omega) whole
  have bound := covers.2
  omega

theorem word_of_covers (size : r.size ≤ 2) (covers : Covers r.address r.size byte) :
    byte / 4 = r.address.toNat / 4 := by
  obtain ⟨first, last⟩ := covers
  have aligned := r.aligned
  have sizes : r.size = 0 ∨ r.size = 1 ∨ r.size = 2 := by omega
  rcases sizes with size | size | size <;> rw [size] at aligned last <;> omega

theorem address_aligned (size : 3 ≤ r.size) : 8 ∣ r.address.toNat :=
  Nat.dvd_trans (pow_dvd_pow 2 size) r.aligned

end Alignment

/-! ### Reads -/

section Read

variable {r} (get : r.opcode = opGet)
include get

theorem beats_of_get : ∃ beat, r.beats = [beat] := by
  have length := r.length_eq
  rw [if_pos get] at length
  exact List.length_eq_one_iff.mp length

variable {start : TlC2wblite.State} {memory : WordMemory} {choices : Nat → Choices}

/-- A read is answered with its 32-bit words, each in a beat of its own. -/
theorem received_of_get (fair : Fair start memory r.packed choices) : ∃ settled, ∀ n, settled ≤ n →
    ∃ beat, received start memory r.packed choices n =
      (List.range (2 ^ (r.size - 2))).map fun i =>
        packTlD (response cProfile (r.aBeat 0 beat)
          (memory.word (r.address + 4 * BitVec.ofNat 32 i))) := by
  obtain ⟨beat, single⟩ := beats_of_get get
  have one : r.packed.map offered = [r.aBeat 0 beat] := by
    rw [packed_offered, single]
    rfl
  have read : cProfile.isRead (r.aBeat 0 beat).opcode = true := by
    rw [aBeat, get]
    rfl
  obtain ⟨settled, rest⟩ := fair.outcome (by
    rw [one]
    exact ⟨Or.inl read, trivial⟩)
  refine ⟨settled, fun n after => ⟨beat, ?_⟩⟩
  rw [(rest n after).1, one, List.foldl_cons, List.foldl_nil, Burst.accept, if_pos read]
  simp only [Burst.start, Outcome.readBeat, Outcome.respond, List.nil_append, readBeats_eq_map,
    List.map_map]
  simp only [aBeat, totalBeats_size, beatAddress_zero, Function.comp_def]

theorem first_beat {n : Nat} {beat : CoreBeat} {lane : Nat} (bound : lane < 8)
    (answer : received start memory r.packed choices n =
      (List.range (2 ^ (r.size - 2))).map fun i =>
        packTlD (response cProfile (r.aBeat 0 beat)
          (memory.word (r.address + 4 * BitVec.ofNat 32 i)))) :
    ∃ packedD, (received start memory r.packed choices n)[0]? = some packedD ∧
      beatByte (beatData packedD) lane =
        if low : lane < 4 then byteLane (memory.word r.address) ⟨lane, low⟩ else 0 := by
  refine ⟨packTlD (response cProfile (r.aBeat 0 beat) (memory.word r.address)), ?_, ?_⟩
  · rw [answer]
    simp
  · rw [beatByte_packTlD _ bound]
    simp [response, aBeat, get, cProfile]

theorem carried_of_get (fair : Fair start memory r.packed choices) (size : r.size ≤ 2)
    (low : r.address.toNat % 8 < 4) :
    ∃ settled, ∀ n, settled ≤ n →
      r.Carried memory (received start memory r.packed choices n)
        (states start memory r.packed choices n).memory := by
  obtain ⟨settled, rest⟩ := received_of_get get fair
  refine ⟨settled, fun n after => ?_⟩
  obtain ⟨beat, answer⟩ := rest n after
  have few : r.size - 2 = 0 ∧ r.size - 3 = 0 := by omega
  constructor
  · intro _
    simp [answer, few]
  · intro _ address covers
    have word := word_of_covers size covers
    have lane : address.toNat % 8 < 4 := by omega
    obtain ⟨packedD, first, byte⟩ := first_beat get (Nat.mod_lt address.toNat (by decide)) answer
    have block : address.toNat / 8 - r.address.toNat / 8 = 0 := by omega
    refine ⟨packedD, by rw [block, first], ?_⟩
    have index := (wordIndex_eq_iff address r.address).mpr word
    have same : address.toNat % 8 = address.toNat % 4 := by omega
    rw [byte, dif_pos lane, WordMemory.byteAt, WordMemory.word, WordMemory.word, index]
    simp only [same]
  · exact fun other => absurd get other

end Read

/-! ### Writes -/

section Write

variable {r} (put : r.opcode ≠ opGet)

theorem isPut_opcode (put : r.opcode ≠ opGet) : isPut r.opcode = true :=
  r.kind.resolve_left put

section Beats

variable {j : Nat} {beat : CoreBeat} (here : r.beats[j]? = some beat)

theorem byteAt_putWrite (memory : WordMemory) (address : BitVec 32) :
    ((putWrite (r.aBeat j beat)).apply memory).byteAt address =
      if (r.beatAddress j).toNat / 4 = address.toNat / 4 ∧
          beat.mask.getLsbD (address.toNat % 4) = true
      then beatByte beat.data (address.toNat % 4)
      else memory.byteAt address := by
  have bound : address.toNat % 4 < 4 := Nat.mod_lt _ (by decide)
  have data : byteLane (beat.data.extractLsb' 0 32) ⟨address.toNat % 4, bound⟩ =
      beatByte beat.data (address.toNat % 4) :=
    BitVec.extractLsb'_extractLsb'_of_le (by omega)
  rw [Request.byteAt_apply rfl]
  simp [putWrite, aBeat, data, bound]

section Active

include put here

theorem eight_lt_of_later (later : j ≠ 0) : 3 < r.size := by
  have bound : j < r.beats.length := (List.getElem?_eq_some_iff.mp here).1
  rw [r.length_eq, if_neg put] at bound
  by_contra small
  have one : r.size - 3 = 0 := by omega
  rw [one] at bound
  omega

/-- A beat with an active lane in its lower half is addressed to it, if the address
moves on. -/
theorem beatAddress_own {lane : Nat} (low : lane < 4) (active : beat.mask.getLsbD lane = true)
    (follows : j = 0 ∨ r.advances = true) :
    (r.beatAddress j).toNat / 4 = 2 * (r.address.toNat / 8 + j) := by
  have covers := (r.lanes j beat here lane (by omega)).1 active
  by_cases first : j = 0
  · subst first
    have start := covers.1
    rw [laneByte] at start
    rw [beatAddress_zero]
    omega
  · have advances := follows.resolve_left first
    have aligned := address_aligned (eight_lt_of_later put here first).le
    have room := lt_of_covers covers
    rw [laneByte] at room
    rw [beatAddress, if_pos advances, BitVec.toNat_add, BitVec.toNat_ofNat]
    omega

/-- and to some lower half in any case. -/
theorem beatAddress_even {lane : Nat} (low : lane < 4) (active : beat.mask.getLsbD lane = true) :
    (r.beatAddress j).toNat / 4 % 2 = 0 := by
  by_cases follows : j = 0 ∨ r.advances = true
  · rw [beatAddress_own put here low active follows]
    omega
  · obtain ⟨later, stays⟩ := not_or.mp follows
    have aligned := address_aligned (eight_lt_of_later put here later).le
    rw [beatAddress, if_neg stays]
    omega

theorem byteAt_putWrite_own
    (fits : ∀ lane < 8, beat.mask.getLsbD lane = true → lane < 4 ∧ (j = 0 ∨ r.advances = true))
    (memory : WordMemory) (address : BitVec 32) :
    ((putWrite (r.aBeat j beat)).apply memory).byteAt address =
      if address.toNat / 8 = r.address.toNat / 8 + j ∧
          beat.mask.getLsbD (address.toNat % 8) = true
      then beatByte beat.data (address.toNat % 8)
      else memory.byteAt address := by
  rw [byteAt_putWrite]
  by_cases own : address.toNat / 8 = r.address.toNat / 8 + j ∧
      beat.mask.getLsbD (address.toNat % 8) = true
  · obtain ⟨low, follows⟩ := fits _ (Nat.mod_lt _ (by decide)) own.2
    have word := beatAddress_own put here low own.2 follows
    have lane : address.toNat % 4 = address.toNat % 8 := by omega
    have same : (r.beatAddress j).toNat / 4 = address.toNat / 4 := by omega
    rw [lane, if_pos (And.intro same own.2), if_pos own]
  · rw [if_neg own, if_neg]
    rintro ⟨same, active⟩
    have low : address.toNat % 4 < 4 := Nat.mod_lt _ (by decide)
    obtain ⟨-, follows⟩ := fits _ (by omega) active
    have word := beatAddress_own put here low active follows
    have lane : address.toNat % 8 = address.toNat % 4 := by omega
    exact own ⟨by omega, by rw [lane]; exact active⟩

/-- No beat writes a byte that it does not address: one in an upper half, or one of a later
beat while the address stays. -/
theorem untouched {lane : Nat} (bound : lane < 8)
    (outside : ¬ (lane < 4 ∧ (j = 0 ∨ r.advances = true))) {address : BitVec 32}
    (byte : address.toNat = laneByte r.address j lane) {j' : Nat} {beat' : CoreBeat}
    (here' : r.beats[j']? = some beat') (memory : WordMemory) :
    ((putWrite (r.aBeat j' beat')).apply memory).byteAt address = memory.byteAt address := by
  rw [byteAt_putWrite, if_neg]
  rintro ⟨same, active⟩
  rw [laneByte] at byte
  have even := beatAddress_even put here' (Nat.mod_lt _ (by decide)) active
  have low : lane < 4 := by omega
  obtain ⟨later, stays⟩ := not_or.mp fun follows => outside ⟨low, follows⟩
  have aligned := address_aligned (eight_lt_of_later put here later).le
  rw [beatAddress, if_neg stays] at same
  omega

end Active

end Beats

theorem memory_of_put (put : r.opcode ≠ opGet) {start : TlC2wblite.State} {memory : WordMemory}
    {choices : Nat → Choices} (fair : Fair start memory r.packed choices) :
    ∃ settled, ∀ n, settled ≤ n →
      (states start memory r.packed choices n).memory =
        Request.applyAll memory (r.beats.mapIdx fun j beat => putWrite (r.aBeat j beat)) := by
  have isPut : ∀ beat ∈ r.beats.mapIdx r.aBeat, isPut beat.opcode = true := by
    intro beat mem
    obtain ⟨j, bound, rfl⟩ := List.mem_mapIdx.mp mem
    exact isPut_opcode put
  have admissible : Burst.Admissible cProfile (Burst.start memory) (r.packed.map offered) := by
    have length := r.length_eq
    rw [packed_offered]
    cases beats : r.beats with
    | nil =>
        trivial
    | cons first others =>
        rw [beats, if_neg put, List.length_cons] at length
        rw [List.mapIdx_cons]
        apply Burst.admissible_put
        · exact isPut_opcode put
        · intro beat mem
          obtain ⟨j, bound, rfl⟩ := List.mem_mapIdx.mp mem
          exact ⟨rfl, rfl, rfl, rfl⟩
        · have grows : 2 ^ (r.size - 3) ≤ 2 ^ (r.size - 2) :=
            Nat.pow_le_pow_right (by decide) (by omega)
          have positive := Nat.two_pow_pos (r.size - 2)
          rw [List.length_mapIdx, length, aBeat, totalBeats_size]
          omega
  obtain ⟨settled, rest⟩ := fair.outcome admissible
  refine ⟨settled, fun n after => ?_⟩
  rw [(rest n after).2, packed_offered, Burst.foldl_put_memory cProfile _ isPut, map_mapIdx]
  rfl

theorem carried_of_put (put : r.opcode ≠ opGet) (fits : r.Fits) {start : TlC2wblite.State}
    {memory : WordMemory} {choices : Nat → Choices} (fair : Fair start memory r.packed choices) :
    ∃ settled, ∀ n, settled ≤ n →
      r.Carried memory (received start memory r.packed choices n)
        (states start memory r.packed choices n).memory := by
  obtain ⟨settled, rest⟩ := memory_of_put put fair
  refine ⟨settled, fun n after => ?_⟩
  constructor
  · exact fun get => absurd get put
  · exact fun get => absurd get put
  · intro _ address
    rw [rest n after, written]
    split
    · rename_i le
      apply Request.byteAt_applyAll
      intro j beat here memory
      have block : address.toNat / 8 = r.address.toNat / 8 + j ↔
          j = address.toNat / 8 - r.address.toNat / 8 := by omega
      rw [byteAt_putWrite_own put here (fits.write put j beat here)]
      simp only [block]
      by_cases own : j = address.toNat / 8 - r.address.toNat / 8 <;>
        by_cases active : beat.mask.getLsbD (address.toNat % 8) = true <;>
        simp [own, active]
    · rename_i before
      have none := Request.byteAt_applyAll (fun j beat => putWrite (r.aBeat j beat))
        (fun _ => none) 0 address memory r.beats fun j beat here memory => by
          rw [byteAt_putWrite_own put here (fits.write put j beat here), if_neg (by omega)]
          simp
      simpa using none

theorem written_of_active {j lane : Nat} {beat : CoreBeat} (here : r.beats[j]? = some beat)
    (bound : lane < 8) (active : beat.mask.getLsbD lane = true) {address : BitVec 32}
    (byte : address.toNat = laneByte r.address j lane) :
    r.written address = some (beatByte beat.data lane) := by
  rw [laneByte] at byte
  have le : r.address.toNat / 8 ≤ address.toNat / 8 := by omega
  have index : address.toNat / 8 - r.address.toNat / 8 = j := by omega
  have inBeat : address.toNat % 8 = lane := by omega
  rw [written, if_pos le, index, here, inBeat]
  simp [active]

end Write

/-! ### Exactly the requests that fit are carried out -/

/-- A core, and a memory, that are always ready. -/
def always (_ : Nat) : Choices := ⟨true, true, true⟩

theorem fair_always (start : TlC2wblite.State) (memory : WordMemory)
    (packed : List (BitVec 143)) : Fair start memory packed always where
  offers n := ⟨n, le_rfl, rfl⟩
  acks n := ⟨n, le_rfl, rfl⟩
  dReady _ _ := rfl

/-- Two memories with no byte in common. -/
theorem byteAt_ones_ne_zero (address : BitVec 32) :
    WordMemory.byteAt (fun _ => BitVec.allOnes 32) address ≠
      WordMemory.byteAt (fun _ => 0) address := by
  have apart : ∀ lane : Fin 4, byteLane (BitVec.allOnes 32) lane ≠ byteLane 0 lane := by decide
  exact apart _

variable {r} (carries : r.Carries)
include carries

theorem fits_of_carries_get (get : r.opcode = opGet) :
    r.size ≤ 2 ∧ r.address.toNat % 8 < 4 := by
  let memory : WordMemory := fun _ => BitVec.allOnes 32
  have fair := fair_always TlC2wblite.powerUp memory r.packed
  obtain ⟨settled, carried⟩ := carries _ _ _ fair
  obtain ⟨settled', answered⟩ := received_of_get get fair
  have done := carried (max settled settled') (le_max_left _ _)
  obtain ⟨beat, answer⟩ := answered (max settled settled') (le_max_right _ _)
  constructor
  · have count := done.length_eq get
    rw [answer, List.length_map, List.length_range] at count
    by_contra large
    have double : r.size - 2 = r.size - 3 + 1 := by omega
    have positive := Nat.two_pow_pos (r.size - 3)
    rw [double, Nat.pow_succ] at count
    omega
  · obtain ⟨packedD, first, byte⟩ := first_beat get (Nat.mod_lt r.address.toNat (by decide)) answer
    have covers : Covers r.address r.size r.address.toNat :=
      ⟨le_rfl, Nat.lt_add_of_pos_right (Nat.two_pow_pos _)⟩
    obtain ⟨packedD', first', byte'⟩ := done.read get r.address covers
    rw [Nat.sub_self, first, Option.some.injEq] at first'
    subst first'
    by_contra high
    rw [byte, dif_neg high] at byte'
    have zero : ∀ lane : Fin 4, byteLane 0 lane = 0 := by decide
    exact byteAt_ones_ne_zero r.address (byte'.symm.trans (zero _).symm)

theorem fits_of_carries_put (put : r.opcode ≠ opGet) {j lane : Nat} {beat : CoreBeat}
    (here : r.beats[j]? = some beat) (bound : lane < 8)
    (active : beat.mask.getLsbD lane = true) : lane < 4 ∧ (j = 0 ∨ r.advances = true) := by
  by_contra outside
  have room := lt_of_covers ((r.lanes j beat here lane bound).1 active)
  have byte : (BitVec.ofNat 32 (laneByte r.address j lane)).toNat = laneByte r.address j lane := by
    rw [BitVec.toNat_ofNat, Nat.mod_eq_of_lt room]
  have kept : ∀ memory : WordMemory,
      memory.byteAt (BitVec.ofNat 32 (laneByte r.address j lane)) = beatByte beat.data lane := by
    intro memory
    have fair := fair_always TlC2wblite.powerUp memory r.packed
    obtain ⟨settled, carried⟩ := carries _ _ _ fair
    obtain ⟨settled', written⟩ := memory_of_put put fair
    have final := (carried (max settled settled') (le_max_left _ _)).write put
      (BitVec.ofNat 32 (laneByte r.address j lane))
    have same := Request.byteAt_applyAll (fun j beat => putWrite (r.aBeat j beat))
      (fun _ => none) 0 (BitVec.ofNat 32 (laneByte r.address j lane)) memory r.beats
      fun j' beat' here' memory => by
        rw [untouched put here bound outside byte here' memory]
        simp
    rw [written _ (le_max_right _ _), same, written_of_active here bound active byte] at final
    simpa using final
  exact byteAt_ones_ne_zero _ ((kept _).trans (kept _).symm)

end CoreRequest

/-- The converter carries out exactly the requests that fit: reads of at most four bytes
in a lower half, and writes with all active lanes in the lower halves addressed. -/
theorem muntjacTl2wb_carries_iff (r : CoreRequest) : r.Carries ↔ r.Fits := by
  constructor
  · intro carries
    constructor
    · exact fun get => CoreRequest.fits_of_carries_get carries get
    · exact fun put j beat here lane bound active =>
        CoreRequest.fits_of_carries_put carries put here bound active
  · intro fits start memory choices fair
    by_cases get : r.opcode = opGet
    · obtain ⟨size, low⟩ := fits.read get
      exact CoreRequest.carried_of_get get fair size low
    · exact CoreRequest.carried_of_put get fits fair

/-- A read of eight bytes. -/
def loadDoubleword : CoreRequest where
  opcode := opGet
  param := 0
  size := 3
  source := 1
  address := 0x40
  advances := false
  beats := [⟨0xff, false, 0⟩]
  kind := Or.inl rfl
  size_le := by decide
  aligned := by decide
  length_eq := rfl
  lanes j beat here lane bound := by
    cases j with
    | zero =>
        obtain rfl : (⟨0xff, false, 0⟩ : CoreBeat) = beat := by simpa using here
        revert lane
        unfold Covers laneByte
        decide
    | succ j => simp at here

/-- It gets two beats instead of one. -/
theorem muntjacTl2wb_not_carries : ¬ ∀ r : CoreRequest, r.Carries := by
  intro claim
  have fits := CoreRequest.fits_of_carries_get (claim loadDoubleword) rfl
  exact absurd fits.1 (by decide)

end MuntjacTileLink

end Cocoapuffs

import Cocoapuffs.Ahb
import Mathlib.Data.Nat.ModEq

/-!
# The AHB block RAM

The entity `ahb_bram`: 32-bit words behind an AHB data bus of one, two or four
words.  Address phases are captured and their data phases carried out one edge
later, while the next address phase may be on the bus.  One instant is one
rising edge of `clk`.
-/

namespace Cocoapuffs

namespace AhbBram

open Ahb (AddressPhase)

/-- The generics of `ahb_bram` and the `AHBDW` of the bus.  The bus selects the
memory for a bank of `2 ^ bankBits` bytes, at whose start the memory lies. -/
structure Generics where
  /-- `WORDS`. -/
  words : Nat
  memsize : Nat
  regBitCount : Nat
  bankBits : Nat
  bank : Nat
  wide : words = 1 ∨ words = 2 ∨ words = 4
  positive : 0 < memsize
  whole : 4 * words ∣ memsize
  fits : memsize ≤ 2 ^ regBitCount
  regBits : regBitCount ≤ 32
  holds : memsize ≤ 2 ^ bankBits

namespace Generics

variable (g : Generics)

/-- `BYTES`. -/
def bytes : Nat := 4 * g.words

/-- `AHBDW`. -/
def ahbdw : Nat := 32 * g.words

/-- `OFFW`; the function `clog2` counts halvings. -/
def offw : Nat := Nat.log2 g.bytes

/-- `mem_words`. -/
def memWords : Nat := g.memsize / 4

/-- The first address of the bank. -/
def base : Nat := g.bank * 2 ^ g.bankBits

theorem memsize_eq : g.memsize = 4 * g.memWords := by
  have whole := g.whole
  unfold memWords
  have four : 4 ∣ g.memsize := Dvd.dvd.trans ⟨g.words, rfl⟩ whole
  omega

instance : NeZero g.memWords :=
  ⟨fun none => by
    have eq := g.memsize_eq
    have pos := g.positive
    rw [none] at eq
    omega⟩

end Generics

/-- `mem_t`. -/
abbrev Mem (g : Generics) := Fin g.memWords → BitVec 32

/-- `ahb_slv_in_type`, as far as it is read; `hsel` is `hsel(hindex)`. -/
structure SlvIn (g : Generics) where
  hsel : Bool
  haddr : BitVec 32
  hwrite : Bool
  htrans : BitVec 2
  hsize : BitVec 3
  hwdata : BitVec g.ahbdw
  hready : Bool

structure State (g : Generics) where
  mem : Mem g
  selQ : Bool
  writeQ : Bool
  indexQ : Nat
  hsizeQ : BitVec 3
  offsetQ : Nat

variable {g : Generics}

/-- The assignment to one byte of a word. -/
def Mem.writeByte (mem : Mem g) (wordk : Fin g.memWords) (bytep : Nat) (byte : BitVec 8) : Mem g :=
  Function.update mem wordk
    (mergeLanes (1 <<< bytep) (mem wordk) (byte ++ byte ++ byte ++ byte))

/-- The first word of the beat that the captured word belongs to. -/
def State.base (s : State g) : Nat := s.indexQ / g.words * g.words

/-- The process `read_comb`. -/
def State.hrdata (s : State g) : BitVec g.ahbdw :=
  (List.range g.words).foldl
    (fun hrdata k =>
      hrdata ||| (s.mem (Fin.ofNat g.memWords (s.base + k))).setWidth g.ahbdw <<< (32 * k)) 0

/-- The write of the data phase. -/
def State.write (s : State g) (hwdata : BitVec g.ahbdw) : Mem g :=
  let size := 2 ^ s.hsizeQ.toNat
  let byteoff := s.offsetQ
  (List.range g.bytes).foldl
    (fun mem b =>
      if byteoff ≤ b ∧ b < byteoff + size then
        mem.writeByte (Fin.ofNat g.memWords (s.base + b / 4)) (b % 4) (hwdata.extractLsb' (8 * b) 8)
      else mem) s.mem

/-- The word index that is captured. -/
def Generics.index (g : Generics) (haddr : BitVec 32) : Nat :=
  (haddr.extractLsb' 2 (g.regBitCount - 2)).toNat % g.memWords

def SlvIn.starts (i : SlvIn g) : Bool := i.hsel && i.htrans.getLsbD 1

/-- The clocked process on a rising edge. -/
def step (rstn : Bool) (i : SlvIn g) (s : State g) : State g :=
  if rstn then
    let v := { s with mem := if s.selQ && s.writeQ then s.write i.hwdata else s.mem }
    if i.hready && i.starts then
      { v with
        indexQ := g.index i.haddr
        writeQ := i.hwrite
        hsizeQ := i.hsize
        offsetQ := (i.haddr.extractLsb' 0 g.offw).toNat
        selQ := true }
    else { v with selQ := false, writeQ := false }
  else { s with selQ := false, writeQ := false, indexQ := 0 }

/-! ### Beats -/

namespace Generics

variable (g : Generics)

theorem bytes_pos : 0 < g.bytes := by
  rcases g.wide with words | words | words <;> simp [bytes, words]

/-- The word number of a word address, as it is captured. -/
def wordNumber (word : Nat) : Nat := word % 2 ^ (g.regBitCount - 2) % g.memWords

theorem index_eq (haddr : BitVec 32) : g.index haddr = g.wordNumber (haddr.toNat / 4) := by
  rw [index, wordNumber, BitVec.extractLsb'_toNat, Nat.shiftRight_eq_div_pow]

theorem offset_eq (haddr : BitVec 32) :
    (haddr.extractLsb' 0 g.offw).toNat = haddr.toNat % g.bytes := by
  have power : 2 ^ g.offw = g.bytes := by
    rcases g.wide with words | words | words <;> simp only [offw, bytes, words] <;> decide
  rw [BitVec.extractLsb'_toNat, Nat.shiftRight_zero, power]

theorem words_eq_pow : ∃ j, g.words = 2 ^ j ∧ j + 2 ≤ g.regBitCount ∧ j + 2 ≤ g.bankBits := by
  obtain ⟨j, words⟩ : ∃ j, g.words = 2 ^ j := by
    rcases g.wide with words | words | words
    · exact ⟨0, words⟩
    · exact ⟨1, words⟩
    · exact ⟨2, words⟩
  have beat : 2 ^ (j + 2) ≤ g.memsize := by
    have least := Nat.le_of_dvd g.positive g.whole
    rw [words] at least
    rwa [Nat.pow_add, Nat.mul_comm]
  exact ⟨j, words, (Nat.pow_le_pow_iff_right (by decide)).mp (beat.trans g.fits),
    (Nat.pow_le_pow_iff_right (by decide)).mp (beat.trans g.holds)⟩

theorem words_dvd_memWords : g.words ∣ g.memWords := by
  have whole := g.whole
  rw [g.memsize_eq] at whole
  exact Nat.dvd_of_mul_dvd_mul_left (by decide) whole

theorem words_dvd_index : g.words ∣ 2 ^ (g.regBitCount - 2) := by
  obtain ⟨j, words, few, -⟩ := g.words_eq_pow
  rw [words]
  exact Nat.pow_dvd_pow 2 (by omega)

theorem bytes_eq_pow : ∃ j, g.bytes = 2 ^ j ∧ j ≤ g.bankBits := by
  obtain ⟨j, words, -, few⟩ := g.words_eq_pow
  exact ⟨j + 2, by rw [bytes, words, Nat.pow_add, Nat.mul_comm], few⟩

theorem bytes_dvd_base : g.bytes ∣ g.base := by
  obtain ⟨j, power, few⟩ := g.bytes_eq_pow
  rw [power]
  exact (Nat.pow_dvd_pow 2 few).trans ⟨g.bank, Nat.mul_comm _ _⟩

theorem mul_add_mod {q k a b : Nat} (inside : k < a) :
    (q * a + k) % (a * b) = q % b * a + k := by
  rw [Nat.mod_mul, Nat.add_comm (q * a), Nat.add_mul_mod_self_right, Nat.mod_eq_of_lt inside,
    Nat.add_mul_div_right _ _ (Nat.zero_lt_of_lt inside), Nat.div_eq_of_lt inside, Nat.zero_add,
    Nat.add_comm, Nat.mul_comm]

theorem wordNumber_beat (beat : Nat) : ∃ group, ∀ k < g.words,
    g.wordNumber (beat * g.words + k) = group * g.words + k ∧
      group * g.words + k < g.memWords := by
  obtain ⟨rows, memWords⟩ := g.words_dvd_memWords
  obtain ⟨wraps, index⟩ := g.words_dvd_index
  refine ⟨beat % wraps % rows, fun k inside => ?_⟩
  have number : g.wordNumber (beat * g.words + k) = beat % wraps % rows * g.words + k := by
    rw [wordNumber, index, mul_add_mod inside, memWords, mul_add_mod inside]
  have positive : 0 < g.memWords := Nat.pos_of_ne_zero (NeZero.ne _)
  exact ⟨number, number ▸ Nat.mod_lt _ positive⟩

/-- Is the address in the memory? -/
def Holds (address : Nat) : Prop := g.base ≤ address ∧ address < g.base + g.memsize

theorem base_mod_le : g.base % 2 ^ g.regBitCount + g.memsize ≤ 2 ^ g.regBitCount := by
  rcases Nat.le_total g.regBitCount g.bankBits with le | le
  · have dvd : 2 ^ g.regBitCount ∣ g.base :=
      (Nat.pow_dvd_pow 2 le).trans ⟨g.bank, Nat.mul_comm _ _⟩
    rw [Nat.mod_eq_zero_of_dvd dvd, Nat.zero_add]
    exact g.fits
  · obtain ⟨banks, power⟩ := Nat.pow_dvd_pow 2 le
    have positive : 0 < banks :=
      Nat.pos_of_ne_zero fun none => by simp [none] at power
    have mod : g.base % 2 ^ g.regBitCount = 2 ^ g.bankBits * (g.bank % banks) := by
      rw [base, power, Nat.mul_comm g.bank, Nat.mul_mod_mul_left]
    have last : g.bank % banks + 1 ≤ banks := Nat.mod_lt _ positive
    calc g.base % 2 ^ g.regBitCount + g.memsize
        ≤ 2 ^ g.bankBits * (g.bank % banks) + 2 ^ g.bankBits := by
          rw [mod]
          exact Nat.add_le_add_left g.holds _
      _ = 2 ^ g.bankBits * (g.bank % banks + 1) := by rw [Nat.mul_add, Nat.mul_one]
      _ ≤ 2 ^ g.bankBits * banks := Nat.mul_le_mul_left _ last
      _ = 2 ^ g.regBitCount := power.symm

theorem wordNumber_injective {first second : Nat} (holds : g.Holds (4 * first))
    (holds' : g.Holds (4 * second)) (same : g.wordNumber first = g.wordNumber second) :
    first = second := by
  obtain ⟨j, -, few, -⟩ := g.words_eq_pow
  obtain ⟨quarter, base⟩ : 4 ∣ g.base := Dvd.dvd.trans ⟨g.words, rfl⟩ g.bytes_dvd_base
  have power : 2 ^ g.regBitCount = 4 * 2 ^ (g.regBitCount - 2) := by
    rw [show (4 : Nat) = 2 ^ 2 from rfl, ← Nat.pow_add]
    congr 1
    omega
  have noWrap := g.base_mod_le
  have size := g.memsize_eq
  rw [power, base, Nat.mul_mod_mul_left] at noWrap
  have number : ∀ word, g.Holds (4 * word) →
      word % 2 ^ (g.regBitCount - 2) = quarter % 2 ^ (g.regBitCount - 2) + (word - quarter) := by
    rintro word ⟨from_, until_⟩
    rw [base] at from_ until_
    have split : word = quarter + (word - quarter) := by omega
    conv_lhs => rw [split, Nat.add_mod]
    have small : word - quarter < 2 ^ (g.regBitCount - 2) := by omega
    rw [Nat.mod_eq_of_lt small, Nat.mod_eq_of_lt (by omega)]
  unfold wordNumber at same
  rw [number first holds, number second holds'] at same
  have close : first - quarter ≡ second - quarter [MOD g.memWords] :=
    Nat.ModEq.add_left_cancel' _ same
  obtain ⟨from_, until_⟩ := holds
  obtain ⟨from_', until_'⟩ := holds'
  have := Nat.ModEq.eq_of_lt_of_lt close (by omega) (by omega)
  omega

/-- Is the beat in the memory? -/
def HoldsBeat (beat : Nat) : Prop := g.Holds (beat * g.bytes)

theorem holdsBeat_div {address : Nat} (holds : g.Holds address) :
    g.HoldsBeat (address / g.bytes) := by
  obtain ⟨beats, base⟩ := g.bytes_dvd_base
  have pos := g.bytes_pos
  unfold HoldsBeat Holds at *
  rw [base] at holds ⊢
  refine ⟨?_, (Nat.div_mul_le_self _ _).trans_lt holds.2⟩
  have below : beats ≤ address / g.bytes :=
    (Nat.le_div_iff_mul_le pos).mpr (by rw [Nat.mul_comm]; exact holds.1)
  rw [Nat.mul_comm]
  exact Nat.mul_le_mul_right _ below

theorem holds_word {beat k : Nat} (holds : g.HoldsBeat beat) (inside : k < g.words) :
    g.Holds (4 * (beat * g.words + k)) := by
  obtain ⟨beats, base⟩ := g.bytes_dvd_base
  obtain ⟨size, whole⟩ : g.bytes ∣ g.memsize := g.whole
  have spread : 4 * (beat * g.words + k) = beat * g.bytes + 4 * k := by
    rw [bytes, Nat.mul_add, Nat.mul_left_comm]
  have less : 4 * k < g.bytes := Nat.mul_lt_mul_of_pos_left inside (by decide)
  unfold HoldsBeat Holds at *
  rw [spread]
  refine ⟨by omega, ?_⟩
  have last : beat + 1 ≤ beats + size := by
    have below := holds.2
    rw [base, whole, ← Nat.mul_add, Nat.mul_comm] at below
    exact Nat.lt_of_mul_lt_mul_left below
  calc beat * g.bytes + 4 * k < beat * g.bytes + g.bytes := Nat.add_lt_add_left less _
    _ = g.bytes * (beat + 1) := by rw [Nat.mul_add, Nat.mul_one, Nat.mul_comm]
    _ ≤ g.bytes * (beats + size) := Nat.mul_le_mul_left _ last
    _ = g.base + g.memsize := by rw [Nat.mul_add, ← base, ← whole]

/-- Where the word of a byte of a beat is kept. -/
def place (beat b : Nat) : Fin g.memWords :=
  Fin.ofNat g.memWords (g.wordNumber (beat * g.words + b / 4))

theorem div_lt_words {b : Nat} (inside : b < g.bytes) : b / 4 < g.words :=
  Nat.div_lt_of_lt_mul inside

theorem place_injective {beat beat' b b' : Nat} (holds : g.HoldsBeat beat)
    (holds' : g.HoldsBeat beat') (inside : b < g.bytes) (inside' : b' < g.bytes)
    (word : g.place beat b = g.place beat' b') (lane : b % 4 = b' % 4) :
    beat = beat' ∧ b = b' := by
  have small := g.div_lt_words inside
  have small' := g.div_lt_words inside'
  have number : ∀ word, g.wordNumber word < g.memWords := fun word =>
    Nat.mod_lt _ (Nat.pos_of_ne_zero (NeZero.ne _))
  have same : beat * g.words + b / 4 = beat' * g.words + b' / 4 := by
    refine g.wordNumber_injective (g.holds_word holds small) (g.holds_word holds' small') ?_
    have values := congrArg Fin.val word
    simpa only [place, Fin.val_ofNat, Nat.mod_eq_of_lt (number _)] using values
  have beats := congrArg (· / g.words) same
  have words := congrArg (· % g.words) same
  have pos : 0 < g.words := Nat.zero_lt_of_lt small
  simp only [Nat.mul_comm _ g.words, Nat.mul_add_div pos, Nat.mul_add_mod,
    Nat.div_eq_of_lt small, Nat.div_eq_of_lt small', Nat.mod_eq_of_lt small,
    Nat.mod_eq_of_lt small', Nat.add_zero] at beats words
  exact ⟨beats, by omega⟩

end Generics

/-- The bytes of the beats of the memory. -/
def Mem.beats (mem : Mem g) : Nat → Fin g.bytes → BitVec 8 := fun beat b =>
  byteLane (mem (g.place beat b)) ⟨b % 4, Nat.mod_lt _ (by decide)⟩

/-- A byte of the data bus. -/
def beatByte (data : BitVec g.ahbdw) (b : Nat) : BitVec 8 := data.extractLsb' (8 * b) 8

theorem byteLane_four (byte : BitVec 8) (lane : Fin 4) :
    byteLane (byte ++ byte ++ byte ++ byte) lane = byte := by
  apply BitVec.eq_of_getLsbD_eq
  intro i bound
  simp only [byteLane, BitVec.getLsbD_extractLsb', BitVec.getLsbD_append, bound, decide_true,
    Bool.true_and]
  have small := lane.isLt
  split
  · exact congrArg byte.getLsbD (by omega)
  · split
    · exact congrArg byte.getLsbD (by omega)
    · split
      · exact congrArg byte.getLsbD (by omega)
      · exact congrArg byte.getLsbD (by omega)

theorem byteLane_writeByte (mem : Mem g) (wordk word : Fin g.memWords) {bytep : Nat}
    (byte : BitVec 8) (lane : Fin 4) (small : bytep < 4) :
    byteLane (mem.writeByte wordk bytep byte word) lane =
      if wordk = word ∧ bytep = lane then byte else byteLane (mem word) lane := by
  have table : ∀ (bytep lane : Fin 4),
      (1#4 <<< bytep.val).getLsbD lane = decide (bytep.val = lane.val) := by
    decide
  have selects := table ⟨bytep, small⟩ lane
  by_cases same : word = wordk
  · subst same
    rw [Mem.writeByte, Function.update_self, byteLane_mergeLanes, byteLane_four]
    change (if (1#4 <<< bytep).getLsbD lane = true then _ else _) = _
    simp only [selects, decide_eq_true_eq, true_and]
  · rw [Mem.writeByte, Function.update_of_ne same, if_neg fun now => same now.1.symm]

/-- What the process `read_comb` puts on the bus, word by word. -/
theorem getLsbD_hrdata (word : Nat → BitVec 32) {width i : Nat} (bound : i < width) (n : Nat) :
    ((List.range n).foldl (fun hrdata k => hrdata ||| (word k).setWidth width <<< (32 * k))
        (0 : BitVec width)).getLsbD i =
      (decide (i < 32 * n) && (word (i / 32)).getLsbD (i % 32)) := by
  induction n with
  | zero => simp
  | succ n ih =>
      rw [List.range_succ, List.foldl_append, List.foldl_cons, List.foldl_nil,
        BitVec.getLsbD_or, ih, BitVec.getLsbD_shiftLeft, BitVec.getLsbD_setWidth]
      by_cases below : i < 32 * n
      · simp [below, show i < 32 * (n + 1) by omega]
      · by_cases here : i < 32 * (n + 1)
        · have quotient : i / 32 = n := by omega
          have rest : i - 32 * n = i % 32 := by omega
          simp [below, here, bound, quotient, rest, show i % 32 < width by omega]
        · have above : (word n).getLsbD (i - 32 * n) = false :=
            BitVec.getLsbD_of_ge _ _ (by omega)
          simp [below, here, above]

/-! ### Transfers -/

/-- The registers hold an address phase. -/
structure State.Captured (s : State g) (a : AddressPhase) : Prop where
  write : s.writeQ = a.hwrite
  index : s.indexQ = g.index a.haddr
  hsize : s.hsizeQ = a.hsize
  offset : s.offsetQ = a.haddr.toNat % g.bytes

/-- The beat of an address. -/
def Generics.beatOf (g : Generics) (haddr : BitVec 32) : Nat := haddr.toNat / g.bytes

theorem State.Captured.place {s : State g} {a : AddressPhase} (captured : s.Captured a) {b : Nat}
    (inside : b < g.bytes) :
    Fin.ofNat g.memWords (s.base + b / 4) = g.place (g.beatOf a.haddr) b := by
  obtain ⟨group, words⟩ := g.wordNumber_beat (g.beatOf a.haddr)
  have small := g.div_lt_words inside
  have pos : 0 < g.words := Nat.zero_lt_of_lt small
  have word : a.haddr.toNat / 4 = g.beatOf a.haddr * g.words + a.haddr.toNat / 4 % g.words := by
    rw [Generics.beatOf, Generics.bytes, ← Nat.div_div_eq_div_mul]
    exact (Nat.div_add_mod' _ _).symm
  have index : s.indexQ = group * g.words + a.haddr.toNat / 4 % g.words := by
    rw [captured.index, g.index_eq, word]
    have first := (words _ (Nat.mod_lt (a.haddr.toNat / 4) pos)).1
    simpa using first
  have base : s.base = group * g.words := by
    rw [State.base, index, Nat.mul_comm group, Nat.mul_add_div pos,
      Nat.div_eq_of_lt (Nat.mod_lt _ pos), Nat.add_zero, Nat.mul_comm]
  rw [base, Generics.place, (words _ small).1]

theorem State.Captured.hrdata {s : State g} {a : AddressPhase} (captured : s.Captured a)
    (b : Fin g.bytes) : beatByte s.hrdata b = s.mem.beats (g.beatOf a.haddr) b := by
  apply BitVec.eq_of_getLsbD_eq
  intro i bound
  have inside := b.isLt
  have total : g.ahbdw = 8 * g.bytes := by
    unfold Generics.ahbdw Generics.bytes
    omega
  have range : 8 * b.val + i < g.ahbdw := by omega
  have covered : 8 * b.val + i < 32 * g.words := range
  have word : (8 * b.val + i) / 32 = b.val / 4 := by omega
  have bit : (8 * b.val + i) % 32 = 8 * (b.val % 4) + i := by omega
  rw [beatByte, BitVec.getLsbD_extractLsb', State.hrdata, getLsbD_hrdata _ range, word, bit,
    captured.place b.isLt]
  simp [Mem.beats, byteLane, bound, covered]

/-- The bytes that a transfer moves: those of its beat from `haddr` on, each in
its own lane of the data bus. -/
def Generics.access (g : Generics) (a : AddressPhase) (hwdata : BitVec g.ahbdw) :
    LaneMemory.Access Nat (Fin g.bytes) (BitVec 8) where
  index := g.beatOf a.haddr
  write := a.hwrite
  sel b := decide (a.haddr.toNat ≤ g.beatOf a.haddr * g.bytes + b ∧
    g.beatOf a.haddr * g.bytes + b < a.haddr.toNat + 2 ^ a.hsize.toNat)
  data b := beatByte hwdata b

theorem sel_iff (a : AddressPhase) (b : Nat) :
    (a.haddr.toNat ≤ g.beatOf a.haddr * g.bytes + b ∧
        g.beatOf a.haddr * g.bytes + b < a.haddr.toNat + 2 ^ a.hsize.toNat) ↔
      a.haddr.toNat % g.bytes ≤ b ∧ b < a.haddr.toNat % g.bytes + 2 ^ a.hsize.toNat := by
  have split := Nat.div_add_mod' a.haddr.toNat g.bytes
  unfold Generics.beatOf
  omega

/-- The loop of the write reaches the bytes of the transfer. -/
theorem State.Captured.write_beats {s : State g} {a : AddressPhase} (captured : s.Captured a)
    (write : a.hwrite = true) (holds : g.Holds a.haddr.toNat) (hwdata : BitVec g.ahbdw) {beat : Nat}
    (holdsBeat : g.HoldsBeat beat) (b : Fin g.bytes) :
    (s.write hwdata).beats beat b = (g.access a hwdata).apply s.mem.beats beat b := by
  have loop : ∀ n ≤ g.bytes,
      Mem.beats ((List.range n).foldl
        (fun mem b =>
          if s.offsetQ ≤ b ∧ b < s.offsetQ + 2 ^ s.hsizeQ.toNat then
            mem.writeByte (Fin.ofNat g.memWords (s.base + b / 4)) (b % 4)
              (hwdata.extractLsb' (8 * b) 8)
          else mem) s.mem) beat b =
        if beat = g.beatOf a.haddr ∧ b < n ∧ s.offsetQ ≤ b ∧ b < s.offsetQ + 2 ^ s.hsizeQ.toNat
        then beatByte hwdata b else s.mem.beats beat b := by
    intro n
    induction n with
    | zero => simp
    | succ n ih =>
        intro le
        rw [List.range_succ, List.foldl_append, List.foldl_cons, List.foldl_nil]
        by_cases moved : s.offsetQ ≤ n ∧ n < s.offsetQ + 2 ^ s.hsizeQ.toNat
        · rw [if_pos moved, Mem.beats, byteLane_writeByte _ _ _ _ _ (Nat.mod_lt _ (by decide)),
            captured.place (by omega)]
          by_cases here : beat = g.beatOf a.haddr ∧ b.val = n
          · obtain ⟨rfl, rfl⟩ := here
            rw [if_pos ⟨rfl, rfl⟩, if_pos ⟨rfl, Nat.lt_succ_self _, moved⟩]
            rfl
          · rw [if_neg]
            · rw [← Mem.beats, ih (by omega)]
              apply if_congr _ rfl rfl
              constructor
              · exact fun ⟨same, less, rest⟩ => ⟨same, by omega, rest⟩
              · rintro ⟨same, less, rest⟩
                exact ⟨same, by have := fun eq => here ⟨same, eq⟩; omega, rest⟩
            · rintro ⟨word, lane⟩
              obtain ⟨same, eq⟩ := g.place_injective (g.holdsBeat_div holds) holdsBeat
                (by omega) b.isLt word lane
              exact here ⟨same.symm, eq.symm⟩
        · rw [if_neg moved, ih (by omega)]
          apply if_congr _ rfl rfl
          constructor
          · exact fun ⟨same, less, rest⟩ => ⟨same, by omega, rest⟩
          · rintro ⟨same, less, rest⟩
            refine ⟨same, ?_, rest⟩
            rcases Nat.lt_succ_iff_lt_or_eq.mp less with old | eq
            · exact old
            · exact absurd (eq ▸ rest) moved
  rw [State.write, loop g.bytes le_rfl, captured.offset, captured.hsize]
  simp only [LaneMemory.Access.apply, LaneMemory.Access.touches, Generics.access, write,
    sel_iff, Bool.true_and, Bool.and_eq_true, decide_eq_true_eq, b.isLt, true_and]
  apply if_congr _ rfl rfl
  rw [and_comm, eq_comm]

/-! ### Runs -/

/-- Is an address phase for the memory on the bus? -/
def SlvIn.addresses (i : SlvIn g) : Bool :=
  i.hsel && (i.htrans == Ahb.htransNonseq || i.htrans == Ahb.htransSeq)

def SlvIn.addressPhase (i : SlvIn g) : AddressPhase := ⟨i.haddr, i.hwrite, i.hsize⟩

theorem SlvIn.starts_eq (i : SlvIn g) : i.starts = i.addresses := by
  have table : ∀ htrans : BitVec 2,
      htrans.getLsbD 1 = (htrans == Ahb.htransNonseq || htrans == Ahb.htransSeq) := by
    decide
  rw [starts, table, addresses]

theorem step_mem (i : SlvIn g) (s : State g) :
    (step true i s).mem = if s.selQ && s.writeQ then s.write i.hwdata else s.mem := by
  unfold step
  cases i.hready && i.starts <;> rfl

theorem step_selQ (i : SlvIn g) (s : State g) :
    (step true i s).selQ = (i.hready && i.addresses) := by
  rw [← i.starts_eq]
  unfold step
  cases i.hready && i.starts <;> rfl

theorem step_captured {i : SlvIn g} {s : State g} (takes : (i.hready && i.addresses) = true) :
    (step true i s).Captured i.addressPhase := by
  rw [← i.starts_eq] at takes
  simp only [step, takes, if_true]
  exact ⟨rfl, rfl, rfl, g.offset_eq i.haddr⟩

/-- `ahb_slv_out_type`, without its constant fields. -/
structure SlvOut (g : Generics) where
  hready : Bool
  hrdata : BitVec g.ahbdw

def State.ahbso (s : State g) : SlvOut g := ⟨true, s.hrdata⟩

/-- The memory comes out of reset with any contents. -/
def State.reset (s : State g) : State g :=
  { s with selQ := false, writeQ := false, indexQ := 0 }

structure Inputs (g : Generics) where
  rstn : Bool
  ahbsi : SlvIn g

/-- A transfer at the end of its data phase. -/
structure Completion (g : Generics) where
  addr : AddressPhase
  hwdata : BitVec g.ahbdw
  hrdata : BitVec g.ahbdw

def Completion.access (c : Completion g) : LaneMemory.Access Nat (Fin g.bytes) (BitVec 8) :=
  g.access c.addr c.hwdata

section Runs

variable (inputs : Nat → Inputs g) (start : State g)

def states : Nat → State g :=
  Trace.run (fun i s => step i.rstn i.ahbsi s) start.reset inputs

def bus (n : Nat) : SlvIn g := (inputs n).ahbsi

/-- The transfers that the bus has accepted, in its order. -/
def accepted : Nat → List AddressPhase :=
  Trace.history fun n =>
    if (bus inputs n).hready && (bus inputs n).addresses then some (bus inputs n).addressPhase
    else none

/-- The address phase whose data phase is on the bus, if the memory owns it. -/
def dataPhase : Nat → Option AddressPhase
  | 0 => none
  | n + 1 =>
      if (bus inputs n).hready then
        if (bus inputs n).addresses then some (bus inputs n).addressPhase else none
      else dataPhase n

def completed : Nat → List (Completion g) :=
  Trace.history fun n =>
    if (bus inputs n).hready then
      (dataPhase inputs n).map fun a =>
        ⟨a, (bus inputs n).hwdata, (states inputs start n).ahbso.hrdata⟩
    else none

/-- At most as wide as the bus, at an address of the memory that the size
divides. -/
structure Generics.Legal (g : Generics) (a : AddressPhase) : Prop where
  fits : 2 ^ a.hsize.toNat ≤ g.bytes
  aligned : 2 ^ a.hsize.toNat ∣ a.haddr.toNat
  holds : g.Holds a.haddr.toNat

/-- The bus and its other slaves.  In a data phase of the memory, `HREADY` of the
bus is what the memory drives; elsewhere it is anything. -/
structure Bus : Prop where
  noReset : ∀ n, (inputs n).rstn = true
  ready : ∀ n, (dataPhase inputs n).isSome →
    (bus inputs n).hready = (states inputs start n).ahbso.hready
  legal : ∀ n, (bus inputs n).hready = true → (bus inputs n).addresses = true →
    g.Legal (bus inputs n).addressPhase

/-- The accepted transfers behave as a byte memory in bus order. -/
structure Linearizes : Prop where
  accepted_eq : ∀ n, accepted inputs n =
    (completed inputs start n).map Completion.addr ++ (dataPhase inputs n).toList
  /-- The bytes are those of the completed transfers, carried out one by one. -/
  beats_eq : ∀ n beat, g.HoldsBeat beat → ∀ b, (states inputs start n).mem.beats beat b =
    LaneMemory.replay start.mem.beats ((completed inputs start n).map Completion.access) beat b
  /-- A read returns the bytes last written. -/
  read : ∀ n before c after, completed inputs start n = before ++ c :: after →
    c.addr.hwrite = false → ∀ b : Fin g.bytes, beatByte c.hrdata b =
      (LaneMemory.lastWritten (g.beatOf c.addr.haddr) b (before.map Completion.access)).getD
        (start.mem.beats (g.beatOf c.addr.haddr) b)
  /-- The bytes that a transfer addresses have their lanes on the bus. -/
  addressed : ∀ n, ∀ c ∈ completed inputs start n, ∀ k < 2 ^ c.addr.hsize.toNat,
    (c.addr.haddr.toNat + k) / g.bytes = g.beatOf c.addr.haddr

/-- The registers hold the data phase, and the memory is that of the transfers
completed. -/
structure Kept (n : Nat) : Prop where
  sel : (states inputs start n).selQ = (dataPhase inputs n).isSome
  captured : ∀ a, dataPhase inputs n = some a → (states inputs start n).Captured a
  legal : ∀ a, dataPhase inputs n = some a → g.Legal a
  beats_eq : ∀ beat, g.HoldsBeat beat → ∀ b, (states inputs start n).mem.beats beat b =
    LaneMemory.replay start.mem.beats ((completed inputs start n).map Completion.access) beat b

variable {inputs start}

theorem states_succ (n : Nat) : states inputs start (n + 1) =
    step (inputs n).rstn (bus inputs n) (states inputs start n) :=
  rfl

theorem accepted_succ (n : Nat) : accepted inputs n =
    (completed inputs start n).map Completion.addr ++ (dataPhase inputs n).toList := by
  induction n with
  | zero => rfl
  | succ n ih =>
      rw [accepted, completed, Trace.history_succ, Trace.history_succ, ← accepted, ← completed, ih]
      cases ready : (bus inputs n).hready <;> cases starts : (bus inputs n).addresses <;>
        cases owned : dataPhase inputs n <;> simp [dataPhase, ready, starts, owned]

theorem Generics.Legal.addressed {a : AddressPhase} (legal : g.Legal a) {k : Nat}
    (moved : k < 2 ^ a.hsize.toNat) : (a.haddr.toNat + k) / g.bytes = g.beatOf a.haddr := by
  obtain ⟨j, bytes, -⟩ := g.bytes_eq_pow
  have fits := legal.fits
  rw [bytes] at fits
  obtain ⟨sizes, beat⟩ : 2 ^ a.hsize.toNat ∣ g.bytes :=
    bytes ▸ Nat.pow_dvd_pow 2 ((Nat.pow_le_pow_iff_right (by decide)).mp fits)
  obtain ⟨units, haddr⟩ := legal.aligned
  have pos : 0 < 2 ^ a.hsize.toNat := Nat.two_pow_pos _
  rw [Generics.beatOf, beat, haddr, ← Nat.div_div_eq_div_mul, ← Nat.div_div_eq_div_mul,
    Nat.mul_add_div pos, Nat.div_eq_of_lt moved, Nat.add_zero, Nat.mul_div_cancel_left _ pos]

variable (busRules : Bus inputs start)
include busRules

/-- Where the bus waits, it waits for another slave. -/
theorem dataPhase_of_wait {n : Nat} (wait : (bus inputs n).hready = false) :
    dataPhase inputs n = none := by
  rw [← Option.not_isSome_iff_eq_none]
  intro owned
  have ready := busRules.ready n owned
  rw [wait] at ready
  cases ready

theorem dataPhase_succ (n : Nat) : dataPhase inputs (n + 1) =
    if (bus inputs n).hready && (bus inputs n).addresses then some (bus inputs n).addressPhase
    else none := by
  cases ready : (bus inputs n).hready with
  | false => simp [dataPhase, ready, dataPhase_of_wait busRules ready]
  | true => simp [dataPhase, ready]

theorem completed_succ (n : Nat) : completed inputs start (n + 1) =
    completed inputs start n ++
      ((dataPhase inputs n).map fun a =>
        (⟨a, (bus inputs n).hwdata, (states inputs start n).ahbso.hrdata⟩ :
          Completion g)).toList := by
  rw [completed, Trace.history_succ, ← completed]
  cases ready : (bus inputs n).hready with
  | false => simp [dataPhase_of_wait busRules ready]
  | true => simp

theorem kept_states (n : Nat) : Kept inputs start n := by
  induction n with
  | zero =>
      constructor
      · rfl
      · rintro a ⟨⟩
      · rintro a ⟨⟩
      · intros
        rfl
  | succ n kept =>
      have edge : states inputs start (n + 1) =
          step true (bus inputs n) (states inputs start n) := by
        rw [states_succ, busRules.noReset n]
      refine ⟨?_, ?_, ?_, ?_⟩
      · rw [edge, dataPhase_succ busRules, step_selQ]
        cases (bus inputs n).hready && (bus inputs n).addresses <;> rfl
      · intro a owned
        rw [dataPhase_succ busRules, Option.ite_none_right_eq_some, Option.some.injEq] at owned
        obtain ⟨takes, rfl⟩ := owned
        rw [edge]
        exact step_captured takes
      · intro a owned
        rw [dataPhase_succ busRules, Option.ite_none_right_eq_some, Option.some.injEq,
          Bool.and_eq_true] at owned
        obtain ⟨⟨ready, starts⟩, rfl⟩ := owned
        exact busRules.legal n ready starts
      · intro beat holds b
        rw [edge, step_mem, completed_succ busRules, List.map_append, LaneMemory.replay_append]
        have same := kept.beats_eq
        cases owned : dataPhase inputs n with
        | none =>
            have idle : (states inputs start n).selQ = false := by rw [kept.sel, owned]; rfl
            simpa [idle, LaneMemory.replay] using same beat holds b
        | some a =>
            have captured := kept.captured a owned
            have busy : (states inputs start n).selQ = true := by rw [kept.sel, owned]; rfl
            rw [busy, captured.write, Bool.true_and]
            cases write : a.hwrite with
            | false =>
                rw [if_neg Bool.false_ne_true, same beat holds b]
                simp [LaneMemory.replay, LaneMemory.Access.apply, LaneMemory.Access.touches,
                  Completion.access, Generics.access, write]
            | true =>
                rw [if_pos rfl, captured.write_beats write (kept.legal a owned).holds _ holds b]
                simp only [Option.map_some, Option.toList_some, List.map_cons, List.map_nil,
                  LaneMemory.replay, Completion.access, LaneMemory.Access.apply, same beat holds b]

/-- The memory linearizes the pipelined bus. -/
theorem ahbBram_linearizes : Linearizes inputs start where
  accepted_eq := accepted_succ
  beats_eq n := (kept_states busRules n).beats_eq
  read n before c after split read b := by
    obtain ⟨m, -, seen, past⟩ := Trace.history_split split
    rw [Option.ite_none_right_eq_some] at seen
    obtain ⟨a, owned, rfl⟩ := Option.map_eq_some_iff.mp seen.2
    have kept := kept_states busRules m
    have holds := g.holdsBeat_div (kept.legal a owned).holds
    rw [← LaneMemory.replay_eq_lastWritten, ← past, ← completed]
    exact ((kept.captured a owned).hrdata b).trans (kept.beats_eq _ holds b)
  addressed n c member k moved := by
    obtain ⟨before, after, split⟩ := List.append_of_mem member
    obtain ⟨m, -, seen, -⟩ := Trace.history_split split
    rw [Option.ite_none_right_eq_some] at seen
    obtain ⟨a, owned, rfl⟩ := Option.map_eq_some_iff.mp seen.2
    exact ((kept_states busRules m).legal a owned).addressed moved

end Runs

/-- A memory of four beats of 64 bits at `0xC0000000`. -/
def smallRam : Generics where
  words := 2
  memsize := 32
  regBitCount := 5
  bankBits := 20
  bank := 0xC00
  wide := .inr (.inl rfl)
  positive := by decide
  whole := by decide
  fits := by decide
  regBits := by decide
  holds := by decide

/-- A halfword is written and its beat read back to back, and read again after
another slave has made the bus wait. -/
def writeThenRead (n : Nat) : Inputs smallRam where
  rstn := true
  ahbsi :=
    { hsel := n == 0 || n == 1 || n == 3 || n == 4
      haddr := if n = 0 then 0xC000000A else 0xC0000008
      hwrite := n == 0
      htrans := if n = 1 then Ahb.htransSeq else Ahb.htransNonseq
      hsize := if n = 0 then 1 else 3
      hwdata := 0xbeef0000
      hready := n != 3 }

theorem writeThenRead_bus (start : State smallRam) : Bus writeThenRead start where
  noReset n := rfl
  ready n owned := by
    by_cases waits : n = 3
    · have free : (dataPhase writeThenRead 3).isSome = false := by decide
      rw [waits, free] at owned
      cases owned
    · simp [bus, writeThenRead, State.ahbso, waits]
  legal n ready starts := by
    have early : n < 5 := by
      by_contra late
      have low : n ≠ 0 ∧ n ≠ 1 ∧ n ≠ 3 ∧ n ≠ 4 := by omega
      simp [bus, writeThenRead, SlvIn.addresses, low] at starts
    have bounds : ∀ n < 5, 2 ^ (bus writeThenRead n).hsize.toNat ≤ smallRam.bytes ∧
        2 ^ (bus writeThenRead n).hsize.toNat ∣ (bus writeThenRead n).haddr.toNat ∧
        smallRam.base ≤ (bus writeThenRead n).haddr.toNat ∧
        (bus writeThenRead n).haddr.toNat < smallRam.base + smallRam.memsize := by
      decide +kernel
    obtain ⟨fits, aligned, holds⟩ := bounds n early
    exact ⟨fits, aligned, holds⟩

def zeroRam : State smallRam := ⟨fun _ => 0, false, false, 0, 0, 0⟩

theorem ahbBram_linearizes_writeThenRead :
    (completed writeThenRead zeroRam 6).map Completion.hrdata = [0, 0xbeef0000, 0xbeef0000] ∧
      Linearizes writeThenRead zeroRam :=
  ⟨by decide +kernel, ahbBram_linearizes (writeThenRead_bus zeroRam)⟩

end AhbBram

end Cocoapuffs

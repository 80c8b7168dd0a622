import Cocoapuffs.AhbRecorder
import Cocoapuffs.HexText
import Mathlib.Data.List.Forall2

/-!
# The trace format

The text that `ahb_recorder` hands over, and the command `ahb_trace_decode` that
reads it.
-/

namespace Cocoapuffs

namespace AhbTrace

open AhbRecorder HexText

variable {k : Nat}

/-! ### The text of a dump -/

def hexchar (n : BitVec 4) : Byte :=
  if n.toNat < 10 then BitVec.ofNat 8 (0x30 + n.toNat)
  else BitVec.ofNat 8 (0x61 + n.toNat - 10)

/-- The character at a position of a record's line. -/
def byteAt (idx : Nat) (r : Record) : Byte :=
  if idx ≤ 7 then hexchar (r.extractLsb' (92 - idx * 4) 4)
  else if idx = 8 then 0x20#8
  else if idx = 9 then if r.getLsbD 96 then 0x57#8 else 0x52#8
  else if idx = 10 then 0x20#8
  else if idx ≤ 18 then hexchar (r.extractLsb' (60 - (idx - 11) * 4) 4)
  else if idx = 19 then 0x20#8
  else if idx ≤ 27 then hexchar (r.extractLsb' (28 - (idx - 20) * 4) 4)
  else if idx = 28 then 0x0D#8
  else 0x0A#8

def txValid (s : State k) : Bool := s.state = .sEmit

def txData (s : State k) : Byte := byteAt s.charIdx s.recReg

/-- The byte that is handed over at an edge. -/
def handed (s : State k) (i : Inputs) : Option Byte :=
  if txValid s && i.txReady then some (txData s) else none

/-- The line of a record. -/
def line (r : Record) : List Byte := (List.range (lastChar + 1)).map fun idx => byteAt idx r

/-! ### The decoder -/

/-- The carriage return that a line scanner drops. -/
def dropCR (line : List Byte) : List Byte :=
  if line.getLast? = some 0x0D#8 then line.dropLast else line

/-- The lines of the scanner; those of a dump are far below its limit. -/
def scan (text : List Byte) : List (List Byte) := (lines text).map dropCR

/-- The groups of `lineRE`. -/
structure Submatches where
  m1 : List Byte
  m2 : Byte
  m3 : List Byte
  m4 : List Byte

/-- The class `[WR]`. -/
def isDirection (c : Byte) : Bool := c == 0x57#8 || c == 0x52#8

/-- The class `\\s`. -/
def isSpace (c : Byte) : Bool :=
  c == 0x09#8 || c == 0x0A#8 || c == 0x0C#8 || c == 0x0D#8 || c == 0x20#8

def lineRE : StateT (List Byte) Option Submatches := do
  let m1 ← chars isHexDigit 8
  let _ ← char (· == 0x20#8)
  let m2 ← char isDirection
  let _ ← char (· == 0x20#8)
  let m3 ← chars isHexDigit 8
  let _ ← char (· == 0x20#8)
  let m4 ← chars isHexDigit 8
  let trailing ← get
  if trailing.all isSpace then pure ⟨m1, m2, m3, m4⟩ else failure

/-- A named span of the address map. -/
structure Region where
  base : Nat
  size : Nat
  name : String
deriving DecidableEq

def regions : List Region :=
  [⟨0x00000000, 0x40000000, "DDR3"⟩, ⟨0xC0000000, 0x00100000, "BOOTBRAM"⟩,
    ⟨0xE0000000, 0x00010000, "CLINT"⟩, ⟨0x80000300, 0x00000100, "GPTIMER"⟩,
    ⟨0xFF900000, 0x00001000, "APBUART"⟩, ⟨0x40000040, 0x00000004, "PERCONTROL"⟩]

/-- The region and the offset of an address. -/
def annotate (addr : Nat) : Option (String × Nat) :=
  (regions.find? fun r => r.base ≤ addr && addr < r.base + r.size).map
    fun r => (r.name, addr - r.base)

/-- What is written for a line: the line itself, or the fields of an access. -/
inductive Output where
  | through (line : List Byte)
  | access (cyc : Nat) (op : String) (m3 : List Byte) (region : Option (String × Nat))
      (extra : List Byte)
deriving DecidableEq

def Submatches.output (m : Submatches) : Output :=
  .access (number m.m1) (if m.m2 = 0x57#8 then "WR" else "RD") m.m3 (annotate (number m.m3))
    (if m.m2 = 0x57#8 then m.m4 else [])

def decode (text : List Byte) : List Output :=
  (scan text).map fun line =>
    match lineRE.run' line with
    | none => .through line
    | some m => m.output

/-! ### The round trip -/

def hwrite (r : Record) : Bool := r.getLsbD 96

def cycle (r : Record) : BitVec 32 := r.extractLsb' 64 32

def haddr (r : Record) : BitVec 32 := r.extractLsb' 32 32

def hwdata (r : Record) : BitVec 32 := r.extractLsb' 0 32

/-- The line matches, and its groups are the fields of the record. -/
def Recovers (line : List Byte) (r : Record) : Prop :=
  ∃ m, lineRE.run' line = some m ∧ number m.m1 = (cycle r).toNat ∧
    m.m2 = (if hwrite r then 0x57#8 else 0x52#8) ∧ number m.m3 = (haddr r).toNat ∧
    number m.m4 = (hwdata r).toNat

section Runs

variable (start : State k) (inputs : Nat → Inputs)

/-- The bytes handed over before an instant. -/
def bytes (n : Nat) : List Byte :=
  Trace.history (fun j => handed (Trace.run step start inputs j) (inputs j)) n

/-- The dump is still streaming out, or is over just now. -/
def Streaming (n : Nat) : Prop := ∀ j, j < n → (Trace.run step start inputs j).state ≠ .sRec

/-- The dump is over. -/
def Over (n : Nat) : Prop :=
  Streaming start inputs n ∧ (Trace.run step start inputs n).state = .sRec

/-- A dump hands over the lines of the records, which are decoded to them. -/
structure HandsOver (records : List Record) : Prop where
  /-- The bytes are handed over in their order, -/
  front : ∀ n, Streaming start inputs n → bytes start inputs n <+: records.flatMap line
  /-- all of them when the dump is over, -/
  whole : ∀ n, Over start inputs n → bytes start inputs n = records.flatMap line
  /-- which it is when the consumer has been ready often enough, -/
  ended : Trace.Recurs (fun m => (inputs m).txReady) → ∃ n, Over start inputs n
  /-- and every line is decoded to its record. -/
  decodes : ∀ n, Over start inputs n →
    List.Forall₂ Recovers (scan (bytes start inputs n)) records

end Runs

theorem digitValue_hexchar (n : BitVec 4) : digitValue (hexchar n) = some n := by
  revert n
  decide

theorem length_line (r : Record) : (line r).length = 30 := by
  rw [line, List.length_map, List.length_range, lastChar]

/-- The characters of a line before its end. -/
def text (r : Record) : List Byte :=
  numeral hexchar 8 (cycle r) ++ 0x20#8 :: (if hwrite r then 0x57#8 else 0x52#8) :: 0x20#8 ::
    (numeral hexchar 8 (haddr r) ++ 0x20#8 :: numeral hexchar 8 (hwdata r))

theorem slice_slice (r : Record) {start inner : Nat} (inside : inner + 4 ≤ 32) :
    (r.extractLsb' start 32).extractLsb' inner 4 = r.extractLsb' (start + inner) 4 := by
  apply BitVec.eq_of_getLsbD_eq
  intro i small
  have within : inner + i < 32 := by omega
  simp [small, within, Nat.add_assoc]

theorem line_eq (r : Record) : line r = (text r ++ [0x0D#8]) ++ [newline] := by
  simp only [text, numeral, cycle, haddr, hwdata, hwrite, slice_slice, Nat.reduceMul,
    Nat.reduceAdd, Nat.reduceLeDiff]
  rfl

theorem newline_not_mem_text (r : Record) : newline ∉ text r ++ [0x0D#8] := by
  have digits : ∀ word : BitVec 32, newline ∉ numeral hexchar 8 word :=
    newline_not_mem_numeral digitValue_hexchar 8
  have space : newline ≠ 0x20#8 := by decide
  have direction : newline ≠ if hwrite r then 0x57#8 else 0x52#8 := by
    split <;> decide
  have ret : newline ≠ 0x0D#8 := by decide
  simp [text, digits, space, direction, ret]

theorem lines_flatMap_line (records : List Record) :
    lines (records.flatMap line) = records.map fun r => text r ++ [0x0D#8] := by
  have ended : records.flatMap line =
      (records.map fun r => text r ++ [0x0D#8]).flatMap fun line => line ++ [newline] := by
    rw [List.flatMap_map]
    exact List.flatMap_congr fun r _ => line_eq r
  rw [ended]
  apply lines_flatMap
  simp only [List.mem_map, forall_exists_index, and_imp, forall_apply_eq_imp_iff₂]
  exact fun r _ => newline_not_mem_text r

theorem scan_flatMap_line (records : List Record) :
    scan (records.flatMap line) = records.map text := by
  rw [scan, lines_flatMap_line, List.map_map]
  apply List.map_congr_left
  intro r _
  simp [dropCR]

theorem isHexDigit_numeral (word : BitVec 32) :
    ∀ c ∈ numeral hexchar 8 word, isHexDigit c = true := by
  intro c mem
  obtain ⟨digit, rfl⟩ := mem_numeral hexchar mem
  rw [isHexDigit, digitValue_hexchar, Option.isSome_some]

theorem group_run (word : BitVec 32) (rest : List Byte) :
    (chars isHexDigit 8).run (numeral hexchar 8 word ++ rest) =
      some (numeral hexchar 8 word, rest) := by
  have group := chars_run (isHexDigit_numeral word) rest
  rwa [length_numeral] at group

/-- The groups of a record's line. -/
def groups (r : Record) : Submatches :=
  ⟨numeral hexchar 8 (cycle r), if hwrite r then 0x57#8 else 0x52#8,
    numeral hexchar 8 (haddr r), numeral hexchar 8 (hwdata r)⟩

theorem lineRE_text (r : Record) : lineRE.run' (text r) = some (groups r) := by
  have direction : isDirection (if hwrite r then 0x57#8 else 0x52#8) = true := by
    split <;> decide
  have space : ∀ rest : List Byte,
      (char (· == 0x20#8)).run (0x20#8 :: rest) = some (0x20#8, rest) :=
    fun rest => char_run rfl rest
  have last := group_run (hwdata r) []
  rw [List.append_nil] at last
  have run : lineRE.run (text r) = some (groups r, []) := by
    simp only [lineRE, text, StateT.run_bind, group_run, space, char_run direction, last,
      Option.bind_eq_bind, Option.bind_some]
    rfl
  rw [StateT.run'_eq, run]
  rfl

theorem number_word (word : BitVec 32) : number (numeral hexchar 8 word) = word.toNat :=
  number_numeral digitValue_hexchar word le_rfl

theorem recovers_text (r : Record) : Recovers (text r) r :=
  ⟨groups r, lineRE_text r, number_word _, rfl, number_word _, number_word _⟩

/-- The lines of a dump are decoded to its records. -/
theorem scan_recovers (records : List Record) :
    List.Forall₂ Recovers (scan (records.flatMap line)) records := by
  rw [scan_flatMap_line, List.forall₂_map_left_iff, List.forall₂_same]
  exact fun r _ => recovers_text r

/-- The trace of a dump has an access for each of its records. -/
theorem decode_flatMap_line (records : List Record) :
    decode (records.flatMap line) = records.map fun r => (groups r).output := by
  rw [decode, scan_flatMap_line, List.map_map]
  apply List.map_congr_left
  intro r _
  rw [Function.comp_apply, lineRE_text]

theorem length_text (r : Record) : (text r).length = 28 := by
  simp [text]

/-! ### The stream of bytes -/

/-- The bytes that a dump has still to hand over. -/
def bytesLeft (s : State k) : List Byte :=
  match s.state with
  | .sRec => []
  | .sFetch => s.left.flatMap line
  | .sEmit => (line s.recReg).drop s.charIdx ++ s.left.tail.flatMap line

theorem line_drop (r : Record) {idx : Nat} (inside : idx ≤ lastChar) :
    (line r).drop idx = byteAt idx r :: (line r).drop (idx + 1) := by
  have short : idx < (line r).length := by
    rw [length_line]
    unfold lastChar at inside
    omega
  rw [List.drop_eq_getElem_cons short]
  simp [line]

theorem handed_bytesLeft {s : State k} (serves : Serves s) (dumping : s.state ≠ .sRec)
    (i : Inputs) : (handed s i).toList ++ bytesLeft (step i s) = bytesLeft s := by
  cases phase : s.state with
  | sRec => exact absurd phase dumping
  | sFetch =>
      have none_handed : handed s i = none := by simp [handed, txValid, phase]
      rw [none_handed, Option.toList_none, List.nil_append]
      by_cases done : s.dumpRem = 0
      · rw [step_done i phase done]
        simp [bytesLeft, State.left, State.tick, phase, done, SlidingWindow.read]
      · have next : (step i s).left = s.left := by
          rw [step_fetch i phase done]
          simp [State.left, State.tick, phase]
        have emits : bytesLeft (step i s) =
            line (s.mem s.rdPtr) ++ (step i s).left.tail.flatMap line := by
          rw [step_fetch i phase done]
          rfl
        rw [emits, next, left_eq_cons dumping done]
        simp only [bytesLeft, phase, left_eq_cons dumping done, List.tail_cons, List.flatMap_cons]
  | sEmit =>
      have emits := serves phase
      have rest := left_eq_cons dumping emits.dumpRem
      cases ready : i.txReady with
      | false =>
          rw [step_wait phase ready]
          simp [handed, ready, bytesLeft, State.left, State.tick, phase]
      | true =>
          have first : (handed s i).toList = [byteAt s.charIdx s.recReg] := by
            simp [handed, txValid, txData, phase, ready]
          rw [first, List.singleton_append]
          simp only [bytesLeft, phase, rest, line_drop s.recReg emits.charIdx, List.tail_cons,
            List.cons_append]
          congr 1
          by_cases last : s.charIdx = lastChar
          · have ended : (line s.recReg).drop (s.charIdx + 1) = [] := by
              rw [last]
              exact List.drop_of_length_le (length_line _).le
            rw [step_last phase ready last, ended, List.nil_append]
            rfl
          · have next : (step i s).left = s.left := by
              rw [step_char phase ready last]
              simp [State.left, State.tick, phase]
            have emitting : (step i s).state = .sEmit := by
              rw [step_char phase ready last]
              exact phase
            simp only [emitting, next, rest, List.tail_cons]
            rw [step_char phase ready last]
            rfl

theorem bytes_bytesLeft {start : State k} {inputs : Nat → Inputs} (serves : Serves start)
    {n : Nat} (streaming : Streaming start inputs n) :
    bytes start inputs n ++ bytesLeft (Trace.run step start inputs n) = bytesLeft start := by
  induction n with
  | zero => rfl
  | succ n ih =>
      have before := ih fun j less => streaming j (by omega)
      have serves := Trace.run_invariant Serves serves
        (fun m _ serves => serves.step (inputs m)) n
      have hands := handed_bytesLeft serves (streaming n (Nat.lt_succ_self n)) (inputs n)
      rw [bytes, Trace.history_succ, List.append_assoc, ← before, ← hands]
      rfl

theorem bytes_of_over {start : State k} {inputs : Nat → Inputs} (serves : Serves start)
    {n : Nat} (ended : Over start inputs n) : bytes start inputs n = bytesLeft start := by
  have parts := bytes_bytesLeft serves ended.1
  rwa [bytesLeft, ended.2, List.append_nil] at parts

/-- Every dump, whatever the records and the readiness of the consumer, hands over
a line for each record, and the decoder recovers the records. -/
theorem dump_handsOver (records : List Record) (start : State k)
    (fetching : start.state = .sFetch) (captured : start.left = records)
    (inputs : Nat → Inputs) :
    (∀ r ∈ records, (line r).length = 30) ∧ HandsOver start inputs records := by
  have serves : Serves start := fun emitting => by rw [fetching] at emitting; cases emitting
  have before : bytesLeft start = records.flatMap line := by
    simp only [bytesLeft, fetching, captured]
  refine ⟨fun r _ => length_line r, ?_, ?_, ?_, ?_⟩
  · intro n streaming
    rw [← before, ← bytes_bytesLeft serves streaming]
    exact List.prefix_append _ _
  · intro n ended
    rw [bytes_of_over serves ended, before]
  · intro again
    have some_end : ∃ n, (Trace.run step start inputs n).state = .sRec := by
      have streaming : start.state ≠ .sRec := by
        rw [fetching]
        exact Phase.noConfusion
      obtain ⟨n, _, done⟩ := leadsTo_over serves again 0 streaming
      exact ⟨n, done⟩
    classical
    exact ⟨Nat.find some_end, fun j less => Nat.find_min some_end less, Nat.find_spec some_end⟩
  · intro n ended
    rw [bytes_of_over serves ended, before]
    exact scan_recovers records

/-- A write of `0x48`, and a read. -/
def twoRecords : List Record := [0x1000000ABFF90000000000048#97, 0xFF00040000DEADBEEF#97]

/-- They are to be streamed out. -/
def twoCaptured : State 1 :=
  ⟨fun slot => if slot = 0 then 0x1000000ABFF90000000000048#97 else 0xFF00040000DEADBEEF#97,
    0, 0, 2, 0, false, true, .sFetch, 0, 0⟩

theorem twoCaptured_handsOver :
    (∀ r ∈ twoRecords, (line r).length = 30) ∧
      HandsOver twoCaptured (fun n => ⟨0, 0, false, false, 0, false, n % 3 == 0⟩) twoRecords :=
  dump_handsOver twoRecords twoCaptured rfl (by decide +kernel) _

end AhbTrace

end Cocoapuffs

import Cocoapuffs.Trace
import Mathlib.Data.BitVec
import Mathlib.Data.List.GetD
import Mathlib.Logic.Function.Basic

/-!
# The upload of Intel HEX files

The two functions `ihex_data_read` that the parser calls once for each record,
one in `lib::ihex` and one in the program of the muntjac core.
-/

namespace Cocoapuffs

namespace IhexUpload

/-- `ihex_record_type_t`. -/
inductive RecordType where
  | dataRecord
  | endOfFile
  | extendedSegmentAddress
  | startSegmentAddress
  | extendedLinearAddress
  | startLinearAddress
deriving DecidableEq

/-- What the parser hands over with a record.  `linearAddress` is
`IHEX_LINEAR_ADDRESS`, and the length is a byte. -/
structure Record where
  type : RecordType
  address : BitVec 16
  linearAddress : BitVec 32
  data : List (BitVec 8)
  lineLength : BitVec 8
  checksumError : Bool
  length : data.length < 256

/-- What is printed: by `kprintf` or `printme` a text, or with its arguments
`"%08x: "`, `"ihex err: line %d type: %d\n"` or `"a: %08x: len=%4d(%4x):
line_len=%4d(%4x)"`. -/
inductive Print where
  | text (s : String)
  | line (s : String)
  | place (address : BitVec 32)
  | ihexErr (line : Nat) (type : RecordType)
  | record (address : BitVec 16) (length : Nat) (lineLength : BitVec 8)
deriving DecidableEq

/-- The memory, the variables of the two functions, what has been printed, and
whether a call will never return. -/
structure State where
  memory : BitVec 32 → BitVec 8
  gEof : Bool
  lineCount : Nat
  dotCount : Nat
  printed : List Print
  hung : Bool

def State.print (p : Print) (s : State) : State := { s with printed := s.printed ++ [p] }

/-- The loop that copies the data of a record. -/
def copy (address : BitVec 32) :
    List (BitVec 8) → (BitVec 32 → BitVec 8) → BitVec 32 → BitVec 8
  | [], memory => memory
  | byte :: rest, memory => copy (address + 1) rest (Function.update memory address byte)

/-- `lib::ihex::ihex_data_read`. -/
def ihexDataRead (r : Record) (s : State) : State :=
  let s :=
    match r.type with
    | .dataRecord =>
        let s := if s.dotCount = 0 then s.print (.place r.linearAddress) else s
        let s := { s with memory := copy r.linearAddress r.data s.memory }
        let s := s.print (.text ".")
        let s := { s with dotCount := s.dotCount + 1 }
        if 40 ≤ s.dotCount then { s.print (.text "\n") with dotCount := 0 } else s
    | .endOfFile =>
        let s := if s.dotCount ≠ 0 then { s.print (.text "\n") with dotCount := 0 } else s
        { s.print (.line "EOF") with gEof := true }
    | _ => s
  if r.checksumError then { s.print (.ihexErr s.lineCount r.type) with hung := true }
  else { s with lineCount := s.lineCount + 1 }

/-- `kRamStart` of the muntjac core. -/
def kRamStart : BitVec 32 := 0x80000000

/-- `ihex_data_read` of the muntjac core. -/
def muntjacDataRead (r : Record) (s : State) : State :=
  if r.checksumError then { s.print (.line "ihex err") with hung := true }
  else
    match r.type with
    | .dataRecord =>
        let s := s.print (.record r.address r.data.length r.lineLength)
        let s := { s with memory := copy (r.linearAddress + kRamStart) r.data s.memory }
        s.print (.text "\n")
    | .endOfFile => { s.print (.line "EOF") with gEof := true }
    | _ => s

/-- A call, if the one before has returned. -/
def call (read : Record → State → State) (r : Record) (s : State) : State :=
  if s.hung then s else read r s

section Definitions

variable (read : Record → State → State) (start : State) (records : Nat → Record)

def states : Nat → State := Trace.run (call read) start records

/-- The data of the record go to this address, `base` bytes further on. -/
def Record.Covers (base : BitVec 32) (r : Record) (a : BitVec 32) : Prop :=
  (a - (r.linearAddress + base)).toNat < r.data.length

/-- Nothing but a verified record changes memory, and one that is not verified
does not end the file either. -/
structure Verified (base : BitVec 32) (r : Record) (before after : State) : Prop where
  written : ∀ a, after.memory a ≠ before.memory a →
    r.type = .dataRecord ∧ r.checksumError = false ∧ r.Covers base a
  refused : r.checksumError = true → after.memory = before.memory ∧ after.gEof = before.gEof

end Definitions

/-- A record that changes neither memory nor `gEof` when it is taken as it is. -/
def Record.Harmless (r : Record) (s : State) : Prop :=
  match r.type with
  | .dataRecord => ∀ i (inside : i < r.data.length),
      s.memory (r.linearAddress + BitVec.ofNat 32 i) = r.data[i]
  | .endOfFile => s.gEof = true
  | _ => True

/-! ### Copies -/

theorem copy_apply {bytes : List (BitVec 8)} (small : bytes.length < 256) (address : BitVec 32)
    (memory : BitVec 32 → BitVec 8) (a : BitVec 32) :
    copy address bytes memory a = bytes.getD (a - address).toNat (memory a) := by
  induction bytes generalizing address memory with
  | nil => rfl
  | cons byte rest ih =>
      rw [List.length_cons] at small
      rw [copy, ih (by omega)]
      by_cases first : a = address
      · subst first
        have far : rest.length ≤ (a - (a + 1)).toNat := by bv_omega
        rw [List.getD_eq_default _ _ far, Function.update_self, BitVec.sub_self]
        rfl
      · have next : (a - address).toNat = (a - (address + 1)).toNat + 1 := by bv_omega
        rw [next, List.getD_cons_succ, Function.update_of_ne first]

theorem copy_eq_self_iff {r : Record} {memory : BitVec 32 → BitVec 8} :
    copy r.linearAddress r.data memory = memory ↔
      ∀ i (inside : i < r.data.length),
        memory (r.linearAddress + BitVec.ofNat 32 i) = r.data[i] := by
  have small := r.length
  constructor
  · intro same i inside
    have there := copy_apply small r.linearAddress memory (r.linearAddress + BitVec.ofNat 32 i)
    have place : (r.linearAddress + BitVec.ofNat 32 i - r.linearAddress).toNat = i := by
      bv_omega
    rw [same, place, List.getD_eq_getElem _ _ inside] at there
    exact there
  · intro same
    funext a
    rw [copy_apply small]
    rcases Nat.lt_or_ge (a - r.linearAddress).toNat r.data.length with inside | outside
    · have place : r.linearAddress + BitVec.ofNat 32 (a - r.linearAddress).toNat = a := by
        bv_omega
      rw [List.getD_eq_getElem _ _ inside, ← same _ inside, place]
    · exact List.getD_eq_default _ _ outside

theorem covers_of_copy {r : Record} {base : BitVec 32} {memory : BitVec 32 → BitVec 8}
    {a : BitVec 32} (changed : copy (r.linearAddress + base) r.data memory a ≠ memory a) :
    r.Covers base a := by
  by_contra outside
  apply changed
  rw [copy_apply r.length]
  exact List.getD_eq_default _ _ (Nat.le_of_not_lt outside)

/-! ### The two functions -/

theorem ihexDataRead_memory (r : Record) (s : State) : (ihexDataRead r s).memory =
    if r.type = .dataRecord then copy r.linearAddress r.data s.memory else s.memory := by
  rw [ihexDataRead]
  cases r.type with
  | dataRecord =>
      dsimp only
      repeat' split
      all_goals simp_all [State.print]
  | endOfFile =>
      dsimp only
      repeat' split
      all_goals simp_all [State.print]
  | _ =>
      dsimp only
      split <;> rfl

theorem ihexDataRead_gEof (r : Record) (s : State) : (ihexDataRead r s).gEof =
    if r.type = .endOfFile then true else s.gEof := by
  rw [ihexDataRead]
  cases r.type with
  | dataRecord =>
      dsimp only
      repeat' split
      all_goals simp_all [State.print]
  | endOfFile =>
      dsimp only
      repeat' split
      all_goals simp_all [State.print]
  | _ =>
      dsimp only
      split <;> rfl

/-- A record that is not verified is harmless, or its effects are there when the
error is noticed. -/
theorem verified_iff (r : Record) (s : State) : Verified 0 r s (ihexDataRead r s) ↔
    (r.checksumError = true → r.Harmless s) := by
  constructor
  · intro verified error
    obtain ⟨memory, gEof⟩ := verified.refused error
    rw [ihexDataRead_memory] at memory
    rw [ihexDataRead_gEof] at gEof
    rw [Record.Harmless]
    cases type : r.type with
    | dataRecord =>
        rw [if_pos type] at memory
        exact copy_eq_self_iff.mp memory
    | endOfFile =>
        rw [if_pos type] at gEof
        exact gEof.symm
    | _ => trivial
  · intro harmless
    have unchanged : r.checksumError = true →
        (ihexDataRead r s).memory = s.memory ∧ (ihexDataRead r s).gEof = s.gEof := by
      intro error
      have harmless := harmless error
      rw [ihexDataRead_memory, ihexDataRead_gEof]
      rw [Record.Harmless] at harmless
      cases type : r.type with
      | dataRecord =>
          rw [type] at harmless
          exact ⟨copy_eq_self_iff.mpr harmless, rfl⟩
      | endOfFile =>
          rw [type] at harmless
          exact ⟨rfl, harmless.symm⟩
      | _ => exact ⟨rfl, rfl⟩
    refine ⟨fun a changed => ?_, unchanged⟩
    have correct : r.checksumError = false := by
      by_contra error
      rw [(unchanged (by simpa using error)).1] at changed
      exact changed rfl
    rw [ihexDataRead_memory] at changed
    split at changed
    · rename_i type
      rw [← BitVec.add_zero r.linearAddress] at changed
      exact ⟨type, correct, covers_of_copy changed⟩
    · exact absurd rfl changed

theorem muntjac_verified (r : Record) (s : State) :
    Verified kRamStart r s (muntjacDataRead r s) := by
  rw [muntjacDataRead]
  split
  · exact ⟨fun a changed => absurd rfl changed, fun _ => ⟨rfl, rfl⟩⟩
  · rename_i correct
    have correct : r.checksumError = false := by simpa using correct
    refine ⟨fun a changed => ?_, fun error => ?_⟩
    · cases type : r.type with
      | dataRecord =>
          rw [type] at changed
          exact ⟨rfl, correct, covers_of_copy changed⟩
      | _ =>
          rw [type] at changed
          exact absurd rfl changed
    · rw [correct] at error
      cases error

/-! ### Runs -/

theorem Verified.refl (base : BitVec 32) (r : Record) (s : State) : Verified base r s s :=
  ⟨fun _ changed => absurd rfl changed, fun _ => ⟨rfl, rfl⟩⟩

section Runs

variable (start : State) (records : Nat → Record)

theorem states_succ (read : Record → State → State) (n : Nat) :
    states read start records (n + 1) = call read (records n) (states read start records n) :=
  rfl

theorem muntjac_states_verified (n : Nat) : Verified kRamStart (records n)
    (states muntjacDataRead start records n) (states muntjacDataRead start records (n + 1)) := by
  rw [states_succ, call]
  split
  · exact Verified.refl _ _ _
  · exact muntjac_verified _ _

/-- An upload writes from verified records only, in just those runs in which
each record with an error is harmless. -/
theorem upload_verified_iff :
    (∀ n, Verified 0 (records n) (states ihexDataRead start records n)
      (states ihexDataRead start records (n + 1))) ↔
    ∀ n, (states ihexDataRead start records n).hung = false →
      (records n).checksumError = true →
        (records n).Harmless (states ihexDataRead start records n) := by
  refine forall_congr' fun n => ?_
  rw [states_succ, call]
  split
  · rename_i hung
    simp only [hung, Bool.true_eq_false, false_imp_iff, iff_true]
    exact Verified.refl _ _ _
  · rename_i returned
    rw [verified_iff]
    simp only [Bool.eq_false_of_not_eq_true returned, forall_const]

end Runs

/-- One byte of data that came over a noisy line, and then nothing. -/
def noisy : Record := ⟨.dataRecord, 0, 0, [0x55], 1, true, by decide⟩

def noisyEnd : Record := ⟨.endOfFile, 0, 0, [], 0, true, by decide⟩

def cleared : State := ⟨fun _ => 0, false, 1, 0, [], false⟩

/-- The upload writes from the noisy record, which the muntjac core's never does. -/
theorem noisy_upload :
    (states ihexDataRead cleared (fun _ => noisy) 1).memory 0 = 0x55 ∧
      (states ihexDataRead cleared (fun _ => noisyEnd) 1).gEof = true ∧
      (¬ ∀ n, Verified 0 noisy (states ihexDataRead cleared (fun _ => noisy) n)
        (states ihexDataRead cleared (fun _ => noisy) (n + 1))) ∧
      ∀ start records n, Verified kRamStart (records n) (states muntjacDataRead start records n)
        (states muntjacDataRead start records (n + 1)) := by
  have written : (states ihexDataRead cleared (fun _ => noisy) 1).memory 0 = 0x55 := by decide
  refine ⟨written, by decide, fun verified => ?_, muntjac_states_verified⟩
  have kept := congrFun ((verified 0).refused rfl).1 0
  rw [written] at kept
  revert kept
  decide

end IhexUpload

end Cocoapuffs

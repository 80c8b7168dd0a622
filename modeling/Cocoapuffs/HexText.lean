import Cocoapuffs.Program
import Mathlib.Tactic.Ring

/-!
# Hexadecimal text

Text is a list of bytes.  This file has the lines of a text, the hexadecimal
digits of words, and the reading of characters from a line.
-/

namespace Cocoapuffs

namespace HexText

abbrev Byte := BitVec 8

def newline : Byte := 0x0A#8

/-! ### Lines -/

/-- The lines of a text, of whose first line some is read already. -/
def linesFrom (line : List Byte) : List Byte → List (List Byte)
  | [] => if line = [] then [] else [line]
  | c :: text =>
      if c = newline then line :: linesFrom [] text else linesFrom (line ++ [c]) text

/-- The lines of a text; the last one need not be ended. -/
def lines (text : List Byte) : List (List Byte) := linesFrom [] text

theorem linesFrom_append {word : List Byte} (inLine : newline ∉ word) (line text : List Byte) :
    linesFrom line (word ++ text) = linesFrom (line ++ word) text := by
  induction word generalizing line with
  | nil => simp
  | cons c word ih =>
      rw [List.mem_cons, not_or] at inLine
      obtain ⟨other, inLine⟩ := inLine
      rw [List.cons_append, linesFrom, if_neg (Ne.symm other), ih inLine, List.append_assoc,
        List.singleton_append]

theorem lines_cons {line : List Byte} (inLine : newline ∉ line) (text : List Byte) :
    lines (line ++ newline :: text) = line :: lines text := by
  rw [lines, linesFrom_append inLine, List.nil_append, linesFrom, if_pos rfl, lines]

theorem lines_flatMap {parts : List (List Byte)} (inLine : ∀ line ∈ parts, newline ∉ line) :
    lines (parts.flatMap fun line => line ++ [newline]) = parts := by
  induction parts with
  | nil => rfl
  | cons line parts ih =>
      obtain ⟨first, others⟩ := List.forall_mem_cons.mp inLine
      rw [List.flatMap_cons, List.append_assoc, List.singleton_append, lines_cons first,
        ih others]

/-! ### Digits -/

/-- The value of a hexadecimal digit, of either case. -/
def digitValue (c : Byte) : Option (BitVec 4) :=
  if 0x30 ≤ c.toNat ∧ c.toNat ≤ 0x39 then some (BitVec.ofNat 4 (c.toNat - 0x30))
  else if 0x41 ≤ c.toNat ∧ c.toNat ≤ 0x46 then some (BitVec.ofNat 4 (c.toNat - 0x41 + 10))
  else if 0x61 ≤ c.toNat ∧ c.toNat ≤ 0x66 then some (BitVec.ofNat 4 (c.toNat - 0x61 + 10))
  else none

def isHexDigit (c : Byte) : Bool := (digitValue c).isSome

/-- The number that a string of digits is. -/
def number (digits : List Byte) : Nat :=
  digits.foldl (fun sum c => 16 * sum + ((digitValue c).getD 0).toNat) 0

section Numerals

variable (encode : BitVec 4 → Byte) {width : Nat}

/-- The last `count` digits of a word. -/
def numeral : Nat → BitVec width → List Byte
  | 0, _ => []
  | count + 1, word => encode (word.extractLsb' (4 * count) 4) :: numeral count word

@[simp]
theorem length_numeral (count : Nat) (word : BitVec width) :
    (numeral encode count word).length = count := by
  induction count with
  | zero => rfl
  | succ count ih => rw [numeral, List.length_cons, ih]

theorem mem_numeral {count : Nat} {word : BitVec width} {c : Byte}
    (mem : c ∈ numeral encode count word) : ∃ digit, c = encode digit := by
  induction count with
  | zero => cases mem
  | succ count ih =>
      rcases List.mem_cons.mp mem with first | rest
      · exact ⟨_, first⟩
      · exact ih rest

variable {encode} (faithful : ∀ digit, digitValue (encode digit) = some digit)

include faithful

theorem newline_not_mem_numeral (count : Nat) (word : BitVec width) :
    newline ∉ numeral encode count word := by
  intro mem
  obtain ⟨digit, eq⟩ := mem_numeral encode mem
  have reads := faithful digit
  have not_digit : digitValue newline = none := by decide
  rw [← eq, not_digit] at reads
  cases reads

theorem foldl_numeral (count : Nat) (word : BitVec width) (sum : Nat) :
    (numeral encode count word).foldl
        (fun sum c => 16 * sum + ((digitValue c).getD 0).toNat) sum =
      sum * 16 ^ count + word.toNat % 16 ^ count := by
  induction count generalizing sum with
  | zero => simp [numeral, Nat.mod_one]
  | succ count ih =>
      have digit : (word.extractLsb' (4 * count) 4).toNat = word.toNat / 16 ^ count % 16 := by
        rw [BitVec.extractLsb'_toNat, Nat.shiftRight_eq_div_pow, Nat.pow_mul]
      rw [numeral, List.foldl_cons, ih, faithful, Option.getD_some, digit,
        Nat.mod_pow_succ (b := 16), Nat.pow_succ]
      ring

theorem number_numeral {count : Nat} (word : BitVec width) (fits : width ≤ 4 * count) :
    number (numeral encode count word) = word.toNat := by
  have small : word.toNat < 16 ^ count :=
    calc
      word.toNat < 2 ^ width := word.isLt
      _ ≤ 2 ^ (4 * count) := Nat.pow_le_pow_right (by decide) fits
      _ = 16 ^ count := Nat.pow_mul 2 4 count
  rw [number, foldl_numeral faithful, Nat.zero_mul, Nat.zero_add, Nat.mod_eq_of_lt small]

end Numerals

/-! ### Reading a line -/

/-- A character of a class. -/
def char (ofClass : Byte → Bool) : StateT (List Byte) Option Byte
  | [] => none
  | c :: line => if ofClass c then some (c, line) else none

/-- So many characters of a class. -/
def chars (ofClass : Byte → Bool) : Nat → StateT (List Byte) Option (List Byte)
  | 0 => pure []
  | count + 1 => do
      let c ← char ofClass
      let others ← chars ofClass count
      pure (c :: others)

theorem char_run {ofClass : Byte → Bool} {c : Byte} (inClass : ofClass c = true)
    (line : List Byte) : (char ofClass).run (c :: line) = some (c, line) := by
  change (if ofClass c then some (c, line) else none) = some (c, line)
  rw [if_pos inClass]

theorem chars_run {ofClass : Byte → Bool} {word : List Byte}
    (inClass : ∀ c ∈ word, ofClass c = true) (line : List Byte) :
    (chars ofClass word.length).run (word ++ line) = some (word, line) := by
  induction word with
  | nil => rfl
  | cons c word ih =>
      obtain ⟨first, others⟩ := List.forall_mem_cons.mp inClass
      rw [List.length_cons, chars, List.cons_append, StateT.run_bind, char_run first]
      change (chars ofClass word.length >>= fun others => pure (c :: others)).run (word ++ line) = _
      rw [StateT.run_bind, ih others]
      rfl

end HexText

end Cocoapuffs

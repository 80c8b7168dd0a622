import Cocoapuffs.AhbTrace
import Mathlib.Data.List.TakeWhile
import Mathlib.Data.Nat.Digits.Defs

/-!
# Whole captures

`ahb_trace_decode` from the bytes of a capture to the bytes of its output, for
captures of any kind.
-/

namespace Cocoapuffs

namespace AhbTrace

open HexText

/-! ### The scanner and the output -/

/-- `bufio.MaxScanTokenSize`, the size of the buffer that a line must fit in. -/
def maxScanTokenSize : Nat := 64 * 1024

/-- The tokens of `bufio.Scanner`, of whose next line some is in the buffer.  It
stops when the buffer is full and no line is. -/
def tokensFrom (line : List Byte) : List Byte → List (List Byte)
  | [] => if line = [] then [] else [dropCR line]
  | c :: text =>
      if c = newline then dropCR line :: tokensFrom [] text
      else if maxScanTokenSize ≤ line.length + 1 then []
      else tokensFrom (line ++ [c]) text

def tokens (text : List Byte) : List (List Byte) := tokensFrom [] text

/-- The bytes of a text in the source. -/
def ascii (s : String) : List Byte := s.toList.map fun c => BitVec.ofNat 8 c.toNat

/-- A digit as `%d` and `%x` print it. -/
def digitByte (d : Nat) : Byte :=
  if d < 10 then BitVec.ofNat 8 (0x30 + d) else BitVec.ofNat 8 (0x61 + d - 10)

/-- `%d`, or `%x` in base 16. -/
def printNat (base n : Nat) : List Byte :=
  if n = 0 then [digitByte 0] else (Nat.digits base n).reverse.map digitByte

/-- The minus sign and the width of `%-10d` and `%-16s`. -/
def padRight (width : Nat) (text : List Byte) : List Byte :=
  text ++ List.replicate (width - text.length) 0x20

/-- What `annotate` returns. -/
def printPlace : Option (String × Nat) → List Byte
  | none => ascii "?"
  | some (name, off) =>
      if off ≠ 0 then ascii name ++ ascii "+0x" ++ printNat 16 off else ascii name

/-- What is written for a line, but for its end. -/
def Output.print : Output → List Byte
  | .through line => line
  | .access cyc op m3 region extra =>
      ascii "+" ++ padRight 10 (printNat 10 cyc) ++ ascii " " ++ ascii op ++ ascii "  0x" ++ m3 ++
        ascii " " ++ padRight 16 (printPlace region) ++
        (if op = "WR" then ascii " = 0x" ++ extra else [])

/-- A line of the input, as it is to appear in the output. -/
def rendered (line : List Byte) : List Byte :=
  match lineRE.run' line with
  | none => line
  | some m => m.output.print

/-- `decode`. -/
def decodeText (text : List Byte) : List Byte :=
  (tokens text).flatMap fun line => rendered line ++ [newline]

/-- Each line of the input has its line in the output. -/
def PassesThrough (text : List Byte) : Prop :=
  lines (decodeText text) = (lines text).map rendered

/-! ### The scanner -/

theorem linesFrom_front {line : List Byte} (some : line ≠ []) (text : List Byte) :
    ∃ more rest, linesFrom line text = (line ++ more) :: rest := by
  induction text generalizing line with
  | nil => exact ⟨[], [], by rw [linesFrom, if_neg some, List.append_nil]⟩
  | cons c text ih =>
      rw [linesFrom]
      split
      · exact ⟨[], linesFrom [] text, by rw [List.append_nil]⟩
      · obtain ⟨more, rest, lines⟩ := @ih (line ++ [c]) (by simp)
        exact ⟨c :: more, rest, by rw [lines, List.append_assoc, List.singleton_append]⟩

/-- The lines before the first one that does not fit. -/
theorem tokensFrom_eq (line text : List Byte) (fits : line.length < maxScanTokenSize) :
    tokensFrom line text =
      ((linesFrom line text).takeWhile fun l => l.length < maxScanTokenSize).map dropCR := by
  induction text generalizing line with
  | nil =>
      rw [tokensFrom, linesFrom]
      split
      · rfl
      · simp [fits]
  | cons c text ih =>
      rw [tokensFrom, linesFrom]
      split
      · rw [List.takeWhile_cons_of_pos (by simpa using fits), List.map_cons,
          ih [] (by decide)]
      · split
        · rename_i full
          obtain ⟨more, rest, lines⟩ := linesFrom_front (List.append_ne_nil_of_right_ne_nil line
            (List.cons_ne_nil c [])) text
          rw [lines, List.takeWhile_cons_of_neg, List.map_nil]
          simp only [List.length_append, List.length_singleton, decide_eq_true_eq]
          omega
        · rename_i more
          rw [ih _ (by rw [List.length_append, List.length_singleton]; omega)]

theorem tokens_eq (text : List Byte) : tokens text =
    ((lines text).takeWhile fun l => l.length < maxScanTokenSize).map dropCR :=
  tokensFrom_eq [] text (by decide)

/-- If all lines fit, the output is that of the scanner without a limit. -/
theorem decodeText_eq {text : List Byte}
    (fit : ∀ line ∈ lines text, line.length < maxScanTokenSize) :
    decodeText text = (decode text).flatMap fun output => output.print ++ [newline] := by
  rw [decodeText, tokens_eq, List.takeWhile_eq_self_iff.mpr (by simpa using fit), decode, scan,
    List.flatMap_map, List.flatMap_map, List.flatMap_map]
  refine List.flatMap_congr fun line _ => ?_
  rw [rendered]
  cases lineRE.run' (dropCR line) <;> rfl

/-- A dump is printed line by line, since its lines fit. -/
theorem decodeText_flatMap_line (records : List AhbRecorder.Record) :
    decodeText (records.flatMap line) =
      records.flatMap fun r => (groups r).output.print ++ [newline] := by
  rw [decodeText_eq, decode_flatMap_line, List.flatMap_map]
  intro l mem
  rw [lines_flatMap_line, List.mem_map] at mem
  obtain ⟨r, -, rfl⟩ := mem
  rw [List.length_append, length_text]
  decide

/-! ### The format of a record -/

theorem char_some {ofClass : Byte → Bool} {line rest : List Byte} {c : Byte}
    (run : (char ofClass).run line = some (c, rest)) : ofClass c = true ∧ line = c :: rest := by
  cases line with
  | nil => cases run
  | cons c' line =>
      change (if ofClass c' then some (c', line) else none) = some (c, rest) at run
      split at run
      · rename_i inClass
        cases run
        exact ⟨inClass, rfl⟩
      · cases run

theorem chars_some {ofClass : Byte → Bool} {count : Nat} {line word rest : List Byte}
    (run : (chars ofClass count).run line = some (word, rest)) :
    word.length = count ∧ (∀ c ∈ word, ofClass c = true) ∧ line = word ++ rest := by
  induction count generalizing line word with
  | zero =>
      cases run
      exact ⟨rfl, by simp, rfl⟩
  | succ count ih =>
      rw [chars, StateT.run_bind, Option.bind_eq_bind, Option.bind_eq_some_iff] at run
      obtain ⟨⟨c, line'⟩, first, run⟩ := run
      rw [StateT.run_bind, Option.bind_eq_bind, Option.bind_eq_some_iff] at run
      obtain ⟨⟨others, rest'⟩, following, run⟩ := run
      cases run
      obtain ⟨inClass, rfl⟩ := char_some first
      obtain ⟨length, all, rfl⟩ := ih following
      exact ⟨by rw [List.length_cons, length], List.forall_mem_cons.mpr ⟨inClass, all⟩, rfl⟩

/-- A line of the form `CCCCCCCC W AAAAAAAA DDDDDDDD`, and white space after it. -/
structure Format (line : List Byte) (m : Submatches) (trailing : List Byte) : Prop where
  line_eq : line = m.m1 ++ 0x20#8 :: m.m2 :: 0x20#8 :: m.m3 ++ 0x20#8 :: m.m4 ++ trailing
  cycle : m.m1.length = 8 ∧ ∀ c ∈ m.m1, isHexDigit c = true
  direction : isDirection m.m2 = true
  address : m.m3.length = 8 ∧ ∀ c ∈ m.m3, isHexDigit c = true
  data : m.m4.length = 8 ∧ ∀ c ∈ m.m4, isHexDigit c = true
  space : trailing.all isSpace = true

theorem Format.run {line trailing : List Byte} {m : Submatches} (format : Format line m trailing) :
    lineRE.run' line = some m := by
  obtain ⟨rfl, ⟨length1, hex1⟩, direction, ⟨length3, hex3⟩, ⟨length4, hex4⟩, space⟩ := format
  have group : ∀ {word : List Byte}, word.length = 8 → (∀ c ∈ word, isHexDigit c = true) →
      ∀ rest, (chars isHexDigit 8).run (word ++ rest) = some (word, rest) := by
    intro word length hex rest
    have run := chars_run hex rest
    rwa [length] at run
  have blank : ∀ rest : List Byte,
      (char (· == 0x20#8)).run (0x20#8 :: rest) = some (0x20#8, rest) :=
    fun rest => char_run rfl rest
  have run : lineRE.run (m.m1 ++ 0x20#8 :: m.m2 :: 0x20#8 :: m.m3 ++ 0x20#8 :: m.m4 ++ trailing) =
      some (m, trailing) := by
    simp only [List.append_assoc, List.cons_append, lineRE, StateT.run_bind, group length1 hex1,
      group length3 hex3, group length4 hex4, blank, char_run direction, Option.bind_eq_bind,
      Option.bind_some, StateT.run_get, Option.pure_def, space, if_true, StateT.run_pure]
  rw [StateT.run'_eq, run]
  rfl

theorem format_of_run {line : List Byte} {m : Submatches} (run : lineRE.run' line = some m) :
    ∃ trailing, Format line m trailing := by
  rw [StateT.run'_eq] at run
  obtain ⟨⟨m', trailing⟩, whole, same⟩ := Option.map_eq_some_iff.mp run
  obtain rfl : m' = m := same
  simp only [lineRE, StateT.run_bind, Option.bind_eq_bind, Option.bind_eq_some_iff, Prod.exists]
    at whole
  obtain ⟨m1, line1, cycle, b1, line2, blank1, m2, line3, direction, b2, line4, blank2, m3, line5,
    address, b3, line6, blank3, m4, line7, data, rest, line8, all, final⟩ := whole
  cases all
  split at final
  · rename_i space
    cases final
    obtain ⟨length1, hex1, rfl⟩ := chars_some cycle
    obtain ⟨same1, rfl⟩ := char_some blank1
    obtain ⟨isDir, rfl⟩ := char_some direction
    obtain ⟨same2, rfl⟩ := char_some blank2
    obtain ⟨length3, hex3, rfl⟩ := chars_some address
    obtain ⟨same3, rfl⟩ := char_some blank3
    obtain ⟨length4, hex4, rfl⟩ := chars_some data
    obtain rfl := beq_iff_eq.mp same1
    obtain rfl := beq_iff_eq.mp same2
    obtain rfl := beq_iff_eq.mp same3
    exact ⟨trailing, by simp, ⟨length1, hex1⟩, isDir, ⟨length3, hex3⟩, ⟨length4, hex4⟩, space⟩
  · cases final

theorem lineRE_dropCR (line : List Byte) : lineRE.run' (dropCR line) = lineRE.run' line := by
  rw [dropCR]
  split
  · rename_i last
    obtain ⟨front, rfl⟩ := List.getLast?_eq_some_iff.mp last
    rw [List.dropLast_concat]
    cases found : lineRE.run' front with
    | some m =>
        obtain ⟨trailing, format⟩ := format_of_run found
        have longer : Format (front ++ [0x0D#8]) m (trailing ++ [0x0D#8]) :=
          { format with
            line_eq := by rw [format.line_eq, List.append_assoc]
            space := by rw [List.all_append, format.space]; rfl }
        exact longer.run.symm
    | none =>
        cases found' : lineRE.run' (front ++ [0x0D#8]) with
        | none => rfl
        | some m =>
            obtain ⟨trailing, format⟩ := format_of_run found'
            have shorter := format.line_eq
            rcases List.eq_nil_or_concat trailing with rfl | ⟨space, c, rfl⟩
            · -- The last character would be a digit.
              obtain ⟨digits, c, split⟩ : ∃ digits c, m.m4 = digits ++ [c] := by
                rcases List.eq_nil_or_concat m.m4 with none | ⟨digits, c, split⟩
                · have length := format.data.1
                  rw [none] at length
                  cases length
                · exact ⟨digits, c, by rw [split, List.concat_eq_append]⟩
              rw [List.append_nil, split, ← List.cons_append, ← List.append_assoc] at shorter
              obtain rfl : 0x0D#8 = c := by simpa using (List.append_inj' shorter rfl).2
              have digit := format.data.2 0x0D#8 (by simp [split])
              have other : isHexDigit 0x0D#8 = false := by decide
              rw [other] at digit
              cases digit
            · rw [List.concat_eq_append, ← List.append_assoc] at shorter
              have inner : Format front m space :=
                { format with
                  line_eq := (List.append_inj' shorter rfl).1
                  space := by
                    have all := format.space
                    rw [List.concat_eq_append, List.all_append, Bool.and_eq_true] at all
                    exact all.1 }
              rw [inner.run] at found
              cases found
  · rfl

/-! ### No line of the output is two -/

theorem newline_not_mem_linesFrom {line : List Byte} (inLine : newline ∉ line)
    (text : List Byte) : ∀ l ∈ linesFrom line text, newline ∉ l := by
  induction text generalizing line with
  | nil =>
      rw [linesFrom]
      split
      · simp
      · simpa using inLine
  | cons c text ih =>
      rw [linesFrom]
      split
      · exact List.forall_mem_cons.mpr ⟨inLine, ih (by simp)⟩
      · rename_i other
        exact ih (by simpa using ⟨inLine, Ne.symm other⟩)

theorem newline_not_mem_printNat {base : Nat} (bound : 1 < base) (small : base ≤ 16) (n : Nat) :
    newline ∉ printNat base n := by
  have digit : ∀ d, d < 16 → digitByte d ≠ newline := by decide
  rw [printNat]
  split
  · decide
  · intro member
    obtain ⟨d, among, same⟩ := List.mem_map.mp member
    have less := Nat.digits_lt_base bound (List.mem_reverse.mp among)
    exact digit d (by omega) same

theorem newline_not_mem_padRight {text : List Byte} (inLine : newline ∉ text) (width : Nat) :
    newline ∉ padRight width text := by
  rw [padRight, List.mem_append, not_or]
  refine ⟨inLine, fun member => ?_⟩
  have same := List.eq_of_mem_replicate member
  revert same
  decide

theorem newline_not_mem_digits {word : List Byte} (hex : ∀ c ∈ word, isHexDigit c = true) :
    newline ∉ word := by
  intro member
  have digit := hex newline member
  revert digit
  decide

theorem newline_not_mem_place (addr : Nat) : newline ∉ printPlace (annotate addr) := by
  have names : ∀ r ∈ regions, newline ∉ ascii r.name := by decide
  cases found : annotate addr with
  | none => decide
  | some place =>
      obtain ⟨r, region, rfl⟩ := Option.map_eq_some_iff.mp found
      have name := names r (List.mem_of_find?_eq_some region)
      rw [printPlace]
      split
      · simp only [List.mem_append, not_or]
        exact ⟨⟨name, by decide⟩, newline_not_mem_printNat (by decide) le_rfl _⟩
      · exact name

theorem newline_not_mem_rendered {line : List Byte} (inLine : newline ∉ line) :
    newline ∉ rendered line := by
  rw [rendered]
  cases found : lineRE.run' line with
  | none => exact inLine
  | some m =>
      obtain ⟨trailing, format⟩ := format_of_run found
      have address := newline_not_mem_digits format.address.2
      have data := newline_not_mem_digits format.data.2
      have decimal : newline ∉ printNat 10 (number m.m1) :=
        newline_not_mem_printNat (by decide) (by decide) _
      have count := newline_not_mem_padRight decimal 10
      have place := newline_not_mem_padRight (newline_not_mem_place (number m.m3)) 16
      simp only [Submatches.output, Output.print, List.mem_append, not_or]
      refine ⟨⟨⟨⟨⟨⟨⟨⟨by decide, count⟩, by decide⟩, ?_⟩, by decide⟩, address⟩, by decide⟩, place⟩,
        ?_⟩
      · split <;> decide
      · by_cases write : m.m2 = 0x57#8
        · simp only [if_pos write, if_true, List.mem_append, not_or]
          exact ⟨by decide, data⟩
        · simp [write]

/-! ### Which captures pass through -/

theorem newline_not_mem_dropCR {line : List Byte} (inLine : newline ∉ line) :
    newline ∉ dropCR line := by
  rw [dropCR]
  split
  · exact fun member => inLine (List.mem_of_mem_dropLast member)
  · exact inLine

theorem lines_decodeText (text : List Byte) : lines (decodeText text) =
    ((lines text).takeWhile fun l => l.length < maxScanTokenSize).map fun l =>
      rendered (dropCR l) := by
  have ended : decodeText text = (((lines text).takeWhile fun l => l.length < maxScanTokenSize).map
      fun l => rendered (dropCR l)).flatMap fun line => line ++ [newline] := by
    rw [decodeText, tokens_eq, List.flatMap_map, List.flatMap_map]
  rw [ended, lines_flatMap]
  intro line member
  obtain ⟨l, among, rfl⟩ := List.mem_map.mp member
  have inText := (List.takeWhile_sublist _).subset among
  exact newline_not_mem_rendered
    (newline_not_mem_dropCR (newline_not_mem_linesFrom (by simp) text l inText))

/-- A carriage return is only missed in a line that is passed through. -/
theorem rendered_dropCR_iff (line : List Byte) : rendered (dropCR line) = rendered line ↔
    (line.getLast? = some 0x0D#8 → (lineRE.run' line).isSome) := by
  rw [rendered, rendered, lineRE_dropCR]
  cases found : lineRE.run' line with
  | some m => simp
  | none =>
      simp only [Option.isSome_none, Bool.false_eq_true, imp_false]
      rw [dropCR]
      constructor
      · intro same last
        rw [if_pos last] at same
        have shorter := congrArg List.length same
        have some : 0 < line.length := by
          cases line with
          | nil => cases last
          | cons c line => exact Nat.succ_pos _
        rw [List.length_dropLast] at shorter
        omega
      · intro other
        rw [if_neg other]

/-- A capture passes through if and only if its lines fit the scanner, and those
that end with a carriage return are records. -/
theorem passesThrough_iff (text : List Byte) : PassesThrough text ↔
    ∀ line ∈ lines text, line.length < maxScanTokenSize ∧
      (line.getLast? = some 0x0D#8 → (lineRE.run' line).isSome) := by
  rw [PassesThrough, lines_decodeText]
  constructor
  · intro passes
    have length := congrArg List.length passes
    rw [List.length_map, List.length_map] at length
    have whole := (List.takeWhile_prefix (l := lines text)
      fun l => decide (l.length < maxScanTokenSize)).eq_of_length length
    rw [whole, List.map_inj_left] at passes
    have fit := List.takeWhile_eq_self_iff.mp whole
    exact fun line member => ⟨by simpa using fit line member,
      (rendered_dropCR_iff line).mp (passes line member)⟩
  · intro all
    rw [List.takeWhile_eq_self_iff.mpr fun line member => by simpa using (all line member).1]
    exact List.map_congr_left fun line member => (rendered_dropCR_iff line).mpr (all line member).2

theorem decodeText_long {line : List Byte} (inLine : newline ∉ line)
    (long : maxScanTokenSize ≤ line.length) (text : List Byte) :
    decodeText (line ++ newline :: text) = [] := by
  rw [decodeText, tokens_eq, lines_cons inLine, List.takeWhile_cons_of_neg, List.map_nil,
    List.flatMap_nil]
  simpa using long

/-- A banner as a terminal gets it. -/
def banner : List Byte := ascii "OpenSBI\r\n"

/-- It loses its carriage return, and long noise takes all that comes after it
along. -/
theorem banner_changes : decodeText banner = ascii "OpenSBI\n" ∧ ¬ PassesThrough banner ∧
    decodeText (List.replicate maxScanTokenSize 0xFF#8 ++ newline :: banner) = [] := by
  have inLine : newline ∉ List.replicate maxScanTokenSize 0xFF#8 := by
    intro member
    have same := List.eq_of_mem_replicate member
    revert same
    decide
  have long : maxScanTokenSize ≤ (List.replicate maxScanTokenSize 0xFF#8).length := by
    rw [List.length_replicate]
  refine ⟨by decide +kernel, ?_, decodeText_long inLine long banner⟩
  rw [PassesThrough]
  decide +kernel

end AhbTrace

end Cocoapuffs

import Cocoapuffs.HexText
import Mathlib.Data.List.GetD
import Mathlib.Logic.Function.Basic

/-!
# Memory images

The command `bintomemh`, which writes a binary image as text, and the function
`load_mem` of `bram` and `ahb_bram`, which loads it.
-/

namespace Cocoapuffs

namespace Bintomemh

open HexText

/-! ### The encoder -/

inductive ReadErr where
  | eof
  | other
deriving DecidableEq

/-- What one call of `Read` returns: the bytes `b[:n]`, and the error. -/
structure ReadResult where
  b : List Byte
  err : Option ReadErr

/-- The characters of `hexTable`. -/
def hexTable : List Byte :=
  [0x30#8, 0x31#8, 0x32#8, 0x33#8, 0x34#8, 0x35#8, 0x36#8, 0x37#8, 0x38#8, 0x39#8,
    0x61#8, 0x62#8, 0x63#8, 0x64#8, 0x65#8, 0x66#8]

def hexTable256 (val : Byte) : List Byte :=
  [hexTable.getD (val >>> 4).toNat 0, hexTable.getD (val &&& 0x0F#8).toNat 0]

/-- The pairs of digits of a line, with a space after all but the last. -/
def lineBuf : List Byte → List Byte
  | [] => []
  | [val] => hexTable256 val
  | val :: next :: others => hexTable256 val ++ 0x20#8 :: lineBuf (next :: others)

/-- The bytes of each line: four, or those that are left of the read. -/
def wordsOf : List Byte → List (List Byte)
  | b₀ :: b₁ :: b₂ :: b₃ :: others => [b₀, b₁, b₂, b₃] :: wordsOf others
  | [] => []
  | few => [few]

/-- What is written for one read. -/
def convertRead (b : List Byte) : List Byte :=
  (wordsOf b).flatMap fun word => lineBuf word ++ [newline]

/-- The loop over the reads: what is written, and what is left of `byteCount`. -/
def convertLoop : List ReadResult → Int → Except ReadErr (List Byte × Int)
  | [], byteCount => .ok ([], byteCount)
  | r :: reads, byteCount =>
      match r.err with
      | some .eof => .ok (convertRead r.b, byteCount - r.b.length)
      | some err => .error err
      | none => do
          let (text, left) ← convertLoop reads (byteCount - r.b.length)
          pure (convertRead r.b ++ text, left)

def padding : List Byte := [0x30#8, 0x30#8, newline]

def convert (reads : List ReadResult) (byteCount : Int) : Except ReadErr (List Byte) := do
  let (text, left) ← convertLoop reads byteCount
  pure (text ++ (List.replicate left.toNat padding).flatten)

/-! ### The loader -/

/-- The blanks that `hread` skips. -/
def isBlank (c : Byte) : Bool := c ∈ [0x20#8, 0x09#8, 0xA0#8]

/-- `hread` of eight bits. -/
def hread : StateT (List Byte) Option Byte := do
  modify fun l => l.dropWhile isBlank
  let high ← char isHexDigit
  let low ← char isHexDigit
  pure (BitVec.ofNat 8 (number [high, low]))

/-- The four bytes of a line. -/
def readWord : StateT (List Byte) Option (BitVec 32) := do
  let b₀ ← hread
  let b₁ ← hread
  let b₂ ← hread
  let b₃ ← hread
  pure (b₃ ++ b₂ ++ b₁ ++ b₀)

variable {memWords : Nat}

/-- The loop of `load_mem`, from word `i` on. -/
def loadLines : List (List Byte) → Nat → (Fin memWords → BitVec 32) →
    Option (Fin memWords → BitVec 32)
  | [], _, tmpMem => some tmpMem
  | l :: ls, i, tmpMem =>
      if inside : i < memWords then do
        let word ← readWord.run' l
        loadLines ls (i + 1) (Function.update tmpMem ⟨i, inside⟩ word)
      else some tmpMem

/-- The memory that `load_mem` returns, given the text of the file, if there is one;
it fails where `hread` does. -/
def loadMem (memWords : Nat) (file : Option (List Byte)) : Option (Fin memWords → BitVec 32) :=
  match file with
  | none => some fun _ => 0
  | some text => loadLines (lines text) 0 fun _ => 0

/-! ### Images -/

/-- A reader that returns these chunks, and the last one with the end of the file. -/
def reader (chunks : List (List Byte)) (last : List Byte) : List ReadResult :=
  chunks.map (fun b => ⟨b, none⟩) ++ [⟨last, some .eof⟩]

/-- What is loaded of an image that is read in these chunks. -/
def loaded (memWords : Nat) (chunks : List (List Byte)) (last : List Byte) (byteCount : Int) :
    Option (Fin memWords → BitVec 32) := do
  let text ← (convert (reader chunks last) byteCount).toOption
  loadMem memWords (some text)

/-- A word of an image that zeros follow, the first byte lowest. -/
def wordAt (image : List Byte) (i : Nat) : BitVec 32 :=
  image.getD (4 * i + 3) 0 ++ image.getD (4 * i + 2) 0 ++ image.getD (4 * i + 1) 0 ++
    image.getD (4 * i) 0

/-! ### Lines -/

/-- The digit of `hexTable` for a nibble. -/
def digit (n : BitVec 4) : Byte := hexTable.getD n.toNat 0

theorem digitValue_digit (n : BitVec 4) : digitValue (digit n) = some n := by
  revert n
  decide

theorem hexTable256_eq (val : Byte) : hexTable256 val = numeral digit 2 val := by
  have high : (val >>> 4).toNat = (val.extractLsb' 4 4).toNat := by
    have small := val.isLt
    simp only [BitVec.toNat_ushiftRight, BitVec.extractLsb'_toNat, Nat.shiftRight_eq_div_pow]
    omega
  have low : (val &&& 0x0F#8).toNat = (val.extractLsb' 0 4).toNat := by
    rw [BitVec.toNat_and, BitVec.extractLsb'_toNat]
    exact Nat.and_two_pow_sub_one_eq_mod val.toNat 4
  rw [hexTable256, high, low]
  rfl

theorem digit_class (n : BitVec 4) : isHexDigit (digit n) = true ∧ isBlank (digit n) = false := by
  revert n
  decide

theorem hread_run {blanks : List Byte} (blank : ∀ c ∈ blanks, isBlank c = true) (val : Byte)
    (line : List Byte) : hread.run (blanks ++ (hexTable256 val ++ line)) = some (val, line) := by
  have skipped : (blanks ++ (hexTable256 val ++ line)).dropWhile isBlank =
      digit (val.extractLsb' 4 4) :: digit (val.extractLsb' 0 4) :: line := by
    rw [List.dropWhile_append_of_pos blank, hexTable256_eq]
    simp [numeral, (digit_class _).2]
  have value : number [digit (val.extractLsb' 4 4), digit (val.extractLsb' 0 4)] = val.toNat :=
    number_numeral digitValue_digit val (Nat.le_refl (4 * 2))
  simp only [hread, StateT.run_bind, StateT.run_modify, skipped, Option.pure_def,
    Option.bind_eq_bind, Option.bind_some, char_run (digit_class _).1, StateT.run_pure, value,
    BitVec.ofNat_toNat, BitVec.setWidth_eq]

theorem hread_nil : hread.run [] = none :=
  rfl

/-- A line is read if and only if it has four bytes. -/
theorem readWord_lineBuf {bytes : List Byte} (some_bytes : bytes ≠ [])
    (few : bytes.length ≤ 4) :
    readWord.run' (lineBuf bytes) =
      if bytes.length = 4 then some (wordAt bytes 0) else none := by
  have first : ∀ val line, hread.run (hexTable256 val ++ line) = some (val, line) :=
    fun val line => hread_run (fun _ mem => absurd mem List.not_mem_nil) val line
  have only : ∀ val, hread.run (hexTable256 val) = some (val, []) := by
    intro val
    rw [← List.append_nil (hexTable256 val), first]
  have later : ∀ val line, hread.run (0x20#8 :: (hexTable256 val ++ line)) = some (val, line) :=
    fun val line => hread_run (by decide : ∀ c ∈ [0x20#8], isBlank c = true) val line
  have last : ∀ val, hread.run (0x20#8 :: hexTable256 val) = some (val, []) := by
    intro val
    rw [← List.append_nil (hexTable256 val), later]
  rcases bytes with _ | ⟨b₀, _ | ⟨b₁, _ | ⟨b₂, _ | ⟨b₃, _ | ⟨b₄, others⟩⟩⟩⟩⟩
  · exact absurd rfl some_bytes
  · simp [StateT.run'_eq, readWord, lineBuf, only, hread_nil]
  · simp [StateT.run'_eq, readWord, lineBuf, first, last, hread_nil]
  · simp [StateT.run'_eq, readWord, lineBuf, first, later, last, hread_nil]
  · simp [StateT.run'_eq, readWord, lineBuf, first, later, last, wordAt]
  · simp only [List.length_cons] at few
    omega

theorem newline_not_mem_lineBuf (bytes : List Byte) : newline ∉ lineBuf bytes := by
  have digits : ∀ val, newline ∉ hexTable256 val := by
    intro val
    rw [hexTable256_eq]
    exact newline_not_mem_numeral digitValue_digit 2 val
  have space : newline ≠ 0x20#8 := by decide
  fun_induction lineBuf bytes with
  | case1 => exact List.not_mem_nil
  | case2 val => exact digits val
  | case3 val next others ih => simp [digits, space, ih]

/-! ### Words -/

theorem flatten_wordsOf (b : List Byte) : (wordsOf b).flatten = b := by
  fun_induction wordsOf b with
  | case1 b₀ b₁ b₂ b₃ others ih => simp [ih]
  | case2 => rfl
  | case3 few _ _ => simp

theorem wordsOf_length (b : List Byte) : ∀ bytes ∈ wordsOf b, bytes ≠ [] ∧ bytes.length ≤ 4 := by
  fun_induction wordsOf b with
  | case1 b₀ b₁ b₂ b₃ others ih =>
      rw [List.forall_mem_cons]
      exact ⟨⟨List.cons_ne_nil _ _, le_rfl⟩, ih⟩
  | case2 => exact fun _ mem => absurd mem List.not_mem_nil
  | case3 few not_four not_nil =>
      rw [List.forall_mem_singleton]
      refine ⟨not_nil, ?_⟩
      rcases few with _ | ⟨b₀, _ | ⟨b₁, _ | ⟨b₂, _ | ⟨b₃, others⟩⟩⟩⟩ <;> simp
      exact absurd rfl (not_four b₀ b₁ b₂ b₃ others)

/-- They all have four if and only if the read is a multiple of four. -/
theorem wordsOf_four_iff (b : List Byte) :
    (∀ bytes ∈ wordsOf b, bytes.length = 4) ↔ 4 ∣ b.length := by
  fun_induction wordsOf b with
  | case1 b₀ b₁ b₂ b₃ others ih =>
      have longer : 4 ∣ (b₀ :: b₁ :: b₂ :: b₃ :: others).length ↔ 4 ∣ others.length :=
        Nat.dvd_add_self_right
      rw [List.forall_mem_cons, ih, longer]
      exact and_iff_right rfl
  | case2 => simp
  | case3 few not_four not_nil =>
      rw [List.forall_mem_singleton]
      rcases few with _ | ⟨b₀, _ | ⟨b₁, _ | ⟨b₂, _ | ⟨b₃, others⟩⟩⟩⟩
      · exact absurd rfl not_nil
      · simp
      · simp
      · simp
      · exact absurd rfl (not_four b₀ b₁ b₂ b₃ others)

/-! ### The round trip -/

theorem wordAt_nil (i : Nat) : wordAt [] i = 0 := by
  simp [wordAt]

theorem wordAt_append_zero {bytes : List Byte} (four : bytes.length = 4) (image : List Byte) :
    wordAt (bytes ++ image) 0 = wordAt bytes 0 := by
  have early : ∀ j, j < 4 → (bytes ++ image).getD j 0 = bytes.getD j 0 :=
    fun j less => List.getD_append _ _ _ _ (four ▸ less)
  simp only [wordAt, Nat.mul_zero, Nat.zero_add, early 0 (by decide), early 1 (by decide),
    early 2 (by decide), early 3 (by decide)]

theorem wordAt_append_succ {bytes : List Byte} (four : bytes.length = 4) (image : List Byte)
    (i : Nat) : wordAt (bytes ++ image) (i + 1) = wordAt image i := by
  have later : ∀ j, (bytes ++ image).getD (4 * (i + 1) + j) 0 = image.getD (4 * i + j) 0 := by
    intro j
    rw [List.getD_append_right _ _ _ _ (by omega), four]
    congr 1
    omega
  have now : (bytes ++ image).getD (4 * (i + 1)) 0 = image.getD (4 * i) 0 := later 0
  simp only [wordAt, later, now]

theorem loadLines_four {words : List (List Byte)} (four : ∀ bytes ∈ words, bytes.length = 4)
    {i : Nat} {tmpMem : Fin memWords → BitVec 32} (blank : ∀ n, i ≤ n.val → tmpMem n = 0) :
    loadLines (words.map lineBuf) i tmpMem =
      some fun n => if n.val < i then tmpMem n else wordAt words.flatten (n - i) := by
  induction words generalizing i tmpMem with
  | nil =>
      rw [List.map_nil, loadLines]
      congr 1
      ext1 n
      split_ifs with before
      · rfl
      · rw [blank n (by omega), List.flatten_nil, wordAt_nil]
  | cons bytes words ih =>
      obtain ⟨first, others⟩ := List.forall_mem_cons.mp four
      have some_bytes : bytes ≠ [] := by
        rintro rfl
        cases first
      rw [List.map_cons, loadLines]
      split_ifs with inside
      · rw [readWord_lineBuf some_bytes first.le, if_pos first, Option.bind_eq_bind,
          Option.bind_some, ih others, List.flatten_cons]
        · congr 1
          ext1 n
          rcases Nat.lt_trichotomy n.val i with before | now | after
          · have differs : n ≠ ⟨i, inside⟩ := Fin.ne_of_val_ne (Nat.ne_of_lt before)
            rw [if_pos before, if_pos (by omega), Function.update_of_ne differs]
          · obtain rfl : n = ⟨i, inside⟩ := Fin.ext now
            rw [if_pos (by simp), if_neg (by simp), Function.update_self, Nat.sub_self,
              wordAt_append_zero first]
          · obtain ⟨m, next⟩ : ∃ m, n.val - i = m + 1 := ⟨n.val - (i + 1), by omega⟩
            rw [if_neg (by omega), if_neg (by omega), next, wordAt_append_succ first]
            congr 1
            omega
        · intro n after
          rw [Function.update_of_ne (Fin.ne_of_val_ne (Nat.ne_of_gt (Nat.lt_of_succ_le after)))]
          exact blank n (by omega)
      · congr 1
        ext1 n
        rw [if_pos (by omega)]

theorem loadLines_short {words : List (List Byte)}
    (shape : ∀ bytes ∈ words, bytes ≠ [] ∧ bytes.length ≤ 4)
    (short : ¬ ∀ bytes ∈ words, bytes.length = 4) {i : Nat}
    {tmpMem : Fin memWords → BitVec 32} (room : 4 * i + words.flatten.length ≤ 4 * memWords) :
    loadLines (words.map lineBuf) i tmpMem = none := by
  induction words generalizing i tmpMem with
  | nil => exact absurd (fun _ mem => absurd mem List.not_mem_nil) short
  | cons bytes words ih =>
      obtain ⟨⟨some_bytes, few⟩, others⟩ := List.forall_mem_cons.mp shape
      have positive := List.length_pos_iff.mpr some_bytes
      rw [List.flatten_cons, List.length_append] at room
      rw [List.map_cons, loadLines, dif_pos (by omega), readWord_lineBuf some_bytes few]
      by_cases four : bytes.length = 4
      · have later : ¬ ∀ bytes ∈ words, bytes.length = 4 := fun all =>
          short (List.forall_mem_cons.mpr ⟨four, all⟩)
        rw [if_pos four, Option.bind_eq_bind, Option.bind_some]
        exact ih others later (by omega)
      · rw [if_neg four]
        rfl

/-- The bytes of the lines that are written. -/
def written (chunks : List (List Byte)) (last : List Byte) (byteCount : Int) :
    List (List Byte) :=
  (chunks ++ [last]).flatMap wordsOf ++
    List.replicate (byteCount - (chunks.flatten ++ last).length).toNat [0]

theorem convertLoop_reader (chunks : List (List Byte)) (last : List Byte) (byteCount : Int) :
    convertLoop (reader chunks last) byteCount =
      .ok ((chunks ++ [last]).flatMap convertRead,
        byteCount - (chunks.flatten ++ last).length) := by
  induction chunks generalizing byteCount with
  | nil => simp [reader, convertLoop]
  | cons b chunks ih =>
      have rest : convertLoop (chunks.map (fun b => ⟨b, none⟩) ++ [⟨last, some .eof⟩])
          (byteCount - b.length) = _ := ih (byteCount - b.length)
      have count : byteCount - ((b :: chunks).flatten ++ last).length =
          byteCount - b.length - (chunks.flatten ++ last).length := by
        rw [List.flatten_cons, List.append_assoc, List.length_append]
        omega
      rw [reader, List.map_cons, List.cons_append, convertLoop, rest, count]
      rfl

/-- The text that is written has these lines. -/
theorem convert_reader (chunks : List (List Byte)) (last : List Byte) (byteCount : Int) :
    convert (reader chunks last) byteCount =
      .ok ((written chunks last byteCount).flatMap fun bytes => lineBuf bytes ++ [newline]) := by
  have zeros : padding = lineBuf [0] ++ [newline] := by decide
  have image : (chunks ++ [last]).flatMap convertRead =
      ((chunks ++ [last]).flatMap wordsOf).flatMap fun bytes => lineBuf bytes ++ [newline] := by
    rw [List.flatMap_assoc]
    rfl
  rw [convert, convertLoop_reader]
  simp only [bind, Except.bind, pure, Except.pure, written, List.flatMap_append, zeros, image,
    List.flatMap_replicate]

theorem loaded_eq (chunks : List (List Byte)) (last : List Byte) (byteCount : Int) :
    loaded memWords chunks last byteCount =
      loadLines ((written chunks last byteCount).map lineBuf) 0 fun _ => 0 := by
  have text : lines ((written chunks last byteCount).flatMap
      fun bytes => lineBuf bytes ++ [newline]) = (written chunks last byteCount).map lineBuf := by
    rw [← List.flatMap_map lineBuf fun line => line ++ [newline]]
    apply lines_flatMap
    intro line mem
    obtain ⟨bytes, _, rfl⟩ := List.mem_map.mp mem
    exact newline_not_mem_lineBuf bytes
  rw [loaded, convert_reader]
  simp only [Except.toOption, Option.bind_eq_bind, Option.bind_some, loadMem, text]

/-- Are there four bytes on every line?  Every read was of a multiple of four bytes, and
there is nothing to fill. -/
theorem written_four_iff (chunks : List (List Byte)) (last : List Byte) (byteCount : Int) :
    (∀ bytes ∈ written chunks last byteCount, bytes.length = 4) ↔
      (∀ chunk ∈ chunks ++ [last], 4 ∣ chunk.length) ∧
        byteCount ≤ (chunks.flatten ++ last).length := by
  rw [written, List.forall_mem_append]
  apply and_congr
  · rw [List.forall_mem_flatMap]
    exact forall₂_congr fun chunk _ => wordsOf_four_iff chunk
  · rw [List.forall_mem_replicate]
    simp

theorem flatten_written (chunks : List (List Byte)) (last : List Byte) (byteCount : Int) :
    (written chunks last byteCount).flatten = chunks.flatten ++ last ++
      List.replicate (byteCount - (chunks.flatten ++ last).length).toNat 0 := by
  have image : ((chunks ++ [last]).flatMap wordsOf).flatten = chunks.flatten ++ last := by
    rw [← List.flatMap_id, List.flatMap_assoc]
    simp [flatten_wordsOf]
  have zeros : ∀ count, (List.replicate count [(0 : Byte)]).flatten = List.replicate count 0 := by
    intro count
    simp [List.flatten_replicate_singleton]
  rw [written, List.flatten_append, image, zeros]

theorem written_shape (chunks : List (List Byte)) (last : List Byte) (byteCount : Int) :
    ∀ bytes ∈ written chunks last byteCount, bytes ≠ [] ∧ bytes.length ≤ 4 := by
  rw [written, List.forall_mem_append, List.forall_mem_flatMap, List.forall_mem_replicate]
  exact ⟨fun chunk _ => wordsOf_length chunk, by simp⟩

/-- The image is loaded, with zeros after it, if and only if every read but for the
empty ones is of a multiple of four bytes, and there is nothing to fill. -/
theorem loaded_iff (memWords : Nat) (chunks : List (List Byte)) (last : List Byte)
    (byteCount : Int)
    (enough : max byteCount (chunks.flatten ++ last).length ≤ 4 * memWords) :
    loaded memWords chunks last byteCount =
        some (fun n : Fin memWords => wordAt (chunks.flatten ++ last) n) ↔
      (∀ chunk ∈ chunks ++ [last], 4 ∣ chunk.length) ∧
        byteCount ≤ (chunks.flatten ++ last).length := by
  have flatten := flatten_written chunks last byteCount
  rw [← written_four_iff, loaded_eq]
  constructor
  · intro loads
    by_contra short
    rw [loadLines_short (written_shape chunks last byteCount) short] at loads
    · cases loads
    · rw [flatten, List.length_append, List.length_replicate]
      omega
  · intro four
    have filled := ((written_four_iff chunks last byteCount).mp four).2
    rw [loadLines_four four fun _ _ => rfl, flatten, Int.toNat_of_nonpos (by omega)]
    simp

def twoWords : List Byte := [0x13#8, 0, 0, 0, 0x6F#8, 0, 0, 0]

theorem loaded_twoWords :
    max 8 ([twoWords].flatten ++ []).length ≤ 4 * 3 ∧
      (loaded 3 [twoWords] [] 8 = some (fun n : Fin 3 => wordAt ([twoWords].flatten ++ []) n) ↔
        (∀ chunk ∈ [twoWords] ++ [[]], 4 ∣ chunk.length) ∧
          (8 : Int) ≤ ([twoWords].flatten ++ []).length) :=
  ⟨by decide, loaded_iff 3 [twoWords] [] 8 (by decide)⟩

/-- The image of one word, read in two chunks, is not loaded. -/
theorem loaded_not_of_short_read :
    ¬ ∀ (memWords : Nat) (chunks : List (List Byte)) (last : List Byte) (byteCount : Int),
      0 ≤ byteCount → (∀ chunk ∈ chunks, 0 < chunk.length) →
      max byteCount (chunks.flatten ++ last).length ≤ 4 * memWords →
        loaded memWords chunks last byteCount =
          some fun n : Fin memWords => wordAt (chunks.flatten ++ last) n := by
  intro claim
  have loads := claim 1 [[0x13#8, 0], [0, 0]] [] 0 (by decide) (by decide) (by decide)
  have fails : loaded 1 [[0x13#8, 0], [0, 0]] [] 0 = none := by decide +kernel
  rw [fails] at loads
  cases loads

end Bintomemh

end Cocoapuffs

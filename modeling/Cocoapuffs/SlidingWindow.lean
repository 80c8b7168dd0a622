import Mathlib.Data.Int.ModEq
import Mathlib.Data.List.Infix
import Mathlib.Logic.Function.Basic
import Mathlib.Tactic.Common

/-!
# Sliding windows

A store with a slot for every word of `k` bits, written in a circle: element `j`
of a list is put in slot `j` modulo the size, over the element that was there.
-/

namespace Cocoapuffs

namespace SlidingWindow

variable {α : Type*} {k : Nat}

/-- The last `count` elements of a list, all of them if there are fewer. -/
def latest (count : Nat) (elements : List α) : List α :=
  elements.drop (elements.length - count)

theorem latest_of_length_le {count : Nat} {elements : List α}
    (few : elements.length ≤ count) : latest count elements = elements := by
  rw [latest, Nat.sub_eq_zero_of_le few, List.drop_zero]

/-- The store has the last `2 ^ k` elements of the list in their slots. -/
def Holds (mem : BitVec k → α) (elements : List α) : Prop :=
  ∀ (j : Nat) (inside : j < elements.length), elements.length ≤ j + 2 ^ k →
    mem (BitVec.ofNat k j) = elements[j]

theorem Holds.nil (mem : BitVec k → α) : Holds mem [] :=
  fun _ inside => absurd inside (Nat.not_lt_zero _)

theorem slot_ne {i j : Nat} (before : i < j) (near : j < i + 2 ^ k) :
    BitVec.ofNat k i ≠ BitVec.ofNat k j := by
  intro same
  have congruent : i % 2 ^ k = j % 2 ^ k := by
    simpa using congrArg BitVec.toNat same
  have divides : 2 ^ k ∣ j - i := (Nat.modEq_iff_dvd' before.le).mp congruent
  have atLeast := Nat.le_of_dvd (by omega) divides
  omega

theorem Holds.write {mem : BitVec k → α} {elements : List α} (holds : Holds mem elements)
    (element : α) :
    Holds (Function.update mem (BitVec.ofNat k elements.length) element)
      (elements ++ [element]) := by
  intro j inside recent
  rw [List.length_append, List.length_singleton] at inside recent
  rcases Nat.lt_succ_iff_lt_or_eq.mp inside with old | rfl
  · rw [Function.update_of_ne (slot_ne old (by omega)), List.getElem_append_left old]
    exact holds j old (by omega)
  · rw [Function.update_self, List.getElem_concat_length rfl]

/-- The elements of so many slots from a slot on. -/
def read (mem : BitVec k → α) (start : BitVec k) : Nat → List α
  | 0 => []
  | count + 1 => mem start :: read mem (start + 1) count

/-- Elements of the window are read in their order. -/
theorem Holds.read_eq {mem : BitVec k → α} {elements : List α} (holds : Holds mem elements)
    {start count : Nat} (recent : elements.length ≤ start + 2 ^ k)
    (enough : start + count ≤ elements.length) :
    read mem (BitVec.ofNat k start) count = (elements.drop start).take count := by
  induction count generalizing start with
  | zero => rfl
  | succ count ih =>
      have inside : start < elements.length := by omega
      have next : BitVec.ofNat k start + 1 = BitVec.ofNat k (start + 1) :=
        (BitVec.ofNat_add start 1).symm
      rw [read, next, ih (by omega) (by omega), holds start inside recent,
        List.drop_eq_getElem_cons inside, List.take_succ_cons]

/-- A window that is full is read from the next slot to write on. -/
theorem Holds.read_full {mem : BitVec k → α} {elements : List α} (holds : Holds mem elements)
    (full : 2 ^ k ≤ elements.length) :
    read mem (BitVec.ofNat k elements.length) (2 ^ k) = latest (2 ^ k) elements := by
  have slot : BitVec.ofNat k elements.length =
      BitVec.ofNat k (elements.length - 2 ^ k) := by
    apply BitVec.eq_of_toNat_eq
    rw [BitVec.toNat_ofNat, BitVec.toNat_ofNat, ← Nat.mod_eq_sub_mod full]
  rw [slot, holds.read_eq (by omega) (by omega), latest]
  apply List.take_of_length_le
  rw [List.length_drop, Nat.sub_sub_self full]

/-- One that is not is read from the first slot on. -/
theorem Holds.read_partial {mem : BitVec k → α} {elements : List α}
    (holds : Holds mem elements) (few : elements.length ≤ 2 ^ k) {count : Nat}
    (enough : count ≤ elements.length) : read mem 0 count = elements.take count :=
  @Holds.read_eq _ _ _ _ holds 0 count (by omega) (by omega)

end SlidingWindow

end Cocoapuffs

import Mathlib.Data.List.Infix
import Mathlib.Data.Nat.Find
import Mathlib.Tactic.Common

/-!
# Occurrences of a word

Where a word stands in a text, where it first does, and what the overlaps of the
word with itself have to do with it.
-/

namespace Cocoapuffs

namespace Occurrence

variable {α : Type*} {word text past : List α} {start : Nat}

/-- The word stands in the text from `start` on. -/
def At (word text : List α) (start : Nat) : Prop := word <+: text.drop start

/-- It does so for the first time. -/
structure First (word text : List α) (start : Nat) : Prop where
  here : At word text start
  before : ∀ earlier, earlier < start → ¬ At word text earlier

/-- An end of the word that begins as the word does is a beginning of the word. -/
def Unambiguous (word : List α) : Prop :=
  ∀ rest, rest <:+ word → rest.head? = word.head? → rest <+: word

theorem infix_iff : word <:+: text ↔ ∃ start, At word text start := by
  rw [List.infix_iff_prefix_suffix]
  constructor
  · rintro ⟨rest, front, suffix⟩
    rw [List.suffix_iff_eq_drop] at suffix
    exact ⟨_, suffix ▸ front⟩
  · rintro ⟨start, here⟩
    exact ⟨_, here, List.drop_suffix _ _⟩

theorem At.length_le (nonempty : word ≠ []) (here : At word text start) :
    start + word.length ≤ text.length := by
  have positive := List.length_pos_of_ne_nil nonempty
  have fits : word.length ≤ (text.drop start).length := List.IsPrefix.length_le here
  rw [List.length_drop] at fits
  omega

theorem At.mono (begins : past <+: text) (here : At word past start) : At word text start :=
  here.trans (begins.drop start)

theorem At.of_le (begins : past <+: text) (here : At word text start)
    (fits : start + word.length ≤ past.length) : At word past start := by
  apply List.prefix_of_prefix_length_le here (begins.drop start)
  rw [List.length_drop]
  omega

theorem exists_first (occurs : word <:+: text) : ∃ start, First word text start := by
  classical
  have somewhere := infix_iff.mp occurs
  exact ⟨Nat.find somewhere, Nat.find_spec somewhere, fun _ less => Nat.find_min somewhere less⟩

theorem First.mono (nonempty : word ≠ []) (begins : past <+: text)
    (first : First word past start) : First word text start where
  here := first.here.mono begins
  before earlier less here := by
    have fits := first.here.length_le nonempty
    exact first.before earlier less (here.of_le begins (by omega))

/-- Before its first occurrence is over the word does not occur. -/
theorem First.not_infix (nonempty : word ≠ []) (first : First word text start)
    (begins : past <+: text) (short : past.length < start + word.length) : ¬ word <:+: past := by
  intro occurs
  obtain ⟨earlier, here⟩ := infix_iff.mp occurs
  have fits := here.length_le nonempty
  exact first.before earlier (by omega) (here.mono begins)

/-! ### Overlaps -/

theorem prefix_take_append_iff {count : Nat} :
    word <+: word.take count ++ word ↔ word.drop count <+: word := by
  have parts : word = word.take count ++ word.drop count := (List.take_append_drop count word).symm
  constructor
  · intro overlaps
    rw [parts, List.take_append_drop] at overlaps
    nth_rewrite 1 [parts] at overlaps
    exact (List.prefix_append_right_inj _).mp overlaps
  · intro overlaps
    nth_rewrite 1 [parts]
    exact (List.prefix_append_right_inj _).mpr overlaps

/-- An ambiguous word has an end with which it can be followed so that it first
occurs there. -/
theorem exists_first_of_ambiguous (ambiguous : ¬ Unambiguous word) :
    ∃ p, 0 < p ∧ p < word.length ∧ (word.drop p).head? = word.head? ∧
      First word (word.take p ++ word) p := by
  classical
  have some : ∃ p, p < word.length ∧ (word.drop p).head? = word.head? ∧
      ¬ word.drop p <+: word := by
    simp only [Unambiguous, not_forall] at ambiguous
    obtain ⟨rest, suffix, head, apart⟩ := ambiguous
    rw [List.suffix_iff_eq_drop] at suffix
    refine ⟨_, ?_, suffix ▸ head, suffix ▸ apart⟩
    by_contra long
    rw [List.drop_eq_nil_of_le (by omega)] at suffix
    exact apart (suffix ▸ List.nil_prefix)
  obtain ⟨less, head, apart⟩ := Nat.find_spec some
  have minimal := fun q => @Nat.find_min _ _ some q
  generalize Nat.find some = p at less head apart minimal
  have positive : 0 < p := by
    by_contra zero
    obtain rfl : p = 0 := by omega
    exact apart (List.prefix_refl _)
  have length : (word.take p).length = p := List.length_take_of_le less.le
  refine ⟨p, positive, less, head, ?_, fun a early here => ?_⟩
  · rw [At, List.drop_left' length]
  · rw [At, List.drop_append_of_le_length (by omega), List.drop_take] at here
    rcases Nat.eq_zero_or_pos a with rfl | later
    · exact apart (prefix_take_append_iff.mp here)
    · -- The word has the periods `a` and `p - a`, and so `p`.
      have middle : (word.drop a).take (p - a) = word.take (p - a) := by
        have size : ((word.drop a).take (p - a)).length = p - a := by
          rw [List.length_take, List.length_drop]
          omega
        have front := List.prefix_of_prefix_length_le (List.prefix_append _ word) here
          (by omega)
        rw [List.prefix_iff_eq_take.mp front, size]
      have head_a : (word.drop a).head? = word.head? := by
        have heads := congrArg List.head? middle
        rwa [List.head?_take, List.head?_take, if_neg (by omega), if_neg (by omega)] at heads
      have period : word.drop a <+: word := by
        by_contra other
        exact minimal a early ⟨by omega, head_a, other⟩
      have period' : word.drop (p - a) <+: word := by
        rw [middle] at here
        exact prefix_take_append_iff.mp here
      have sum := period.drop (p - a)
      rw [List.drop_drop, show a + (p - a) = p by omega] at sum
      exact apart (sum.trans period')

end Occurrence

end Cocoapuffs

import Cocoapuffs.Occurrence
import Mathlib.Data.BitVec
import Mathlib.Data.List.Induction

/-!
# The check of the serial output

The second process of `uart_check`, which looks for a target string in the
characters that the first one hands over.  After a mismatch it goes on from the
target's first character at most, so that a target can slip by which overlaps
with what was matched before.
-/

namespace Cocoapuffs

namespace UartCheck

open Occurrence (At First Unambiguous)

/-- There is a character for each value of `received_char`. -/
abbrev Character := BitVec 8

/-- The generic that the process uses. -/
structure Generics where
  targetString : List Character
  nonempty : targetString ≠ []

/-- What is reported: `"UART received: "` with a character, or
`"SUCCESS: Found target string '"` with the target. -/
inductive Report where
  | uartReceived (c : Character)
  | foundTarget (target : List Character)
deriving DecidableEq

/-- The process waits for ever once `success` is true. -/
structure State (g : Generics) where
  matchIdx : Nat
  success : Bool
  reports : List Report
  lower : 1 ≤ matchIdx
  upper : matchIdx ≤ g.targetString.length

variable {g : Generics}

/-- `current_target(1)`. -/
def Generics.first (g : Generics) : Character := g.targetString.head g.nonempty

theorem State.index_lt (s : State g) : s.matchIdx - 1 < g.targetString.length := by
  have lower := s.lower
  have upper := s.upper
  omega

/-- `current_target(match_idx)`. -/
def State.expected (s : State g) : Character := g.targetString.get ⟨s.matchIdx - 1, s.index_lt⟩

theorem expected_of_one {s : State g} (one : s.matchIdx = 1) : s.expected = g.first := by
  simp [State.expected, Generics.first, one, List.head_eq_getElem]

theorem two_le_matchIdx {s : State g} (other : s.expected ≠ g.first) : 2 ≤ s.matchIdx := by
  have lower := s.lower
  have later : s.matchIdx ≠ 1 := fun one => other (expected_of_one one)
  omega

def State.new (g : Generics) : State g :=
  ⟨1, false, [], le_rfl, List.length_pos_of_ne_nil g.nonempty⟩

/-- A character is handed over. -/
def State.step (c : Character) (s : State g) : State g :=
  if s.success then s
  else if same : c = s.expected then
    if full : s.matchIdx = g.targetString.length then
      { s with
        success := true
        reports := s.reports ++ [.uartReceived c, .foundTarget g.targetString] }
    else
      { s with
        matchIdx := s.matchIdx + 1
        reports := s.reports ++ [.uartReceived c]
        lower := Nat.le_add_left 1 _
        upper := Nat.lt_of_le_of_ne s.upper full }
  else if first : c = g.first then
    { s with
      matchIdx := 2
      reports := s.reports ++ [.uartReceived c]
      lower := Nat.le_add_left 1 1
      upper := (two_le_matchIdx fun equal => same (first.trans equal.symm)).trans s.upper }
  else
    { s with
      matchIdx := 1
      reports := s.reports ++ [.uartReceived c]
      lower := le_rfl
      upper := List.length_pos_of_ne_nil g.nonempty }

/-- The state after these characters. -/
def run (g : Generics) (received : List Character) : State g :=
  received.foldl (fun s c => s.step c) (State.new g)

/-- At each moment of a stream there is success if and only if the target has
occurred. -/
def Detects (g : Generics) (received : List Character) : Prop :=
  ∀ past, past <+: received → ((run g past).success = true ↔ g.targetString <:+: past)

/-- The target's first character is taken for the first one. -/
def State.Fresh (s : State g) : Prop := s.matchIdx = 1 ∨ s.expected ≠ g.first

/-! ### One character -/

theorem State.step_of_success {s : State g} (success : s.success = true) (c : Character) :
    s.step c = s :=
  if_pos success

/-- What a character does before the target has been found. -/
theorem State.step_cases {s : State g} (searching : s.success = false) (c : Character) :
    (c = s.expected ∧ s.matchIdx = g.targetString.length ∧ (s.step c).success = true) ∨
      (c = s.expected ∧ s.matchIdx < g.targetString.length ∧ (s.step c).success = false ∧
        (s.step c).matchIdx = s.matchIdx + 1) ∨
      (c ≠ s.expected ∧ c = g.first ∧ (s.step c).success = false ∧ (s.step c).matchIdx = 2) ∨
      (c ≠ s.expected ∧ c ≠ g.first ∧ (s.step c).success = false ∧
        (s.step c).matchIdx = 1) := by
  rw [State.step, if_neg (by simp [searching])]
  by_cases same : c = s.expected
  · by_cases full : s.matchIdx = g.targetString.length
    · rw [dif_pos same, dif_pos full]
      exact .inl ⟨same, full, rfl⟩
    · rw [dif_pos same, dif_neg full]
      exact .inr (.inl ⟨same, Nat.lt_of_le_of_ne s.upper full, searching, rfl⟩)
  · by_cases first : c = g.first
    · rw [dif_neg same, dif_pos first]
      exact .inr (.inr (.inl ⟨same, first, searching, rfl⟩))
    · rw [dif_neg same, dif_neg first]
      exact .inr (.inr (.inr ⟨same, first, searching, rfl⟩))

theorem run_concat (past : List Character) (c : Character) :
    run g (past ++ [c]) = (run g past).step c := by
  rw [run, List.foldl_concat]
  rfl

theorem success_append {past : List Character} (success : (run g past).success = true)
    (more : List Character) : (run g (past ++ more)).success = true := by
  induction more using List.reverseRecOn with
  | nil => rwa [List.append_nil]
  | append_singleton more c ih =>
      rw [← List.append_assoc, run_concat, State.step_of_success ih]
      exact ih

/-! ### What has been matched -/

theorem take_matchIdx (s : State g) : g.targetString.take s.matchIdx =
    g.targetString.take (s.matchIdx - 1) ++ [s.expected] := by
  have place : s.matchIdx - 1 + 1 = s.matchIdx := Nat.sub_add_cancel s.lower
  conv_lhs => rw [← place]
  exact (List.take_append_getElem s.index_lt).symm

theorem take_one (g : Generics) : g.targetString.take 1 = [g.first] := by
  cases target : g.targetString with
  | nil => exact absurd target g.nonempty
  | cons c rest => simp [Generics.first, target]

/-- The process has just seen the beginning of the target that it has matched. -/
theorem run_matched (past : List Character) :
    ((run g past).success = true → g.targetString <:+: past) ∧
      ((run g past).success = false →
        g.targetString.take ((run g past).matchIdx - 1) <:+ past) := by
  induction past using List.reverseRecOn with
  | nil =>
      constructor
      · intro success
        cases success
      · intro _
        exact List.suffix_refl []
  | append_singleton past c ih =>
      rw [run_concat]
      cases before : (run g past).success with
      | true =>
          rw [State.step_of_success before]
          constructor
          · intro _
            exact (ih.1 before).trans (List.prefix_append past [c]).isInfix
          · intro searching
            rw [before] at searching
            cases searching
      | false =>
          obtain ⟨front, matched⟩ := ih.2 before
          have grown : (run g past).expected = c →
              g.targetString.take (run g past).matchIdx <:+ past ++ [c] := by
            rintro rfl
            exact ⟨front, by rw [take_matchIdx, ← List.append_assoc, matched]⟩
          rcases State.step_cases before c with ⟨same, full, found⟩ | ⟨same, -, missing, next⟩ |
            ⟨-, first, missing, next⟩ | ⟨-, -, missing, next⟩
          · refine ⟨fun _ => ?_, fun searching => absurd found (by simp [searching])⟩
            have whole := grown same.symm
            rw [full, List.take_length] at whole
            exact whole.isInfix
          · refine ⟨fun success => absurd success (by simp [missing]), fun _ => ?_⟩
            rw [next]
            exact grown same.symm
          · refine ⟨fun success => absurd success (by simp [missing]), fun _ => ?_⟩
            rw [next, take_one, first]
            exact List.suffix_append past [g.first]
          · refine ⟨fun success => absurd success (by simp [missing]), fun _ => ?_⟩
            rw [next]
            exact List.nil_suffix

theorem infix_of_success {past : List Character} (success : (run g past).success = true) :
    g.targetString <:+: past :=
  (run_matched past).1 success

/-! ### The first occurrence -/

/-- The target is under way, `i` characters of it. -/
def State.Begun (i : Nat) (s : State g) : Prop :=
  s.success = false ∧ (s.matchIdx = i + 1 ∨ i = 0 ∧ s.Fresh)

theorem State.Begun.step {i : Nat} {s : State g} (begun : s.Begun i)
    (inside : i < g.targetString.length) :
    let next := s.step (g.targetString.get ⟨i, inside⟩)
    if i + 1 = g.targetString.length then next.success = true else next.Begun (i + 1) := by
  obtain ⟨searching, place⟩ := begun
  have split : s.matchIdx = i + 1 ∨ i = 0 ∧ s.expected ≠ g.first := by
    rcases place with place | ⟨zero, one | away⟩
    · exact .inl place
    · exact .inl (by omega)
    · exact .inr ⟨zero, away⟩
  rcases split with place | ⟨rfl, away⟩
  · have expected : g.targetString.get ⟨i, inside⟩ = s.expected := by
      simp only [State.expected, place, Nat.add_sub_cancel]
    rcases State.step_cases searching (g.targetString.get ⟨i, inside⟩) with ⟨-, full, found⟩ |
      ⟨-, more, missing, next⟩ | ⟨other, -⟩ | ⟨other, -⟩
    · rw [if_pos (by omega)]
      exact found
    · rw [if_neg (by omega)]
      exact ⟨missing, .inl (by omega)⟩
    · exact absurd expected other
    · exact absurd expected other
  · have first : g.targetString.get ⟨0, inside⟩ = g.first := by
      simp only [Generics.first, List.head_eq_getElem, List.get_eq_getElem]
    rcases State.step_cases searching (g.targetString.get ⟨0, inside⟩) with ⟨same, -⟩ |
      ⟨same, -⟩ | ⟨-, -, missing, next⟩ | ⟨-, apart, -⟩
    · exact absurd (same.symm.trans first) away
    · exact absurd (same.symm.trans first) away
    · have long := (two_le_matchIdx away).trans s.upper
      rw [if_neg (by omega)]
      exact ⟨missing, .inl next⟩
    · exact absurd first apart

theorem take_succ {i : Nat} (inside : i < g.targetString.length) :
    g.targetString.take (i + 1) = g.targetString.take i ++ [g.targetString.get ⟨i, inside⟩] :=
  (List.take_append_getElem inside).symm

theorem begun_append_take {past : List Character} (begun : (run g past).Begun 0) {i : Nat}
    (inside : i < g.targetString.length) :
    (run g (past ++ g.targetString.take i)).Begun i := by
  induction i with
  | zero => simpa using begun
  | succ i ih =>
      have next := (ih (by omega)).step (by omega)
      rw [if_neg (by omega), ← run_concat, List.append_assoc, ← take_succ] at next
      exact next

/-- An occurrence that begins where the process is fresh is found. -/
theorem success_of_fresh {past : List Character} (searching : (run g past).success = false)
    (fresh : (run g past).Fresh) : (run g (past ++ g.targetString)).success = true := by
  have positive := List.length_pos_of_ne_nil g.nonempty
  obtain ⟨last, length⟩ : ∃ last, g.targetString.length = last + 1 :=
    ⟨g.targetString.length - 1, by omega⟩
  have inside : last < g.targetString.length := by omega
  have next := (begun_append_take ⟨searching, .inr ⟨rfl, fresh⟩⟩ inside).step inside
  rw [if_pos length.symm, ← run_concat, List.append_assoc, ← take_succ, ← length,
    List.take_length] at next
  exact next

/-- One that begins where it is not is missed: what is matched then never begins
with it. -/
theorem missed_of_stale {past received : List Character}
    (first : First g.targetString received past.length)
    (begins : past ++ g.targetString <+: received) (stale : ¬ (run g past).Fresh) {i : Nat}
    (positive : 1 ≤ i) (inside : i ≤ g.targetString.length) :
    (run g (past ++ g.targetString.take i)).success = false ∧
      (run g (past ++ g.targetString.take i)).matchIdx ≠ i + 1 := by
  have early : ∀ j, j < g.targetString.length →
      (run g (past ++ g.targetString.take j)).success = false := by
    intro j short
    by_contra success
    have occurs := infix_of_success (Bool.eq_true_of_not_eq_false success)
    have shorter : past ++ g.targetString.take j <+: received :=
      ((List.prefix_append_right_inj past).mpr (List.take_prefix j _)).trans begins
    refine first.not_infix g.nonempty shorter ?_ occurs
    rw [List.length_append, List.length_take_of_le short.le]
    omega
  simp only [State.Fresh, not_or, not_not] at stale
  obtain ⟨later, expected⟩ := stale
  have lower := (run g past).lower
  have upper := (run g past).upper
  induction i, positive using Nat.le_induction with
  | base =>
      have one := early 1 (by omega)
      refine ⟨one, ?_⟩
      rw [take_one, run_concat] at one ⊢
      have before := early 0 (by omega)
      rw [List.take_zero, List.append_nil] at before
      rcases State.step_cases before g.first with ⟨-, -, found⟩ | ⟨-, -, -, next⟩ | ⟨other, -⟩ |
        ⟨other, -⟩
      · rw [one] at found
        cases found
      · omega
      · exact absurd expected.symm other
      · exact absurd expected.symm other
  | succ i positive ih =>
      obtain ⟨before, away⟩ := ih (by omega)
      rw [take_succ (by omega), ← List.append_assoc, run_concat]
      rcases State.step_cases before (g.targetString.get ⟨i, by omega⟩) with ⟨-, full, found⟩ |
        ⟨-, -, missing, next⟩ | ⟨-, -, missing, next⟩ | ⟨-, -, missing, next⟩
      · have short : i + 1 < g.targetString.length := by omega
        have missing := early (i + 1) short
        rw [take_succ (by omega), ← List.append_assoc, run_concat, found] at missing
        cases missing
      all_goals exact ⟨missing, by omega⟩

theorem searching_of_first {received : List Character} {start : Nat}
    (first : First g.targetString received start) :
    (run g (received.take start)).success = false := by
  by_contra success
  have positive := List.length_pos_of_ne_nil g.nonempty
  refine first.not_infix g.nonempty (List.take_prefix start received) ?_
    (infix_of_success (Bool.eq_true_of_not_eq_false success))
  rw [List.length_take]
  omega

/-- There is success in time if and only if the first occurrence begins where
the process is fresh. -/
theorem detects_iff_fresh (received : List Character) : Detects g received ↔
    ∀ start, First g.targetString received start → (run g (received.take start)).Fresh := by
  have split : ∀ start, First g.targetString received start →
      (received.take start).length = start ∧
        received.take start ++ g.targetString <+: received := by
    intro start first
    have fits := first.here.length_le g.nonempty
    refine ⟨List.length_take_of_le (by omega), ?_⟩
    conv_rhs => rw [← List.take_append_drop start received]
    exact (List.prefix_append_right_inj _).mpr first.here
  constructor
  · intro detects start first
    obtain ⟨length, begins⟩ := split start first
    by_contra stale
    have positive := List.length_pos_of_ne_nil g.nonempty
    have missing := (missed_of_stale (length.symm ▸ first) begins stale positive le_rfl).1
    rw [List.take_length] at missing
    have found := (detects _ begins).mpr (List.suffix_append _ _).isInfix
    rw [missing] at found
    cases found
  · intro fresh past begins
    refine ⟨infix_of_success, fun occurs => ?_⟩
    obtain ⟨start, first⟩ := Occurrence.exists_first occurs
    have first' := first.mono g.nonempty begins
    obtain ⟨length, whole⟩ := split start first'
    have found := success_of_fresh (searching_of_first first') (fresh start first')
    have fits := first.here.length_le g.nonempty
    obtain ⟨more, rfl⟩ : received.take start ++ g.targetString <+: past := by
      apply List.prefix_of_prefix_length_le whole begins
      rw [List.length_append, length]
      exact fits
    exact success_append found more

/-! ### The targets that are always found -/

theorem head?_drop_matchIdx (s : State g) :
    (g.targetString.drop (s.matchIdx - 1)).head? = some s.expected := by
  rw [List.head?_drop, List.getElem?_eq_getElem s.index_lt]
  rfl

theorem head?_target (g : Generics) : g.targetString.head? = some g.first :=
  List.head?_eq_some_head g.nonempty

/-- Where the target goes on from its own beginning, it has occurred before. -/
theorem fresh_of_unambiguous (unambiguous : Unambiguous g.targetString)
    {received : List Character} {start : Nat} (first : First g.targetString received start) :
    (run g (received.take start)).Fresh := by
  by_contra stale
  simp only [State.Fresh, not_or, not_not] at stale
  obtain ⟨later, expected⟩ := stale
  have lower := (run g (received.take start)).lower
  obtain ⟨front, matched⟩ := (run_matched (received.take start)).2 (searching_of_first first)
  generalize run g (received.take start) = s at later expected lower matched
  have upper := s.upper
  have overlap := unambiguous _ (List.drop_suffix (s.matchIdx - 1) _)
    ((head?_drop_matchIdx s).trans ((congrArg some expected).trans (head?_target g).symm))
  have fits := first.here.length_le g.nonempty
  have length := congrArg List.length matched
  rw [List.length_append, List.length_take_of_le s.index_lt.le,
    List.length_take_of_le (by omega)] at length
  apply first.before front.length (by omega)
  have text : received =
      front ++ (g.targetString.take (s.matchIdx - 1) ++ received.drop start) := by
    rw [← List.append_assoc, matched, List.take_append_drop]
  rw [At, text, List.drop_left]
  exact (Occurrence.prefix_take_append_iff.mpr overlap).trans
    ((List.prefix_append_right_inj _).mpr first.here)

theorem detects_all_iff : (∀ received, Detects g received) ↔ Unambiguous g.targetString := by
  constructor
  · intro detects
    by_contra ambiguous
    obtain ⟨p, positive, inside, head, first⟩ := Occurrence.exists_first_of_ambiguous ambiguous
    have fresh := (detects_iff_fresh _).mp (detects _) p first
    have start : (run g []).Begun 0 := ⟨rfl, .inl rfl⟩
    have begun := begun_append_take start inside
    rw [List.nil_append] at begun
    rw [List.take_left' (List.length_take_of_le inside.le)] at fresh
    obtain ⟨-, place | ⟨zero, -⟩⟩ := begun
    · rcases fresh with one | away
      · omega
      · apply away
        have heads := head.trans (head?_target g)
        rw [show p = (run g (g.targetString.take p)).matchIdx - 1 by omega] at heads
        rw [head?_drop_matchIdx] at heads
        exact Option.some.inj heads
    · omega
  · intro unambiguous received
    exact (detects_iff_fresh received).mpr fun start first =>
      fresh_of_unambiguous unambiguous first

/-- A target is found in time in just those streams in which its first occurrence
begins where the process takes it for a beginning; that is every stream if and
only if each end of the target that begins as the target does is a beginning of
it. -/
theorem detection_iff (g : Generics) :
    (∀ received, Detects g received ↔ ∀ start, First g.targetString received start →
      (run g (received.take start)).Fresh) ∧
    ((∀ received, Detects g received) ↔ Unambiguous g.targetString) :=
  ⟨detects_iff_fresh, detects_all_iff⟩

/-- The target `aab`. -/
def doubled : Generics := ⟨[0x61, 0x61, 0x62], by decide⟩

/-- The characters `aaab`. -/
def tripled : List Character := [0x61, 0x61, 0x61, 0x62]

theorem tripled_missed : (run doubled tripled).success = false ∧
    doubled.targetString <:+: tripled ∧ ¬ Detects doubled tripled := by
  have missing : (run doubled tripled).success = false := by decide
  have occurs : doubled.targetString <:+: tripled := ⟨[0x61], [], rfl⟩
  refine ⟨missing, occurs, fun detects => ?_⟩
  have found := (detects tripled (List.prefix_refl _)).mpr occurs
  rw [missing] at found
  cases found

end UartCheck

end Cocoapuffs

import Cocoapuffs.Trace
import Mathlib.Data.BitVec

/-!
# The debouncer

The entity `debouncer`: a raw input is synchronised to `clk`, and a new level is
taken over when it has lasted for the whole window.  One instant is one rising
edge of `clk`.
-/

namespace Cocoapuffs

namespace Debouncer

structure Generics where
  countBits : Nat
  positive : 0 < countBits

/-- The window in cycles. -/
def Generics.window (g : Generics) : Nat := 2 ^ g.countBits

structure State (g : Generics) where
  sync : BitVec 2
  cnt : BitVec g.countBits
  cleanR : Bool

variable {g : Generics}

/-- The input in the domain of the clock. -/
def State.synced (s : State g) : Bool := s.sync.getLsbD 1

/-- One rising edge. -/
def State.step (rstn raw : Bool) (s : State g) : State g :=
  if !rstn then ⟨0, 0, false⟩
  else
    let shifted := { s with sync := s.sync.extractLsb' 0 1 ++ BitVec.ofBool raw }
    if s.synced = s.cleanR then { shifted with cnt := 0 }
    else if s.cnt = BitVec.ofNat g.countBits (2 ^ g.countBits - 1) then
      { shifted with cleanR := s.synced, cnt := 0 }
    else { shifted with cnt := s.cnt + 1 }

section Definitions

variable (start : State g) (raw : Nat → Bool)

/-- The registers along a run that begins with a reset. -/
def states : Nat → State g := Trace.run (State.step true) (start.step false (raw 0)) raw

def clean (n : Nat) : Bool := (states start raw n).cleanR

/-- The raw input two edges ago. -/
def delayed : Nat → Bool
  | n + 2 => raw n
  | _ => false

/-- The new level has been there for the whole window. -/
def Lasting (n : Nat) : Prop :=
  g.window ≤ n + 1 ∧ ∀ k, k < g.window → delayed raw (n - k) ≠ clean start raw n

/-- When the output changes. -/
structure Debounces : Prop where
  changes : ∀ n, clean start raw (n + 1) ≠ clean start raw n ↔ Lasting start raw n
  apart : ∀ n m, n < m → clean start raw (n + 1) ≠ clean start raw n →
    clean start raw (m + 1) ≠ clean start raw m → n + g.window ≤ m
  glitch : ∀ n width, width < g.window → (n = 0 ∨ delayed raw (n - 1) = clean start raw n) →
    delayed raw (n + width) = clean start raw n →
    ∀ m, n ≤ m → m ≤ n + width + 1 → clean start raw m = clean start raw n

end Definitions

/-! ### The counter -/

theorem states_zero (start : State g) (raw : Nat → Bool) : states start raw 0 = ⟨0, 0, false⟩ :=
  rfl

theorem synced_states (start : State g) (raw : Nat → Bool) (n : Nat) :
    (states start raw n).synced = delayed raw n ∧
      (states start raw n).sync.getLsbD 0 = delayed raw (n + 1) := by
  induction n with
  | zero => simp [states_zero, State.synced, delayed]
  | succ n ih =>
      have shifted : (states start raw (n + 1)).sync =
          (states start raw n).sync.extractLsb' 0 1 ++ BitVec.ofBool (raw n) := by
        change ((states start raw n).step true (raw n)).sync = _
        rw [State.step, if_neg (by decide)]
        repeat' split
        all_goals rfl
      rw [State.synced, shifted, BitVec.getLsbD_append, BitVec.getLsbD_append]
      constructor
      · rw [← ih.2, if_neg (by decide), BitVec.getLsbD_extractLsb']
        rfl
      · rw [if_pos (by decide), BitVec.getLsbD_ofBool, delayed]
        rfl

/-- The counter says for how long the input has differed from the output. -/
structure Counts (start : State g) (raw : Nat → Bool) (n : Nat) : Prop where
  bound : (states start raw n).cnt.toNat ≤ n
  differs : ∀ k, k < (states start raw n).cnt.toNat →
    delayed raw (n - 1 - k) ≠ clean start raw n
  begun : (states start raw n).cnt.toNat < n →
    delayed raw (n - 1 - (states start raw n).cnt.toNat) = clean start raw n

section Runs

variable (start : State g) (raw : Nat → Bool)

/-- The three kinds of edge. -/
theorem states_succ (n : Nat) :
    (delayed raw n = clean start raw n ∧ clean start raw (n + 1) = clean start raw n ∧
        (states start raw (n + 1)).cnt.toNat = 0) ∨
      (delayed raw n ≠ clean start raw n ∧ clean start raw (n + 1) = delayed raw n ∧
        (states start raw n).cnt.toNat + 1 = g.window ∧
        (states start raw (n + 1)).cnt.toNat = 0) ∨
      (delayed raw n ≠ clean start raw n ∧ clean start raw (n + 1) = clean start raw n ∧
        (states start raw n).cnt.toNat + 1 < g.window ∧
        (states start raw (n + 1)).cnt.toNat = (states start raw n).cnt.toNat + 1) := by
  have synced := (synced_states start raw n).1
  have small : (states start raw n).cnt.toNat < g.window := (states start raw n).cnt.isLt
  have positive : 0 < g.window := Nat.two_pow_pos _
  have next : states start raw (n + 1) = (states start raw n).step true (raw n) := rfl
  have top : (BitVec.ofNat g.countBits (2 ^ g.countBits - 1)).toNat = g.window - 1 := by
    rw [BitVec.toNat_ofNat]
    exact Nat.mod_eq_of_lt (Nat.sub_lt positive Nat.one_pos)
  have one : (1 : BitVec g.countBits).toNat = 1 :=
    Nat.mod_eq_of_lt (Nat.one_lt_two_pow g.positive.ne')
  simp only [clean, next, State.step, ← synced, Bool.not_true, Bool.false_eq_true, if_false]
  by_cases same : (states start raw n).synced = (states start raw n).cleanR
  · rw [if_pos same]
    exact .inl ⟨same, rfl, BitVec.toNat_zero⟩
  · rw [if_neg same]
    by_cases full : (states start raw n).cnt = BitVec.ofNat g.countBits (2 ^ g.countBits - 1)
    · rw [if_pos full]
      refine .inr (.inl ⟨same, rfl, ?_, BitVec.toNat_zero⟩)
      rw [full, top]
      omega
    · rw [if_neg full]
      have less : (states start raw n).cnt.toNat + 1 < g.window := by
        by_contra last
        apply full
        apply BitVec.eq_of_toNat_eq
        rw [top]
        omega
      refine .inr (.inr ⟨same, rfl, less, ?_⟩)
      rw [BitVec.toNat_add, one]
      exact Nat.mod_eq_of_lt less

theorem counts (n : Nat) : Counts start raw n := by
  induction n with
  | zero =>
      have none : (states start raw 0).cnt.toNat = 0 := BitVec.toNat_zero
      exact ⟨none.le, by simp [none], by simp⟩
  | succ n ih =>
      rcases states_succ start raw n with ⟨same, still, zero⟩ | ⟨-, new, -, zero⟩ |
        ⟨other, still, -, more⟩
      · refine ⟨by omega, by simp [zero], fun _ => ?_⟩
        rw [zero, still]
        exact same
      · refine ⟨by omega, by simp [zero], fun _ => ?_⟩
        rw [zero, new]
        rfl
      · have bound := ih.bound
        refine ⟨by omega, fun k small => ?_, fun before => ?_⟩
        · rw [still]
          cases k with
          | zero => exact other
          | succ k =>
              rw [show n + 1 - 1 - (k + 1) = n - 1 - k by omega]
              exact ih.differs k (by omega)
        · rw [more, still, show n + 1 - 1 - ((states start raw n).cnt.toNat + 1) =
            n - 1 - (states start raw n).cnt.toNat by omega]
          exact ih.begun (by omega)

theorem changes_iff (n : Nat) :
    clean start raw (n + 1) ≠ clean start raw n ↔ Lasting start raw n := by
  obtain ⟨bound, differs, begun⟩ := counts start raw n
  constructor
  · intro changes
    rcases states_succ start raw n with ⟨-, still, -⟩ | ⟨other, -, full, -⟩ | ⟨-, still, -⟩
    · exact absurd still changes
    · refine ⟨by omega, fun k small => ?_⟩
      cases k with
      | zero => exact other
      | succ k =>
          rw [show n - (k + 1) = n - 1 - k by omega]
          exact differs k (by omega)
    · exact absurd still changes
  · rintro ⟨late, lasts⟩
    rcases states_succ start raw n with ⟨same, -⟩ | ⟨other, new, -⟩ | ⟨-, -, less, -⟩
    · exact absurd same (lasts 0 (Nat.two_pow_pos _))
    · rw [new]
      exact other
    · have same := begun (by omega)
      rw [show n - 1 - (states start raw n).cnt.toNat =
        n - ((states start raw n).cnt.toNat + 1) by omega] at same
      exact absurd same (lasts _ less)

theorem cnt_of_changes {n : Nat} (changes : clean start raw (n + 1) ≠ clean start raw n) :
    (states start raw n).cnt.toNat + 1 = g.window ∧ (states start raw (n + 1)).cnt.toNat = 0 := by
  rcases states_succ start raw n with ⟨-, still, -⟩ | ⟨-, -, full, zero⟩ | ⟨-, still, -⟩
  · exact absurd still changes
  · exact ⟨full, zero⟩
  · exact absurd still changes

theorem cnt_after {n : Nat} (zero : (states start raw n).cnt.toNat = 0) (later : Nat) :
    (states start raw (n + later)).cnt.toNat ≤ later := by
  induction later with
  | zero => exact zero.le
  | succ later ih =>
      rw [← Nat.add_assoc]
      rcases states_succ start raw (n + later) with ⟨-, -, none⟩ | ⟨-, -, -, none⟩ | ⟨-, -, -, more⟩
      all_goals omega

theorem debounces : Debounces start raw where
  changes := changes_iff start raw
  apart n m less first second := by
    obtain ⟨-, zero⟩ := cnt_of_changes start raw first
    obtain ⟨full, -⟩ := cnt_of_changes start raw second
    have few := cnt_after start raw zero (m - (n + 1))
    rw [Nat.add_sub_cancel' less] at few
    omega
  glitch n width short before after m later soon := by
    induction m, later using Nat.le_induction with
    | base => rfl
    | succ m later ih =>
        have same := ih (by omega)
        rw [← same]
        by_contra changes
        obtain ⟨late, lasts⟩ := (changes_iff start raw m).mp changes
        rw [same] at lasts
        rcases Nat.lt_or_ge m (n + width) with inside | last
        · rcases before with rfl | before
          · omega
          · have differs := lasts (m - (n - 1)) (by omega)
            rw [show m - (m - (n - 1)) = n - 1 by omega] at differs
            exact differs before
        · obtain rfl : m = n + width := by omega
          exact lasts 0 (Nat.two_pow_pos _) after

end Runs

end Debouncer

end Cocoapuffs

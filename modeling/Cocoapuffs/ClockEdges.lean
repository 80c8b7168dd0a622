import Cocoapuffs.Trace
import Mathlib.Data.Nat.Nth

/-!
# The edges of one clock

The instants of a trace may belong to several clocks.  What is clocked by one of them
changes only at its edges, so the edges can be counted and everything else be seen as a
trace of its own.
-/

namespace Cocoapuffs

namespace ClockEdges

variable (clk : Nat → Bool)

/-- The instant of an edge. -/
noncomputable def edge (k : Nat) : Nat := Nat.nth (fun n => clk n = true) k

variable {clk}

/-- What changes at edges only is still until the next one. -/
theorem still {Value : Type*} {x : Nat → Value} (keeps : ∀ n, clk n = false → x (n + 1) = x n)
    {m n : Nat} (le : m ≤ n) (quiet : ∀ i, m ≤ i → i < n → clk i = false) : x n = x m := by
  induction n, le using Nat.le_induction with
  | base => rfl
  | succ n le ih =>
      rw [keeps n (quiet n le (Nat.lt_succ_self n)), ih]
      exact fun i after before => quiet i after (Nat.lt_succ_of_lt before)

section Recurs

variable (recurs : Trace.Recurs fun n => clk n = true)
include recurs

theorem infinite : (Set.ofPred fun n => clk n = true).Infinite :=
  Set.infinite_of_not_bddAbove fun ⟨bound, above⟩ => by
    obtain ⟨m, late, ticks⟩ := recurs (bound + 1)
    have := above ticks
    omega

theorem clk_edge (k : Nat) : clk (edge clk k) = true :=
  Nat.nth_mem_of_infinite (infinite recurs) k

theorem edge_lt (k : Nat) : edge clk k < edge clk (k + 1) :=
  Nat.nth_strictMono (infinite recurs) (Nat.lt_succ_self k)

theorem edge_mono {j k : Nat} (le : j ≤ k) : edge clk j ≤ edge clk k :=
  Nat.nth_monotone (infinite recurs) le

/-- At an instant or after it there is a next edge. -/
theorem exists_edge (n : Nat) :
    ∃ k, n ≤ edge clk k ∧ ∀ m, n ≤ m → m < edge clk k → clk m = false := by
  have found := Nat.find_spec (recurs n)
  have same : edge clk (Nat.count (fun m => clk m = true) (Nat.find (recurs n))) =
      Nat.find (recurs n) := Nat.nth_count found.2
  refine ⟨_, found.1.trans_eq same.symm, fun m after before => ?_⟩
  rw [same] at before
  by_contra ticks
  exact Nat.find_min (recurs n) before ⟨after, by simpa using ticks⟩

omit recurs in
theorem quiet_between {k n : Nat} (after : edge clk k < n) (before : n < edge clk (k + 1)) :
    clk n = false := by
  by_contra ticks
  rw [Bool.not_eq_false] at ticks
  exact absurd after (Nat.not_lt_of_le (Nat.le_nth_of_lt_nth_succ before ticks))

theorem quiet_before {n : Nat} (before : n < edge clk 0) : clk n = false := by
  by_contra ticks
  rw [Bool.not_eq_false] at ticks
  have same : edge clk (Nat.count (fun m => clk m = true) n) = n := Nat.nth_count ticks
  have least := edge_mono recurs (Nat.zero_le (Nat.count (fun m => clk m = true) n))
  omega

section Value

variable {Value : Type*} {x : Nat → Value} (keeps : ∀ n, clk n = false → x (n + 1) = x n)
include keeps

theorem at_first : x (edge clk 0) = x 0 :=
  still keeps (Nat.zero_le _) fun _ _ before => quiet_before recurs before

theorem at_next (k : Nat) : x (edge clk (k + 1)) = x (edge clk k + 1) :=
  still keeps (edge_lt recurs k) fun _ after before => quiet_between after before

end Value

/-- A process that steps at the edges runs on what it sees there. -/
theorem run_edge {Input State : Type*} (step : Input → State → State) (x : Nat → State)
    (inputs : Nat → Input)
    (steps : ∀ n, x (n + 1) = if clk n then step (inputs n) (x n) else x n) (k : Nat) :
    x (edge clk k) = Trace.run step (x 0) (fun j => inputs (edge clk j)) k := by
  have keeps : ∀ n, clk n = false → x (n + 1) = x n := by
    intro n quiet
    rw [steps, quiet, if_neg Bool.false_ne_true]
  induction k with
  | zero => exact at_first recurs keeps
  | succ k ih =>
      rw [at_next recurs keeps, steps, clk_edge recurs, if_pos rfl, ih, Trace.run_succ]

/-- The events at edges, counted by edges. -/
theorem history_edge {Event : Type*} {event : Nat → Option Event}
    (gated : ∀ n, clk n = false → event n = none) (k : Nat) :
    Trace.history event (edge clk k) = Trace.history (fun j => event (edge clk j)) k := by
  have keeps : ∀ n, clk n = false → Trace.history event (n + 1) = Trace.history event n :=
    fun n quiet => Trace.history_succ_none (gated n quiet)
  induction k with
  | zero => exact at_first recurs keeps
  | succ k ih => rw [at_next recurs keeps, Trace.history_succ, ih, Trace.history_succ]

end Recurs

end ClockEdges

end Cocoapuffs

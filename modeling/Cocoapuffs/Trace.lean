import Mathlib.Data.List.Infix
import Mathlib.Data.Nat.Find
import Mathlib.Tactic.Common

/-!
# Traces of clocked systems

A clocked system is observed at instants `0, 1, 2, …`; the signals at instant
`n` are the values just before the `n`-th moment at which some clock may rise.
This file has the vocabulary for such traces: the run of a step function on a
stream of inputs, the list of events seen so far, the pulses of a level, and
the rules by which one situation leads to another.
-/

namespace Cocoapuffs

namespace Trace

variable {State Input α β : Type*}

/-- The states of a step function on a stream of inputs. -/
def run (step : Input → State → State) (start : State)
    (inputs : Nat → Input) : Nat → State
  | 0 => start
  | n + 1 => step (inputs n) (run step start inputs n)

@[simp]
theorem run_zero (step : Input → State → State) (start : State)
    (inputs : Nat → Input) : run step start inputs 0 = start :=
  rfl

theorem run_succ (step : Input → State → State) (start : State)
    (inputs : Nat → Input) (n : Nat) :
    run step start inputs (n + 1) = step (inputs n) (run step start inputs n) :=
  rfl

/-- An invariant of the step function holds along every run. -/
theorem run_invariant {step : Input → State → State} {start : State}
    {inputs : Nat → Input} (invariant : State → Prop)
    (initial : invariant start)
    (preserved : ∀ n state, invariant state → invariant (step (inputs n) state)) :
    ∀ n, invariant (run step start inputs n) := by
  intro n
  induction n with
  | zero => exact initial
  | succ n ih => exact preserved n _ ih

theorem run_at_rest {step : Input → State → State} {start : State}
    {inputs : Nat → Input} {settled : Nat} {rest : State}
    (reached : run step start inputs settled = rest)
    (still : ∀ n, settled ≤ n → step (inputs n) rest = rest) {n : Nat}
    (le : settled ≤ n) : run step start inputs n = rest := by
  induction n, le using Nat.le_induction with
  | base => exact reached
  | succ n le ih => rw [run_succ, ih, still n le]

/-- The states of a step function whose inputs are driven by an environment that
sees the current state. -/
def closedLoop (step : Input → State → State) (start : State)
    (drive : Nat → State → Input) : Nat → State
  | 0 => start
  | n + 1 => step (drive n (closedLoop step start drive n)) (closedLoop step start drive n)

theorem run_closedLoop (step : Input → State → State) (start : State)
    (drive : Nat → State → Input) (n : Nat) :
    run step start (fun m => drive m (closedLoop step start drive m)) n =
      closedLoop step start drive n := by
  induction n with
  | zero => rfl
  | succ n ih => rw [run_succ, ih, closedLoop]

section Histories

/-- The events observed before an instant, oldest first. -/
def history (event : Nat → Option α) : Nat → List α
  | 0 => []
  | n + 1 => history event n ++ (event n).toList

@[simp]
theorem history_zero (event : Nat → Option α) : history event 0 = [] :=
  rfl

theorem history_succ (event : Nat → Option α) (n : Nat) :
    history event (n + 1) = history event n ++ (event n).toList :=
  rfl

theorem history_succ_none {event : Nat → Option α} {n : Nat}
    (quiet : event n = none) : history event (n + 1) = history event n := by
  simp [history_succ, quiet]

theorem history_succ_some {event : Nat → Option α} {n : Nat} {value : α}
    (seen : event n = some value) :
    history event (n + 1) = history event n ++ [value] := by
  simp [history_succ, seen]

theorem history_some (value : Nat → α) (n : Nat) :
    history (fun m => some (value m)) n = (List.range n).map value := by
  induction n with
  | zero => rfl
  | succ n ih => rw [history_succ, ih, List.range_succ, List.map_append]; rfl

theorem history_succ_front (event : Nat → Option α) (n : Nat) :
    history event (n + 1) = (event 0).toList ++ history (fun m => event (m + 1)) n := by
  induction n with
  | zero => simp [history_succ]
  | succ n ih => rw [history_succ, ih, history_succ, List.append_assoc]

theorem history_prefix (event : Nat → Option α) {m n : Nat} (le : m ≤ n) :
    history event m <+: history event n := by
  induction n, le using Nat.le_induction with
  | base => exact List.prefix_refl _
  | succ n _ ih => exact ih.trans (by simp [history_succ])

theorem history_at_rest {event : Nat → Option α} {settled : Nat}
    (quiet : ∀ m, settled ≤ m → event m = none) {n : Nat} (le : settled ≤ n) :
    history event n = history event settled := by
  induction n, le using Nat.le_induction with
  | base => rfl
  | succ n le ih => rw [history_succ_none (quiet n le), ih]

theorem history_map (event : Nat → Option α) (f : α → β) (n : Nat) :
    (history event n).map f = history (fun m => (event m).map f) n := by
  induction n with
  | zero => rfl
  | succ n ih =>
      rw [history_succ, history_succ, List.map_append, ih]
      cases event n <;> rfl

theorem history_delay {event late : Nat → Option α} {delay : Nat}
    (early : ∀ n, n < delay → late n = none) (later : ∀ n, late (delay + n) = event n) (n : Nat) :
    history late (delay + n) = history event n := by
  induction n with
  | zero =>
      have nothing : ∀ m, m ≤ delay → history late m = [] := by
        intro m le
        induction m with
        | zero => rfl
        | succ m ih => rw [history_succ_none (early m le), ih (by omega)]
      exact nothing delay le_rfl
  | succ n ih => rw [← Nat.add_assoc, history_succ, history_succ, ih, later]

/-- Each event of a history was observed at some instant, with the events before
it for its past. -/
theorem history_split {event : Nat → Option α} {n : Nat} {before after : List α} {value : α}
    (split : history event n = before ++ value :: after) :
    ∃ m, m < n ∧ event m = some value ∧ history event m = before := by
  induction n generalizing after with
  | zero => simp at split
  | succ n ih =>
      cases seen : event n with
      | none =>
          rw [history_succ_none seen] at split
          obtain ⟨m, lt, found⟩ := ih split
          exact ⟨m, by omega, found⟩
      | some last =>
          rw [history_succ_some seen] at split
          rcases List.eq_nil_or_concat after with rfl | ⟨front, latest, rfl⟩
          · obtain ⟨past, same⟩ := List.append_inj' split rfl
            obtain rfl : last = value := by simpa using same
            exact ⟨n, by omega, seen, past⟩
          · rw [List.concat_eq_append, ← List.cons_append, ← List.append_assoc] at split
            obtain ⟨m, lt, found⟩ := ih (List.append_inj' split rfl).1
            exact ⟨m, by omega, found⟩

/-- The pulses of a level begun at or before an instant, each with the value
that accompanies it when it begins. -/
def pulses (level : Nat → Bool) (value : Nat → α) : Nat → List α
  | 0 => if level 0 then [value 0] else []
  | n + 1 => pulses level value n ++
      if level (n + 1) && !level n then [value (n + 1)] else []

theorem pulses_zero_of_low {level : Nat → Bool} {value : Nat → α}
    (low : level 0 = false) : pulses level value 0 = [] := by
  simp [pulses, low]

theorem pulses_eq_nil {level : Nat → Bool} {value : Nat → α} {n : Nat}
    (low : ∀ m, m ≤ n → level m = false) : pulses level value n = [] := by
  induction n with
  | zero => exact pulses_zero_of_low (low 0 le_rfl)
  | succ n ih => simp [pulses, low (n + 1) le_rfl, ih fun m le => low m (by omega)]

theorem pulses_succ_of_low {level : Nat → Bool} {value : Nat → α} {n : Nat}
    (low : level (n + 1) = false) :
    pulses level value (n + 1) = pulses level value n := by
  simp [pulses, low]

theorem pulses_succ_of_high {level : Nat → Bool} {value : Nat → α} {n : Nat}
    (high : level n = true) :
    pulses level value (n + 1) = pulses level value n := by
  simp [pulses, high]

theorem pulses_succ_of_rise {level : Nat → Bool} {value : Nat → α} {n : Nat}
    (low : level n = false) (high : level (n + 1) = true) :
    pulses level value (n + 1) = pulses level value n ++ [value (n + 1)] := by
  simp [pulses, low, high]

/-- While a level is high, its last pulse is the current one. -/
theorem pulses_of_high (level : Nat → Bool) (value : Nat → α)
    (stable : ∀ n, level n = true → level (n + 1) = true → value (n + 1) = value n)
    {n : Nat} (high : level n = true) :
    ∃ front, pulses level value n = front ++ [value n] := by
  induction n with
  | zero => exact ⟨[], by simp [pulses, high]⟩
  | succ n ih =>
      cases before : level n with
      | false => exact ⟨_, pulses_succ_of_rise before high⟩
      | true =>
          obtain ⟨front, last⟩ := ih before
          exact ⟨front, by rw [pulses_succ_of_high before, last, stable n before high]⟩

theorem pulses_prefix (level : Nat → Bool) (value : Nat → α) {m n : Nat}
    (le : m ≤ n) : pulses level value m <+: pulses level value n := by
  induction n, le using Nat.le_induction with
  | base => exact List.prefix_refl _
  | succ n _ ih => exact ih.trans (List.prefix_append _ _)

end Histories

section Progress

/-- Every instant at which `now` holds is followed, then or later, by one at
which `later` holds. -/
def LeadsTo (now later : Nat → Prop) : Prop :=
  ∀ n, now n → ∃ m, n ≤ m ∧ later m

/-- An event that happens again after every instant. -/
def Recurs (event : Nat → Prop) : Prop :=
  ∀ n, ∃ m, n ≤ m ∧ event m

variable {first second third : Nat → Prop}

theorem LeadsTo.trans (left : LeadsTo first second)
    (right : LeadsTo second third) : LeadsTo first third := by
  intro n now
  obtain ⟨m, later, atMiddle⟩ := left n now
  obtain ⟨k, last, atLast⟩ := right m atMiddle
  exact ⟨k, later.trans last, atLast⟩

/-- Case analysis on the situation at the start. -/
theorem LeadsTo.or (left : LeadsTo first third)
    (right : LeadsTo second third) :
    LeadsTo (fun n => first n ∨ second n) third := by
  rintro n (now | now)
  · exact left n now
  · exact right n now

/-- A situation that persists until an event meets the event, once the event is
sure to happen. -/
theorem LeadsTo.until_event {event : Nat → Prop} (happens : LeadsTo first event)
    (persists : ∀ n, first n → ¬ event n → first (n + 1)) :
    LeadsTo first (fun n => first n ∧ event n) := by
  classical
  intro n now
  have reached : ∃ m, n ≤ m ∧ event m := happens n now
  have found := Nat.find_spec reached
  have kept : ∀ m, n ≤ m → m ≤ Nat.find reached → first m := by
    intro m after
    induction m, after using Nat.le_induction with
    | base => exact fun _ => now
    | succ m after ih =>
        intro before
        refine persists m (ih (by omega)) fun early => ?_
        have := Nat.find_min' reached ⟨after, early⟩
        omega
  exact ⟨Nat.find reached, found.1, kept _ found.1 le_rfl, found.2⟩

/-- A situation that persists until an event, and becomes another when the
event happens, leads to it once the event is sure to happen. -/
theorem LeadsTo.of_event (event : Nat → Prop)
    (happens : LeadsTo first event)
    (persists : ∀ n, first n → ¬ event n → first (n + 1))
    (changes : ∀ n, first n → event n → second (n + 1)) :
    LeadsTo first second := by
  intro n now
  obtain ⟨m, after, still, happened⟩ := LeadsTo.until_event happens persists n now
  exact ⟨m + 1, by omega, changes m still happened⟩

/-- The same rule for an event that recurs unconditionally. -/
theorem LeadsTo.of_recurs {event : Nat → Prop} (again : Recurs event)
    (persists : ∀ n, first n → ¬ event n → first (n + 1))
    (changes : ∀ n, first n → event n → second (n + 1)) :
    LeadsTo first second :=
  LeadsTo.of_event event (fun n _ => again n) persists changes

/-- A situation in which a rank falls, at each recurrence of an event, until
another situation is reached. -/
theorem LeadsTo.of_rank (rank : Nat → Nat)
    (falls : ∀ bound, LeadsTo (fun n => first n ∧ rank n = bound)
      (fun n => second n ∨ first n ∧ rank n < bound)) :
    LeadsTo first second := by
  have bounded : ∀ bound, LeadsTo (fun n => first n ∧ rank n < bound) second := by
    intro bound
    induction bound with
    | zero => exact fun n now => absurd now.2 (Nat.not_lt_zero _)
    | succ bound ih =>
        rintro n ⟨now, small⟩
        obtain ⟨m, after, reached | ⟨still, smaller⟩⟩ := falls (rank n) n ⟨now, rfl⟩
        · exact ⟨m, after, reached⟩
        · obtain ⟨k, last, done⟩ := ih m ⟨still, by omega⟩
          exact ⟨k, after.trans last, done⟩
  exact fun n now => bounded (rank n + 1) n ⟨now, Nat.lt_succ_self _⟩

/-- A situation in which a rank falls at every instant, until another situation
is reached, reaches it before the rank is used up. -/
theorem reached_within (first second : Nat → Prop) (rank : Nat → Nat)
    (falls : ∀ n, first n → ¬ second n → first (n + 1) ∧ rank (n + 1) < rank n) {n : Nat}
    (now : first n) : ∃ m, n ≤ m ∧ m ≤ n + rank n ∧ second m := by
  induction bound : rank n using Nat.strong_induction_on generalizing n with
  | _ bound ih =>
      by_cases done : second n
      · exact ⟨n, le_rfl, by omega, done⟩
      · obtain ⟨still, smaller⟩ := falls n now done
        obtain ⟨m, after, soon, reached⟩ := ih _ (bound ▸ smaller) still rfl
        exact ⟨m, by omega, by omega, reached⟩

end Progress

end Trace

end Cocoapuffs

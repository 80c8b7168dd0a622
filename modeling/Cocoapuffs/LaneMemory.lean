import Mathlib.Logic.Function.Basic
import Mathlib.Data.List.Basic
import Mathlib.Tactic.Common

/-!
# Memories with maskable lanes

A memory of words, each word a family of lanes, written under a lane mask.
The abstract meaning of "the last value written" is read off the list of
accesses; replaying the accesses one by one agrees with it.
-/

namespace Cocoapuffs

namespace LaneMemory

variable {Index Lane Value : Type*} [DecidableEq Index]

/-- One access: a read, or a write of the selected lanes of one word. -/
structure Access (Index Lane Value : Type*) where
  index : Index
  write : Bool
  sel : Lane → Bool
  data : Lane → Value

/-- Does this access write this lane of this word? -/
def Access.touches (access : Access Index Lane Value) (index : Index)
    (lane : Lane) : Bool :=
  access.write && (access.sel lane && decide (access.index = index))

/-- The memory after one access. -/
def Access.apply (access : Access Index Lane Value)
    (memory : Index → Lane → Value) : Index → Lane → Value :=
  fun index lane =>
    if access.touches index lane then access.data lane else memory index lane

/-- The memory after a list of accesses, oldest first. -/
def replay (memory : Index → Lane → Value) :
    List (Access Index Lane Value) → Index → Lane → Value
  | [] => memory
  | access :: accesses => replay (access.apply memory) accesses

theorem replay_append (memory : Index → Lane → Value)
    (first second : List (Access Index Lane Value)) :
    replay memory (first ++ second) = replay (replay memory first) second := by
  induction first generalizing memory with
  | nil => rfl
  | cons access first ih => exact ih (access.apply memory)

/-- The value most recently written to a lane of a word, if any access wrote
it. -/
def lastWritten (index : Index) (lane : Lane) :
    List (Access Index Lane Value) → Option Value
  | [] => none
  | access :: accesses =>
      (lastWritten index lane accesses).or
        (if access.touches index lane then some (access.data lane) else none)

/-- After any list of accesses each lane holds the last value written to it,
and its initial value if there is none. -/
theorem replay_eq_lastWritten (memory : Index → Lane → Value)
    (accesses : List (Access Index Lane Value)) (index : Index) (lane : Lane) :
    replay memory accesses index lane =
      (lastWritten index lane accesses).getD (memory index lane) := by
  induction accesses generalizing memory with
  | nil => rfl
  | cons access accesses ih =>
      rw [replay, ih, lastWritten]
      cases lastWritten index lane accesses with
      | some value => rfl
      | none =>
          by_cases touched : access.touches index lane <;>
            simp [Access.apply, touched]

end LaneMemory

end Cocoapuffs

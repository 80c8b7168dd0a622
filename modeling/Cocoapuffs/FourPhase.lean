import Cocoapuffs.Trace
import Mathlib.Data.Fin.VecNotation
import Mathlib.Data.Fintype.Basic
import Mathlib.Tactic.FinCases

/-!
# Four-phase handshakes through synchronizer chains

Two parties in different clock domains exchange a request level and an
acknowledge level, each through a chain of flip-flops.  Read around the loop,
request, request chain, acknowledge, acknowledge chain, the levels form a ring
in which every stage copies its predecessor and the requester flips the head
only when the last stage has caught up with it.  Whatever the order of the two
clocks, such a ring holds at most one boundary between levels.  All the facts
that the two parties rely on follow from this.
-/

namespace Cocoapuffs

/-- A ring of levels: stage zero is the head, every later stage follows its
predecessor. -/
abbrev LevelRing (stages : Nat) := Fin (stages + 1) → Bool

namespace LevelRing

variable {stages : Nat} {ring next : LevelRing stages}

/-- At most one boundary: the stages that agree with the head come first. -/
def Settled (ring : LevelRing stages) : Prop :=
  ∀ i j, i ≤ j → ring j = ring 0 → ring i = ring 0

/-- One instant: the head stays or, if the last stage has caught up, flips;
each other stage stays or copies the old level of its predecessor. -/
structure Step (ring next : LevelRing stages) : Prop where
  head : next 0 = ring 0 ∨
    next 0 = !ring 0 ∧ ring (Fin.last stages) = ring 0
  follow : ∀ i : Fin stages,
    next i.succ = ring i.succ ∨ next i.succ = ring i.castSucc

theorem Settled.eq_head_of_last (settled : Settled ring)
    (caughtUp : ring (Fin.last stages) = ring 0) (i : Fin (stages + 1)) :
    ring i = ring 0 :=
  settled i (Fin.last stages) (Fin.le_last i) caughtUp

theorem Settled.ne_head_of_le (settled : Settled ring)
    {i j : Fin (stages + 1)} (le : i ≤ j) (differs : ring i ≠ ring 0) :
    ring j ≠ ring 0 :=
  fun agrees => differs (settled i j le agrees)

private theorem step_keeps_order (settled : Settled ring)
    (follow : ∀ i : Fin stages,
      next i.succ = ring i.succ ∨ next i.succ = ring i.castSucc)
    (headSame : next 0 = ring 0) : Settled next := by
  intro i j le agrees
  rw [headSame] at agrees ⊢
  induction i using Fin.cases with
  | zero => exact headSame
  | succ i =>
      induction j using Fin.cases with
      | zero => exact absurd le (Fin.not_le.mpr (Fin.succ_pos i))
      | succ j =>
          have predecessors : ∀ k : Fin stages, k ≤ j → ring k.castSucc = ring 0 := by
            intro k kLe
            rcases follow j with stays | copies
            · exact settled k.castSucc j.succ
                ((Fin.castSucc_le_castSucc_iff.mpr kLe).trans j.castSucc_lt_succ.le)
                (stays.symm.trans agrees)
            · exact settled k.castSucc j.castSucc
                (Fin.castSucc_le_castSucc_iff.mpr kLe) (copies.symm.trans agrees)
          have iLe : i ≤ j := Fin.succ_le_succ_iff.mp le
          rcases eq_or_lt_of_le iLe with rfl | iLt
          · exact agrees
          · rcases follow i with stays | copies
            · have stageLe : i.succ ≤ j.castSucc :=
                Fin.succ_le_castSucc_iff.mpr iLt
              exact stays.trans (settled _ _ stageLe (predecessors j le_rfl))
            · exact copies.trans (predecessors i iLe)

/-- The boundary moves around the ring, never splitting. -/
theorem Settled.step (settled : Settled ring) (step : Step ring next) :
    Settled next := by
  rcases step.head with headSame | ⟨flipped, caughtUp⟩
  · exact step_keeps_order settled step.follow headSame
  · have uniform := settled.eq_head_of_last caughtUp
    have followers : ∀ i : Fin stages, next i.succ = ring 0 := by
      intro i
      rcases step.follow i with stays | copies
      · exact stays.trans (uniform _)
      · exact copies.trans (uniform _)
    intro i j le agrees
    induction j using Fin.cases with
    | zero =>
        have : i = 0 := Fin.le_zero_iff.mp le
        rw [this]
    | succ j =>
        rw [followers j, flipped] at agrees
        exact absurd agrees (by cases ring 0 <;> decide)

end LevelRing

/-- A three-stage synchronizer: two intermediate flip-flops and the one that is
read. -/
structure SyncChain where
  q0 : Bool
  q1 : Bool
  sync : Bool
deriving DecidableEq, Repr

namespace SyncChain

/-- All stages low. -/
def zero : SyncChain := ⟨false, false, false⟩

/-- One clock edge of the reading domain. -/
def shift (chain : SyncChain) (level : Bool) : SyncChain :=
  ⟨level, chain.q0, chain.q1⟩

@[simp]
theorem shift_sync (chain : SyncChain) (level : Bool) :
    (chain.shift level).sync = chain.q1 :=
  rfl

/-- A level held from some instant on reaches the end of a chain that keeps
being clocked. -/
theorem eventually_sync (chain : Nat → SyncChain) (level : Nat → Bool)
    (value : Bool) {tick : Nat → Bool}
    (moves : ∀ n, chain (n + 1) =
      if tick n then (chain n).shift (level n) else chain n)
    (again : Trace.Recurs (fun n => tick n = true)) {start : Nat}
    (held : ∀ n, start ≤ n → level n = value) :
    ∃ settled, start ≤ settled ∧ ∀ n, settled ≤ n → (chain n).sync = value := by
  -- A stage settles one tick after the stage, or level, that feeds it.
  have stage : ∀ (source sink : Nat → Bool) (from_ : Nat),
      (∀ n, sink (n + 1) = if tick n then source n else sink n) →
      (∀ n, from_ ≤ n → source n = value) →
      ∃ settled, from_ ≤ settled ∧ ∀ n, settled ≤ n → sink n = value := by
    intro source sink from_ copies steady
    obtain ⟨edge, after, ticked⟩ := again from_
    refine ⟨edge + 1, by omega, fun n le => ?_⟩
    induction n, le using Nat.le_induction with
    | base => rw [copies, if_pos ticked, steady edge after]
    | succ n le ih =>
        rw [copies]
        split
        · exact steady n (by omega)
        · exact ih
  obtain ⟨first, startLe, q0Held⟩ := stage level (fun n => (chain n).q0) start
    (fun n => by simp only [moves]; split <;> rfl) held
  obtain ⟨second, firstLe, q1Held⟩ := stage (fun n => (chain n).q0)
    (fun n => (chain n).q1) first
    (fun n => by simp only [moves]; split <;> rfl) q0Held
  obtain ⟨third, secondLe, syncHeld⟩ := stage (fun n => (chain n).q1)
    (fun n => (chain n).sync) second
    (fun n => by simp only [moves]; split <;> rfl) q1Held
  exact ⟨third, by omega, syncHeld⟩

end SyncChain

/-- The levels of a four-phase handshake and the two chains that carry them. -/
structure FourPhase where
  req : Bool
  reqChain : SyncChain
  ack : Bool
  ackChain : SyncChain
deriving DecidableEq, Repr

namespace FourPhase

/-- Both levels and both chains low. -/
def zero : FourPhase := ⟨false, SyncChain.zero, false, SyncChain.zero⟩

/-- The ring read from the request onwards. -/
def ring (link : FourPhase) : LevelRing 7 :=
  ![link.req, link.reqChain.q0, link.reqChain.q1, link.reqChain.sync,
    link.ack, link.ackChain.q0, link.ackChain.q1, link.ackChain.sync]

/-- One instant of a handshake.  The requester may flip its level once the
acknowledge it sees agrees with it; the acknowledger may set its level to the
request it sees; a chain moves when its reading clock rises. -/
structure Step (link next : FourPhase) : Prop where
  req : next.req = link.req ∨
    next.req = !link.req ∧ link.ackChain.sync = link.req
  reqChain : next.reqChain = link.reqChain ∨
    next.reqChain = link.reqChain.shift link.req
  ack : next.ack = link.ack ∨ next.ack = link.reqChain.sync
  ackChain : next.ackChain = link.ackChain ∨
    next.ackChain = link.ackChain.shift link.ack

/-- The ring of levels holds at most one boundary. -/
def Settled (link : FourPhase) : Prop := link.ring.Settled

theorem zero_settled : zero.Settled := by
  intro i j _ _
  fin_cases i <;> rfl

theorem Step.ring_step {link next : FourPhase} (step : Step link next) :
    LevelRing.Step link.ring next.ring := by
  obtain ⟨req, reqChain, ack, ackChain⟩ := step
  refine ⟨req, fun i => ?_⟩
  fin_cases i
  case «0» => rcases reqChain with h | h <;> simp [ring, h, SyncChain.shift]
  case «1» => rcases reqChain with h | h <;> simp [ring, h, SyncChain.shift]
  case «2» => rcases reqChain with h | h <;> simp [ring, h, SyncChain.shift]
  case «3» => exact ack
  case «4» => rcases ackChain with h | h <;> simp [ring, h, SyncChain.shift]
  case «5» => rcases ackChain with h | h <;> simp [ring, h, SyncChain.shift]
  case «6» => rcases ackChain with h | h <;> simp [ring, h, SyncChain.shift]

theorem Settled.step {link next : FourPhase} (settled : link.Settled)
    (step : Step link next) : next.Settled :=
  LevelRing.Settled.step settled step.ring_step

section Consequences

variable {link : FourPhase} (settled : link.Settled)
include settled

/-- A request seen by an acknowledger that has not answered is still up. -/
theorem Settled.req_of_seen (seen : link.reqChain.sync = true)
    (unanswered : link.ack = false) : link.req = true := by
  by_contra low
  have ackDiffers := LevelRing.Settled.ne_head_of_le settled (i := 3) (j := 4)
    (by decide) (by simpa [ring, seen] using low)
  simp [ring, unanswered] at ackDiffers
  exact low ackDiffers

/-- While the request is up and unanswered, a request once seen stays seen. -/
theorem Settled.q1_of_seen (up : link.req = true)
    (seen : link.reqChain.sync = true) : link.reqChain.q1 = true := by
  have agrees := settled 2 3 (by decide) (by simp [ring, up, seen])
  simpa [ring, up] using agrees

/-- An answer seen by the requester while its request is up was given. -/
theorem Settled.ack_of_answered (up : link.req = true)
    (answered : link.ackChain.sync = true) : link.ack = true := by
  have agrees := settled 4 7 (by decide) (by simp [ring, up, answered])
  simpa [ring, up] using agrees

/-- An acknowledge given while the request is up was given to a seen request. -/
theorem Settled.seen_of_ack (up : link.req = true) (given : link.ack = true) :
    link.reqChain.sync = true := by
  have agrees := settled 3 4 (by decide) (by simp [ring, up, given])
  simpa [ring, up] using agrees

/-- Once the requester sees its withdrawn request unacknowledged, every level
of the ring is low. -/
theorem Settled.low_of_withdrawn (down : link.req = false)
    (withdrawn : link.ackChain.sync = false) : link = zero := by
  have uniform := LevelRing.Settled.eq_head_of_last settled
    (by simp [ring, down, withdrawn, Fin.last])
  have stage : ∀ i, link.ring i = false := fun i => (uniform i).trans down
  obtain ⟨req, ⟨r0, r1, r2⟩, ack, ⟨a0, a1, a2⟩⟩ := link
  have h1 := stage 1; have h2 := stage 2; have h3 := stage 3; have h4 := stage 4
  have h5 := stage 5; have h6 := stage 6
  simp only [ring] at h1 h2 h3 h4 h5 h6 down withdrawn
  simp_all [zero, SyncChain.zero]

end Consequences

end FourPhase

end Cocoapuffs

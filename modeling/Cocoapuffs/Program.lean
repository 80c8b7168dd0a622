import Mathlib.Tactic.Common

/-!
# Programs that drive a machine

A program reads and changes the state of a machine, and may run out of fuel.
This file has what a program yields from a state, and the rules for sequences
and loops.
-/

namespace Cocoapuffs

namespace Program

variable {State α β : Type} {program : StateT State Option α} {next : α → StateT State Option β}
  {s : State} {a : α} {b : β} {middle post post' : State → Prop}

/-- The program returns `a`, in a state with the property. -/
def Yields (program : StateT State Option α) (s : State) (a : α) (post : State → Prop) : Prop :=
  ∃ s', program.run s = some (a, s') ∧ post s'

theorem Yields.weaken (yields : Yields program s a post) (implies : ∀ s', post s' → post' s') :
    Yields program s a post' := by
  obtain ⟨s', run, holds⟩ := yields
  exact ⟨s', run, implies s' holds⟩

theorem Yields.pure (holds : post s) : Yields (pure a) s a post :=
  ⟨s, rfl, holds⟩

theorem Yields.bind (first : Yields program s a middle)
    (rest : ∀ s', middle s' → Yields (next a) s' b post) : Yields (program >>= next) s b post := by
  obtain ⟨s', run, holds⟩ := first
  obtain ⟨s'', run', holds'⟩ := rest s' holds
  exact ⟨s'', by rw [StateT.run_bind, run]; exact run', holds'⟩

theorem Yields.bind_run {s' : State} (run : program.run s = some (a, s'))
    (rest : Yields (next a) s' b post) : Yields (program >>= next) s b post :=
  Yields.bind ⟨s', run, rfl⟩ fun _ same => same ▸ rest

section Fuel

variable {program : Nat → StateT State Option α} {next : Nat → α → StateT State Option β}

/-- With enough fuel the program returns `a`, in one and the same state, which
has the property. -/
def Settles (program : Nat → StateT State Option α) (s : State) (a : α) (post : State → Prop) :
    Prop :=
  ∃ s', post s' ∧ ∃ enough, ∀ fuel, enough ≤ fuel → (program fuel).run s = some (a, s')

theorem Settles.weaken (settles : Settles program s a post)
    (implies : ∀ s', post s' → post' s') : Settles program s a post' := by
  obtain ⟨s', holds, runs⟩ := settles
  exact ⟨s', implies s' holds, runs⟩

theorem Settles.pure (holds : post s) : Settles (fun _ => Pure.pure a) s a post :=
  ⟨s, holds, 0, fun _ _ => rfl⟩

theorem Settles.modify {f : State → State} (holds : middle (f s)) :
    Settles (fun _ => MonadState.modifyGet fun s => ((), f s)) s () middle :=
  ⟨f s, holds, 0, fun _ _ => rfl⟩

theorem Settles.bind (first : Settles program s a middle)
    (rest : ∀ s', middle s' → Settles (fun fuel => next fuel a) s' b post) :
    Settles (fun fuel => program fuel >>= next fuel) s b post := by
  obtain ⟨s', holds, enough, runs⟩ := first
  obtain ⟨s'', holds', enough', runs'⟩ := rest s' holds
  refine ⟨s'', holds', max enough enough', fun fuel le => ?_⟩
  rw [StateT.run_bind, runs fuel (by omega)]
  exact runs' fuel (by omega)

end Fuel

section Total

variable {program : StateM State α} {next : α → StateM State β} {post : α → State → Prop}

/-- A program that always returns does so with a result and a state of which
`post` holds. -/
def Ensures (program : StateM State α) (s : State) (post : α → State → Prop) : Prop :=
  let final : α × State := program.run s
  post final.1 final.2

theorem Ensures.weaken {post' : α → State → Prop} (ensures : Ensures program s post)
    (implies : ∀ a s', post a s' → post' a s') : Ensures program s post' :=
  implies _ _ ensures

theorem Ensures.pure {post : α → State → Prop} (holds : post a s) :
    Ensures (Pure.pure a : StateM State α) s post :=
  holds

theorem Ensures.bind {post' : β → State → Prop} (first : Ensures program s post)
    (rest : ∀ a s', post a s' → Ensures (next a) s' post') :
    Ensures (program >>= next) s post' :=
  rest _ _ first

theorem Ensures.modify (f : State → State) (s : State) :
    Ensures (MonadState.modifyGet fun s => ((), f s) : StateM State Unit) s fun _ s' => s' = f s :=
  rfl

end Total

end Program

end Cocoapuffs

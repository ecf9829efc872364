import Mathlib

/-!
Owns processes that share one state and take their atomic steps in any order.

A process is a function from the shared state, its own local state and an event
to its next local state and the next shared state. Runs are restricted by a
condition on each step taken, which carries both the assumptions about the
environment and the conditions under which a property is claimed.
-/

namespace Mcpace.Library.Interleaving

open Function

universe u v w x

variable {P : Type u} {σ : Type v} {ℓ : Type w} {ε : Type x}

/-- The shared state and the local state of every process. -/
structure World (P : Type u) (σ : Type v) (ℓ : Type w) where
  shared : σ
  process : P → ℓ

section Steps

variable [DecidableEq P] (advance : σ → ℓ → ε → Option (ℓ × σ))

/-- One process handles one event. -/
def step (world : World P σ ℓ) (action : P × ε) : Option (World P σ ℓ) :=
  (advance world.shared (world.process action.1) action.2).map (fun moved =>
    ⟨moved.2, update world.process action.1 moved.1⟩)

/-- The worlds reached by steps that are all allowed. -/
inductive Reaches (allowed : World P σ ℓ → P × ε → World P σ ℓ → Prop)
    (start : World P σ ℓ) : World P σ ℓ → Prop where
  | refl : Reaches allowed start start
  | tail {world next : World P σ ℓ} {action : P × ε} (earlier : Reaches allowed start world)
      (moved : step advance world action = some next) (admitted : allowed world action next) :
      Reaches allowed start next

/-- Take the given steps as long as they are possible and allowed. -/
def runChecked (allowed : World P σ ℓ → P × ε → World P σ ℓ → Prop)
    [∀ world action next, Decidable (allowed world action next)] :
    World P σ ℓ → List (P × ε) → Option (World P σ ℓ)
  | world, [] => some world
  | world, action :: rest =>
    match step advance world action with
    | none => none
    | some next => if allowed world action next then runChecked allowed next rest else none

variable {advance} {allowed : World P σ ℓ → P × ε → World P σ ℓ → Prop}
  {start world : World P σ ℓ}

theorem step_eq_some {action : P × ε} {next : World P σ ℓ}
    (moved : step advance world action = some next) :
    ∃ stateAfter sharedAfter,
      advance world.shared (world.process action.1) action.2 = some (stateAfter, sharedAfter) ∧
      next = ⟨sharedAfter, update world.process action.1 stateAfter⟩ := by
  obtain ⟨⟨stateAfter, sharedAfter⟩, advanced, equal⟩ := Option.map_eq_some_iff.mp moved
  exact ⟨stateAfter, sharedAfter, advanced, equal.symm⟩

/-- Invariants of runs: hold at the start and survive every allowed step. -/
theorem Reaches.invariant {invariant : World P σ ℓ → Prop} (initial : invariant start)
    (preserved : ∀ world process event stateAfter sharedAfter, invariant world →
      advance world.shared (world.process process) event = some (stateAfter, sharedAfter) →
      allowed world (process, event)
        ⟨sharedAfter, update world.process process stateAfter⟩ →
      invariant ⟨sharedAfter, update world.process process stateAfter⟩)
    (reached : Reaches advance allowed start world) : invariant world := by
  induction reached with
  | refl => exact initial
  | tail earlier moved admitted ih =>
    obtain ⟨stateAfter, sharedAfter, advanced, rfl⟩ := step_eq_some moved
    exact preserved _ _ _ _ _ ih advanced admitted

/-- Invariants made of a fact about the shared state and one about each process: a step keeps the
first, gives the second to the process that moved and leaves it to all others. -/
theorem Reaches.each (common : σ → Prop) (own : σ → ℓ → Prop)
    (initial : common start.shared ∧ ∀ process, own start.shared (start.process process))
    (preserved : ∀ world process event stateAfter sharedAfter, common world.shared →
      (∀ other, own world.shared (world.process other)) →
      advance world.shared (world.process process) event = some (stateAfter, sharedAfter) →
      allowed world (process, event)
        ⟨sharedAfter, update world.process process stateAfter⟩ →
      common sharedAfter ∧ own sharedAfter stateAfter ∧
        ∀ other, own sharedAfter (world.process other))
    (reached : Reaches advance allowed start world) :
    common world.shared ∧ ∀ process, own world.shared (world.process process) := by
  apply reached.invariant initial
  intro world process event stateAfter sharedAfter held advanced admitted
  have ⟨shared, moved, others⟩ :=
    preserved world process event stateAfter sharedAfter held.1 held.2 advanced admitted
  refine ⟨shared, ?_⟩
  intro other
  show own sharedAfter (update world.process process stateAfter other)
  by_cases same : other = process
  · rw [same, update_self]
    exact moved
  · rw [update_of_ne same]
    exact others other

theorem Reaches.trans {middle : World P σ ℓ} (first : Reaches advance allowed start middle)
    (second : Reaches advance allowed middle world) : Reaches advance allowed start world := by
  induction second with
  | refl => exact first
  | tail _ moved admitted ih => exact .tail ih moved admitted

theorem Reaches.mono {wider : World P σ ℓ → P × ε → World P σ ℓ → Prop}
    (included : ∀ world action next, allowed world action next → wider world action next)
    (reached : Reaches advance allowed start world) : Reaches advance wider start world := by
  induction reached with
  | refl => exact .refl
  | tail _ moved admitted ih => exact .tail ih moved (included _ _ _ admitted)

theorem reaches_of_runChecked [∀ world action next, Decidable (allowed world action next)]
    {actions : List (P × ε)} (ran : runChecked advance allowed start actions = some world) :
    Reaches advance allowed start world := by
  induction actions generalizing start with
  | nil =>
    rw [runChecked, Option.some.injEq] at ran
    rw [ran]
    exact .refl
  | cons action rest ih =>
    rw [runChecked] at ran
    cases moved : step advance start action with
    | none =>
      rw [moved] at ran
      cases ran
    | some next =>
      rw [moved] at ran
      by_cases admitted : allowed start action next
      · simp only [if_pos admitted] at ran
        exact (Reaches.tail .refl moved admitted).trans (ih ran)
      · simp only [if_neg admitted, reduceCtorEq] at ran

end Steps

end Mcpace.Library.Interleaving

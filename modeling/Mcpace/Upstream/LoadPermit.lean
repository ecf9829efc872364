import Mcpace.Library.Interleaving

/-!
Owns the permits of `acquire_tool_list_load_permit_or_cached` of `src/upstream/tool_cache.rs`: the
keys in flight, their condition variable, and the threads of a process that load, sleep and wake.

A sleeping thread remembers how many notifications there were before. Does not own what is loaded
and cached: a load and a look at the cache end in any way, and a call that the cache answers at once
takes no part.
-/

namespace Mcpace.Upstream.LoadPermit

open Library Interleaving Function

/-- A thread has a permit while it is loading. -/
inductive Phase (κ : Type) where
  | idle
  | acquiring (key : κ)
  | asleep (key : κ) (since : Nat)
  | checking (key : κ)
  | loading (key : κ)
deriving DecidableEq

inductive Outcome where
  | loaded
  | failed
  | panicked

inductive Event (κ : Type) where
  | call (key : κ)
  | lock
  | wake (spurious : Bool)
  | read (cached : Bool)
  | finish (outcome : Outcome)

structure InFlight (κ : Type) where
  keys : Finset κ
  notices : Nat

variable {P κ : Type} [DecidableEq P] [DecidableEq κ]

def advance (shared : InFlight κ) : Phase κ → Event κ → Option (Phase κ × InFlight κ)
  | .idle, .call key => some (.acquiring key, shared)
  | .acquiring key, .lock =>
    if key ∈ shared.keys then some (.asleep key shared.notices, shared)
    else some (.loading key, { shared with keys := insert key shared.keys })
  | .asleep key since, .wake spurious =>
    if spurious = false ∧ shared.notices ≤ since then none
    else if key ∈ shared.keys then some (.asleep key shared.notices, shared)
    else some (.checking key, shared)
  | .checking key, .read cached => some (if cached then .idle else .acquiring key, shared)
  | .loading key, .finish _ =>
    -- however the load ends, `drop` removes the key and notifies all under the lock
    some (.idle, ⟨shared.keys.erase key, shared.notices + 1⟩)
  | _, _ => none

abbrev Threads (P κ : Type) := World P (InFlight κ) (Phase κ)

def start : Threads P κ := ⟨⟨∅, 0⟩, fun _ => .idle⟩

/-- A sleeper's key is in flight, or it was notified. -/
structure SingleFlight (world : Threads P κ) : Prop where
  live : ∀ key, key ∈ world.shared.keys ↔ ∃ thread, world.process thread = .loading key
  single : ∀ key first second, world.process first = .loading key →
    world.process second = .loading key → first = second
  noticed : ∀ thread key since, world.process thread = .asleep key since →
    since ≤ world.shared.notices ∧ (key ∈ world.shared.keys ∨ since < world.shared.notices)

variable {world : Threads P κ}

theorem singleFlight_step {thread : P} {event : Event κ} {phase : Phase κ} {shared : InFlight κ}
    (flight : SingleFlight world)
    (advanced : advance world.shared (world.process thread) event = some (phase, shared)) :
    SingleFlight ⟨shared, update world.process thread phase⟩ := by
  obtain ⟨live, single, noticed⟩ := flight
  have here : ∀ other, update world.process thread phase other =
      if other = thread then phase else world.process other := by
    intro other
    rw [update_apply]
  unfold advance at advanced
  constructor
  · -- a permit is made and dropped together with its key
    grind
  · -- a permit is made for a key that no thread has
    grind
  · -- who falls asleep saw the key in flight, and who removes a key notifies
    grind

theorem singleFlight_of_reaches (reached : Reaches advance (fun _ _ _ => True) start world) :
    SingleFlight world := by
  refine reached.invariant ⟨?_, ?_, ?_⟩ ?_
  · exact fun key => iff_of_false (Finset.notMem_empty key) nofun
  · exact nofun
  · exact nofun
  · exact fun _ _ _ _ _ flight advanced _ => singleFlight_step flight advanced

/-- In every world that the threads reach, the keys in flight are those of the permits, no two
threads have a permit for one key, and a sleeper whose key has none leaves its wait. -/
theorem loads_singleFlight (reached : Reaches advance (fun _ _ _ => True) start world) :
    (∀ key, key ∈ world.shared.keys ↔ ∃ thread, world.process thread = .loading key) ∧
      (∀ key first second, world.process first = .loading key →
        world.process second = .loading key → first = second) ∧
      ∀ thread key since, world.process thread = .asleep key since →
        (∀ other, world.process other ≠ .loading key) → step advance world (thread, .wake false) =
            some ⟨world.shared, update world.process thread (.checking key)⟩ := by
  have flight := singleFlight_of_reaches reached
  refine ⟨flight.live, flight.single, ?_⟩
  intro thread key since asleep dropped
  have absent : key ∉ world.shared.keys := fun member =>
    (flight.live key).mp member |>.elim dropped
  have notified := (flight.noticed thread key since asleep).2.resolve_left absent
  have awake : ¬(false = false ∧ world.shared.notices ≤ since) := fun still =>
    absurd notified (Nat.not_lt.mpr still.2)
  rw [step, asleep, advance, if_neg awake, if_neg absent]
  rfl

/-- The second call sleeps, and the load of the first panics. -/
def panickedLoad : Option (Threads Bool Unit) :=
  runChecked advance (fun _ _ _ => True) start [(false, .call ()), (false, .lock),
    (true, .call ()), (true, .lock), (false, .finish .panicked)]

theorem loads_singleFlight_panickedLoad : ∃ world, panickedLoad = some world ∧
    step advance world (true, .wake false) =
      some ⟨world.shared, update world.process true (.checking ())⟩ := by
  have ran : panickedLoad = some (panickedLoad.getD start) := rfl
  refine ⟨_, ran, (loads_singleFlight (reaches_of_runChecked ran)).2.2 true () 0 rfl ?_⟩
  intro other
  cases other <;> exact nofun

end Mcpace.Upstream.LoadPermit

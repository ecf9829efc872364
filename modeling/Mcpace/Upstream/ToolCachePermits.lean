import Mcpace.Upstream.LoadPermit
import Mcpace.Upstream.ToolCache

/-!
Contract: the loads in flight of one process of `Upstream.ToolCache` are the permits of
`Upstream.LoadPermit`.

The cache leaves the notifications out: a waiter goes on once its key is free, which the permits
allow as a spurious wake. Looks, writes and the clock are no steps of the permits.
-/

namespace Mcpace.Upstream.ToolCache

open Library Interleaving Function

/-- Where a call stands with its permit. -/
inductive Stage where
  | away
  | looks (key : ToolListCacheKey)
  | acquires (key : ToolListCacheKey)
  | waits (key : ToolListCacheKey)
  | holds (key : ToolListCacheKey)

def Phase.stage : Phase → Stage
  | .idle | .returned _ _ | .crashed => .away
  | .looking call | .readingFile call | .judging call _ | .discarding call
  | .promoting call _ _ _ | .serving call _ _ _ => .looks call.key
  | .acquiring call => .acquires call.key
  | .waiting call => .waits call.key
  | .loading call | .stamping call _ | .writing call _ _ | .remembering call _
  | .releasing call _ => .holds call.key

/-- What a step does to the stage of its call and the keys in flight. -/
inductive Passes (keys : Finset ToolListCacheKey) :
    Stage → Stage → Finset ToolListCacheKey → Prop
  | stays (stage : Stage) : Passes keys stage stage keys
  | begins (key : ToolListCacheKey) : Passes keys .away (.looks key) keys
  | refreshes (key : ToolListCacheKey) : Passes keys .away (.acquires key) keys
  | misses (key : ToolListCacheKey) : Passes keys (.looks key) (.acquires key) keys
  | answers (key : ToolListCacheKey) : Passes keys (.looks key) .away keys
  | sleeps (key : ToolListCacheKey) (taken : key ∈ keys) :
      Passes keys (.acquires key) (.waits key) keys
  | takes (key : ToolListCacheKey) (free : key ∉ keys) :
      Passes keys (.acquires key) (.holds key) (insert key keys)
  | wakes (key : ToolListCacheKey) (free : key ∉ keys) :
      Passes keys (.waits key) (.looks key) keys
  | drops (key : ToolListCacheKey) : Passes keys (.holds key) .away (keys.erase key)

section Steps

variable {setting : Setting} {home : Nat} {shared after : Shared} {phase next : Phase}

theorem passes_proceed (moved : proceed setting home shared phase = some (next, after)) :
    Passes (shared.inFlight home) phase.stage next.stage (after.inFlight home) ∧
      ∀ other ≠ home, after.inFlight other = shared.inFlight other := by
  cases phase with
  | idle | loading | returned | crashed => cases moved
  | looking call =>
    rw [proceed, look] at moved
    split at moved
    · cases moved
      exact ⟨.stays _, fun _ _ => rfl⟩
    · split_ifs at moved <;> cases moved <;> exact ⟨.stays _, fun _ _ => rfl⟩
  | readingFile call =>
    cases moved
    refine ⟨?_, fun _ _ => rfl⟩
    cases shared.disk (setting.cachePath home call.key) with
    | none => exact .misses _
    | some file => exact .stays _
  | judging call file =>
    cases moved
    refine ⟨?_, fun _ _ => rfl⟩
    cases judge setting home call.key shared.now (file.document.reload setting.renumber) with
    | unusable => exact .misses _
    | expired | fresh => exact .stays _
  | discarding call =>
    cases moved
    exact ⟨.misses _, fun _ _ => rfl⟩
  | promoting | remembering | writing =>
    cases moved
    exact ⟨.stays _, fun _ _ => rfl⟩
  | serving =>
    cases moved
    exact ⟨.answers _, fun _ _ => rfl⟩
  | acquiring call =>
    rw [proceed] at moved
    split_ifs at moved with taken
    · cases moved
      exact ⟨.sleeps _ taken, fun _ _ => rfl⟩
    · cases moved
      refine ⟨?_, fun other different => update_of_ne different _ _⟩
      dsimp only
      rw [update_self]
      exact .takes _ taken
  | waiting call =>
    rw [proceed] at moved
    split_ifs at moved with taken
    cases moved
    exact ⟨.wakes _ taken, fun _ _ => rfl⟩
  | stamping call receipt =>
    rw [proceed] at moved
    cases moved
    refine ⟨?_, fun _ _ => rfl⟩
    split <;> exact .stays _
  | releasing call outcome =>
    cases moved
    refine ⟨?_, fun other different => update_of_ne different _ _⟩
    dsimp only
    rw [update_self]
    rcases outcome with _ | _ | _ <;> exact .drops _

theorem passes_move {event : Event}
    (moved : move setting home shared phase event = some (next, after)) :
    Passes (shared.inFlight home) phase.stage next.stage (after.inFlight home) ∧
      ∀ other ≠ home, after.inFlight other = shared.inFlight other := by
  cases event with
  | proceed => exact passes_proceed moved
  | tick | lose =>
    cases moved
    exact ⟨.stays _, fun _ _ => rfl⟩
  | call key refresh =>
    cases phase <;> cases moved
    all_goals
      refine ⟨?_, fun _ _ => rfl⟩
      cases refresh
      · exact .begins _
      · exact .refreshes _
  | fails =>
    cases phase <;> cases moved
    all_goals first
      | exact ⟨.stays _, fun _ _ => rfl⟩
      | exact ⟨.misses _, fun _ _ => rfl⟩
  | receive result =>
    cases phase with
    | loading call =>
      rw [move, receiving] at moved
      split at moved <;> cases moved <;> exact ⟨.stays _, fun _ _ => rfl⟩
    | _ => cases moved
  | panic =>
    cases phase with
    | loading call =>
      cases moved
      exact ⟨.stays _, fun _ _ => rfl⟩
    | _ => cases moved

end Steps

/-- A call that looks for the first time has not asked for a permit. -/
def Stage.Stands : Stage → LoadPermit.Phase ToolListCacheKey → Prop
  | .away, permit => permit = .idle
  | .looks key, permit => permit = .idle ∨ permit = .checking key
  | .acquires key, permit => permit = .acquiring key
  | .waits key, permit => ∃ since, permit = .asleep key since
  | .holds key, permit => permit = .loading key

/-- A step of the cache is a step of the permits, or none. -/
theorem Passes.advance {keys keysAfter : Finset ToolListCacheKey} {stage stageAfter : Stage}
    {permit : LoadPermit.Phase ToolListCacheKey} {flight : LoadPermit.InFlight ToolListCacheKey}
    (passes : Passes keys stage stageAfter keysAfter) (stands : stage.Stands permit)
    (same : flight.keys = keys) :
    ∃ permitAfter flightAfter, stageAfter.Stands permitAfter ∧ flightAfter.keys = keysAfter ∧
      ((permitAfter, flightAfter) = (permit, flight) ∨
        ∃ event, LoadPermit.advance flight permit event = some (permitAfter, flightAfter)) := by
  subst same
  cases passes with
  | stays => exact ⟨permit, flight, stands, rfl, .inl rfl⟩
  | begins => exact ⟨permit, flight, .inl stands, rfl, .inl rfl⟩
  | refreshes key =>
    rw [show permit = .idle from stands]
    exact ⟨.acquiring key, flight, rfl, rfl, .inr ⟨.call key, rfl⟩⟩
  | misses key =>
    rcases stands with rfl | rfl
    · exact ⟨.acquiring key, flight, rfl, rfl, .inr ⟨.call key, rfl⟩⟩
    · exact ⟨.acquiring key, flight, rfl, rfl, .inr ⟨.read false, rfl⟩⟩
  | answers key =>
    rcases stands with rfl | rfl
    · exact ⟨.idle, flight, rfl, rfl, .inl rfl⟩
    · exact ⟨.idle, flight, rfl, rfl, .inr ⟨.read true, rfl⟩⟩
  | sleeps key taken =>
    rw [show permit = .acquiring key from stands]
    exact ⟨_, flight, ⟨flight.notices, rfl⟩, rfl, .inr ⟨.lock, if_pos taken⟩⟩
  | takes key free =>
    rw [show permit = .acquiring key from stands]
    exact ⟨.loading key, _, rfl, rfl, .inr ⟨.lock, if_neg free⟩⟩
  | wakes key free =>
    obtain ⟨since, rfl⟩ := stands
    refine ⟨.checking key, flight, .inr rfl, rfl, .inr ⟨.wake true, ?_⟩⟩
    rw [LoadPermit.advance, if_neg (by simp), if_neg free]
  | drops key =>
    rw [show permit = .loading key from stands]
    exact ⟨.idle, _, rfl, rfl, .inr ⟨.finish .loaded, rfl⟩⟩

/-! ### Runs -/

section Runs

variable {T : Type} [DecidableEq T] {setting : Setting} {home : Nat} {start world : CacheWorld T}
  {allowed : CacheWorld T → T × Event → CacheWorld T → Prop}
  {permits : LoadPermit.Threads T ToolListCacheKey}

/-- The permits stand as the threads of the process do. -/
structure Follows (home : Nat) (world : CacheWorld T)
    (permits : LoadPermit.Threads T ToolListCacheKey) : Prop where
  keys : permits.shared.keys = world.shared.inFlight home
  stands : ∀ thread, (world.process thread).home = home →
    (world.process thread).phase.stage.Stands (permits.process thread)

/-- A step of another process leaves the permits alone, and one of the process is a step of them or
none. -/
theorem Follows.step {thread : T} {phase : Phase} {after : Shared}
    (follows : Follows home world permits)
    (passes : Passes (world.shared.inFlight (world.process thread).home)
      (world.process thread).phase.stage phase.stage
      (after.inFlight (world.process thread).home))
    (frame : ∀ other ≠ (world.process thread).home,
      after.inFlight other = world.shared.inFlight other) :
    ∃ next, Follows home ⟨after, update world.process thread ⟨(world.process thread).home, phase⟩⟩
        next ∧
      (next = permits ∨ ∃ event, step LoadPermit.advance permits (thread, event) = some next) := by
  by_cases own : (world.process thread).home = home
  · rw [own] at passes
    obtain ⟨permit, flight, stands, keys, stepped⟩ :=
      passes.advance (follows.stands thread own) follows.keys
    refine ⟨⟨flight, update permits.process thread permit⟩, ⟨keys, fun other ofHome => ?_⟩, ?_⟩
    · by_cases same : other = thread
      · subst same
        dsimp only
        rw [update_self, update_self]
        exact stands
      · dsimp only at ofHome ⊢
        rw [update_of_ne same] at ofHome ⊢
        rw [update_of_ne same]
        exact follows.stands other ofHome
    · rcases stepped with stuttered | ⟨event, made⟩
      · cases stuttered
        exact .inl (by rw [update_eq_self])
      · exact .inr ⟨event, by rw [Interleaving.step, made]; rfl⟩
  · refine ⟨permits, ⟨?_, fun other ofHome => ?_⟩, .inl rfl⟩
    · exact follows.keys.trans (frame home (Ne.symm own)).symm
    · have different : other ≠ thread := by
        rintro rfl
        dsimp only at ofHome
        rw [update_self] at ofHome
        exact own ofHome
      dsimp only at ofHome ⊢
      rw [update_of_ne different] at ofHome ⊢
      exact follows.stands other ofHome

variable (idle : ∀ thread, (start.process thread).phase = .idle)
  (empty : start.shared.inFlight home = ∅)
  (reached : Reaches (advance setting) allowed start world)

include idle empty reached

/-- Every run of the cache is one of the permits of each process. -/
theorem permits_follow :
    ∃ permits, Reaches LoadPermit.advance (fun _ _ _ => True) LoadPermit.start permits ∧
      Follows home world permits := by
  induction reached with
  | refl =>
    refine ⟨_, .refl, empty.symm, fun thread _ => ?_⟩
    rw [idle]
    rfl
  | tail earlier moved _ ih =>
    obtain ⟨permits, ran, follows⟩ := ih
    obtain ⟨thread, shared, advanced, rfl⟩ := step_eq_some moved
    obtain ⟨⟨phase, after⟩, stepped, same⟩ := Option.map_eq_some_iff.mp advanced
    cases same
    obtain ⟨passes, frame⟩ := passes_move stepped
    obtain ⟨next, follow, rfl | ⟨event, made⟩⟩ := follows.step passes frame
    · exact ⟨_, ran, follow⟩
    · exact ⟨next, ran.tail made trivial, follow⟩

/-- So no two threads of a process hold a permit for one key. -/
theorem holds_unique {key : ToolListCacheKey} {first second : T}
    (firstHome : (world.process first).home = home)
    (secondHome : (world.process second).home = home)
    (firstHolds : (world.process first).phase.stage = .holds key)
    (secondHolds : (world.process second).phase.stage = .holds key) : first = second := by
  obtain ⟨permits, ran, follows⟩ := permits_follow idle empty reached
  have firstStands := follows.stands first firstHome
  have secondStands := follows.stands second secondHome
  rw [firstHolds] at firstStands
  rw [secondHolds] at secondStands
  exact (LoadPermit.singleFlight_of_reaches ran).single key first second firstStands secondStands

end Runs

end Mcpace.Upstream.ToolCache

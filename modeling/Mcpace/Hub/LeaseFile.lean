import Mcpace.Hub.Lease.History
import Mcpace.Library.Interleaving

/-!
Contract: what concurrent lease commands can lose.

Mirrors `mutate_store` one file-system call at a time, with the seeding of
`ensure_runtime_layout` in front of it. The lease store lock is taken as exclusive
and writes as atomic, so the interleaving is that of check, seed, lock, probe,
read, save and unlock.

The seeding happens before the lock: a process that found the store missing can
write the default store over one that another process has saved since. Apart
from that, a run of processes is a run of the commands that they save, each with
its own result, and a lease leaves the store only by a release, a purge or a
takeover.
-/

namespace Mcpace.Hub.LeaseFile

open Library Json Hub.Lease OrderedMap Interleaving Option Function JsonValue

/-! ### Processes -/

/-- Where a process is in a command. A step holds what the command will read from
outside the store. -/
inductive Stage where
  | idle
  | checking (step : Step)
  | seeding (step : Step)
  | waiting (step : Step)
  | probing (step : Step)
  | reading (step : Step)
  | ready (step : Step) (store : JsonMap)
  | releasing (outcome : Except String LeaseCommandResult)
  | returned (outcome : Except String LeaseCommandResult)
  | crashed

/-- The store file and whether the lock is held. -/
structure Shared where
  file : StoreFile
  lockHeld : Bool

inductive Event where
  | begin (step : Step)
  | proceed
  | crash

/-- The stages between taking and dropping the guard. -/
def Stage.inSection : Stage → Bool
  | .probing _ | .reading _ | .ready _ _ | .releasing _ => true
  | _ => false

/-- The commands check their arguments before they touch the store. -/
def beginCommand (step : Step) : Stage :=
  match commandMutator step.environment step.command with
  | .error message => .returned (.error message)
  | .ok _ => .checking step

def advance (renumber : String → Option String) (shared : Shared) :
    Stage → Event → Option (Stage × Shared)
  | .idle, .begin step => some (beginCommand step, shared)
  | .returned _, .begin step => some (beginCommand step, shared)
  | .checking step, .proceed =>
    match step.environment.ioFailure with
    | some (.layout, message) => some (.returned (.error message), shared)
    | _ =>
      match shared.file with
      | some _ => some (.waiting step, shared)
      | none => some (.seeding step, shared)
  | .seeding step, .proceed =>
    some (.waiting step,
      { shared with file := some (.object (defaultStoreMap step.environment.seedMs)) })
  | .waiting step, .proceed =>
    match step.environment.ioFailure with
    | some (.lock, message) => some (.returned (.error message), shared)
    | _ => if shared.lockHeld then none else some (.probing step, { shared with lockHeld := true })
  | .probing step, .proceed =>
    match shared.file with
    | none =>
      some (.ready step (normalizeStoreShape (defaultStoreMap step.environment.seedMs)), shared)
    | some _ => some (.reading step, shared)
  | .reading step, .proceed =>
    match step.environment.ioFailure with
    | some (.read, message) => some (.releasing (.error message), shared)
    | _ =>
      match loadStore renumber shared.file step.environment.seedMs with
      | .error message => some (.releasing (.error message), shared)
      | .ok store => some (.ready step store, shared)
  | .ready step store, .proceed =>
    match step.environment.ioFailure with
    | some (.write, message) => some (.releasing (.error message), shared)
    | _ =>
      match commandMutator step.environment step.command with
      | .error message => some (.releasing (.error message), shared)
      | .ok mutator =>
        let mutated := mutateLoaded step.environment mutator store
        some (.releasing (.ok mutated.1), { shared with file := some (.object mutated.2) })
  | .releasing outcome, .proceed => some (.returned outcome, { shared with lockHeld := false })
  | .crashed, .crash => none
  -- The lock of a crashed process is recovered.
  | stage, .crash =>
    some (.crashed, if stage.inSection then { shared with lockHeld := false } else shared)
  | _, _ => none

abbrev StoreWorld (P : Type*) := World P Shared Stage

variable {P : Type*}

structure Initial (world : StoreWorld P) : Prop where
  idle : ∀ process, world.process process = .idle
  free : world.shared.lockHeld = false
  sorted : Sorted (storedLeases world.shared.file)

/-- A seeding write finds the store still missing. -/
def SeedsMissing (world : StoreWorld P) (action : P × Event) : Prop :=
  action.2 = .proceed → ∀ step, world.process action.1 = .seeding step → world.shared.file = none

/-! ### How a lease ends -/

/-- The command ends the lease: it expired by the command's clock, the command
releases it, or the command takes it over. -/
def EndedBy (nowMs : Nat) (leases : JsonMap) (leaseId : String) (command : LeaseCommand) : Prop :=
  (∃ record, get leaseId leases = some record ∧ Expired nowMs record) ∨
    (∃ named, command = .release named ∧ Text.trim named = leaseId) ∨
    ∃ route ttlMs conflict, command = .acquire route ttlMs true ∧ routeBlockers route = [] ∧
      findConflictIn (purgedLeases nowMs leases) route = some conflict ∧
      takeoverAllowed true conflict.lease route = true ∧
      requiredString conflict.lease ["leaseId"] = leaseId

/-- The step saves a command that ends the lease. -/
def EndsLease (leaseId : String) (world : StoreWorld P) (action : P × Event) : Prop :=
  action.2 = .proceed ∧ ∃ step store, world.process action.1 = .ready step store ∧
    (∀ message, step.environment.ioFailure ≠ some (.write, message)) ∧
    EndedBy step.environment.nowMs (leasesOf store) leaseId step.command

variable {environment : StepEnvironment} {command : LeaseCommand} {leases after : JsonMap}
  {acquired : Option String} {leaseId : String}

/-- An outcome of a command that does not end the lease keeps it. -/
theorem present_of_effect (sorted : Sorted leases)
    (outcome : LeaseEffect environment command (purgedLeases environment.nowMs leases) acquired after)
    (present : (get leaseId leases).isSome = true)
    (kept : ¬ EndedBy environment.nowMs leases leaseId command) :
    (get leaseId after).isSome = true := by
  obtain ⟨record, found⟩ := isSome_iff_exists.mp present
  have alive : unexpired environment.nowMs record = true := by
    rw [← Bool.not_eq_false]
    exact fun expired => kept (Or.inl ⟨record, found, unexpired_eq_false_iff.mp expired⟩)
  have current : get leaseId (purgedLeases environment.nowMs leases) =
      some record := by
    rw [purgedLeases, get_retain sorted, found, filter_some, alive, if_pos rfl]
  have inserted : ∀ {key : String} {value : JsonValue} {others : JsonMap},
      (leaseId ≠ key → (get leaseId others).isSome = true) →
      (get leaseId (OrderedMap.insert key value others)).isSome = true := by
    intro key value others stored
    rw [get_insert]
    split
    · rfl
    · rename_i different
      exact stored different
  have currentIsSome : (get leaseId
      (purgedLeases environment.nowMs leases)).isSome = true := by rw [current]; rfl
  cases outcome with
  | listed => exact currentIsSome
  | refused => exact currentIsSome
  | granted => exact inserted (fun _ => currentIsSome)
  | @takenOver route ttlMs takeover _ conflict admitted reported allowed =>
    apply inserted
    intro _
    have asked : takeover = true := (takeoverAllowed_iff.mp allowed).1
    subst asked
    rw [get_remove_of_ne]
    · exact currentIsSome
    · intro same
      exact kept (Or.inr (Or.inr ⟨route, ttlMs, conflict, rfl, admitted, reported, allowed,
        same.symm⟩))
  | renewed =>
    rw [get_modify, current]
    split <;> rfl
  | @released named =>
    rw [get_remove_of_ne]
    · exact currentIsSome
    · intro same
      exact kept (Or.inr (Or.inl ⟨named, rfl, same.symm⟩))

/-! ### What a step does to the file -/

theorem sorted_of_effect (sorted : Sorted leases)
    (outcome : LeaseEffect environment command leases acquired after) :
    Sorted after := by
  cases outcome with
  | listed => exact sorted
  | refused => exact sorted
  | granted => exact sorted_insert sorted
  | takenOver => exact sorted_insert (sorted_remove sorted)
  | renewed => exact sorted_modify sorted
  | released => exact sorted_remove sorted

variable {renumber : String → Option String} {shared : Shared} {stage : Stage} {event : Event}

/-- The stages behind the seeding. -/
def Stage.seeded : Stage → Bool
  | .waiting _ | .probing _ | .reading _ | .ready _ _ | .releasing _ => true
  | _ => false

def Unfailed (step : Step) (stages : List IoStage) : Prop :=
  ∀ stage ∈ stages, ∀ message, step.environment.ioFailure ≠ some (stage, message)

/-- What a process has passed of `mutate_store` has not failed. -/
def Stage.Passed : Stage → Prop
  | .seeding step | .waiting step => Unfailed step [.layout]
  | .probing step | .reading step => Unfailed step [.lock, .layout]
  | .ready step _ => Unfailed step [.read, .lock, .layout]
  | _ => True

/-- The results that a process has saved and not returned: one that it is about to return, or that
a crash has cut off. -/
def Stage.Pending : Stage → List LeaseCommandResult → Prop
  | .releasing (.ok result), pending => pending = [result]
  | .crashed, pending => pending.length ≤ 1
  | _, pending => pending = []

theorem Stage.Pending.length_le {pending : List LeaseCommandResult} (isPending : stage.Pending pending) :
    pending.length ≤ 1 := by
  unfold Stage.Pending at isPending
  split at isPending
  · rw [isPending, List.length_singleton]
  · exact isPending
  · rw [isPending]
    exact Nat.zero_le 1

/-- A step that neither saves a result nor returns one. -/
structure Continues (stage after : Stage) : Prop where
  passed : stage.Passed → after.Passed
  pending : ∀ pending, stage.Pending pending → after.Pending pending

/-- What a step can do: outside the section it shares nothing or seeds the file, and inside it
saves once at most. -/
inductive Moves (renumber : String → Option String) (shared : Shared) :
    Stage → Event → Stage → Shared → Prop where
  | passes {stage after : Stage} {event : Event} (continues : Continues stage after)
      (out : after.inSection = false) (seeded : after.seeded = true → shared.file.isSome = true) :
      Moves renumber shared stage event after shared
  | seeds (step : Step) : Moves renumber shared (.seeding step) .proceed (.waiting step)
      { shared with file := some (.object (defaultStoreMap step.environment.seedMs)) }
  | locks (step : Step) (free : shared.lockHeld ≠ true)
      (unfailed : ∀ message, step.environment.ioFailure ≠ some (.lock, message)) :
      Moves renumber shared (.waiting step) .proceed (.probing step) { shared with lockHeld := true }
  | remains {stage after : Stage} {event : Event} (within : stage.inSection = true)
      (loaded : shared.file.isSome = true → Continues stage after ∧ ∀ step store,
        after = .ready step store →
          loadStore renumber shared.file step.environment.seedMs = .ok store)
      (unsaved : ∀ result, after ≠ .releasing (.ok result)) :
      Moves renumber shared stage event after shared
  | saves {step : Step} {mutator : Mutator} (store : JsonMap)
      (body : commandMutator step.environment step.command = .ok mutator)
      (written : ∀ message, step.environment.ioFailure ≠ some (.write, message)) :
      Moves renumber shared (.ready step store) .proceed
        (.releasing (.ok (mutateLoaded step.environment mutator store).1))
        { shared with file := some (.object (mutateLoaded step.environment mutator store).2) }
  | returns (result : LeaseCommandResult) :
      Moves renumber shared (.releasing (.ok result)) .proceed (.returned (.ok result))
        { shared with lockHeld := false }
  | leaves {stage after : Stage} {event : Event} (continues : Continues stage after)
      (within : stage.inSection = true) (out : after.inSection = false)
      (unseeded : after.seeded = false) :
      Moves renumber shared stage event after { shared with lockHeld := false }

theorem moves_beginCommand (quiet : ∀ pending, stage.Pending pending → pending = []) (step : Step) :
    Moves renumber shared stage event (beginCommand step) shared := by
  unfold beginCommand
  split
  · exact .passes ⟨fun _ => trivial, quiet⟩ rfl nofun
  · exact .passes ⟨fun _ => trivial, quiet⟩ rfl nofun

theorem moves_of_advance {sharedAfter : Shared} {after : Stage}
    (advanced : advance renumber shared stage event = some (after, sharedAfter)) :
    Moves renumber shared stage event after sharedAfter := by
  unfold advance at advanced
  split at advanced
  · cases advanced
    exact moves_beginCommand (fun _ => id) _
  · cases advanced
    exact moves_beginCommand (fun _ => id) _
  · -- check
    split at advanced
    · cases advanced
      exact .passes ⟨fun _ => trivial, fun _ => id⟩ rfl nofun
    · rename_i unfailed
      have passed : Unfailed _ [.layout] := List.forall_mem_singleton.mpr unfailed
      split at advanced
      · rename_i found
        cases advanced
        exact .passes ⟨fun _ => passed, fun _ => id⟩ rfl (fun _ => by rw [found]; rfl)
      · cases advanced
        exact .passes ⟨fun _ => passed, fun _ => id⟩ rfl nofun
  · cases advanced
    exact .seeds _
  · -- lock
    split at advanced
    · cases advanced
      exact .passes ⟨fun _ => trivial, fun _ => id⟩ rfl nofun
    · rename_i unfailed
      split at advanced
      · cases advanced
      · rename_i free
        cases advanced
        exact .locks _ free unfailed
  · -- probe
    split at advanced
    · rename_i missing
      cases advanced
      refine .remains rfl (fun present => ?_) nofun
      rw [missing] at present
      cases present
    · cases advanced
      exact .remains rfl (fun _ => ⟨⟨id, fun _ => id⟩, fun _ _ ready => by cases ready⟩) nofun
  · -- read
    split at advanced
    · cases advanced
      exact .remains rfl (fun _ => ⟨⟨fun _ => trivial, fun _ => id⟩, fun _ _ ready => by cases ready⟩) nofun
    · rename_i unfailed
      split at advanced
      · cases advanced
        exact .remains rfl (fun _ => ⟨⟨fun _ => trivial, fun _ => id⟩, fun _ _ ready => by cases ready⟩) nofun
      · rename_i store loaded
        cases advanced
        refine .remains rfl (fun _ => ⟨⟨fun passed => List.forall_mem_cons.mpr ⟨unfailed, passed⟩,
          fun _ => id⟩, fun _ _ ready => ?_⟩) nofun
        cases ready
        exact loaded
  · -- save
    split at advanced
    · cases advanced
      exact .remains rfl (fun _ => ⟨⟨fun _ => trivial, fun _ => id⟩, fun _ _ ready => by cases ready⟩) nofun
    · rename_i written
      split at advanced
      · cases advanced
        exact .remains rfl (fun _ => ⟨⟨fun _ => trivial, fun _ => id⟩, fun _ _ ready => by cases ready⟩) nofun
      · rename_i body
        cases advanced
        exact .saves _ body written
  · rename_i outcome
    cases advanced
    cases outcome with
    | error message => exact .leaves ⟨fun _ => trivial, fun _ => id⟩ rfl rfl rfl
    | ok result => exact .returns result
  · cases advanced
  · -- crash
    cases advanced
    have crashes : Continues stage .crashed := ⟨fun _ => trivial, fun _ => Stage.Pending.length_le⟩
    split
    · rename_i within
      exact .leaves crashes within rfl rfl
    · exact .passes crashes rfl nofun
  · cases advanced

/-! ### The invariant -/

structure Invariant (renumber : String → Option String) (world : StoreWorld P) : Prop where
  sorted : Sorted (storedLeases world.shared.file)
  held : ∀ process, (world.process process).inSection = true → world.shared.lockHeld = true
  alone : ∀ process other, (world.process process).inSection = true →
    (world.process other).inSection = true → process = other
  exists_file : ∀ process, (world.process process).seeded = true → world.shared.file.isSome = true
  loaded : ∀ process step store, world.process process = .ready step store →
    loadStore renumber world.shared.file step.environment.seedMs = .ok store
  stored : ∀ process result leaseId, world.process process = .releasing (.ok result) →
    acquiredLeaseId result = some leaseId →
      (get leaseId (storedLeases world.shared.file)).isSome = true

variable {world : StoreWorld P}

theorem Initial.invariant (initial : Initial world) : Invariant renumber world := by
  obtain ⟨shared, stages⟩ := world
  obtain rfl : stages = fun _ => .idle := funext initial.idle
  constructor
  · exact initial.sorted
  all_goals simp [Stage.inSection, Stage.seeded]

namespace Invariant

variable [DecidableEq P] {world : StoreWorld P} {process : P} {stage : Stage} {shared : Shared}

/-- The process ends up outside the section and the stored leases are the same. -/
theorem outside (invariant : Invariant renumber world)
    (sameLeases : storedLeases shared.file = storedLeases world.shared.file)
    (keepsFile : world.shared.file.isSome = true → shared.file = world.shared.file)
    (lock : (world.process process).inSection = false → shared.lockHeld = world.shared.lockHeld)
    (out : stage.inSection = false)
    (seeded : stage.seeded = true → shared.file.isSome = true) :
    Invariant renumber ⟨shared, update world.process process stage⟩ := by
  obtain ⟨sorted, held, alone, exists_file, loaded, stored⟩ := invariant
  constructor
  · rw [sameLeases]
    exact sorted
  all_goals
    have seededStage : ∀ step store, (Stage.ready step store).seeded = true := fun _ _ => rfl
    grind [update_apply, Stage.inSection, Stage.seeded]

/-- The process ends up alone in the section. -/
theorem inside (others : ∀ other, other ≠ process → (world.process other).inSection = false)
    (sorted : Sorted (storedLeases shared.file))
    (held : shared.lockHeld = true) (present : shared.file.isSome = true)
    (loaded : ∀ step store, stage = .ready step store →
      loadStore renumber shared.file step.environment.seedMs = .ok store)
    (stored : ∀ result leaseId, stage = .releasing (.ok result) →
      acquiredLeaseId result = some leaseId →
        (get leaseId (storedLeases shared.file)).isSome = true) :
    Invariant renumber ⟨shared, update world.process process stage⟩ := by
  constructor
  · exact sorted
  all_goals
    grind [update_apply, Stage.inSection, Stage.seeded]

omit [DecidableEq P] in
theorem others_outside (invariant : Invariant renumber world)
    (within : (world.process process).inSection = true) :
    ∀ other, other ≠ process → (world.process other).inSection = false := by
  intro other different
  rw [← Bool.not_eq_true]
  exact fun inside => different (invariant.alone other process inside within)

omit [DecidableEq P] in
theorem present (invariant : Invariant renumber world)
    (within : (world.process process).inSection = true) : world.shared.file.isSome = true := by
  apply invariant.exists_file process
  revert within
  cases world.process process <;> simp [Stage.inSection, Stage.seeded]

/-- Every step that does not seed over an existing store keeps the invariant. -/
theorem step (invariant : Invariant renumber world) {event : Event}
    (advanced : advance renumber world.shared (world.process process) event = some (stage, shared))
    (seeds : SeedsMissing world (process, event)) :
    Invariant renumber ⟨shared, update world.process process stage⟩ := by
  have moves := moves_of_advance advanced
  generalize before : world.process process = earlier at moves
  cases moves with
  | passes _ out seeded => exact invariant.outside rfl (fun _ => rfl) (fun _ => rfl) out seeded
  | seeds step =>
    -- the store was missing, so it had no leases to lose
    have missing := seeds rfl step before
    refine invariant.outside ?_ (fun present => ?_) (fun _ => rfl) rfl (fun _ => rfl)
    · rw [missing]
      exact leasesOf_defaultStoreMap step.environment.seedMs
    · rw [missing] at present
      cases present
  | locks step free =>
    apply inside
    · intro other different
      rw [← Bool.not_eq_true]
      exact fun inside => free (invariant.held other inside)
    · exact invariant.sorted
    · rfl
    · exact invariant.exists_file process (by rw [before]; rfl)
    · exact fun _ _ ready => by cases ready
    · exact nofun
  | remains within loaded unsaved =>
    rw [← before] at within
    have present := invariant.present within
    exact inside (invariant.others_outside within) invariant.sorted (invariant.held process within)
      present (loaded present).2 (fun result _ saved => absurd saved (unsaved result))
  | saves store body =>
    have effect := mutateLoaded_effect body store
    have within : (world.process process).inSection = true := by rw [before]; rfl
    apply inside (invariant.others_outside within)
    · apply sorted_of_effect _ effect
      rw [loadStore_leases (invariant.loaded process _ _ before)]
      exact sorted_retain (sorted_reloadEntries _ invariant.sorted)
    · exact invariant.held process within
    · rfl
    · exact fun _ _ ready => by cases ready
    · intro result leaseId releasing acquired
      cases releasing
      rw [acquired] at effect
      obtain ⟨_, _, _, -, -, found⟩ := effect.acquired_eq
      rw [storedLeases_object, found]
      rfl
  | returns result =>
    refine invariant.outside rfl (fun _ => rfl) (fun outside => ?_) rfl nofun
    rw [before] at outside
    cases outside
  | leaves _ within out unseeded =>
    refine invariant.outside rfl (fun _ => rfl) (fun outside => ?_) out (fun seeded => ?_)
    · rw [before, within] at outside
      cases outside
    · rw [unseeded] at seeded
      cases seeded

end Invariant

/-! ### No lost lease -/

/-- Every seeding write finds the store missing. -/
def Orderly (before : StoreWorld P) (action : P × Event) (_ : StoreWorld P) : Prop :=
  SeedsMissing before action

/-- An orderly step that does not end the lease. -/
def OrderlyKeeping (leaseId : String) (before : StoreWorld P) (action : P × Event)
    (after : StoreWorld P) : Prop :=
  Orderly before action after ∧ ¬ EndsLease leaseId before action

/-- A stored lease survives every orderly step that does not end it. -/
theorem present_step {process : P} (invariant : Invariant renumber world)
    (advanced : advance renumber world.shared (world.process process) event = some (stage, shared))
    (seeds : SeedsMissing world (process, event))
    (kept : ¬ EndsLease leaseId world (process, event))
    (present : (get leaseId (storedLeases world.shared.file)).isSome = true) :
    (get leaseId (storedLeases shared.file)).isSome = true := by
  have moves := moves_of_advance advanced
  generalize before : world.process process = earlier at moves
  cases moves with
  | passes | locks | remains | returns | leaves => exact present
  | seeds step =>
    -- A missing store has no leases.
    rw [seeds rfl step before] at present
    cases present
  | @saves step _ store body written =>
    have effect := mutateLoaded_effect body store
    have loaded := loadStore_leases (invariant.loaded process step store before)
    have sorted : Sorted (leasesOf store) := by
      rw [loaded]
      exact sorted_reloadEntries _ invariant.sorted
    apply present_of_effect sorted effect
    · rw [loaded, get_reloadEntries, isSome_map]
      exact present
    · exact fun ended => kept ⟨rfl, step, store, before, written, ended⟩

theorem invariant_of_reaches [DecidableEq P] {start world : StoreWorld P} (initial : Initial start)
    (reached : Reaches (advance renumber) Orderly start world) : Invariant renumber world := by
  apply reached.invariant initial.invariant
  intro earlier mover moved stage shared held advanced admitted
  exact held.step advanced admitted

/-- In every run whose seeding writes all find the store missing, a lease that an
acquire has returned stays in the store file through every step that does not
release it, purge it or take it over. -/
theorem leaseFile_keeps [DecidableEq P] (renumber : String → Option String)
    {start world next later : StoreWorld P}
    (initial : Initial start) (reached : Reaches (advance renumber) Orderly start world)
    {process : P} {event : Event}
    (returns : step (advance renumber) world (process, event) = some next)
    (orderly : Orderly world (process, event) next)
    {outcome : Except String LeaseCommandResult}
    (before : world.process process = .releasing outcome)
    (after : next.process process = .returned outcome)
    {leaseId : String} (acquired : outcome.toOption.bind acquiredLeaseId = some leaseId)
    (continues : Reaches (advance renumber) (OrderlyKeeping leaseId) next later) :
    (get leaseId (storedLeases later.shared.file)).isSome = true := by
  have invariant := invariant_of_reaches initial reached
  obtain ⟨result, rfl, reported⟩ : ∃ result, outcome = .ok result ∧
      acquiredLeaseId result = some leaseId := by
    cases outcome with
    | error message => cases acquired
    | ok result => exact ⟨result, rfl, acquired⟩
  have stored := invariant.stored process result leaseId before reported
  obtain ⟨stage, shared, advanced, rfl⟩ := step_eq_some returns
  have kept : ¬ EndsLease leaseId world (process, event) := by
    rintro ⟨-, step, store, ready, -⟩
    rw [before] at ready
    cases ready
  let holds : StoreWorld P → Prop := fun current => Invariant renumber current ∧
    (get leaseId (storedLeases current.shared.file)).isSome = true
  suffices final : holds later from final.2
  apply Reaches.invariant _ _ continues
  · exact ⟨invariant.step advanced orderly, present_step invariant advanced orderly kept stored⟩
  · rintro current mover moved movedStage movedShared ⟨held, present⟩ movedBy ⟨seeds, keeps⟩
    exact ⟨held.step movedBy seeds, present_step held movedBy seeds keeps present⟩

/-! ### Histories -/

/-- A command that a process has saved, and its result. -/
structure Call (P : Type*) where
  process : P
  step : Step
  result : LeaseCommandResult

/-- The commands in the order of their saves, and the results that each process has returned. -/
structure History (P : Type*) where
  saved : List (Call P)
  returned : P → List LeaseCommandResult

section Histories

variable [DecidableEq P]

def History.record (history : History P) (process : P) : Stage → Stage → History P
  | .ready step _, .releasing (.ok result) =>
    { history with saved := history.saved ++ [⟨process, step, result⟩] }
  | .releasing (.ok result), .returned _ =>
    { history with
      returned := update history.returned process (history.returned process ++ [result]) }
  | _, _ => history

/-- The results of the commands that a process has saved. -/
def History.results (history : History P) (process : P) : List LeaseCommandResult :=
  (history.saved.filter (·.process = process)).map Call.result

theorem History.record_of_continues {history : History P} {process : P} {after : Stage}
    (continues : Continues stage after) : history.record process stage after = history := by
  unfold History.record
  split
  · cases continues.pending [] rfl
  · cases continues.pending _ rfl
  · rfl

theorem History.results_record (history : History P) (process other : P) (step : Step)
    (store : JsonMap) (result : LeaseCommandResult) :
    (history.record process (.ready step store) (.releasing (.ok result))).results other =
      history.results other ++ if process = other then [result] else [] := by
  by_cases same : process = other
  · simp [History.results, History.record, same]
  · simp [History.results, History.record, same]

/-- The worlds that a run reaches, with its history. -/
inductive Recorded (renumber : String → Option String) (start : StoreWorld P) :
    StoreWorld P → History P → Prop where
  | start : Recorded renumber start start ⟨[], fun _ => []⟩
  | tail {world next : StoreWorld P} {history : History P} {process : P} {event : Event}
      (earlier : Recorded renumber start world history)
      (moved : step (advance renumber) world (process, event) = some next)
      (orderly : Orderly world (process, event) next) :
      Recorded renumber start next
        (history.record process (world.process process) (next.process process))

/-- The results of commands that run one after the other. -/
def outcomes (renumber : String → Option String) :
    StoreFile → List Step → List (Except String LeaseCommandResult)
  | _, [] => []
  | file, step :: rest =>
    (execute renumber file step).1 :: outcomes renumber (execute renumber file step).2 rest

theorem outcomes_append (renumber : String → Option String) (file : StoreFile)
    (steps : List Step) (step : Step) : outcomes renumber file (steps ++ [step]) =
      outcomes renumber file steps ++ [(execute renumber (run renumber file steps) step).1] := by
  induction steps generalizing file with
  | nil => rfl
  | cons first rest ih => rw [List.cons_append, outcomes, ih, outcomes, run_cons, List.cons_append]

/-- The saved commands, one after the other from the seeded store, give their results and the
file. -/
structure Serial (renumber : String → Option String) (first : StoreFile) (saved : List (Call P))
    (file : StoreFile) : Prop where
  outcomes_eq : outcomes renumber first (saved.map Call.step) =
    saved.map (fun call => .ok call.result)
  run_eq : run renumber first (saved.map Call.step) = file

variable {start world : StoreWorld P} {history : History P}

theorem Recorded.reaches (recorded : Recorded renumber start world history) :
    Reaches (advance renumber) Orderly start world := by
  induction recorded with
  | start => exact .refl
  | tail _ moved orderly ih => exact .tail ih moved orderly

theorem exists_recorded (reached : Reaches (advance renumber) Orderly start world) :
    ∃ history, Recorded renumber start world history := by
  induction reached with
  | refl => exact ⟨_, .start⟩
  | tail _ moved orderly ih =>
    obtain ⟨history, recorded⟩ := ih
    exact ⟨_, .tail recorded moved orderly⟩

section Runs

variable (initial : Initial start)

include initial

omit [DecidableEq P] initial in
/-- A process that saves has executed its command on the file. -/
theorem execute_of_saves {process : P} {step : Step} {store : JsonMap} {mutator : Mutator}
    (invariant : Invariant renumber world) (passed : (world.process process).Passed)
    (ready : world.process process = .ready step store)
    (body : commandMutator step.environment step.command = .ok mutator)
    (written : ∀ message, step.environment.ioFailure ≠ some (.write, message)) :
    execute renumber world.shared.file step =
      (.ok (mutateLoaded step.environment mutator store).1,
        some (.object (mutateLoaded step.environment mutator store).2)) := by
  have loaded := invariant.loaded process step store ready
  have present : world.shared.file.isSome = true := invariant.present (by rw [ready]; rfl)
  rw [ready] at passed
  have unfailed : step.environment.ioFailure = none := by
    cases failure : step.environment.ioFailure with
    | none => rfl
    | some cause =>
      obtain ⟨stage, message⟩ := cause
      refine absurd failure ?_
      cases stage with
      | layout => exact passed .layout (by decide) message
      | lock => exact passed .lock (by decide) message
      | read => exact passed .read (by decide) message
      | write => exact written message
  obtain ⟨document, file⟩ := isSome_iff_exists.mp present
  rw [file] at loaded ⊢
  simp only [execute, body, mutateStore, unfailed, ensureRuntimeLayout, loaded]

/-- What a history says of a process: it has returned what it has saved up to what is pending. -/
def Accounted (history : History P) (process : P) (stage : Stage) : Prop :=
  ∃ pending, history.results process = history.returned process ++ pending ∧ stage.Pending pending

/-- What a history says of the run: the saved commands lead from the start, seeded or not, to the
file, and every process has passed what it has done. -/
structure Told (renumber : String → Option String) (start world : StoreWorld P)
    (history : History P) : Prop where
  missing : world.shared.file = none → start.shared.file = none ∧ history.saved = []
  serial : ∃ first, (first = start.shared.file ∨
      ∃ seedMs, first = ensureRuntimeLayout start.shared.file seedMs) ∧
    Serial renumber first history.saved world.shared.file
  process : ∀ process, (world.process process).Passed ∧
    Accounted history process (world.process process)

omit initial in
theorem Told.moved {later : History P} {process : P} {stage : Stage}
    (told : Told renumber start world history) (passed : stage.Passed)
    (accounted : Accounted later process stage)
    (others : ∀ other, other ≠ process →
      later.results other = history.results other ∧ later.returned other = history.returned other)
    (other : P) : (update world.process process stage other).Passed ∧
      Accounted later other (update world.process process stage other) := by
  by_cases same : other = process
  · rw [same, update_self]
    exact ⟨passed, accounted⟩
  · rw [update_of_ne same, Accounted, (others other same).1, (others other same).2]
    exact told.process other

omit initial in
theorem Told.continues {process : P} {stage : Stage}
    (told : Told renumber start world history)
    (continues : Continues (world.process process) stage) (other : P) :
    (update world.process process stage other).Passed ∧
      Accounted history other (update world.process process stage other) := by
  obtain ⟨passed, pending, split, isPending⟩ := told.process process
  exact told.moved (continues.passed passed) ⟨pending, split, continues.pending _ isPending⟩
    (fun _ _ => ⟨rfl, rfl⟩) other

theorem Recorded.told (recorded : Recorded renumber start world history) :
    Told renumber start world history := by
  induction recorded with
  | start =>
    refine ⟨fun missing => ⟨missing, rfl⟩, ⟨_, .inl rfl, rfl, rfl⟩, fun process => ?_⟩
    rw [initial.idle process]
    exact ⟨trivial, [], rfl, rfl⟩
  | @tail world next history process event earlier moved orderly told =>
    have invariant := invariant_of_reaches initial earlier.reaches
    obtain ⟨stage, shared, advanced, rfl⟩ := step_eq_some moved
    have moves := moves_of_advance advanced
    dsimp only
    rw [update_self]
    have quiet : ∀ continues : Continues (world.process process) stage, shared.file = world.shared.file →
        Told renumber start ⟨shared, update world.process process stage⟩
          (history.record process (world.process process) stage) := by
      intro continues same
      rw [History.record_of_continues continues]
      exact ⟨same ▸ told.missing, same ▸ told.serial, told.continues continues⟩
    generalize before : world.process process = earlierStage at moves quiet ⊢
    cases moves with
    | passes continues | leaves continues => exact quiet continues rfl
    | remains within loaded =>
      rw [← before] at within
      exact quiet (loaded (invariant.present within)).1 rfl
    | locks step free unfailed =>
      exact quiet ⟨fun passed => List.forall_mem_cons.mpr ⟨unfailed, passed⟩, fun _ => id⟩ rfl
    | seeds step =>
      obtain ⟨atStart, none⟩ := told.missing (orderly rfl step before)
      refine ⟨nofun, ⟨_, .inr ⟨step.environment.seedMs, rfl⟩, ?_⟩, ?_⟩
      · show Serial _ _ history.saved _
        rw [none, atStart]
        exact ⟨rfl, rfl⟩
      · exact told.continues (before ▸ ⟨id, fun _ => id⟩)
    | @saves step mutator store body written =>
      obtain ⟨passed, pending, split, isPending⟩ := told.process process
      have executed := execute_of_saves invariant passed before body written
      obtain ⟨first, isFirst, serial⟩ := told.serial
      rw [before] at isPending
      obtain rfl : pending = [] := isPending
      refine ⟨nofun, ⟨first, isFirst, ?_, ?_⟩, ?_⟩
      · show outcomes renumber first ((history.saved ++ [_]).map Call.step) =
          (history.saved ++ [_]).map _
        rw [List.map_append, List.map_append, List.map_singleton, List.map_singleton,
          outcomes_append, serial.outcomes_eq, serial.run_eq, executed]
      · show run renumber first ((history.saved ++ [_]).map Call.step) = _
        rw [List.map_append, List.map_singleton, run_append, serial.run_eq]
        exact congrArg Prod.snd executed
      · refine told.moved trivial ⟨[_], ?_, rfl⟩ (fun other different => ⟨?_, rfl⟩)
        · rw [History.results_record, if_pos rfl, split, List.append_nil]
          rfl
        · rw [History.results_record, if_neg different.symm, List.append_nil]
    | returns result =>
      obtain ⟨-, pending, split, isPending⟩ := told.process process
      rw [before] at isPending
      obtain rfl : pending = [result] := isPending
      refine ⟨told.missing, told.serial, told.moved trivial ⟨[], ?_, rfl⟩ (fun other different =>
        ⟨rfl, update_of_ne different ..⟩)⟩
      show history.results process = update history.returned process _ process ++ []
      rw [update_self, List.append_nil]
      exact split

/-- A run whose seeding writes all find the store missing is serializable: the commands that it
saves, executed one after the other in that order, have the results that they have in the run and
leave its file, and each process has returned the results of the commands that it has saved, in
order and once, up to one that is pending. -/
theorem leaseFile_serial (recorded : Recorded renumber start world history) :
    (∃ first, (first = start.shared.file ∨
        ∃ seedMs, first = ensureRuntimeLayout start.shared.file seedMs) ∧
      Serial renumber first history.saved world.shared.file) ∧
    ∀ process, ∃ pending, history.results process = history.returned process ++ pending ∧
      (world.process process).Pending pending :=
  have told := recorded.told initial
  ⟨told.serial, fun process => (told.process process).2⟩

/-- In such a run from an empty store, at most one lease holds a request mutex key. -/
theorem leaseFile_exclusive (reached : Reaches (advance renumber) Orderly start world)
    (empty : storedLeases start.shared.file = []) (mutexKey : String) :
    (mutexSlot mutexKey).occupancy (storedLeases world.shared.file) ≤ 1 := by
  obtain ⟨history, recorded⟩ := exists_recorded reached
  obtain ⟨first, isFirst, serial⟩ := (recorded.told initial).serial
  have noLeases : storedLeases first = [] := by
    rcases isFirst with rfl | ⟨seedMs, rfl⟩
    · exact empty
    · rw [storedLeases_ensureRuntimeLayout, empty]
  rw [← serial.run_eq]
  apply (mutexSlot mutexKey).run_occupancy_le
  · intro entry _ falls
    apply mutexSlot_guardedBy
    simpa [mutexSlot, grantedTexts] using falls
  · rw [noLeases]
    exact WellFormed.empty
  · rw [noLeases]
    exact Nat.zero_le 1

end Runs

end Histories

/-! ### Concrete runs -/

section Concrete

def Stage.isSeeding : Stage → Bool
  | .seeding _ => true
  | _ => false

def Stage.hasReturned : Stage → Bool
  | .returned (.ok _) => true
  | _ => false

/-- The lease a command is about to return. -/
def Stage.releasingLease : Stage → Option String
  | .releasing outcome => outcome.toOption.bind acquiredLeaseId
  | _ => none

variable {stage : Stage}

theorem isSeeding_iff : stage.isSeeding = true ↔ ∃ step, stage = .seeding step := by
  cases stage <;> simp [Stage.isSeeding]

theorem hasReturned_iff : stage.hasReturned = true ↔ ∃ result, stage = .returned (.ok result) := by
  unfold Stage.hasReturned
  split <;> simp_all

theorem releasingLease_eq_some {leaseId : String}
    (releasing : stage.releasingLease = some leaseId) :
    ∃ outcome, stage = .releasing outcome ∧
      outcome.toOption.bind acquiredLeaseId = some leaseId := by
  cases stage with
  | releasing outcome => exact ⟨outcome, rfl, releasing⟩
  | idle | checking | seeding | waiting | probing | reading | ready | returned | crashed =>
    cases releasing

instance (before : StoreWorld Bool) (action : Bool × Event) (after : StoreWorld Bool) :
    Decidable (Orderly before action after) :=
  decidable_of_iff
    ((match action.2 with | .proceed => true | _ => false) = true →
      (before.process action.1).isSeeding = true → before.shared.file.isNone = true) (by
    unfold Orderly SeedsMissing
    rw [isSeeding_iff, isNone_iff_eq_none, forall_exists_index]
    cases action.2 <;> simp)

/-- Take the given steps as long as they are possible and orderly, and record them. -/
def runRecorded (current : StoreWorld Bool × History Bool) (actions : List (Bool × Event)) :
    Option (StoreWorld Bool × History Bool) :=
  actions.foldlM (fun current action =>
    ((step (advance some) current.1 action).filter (fun next => Orderly current.1 action next)).map
      (fun next => (next, current.2.record action.1 (current.1.process action.1)
        (next.process action.1)))) current

theorem recorded_of_runRecorded {start : StoreWorld Bool} {actions : List (Bool × Event)}
    {current result : StoreWorld Bool × History Bool}
    (recorded : Recorded some start current.1 current.2)
    (ran : runRecorded current actions = some result) : Recorded some start result.1 result.2 := by
  induction actions generalizing current with
  | nil =>
    cases ran
    exact recorded
  | cons action rest ih =>
    obtain ⟨_, moves, later⟩ := Option.bind_eq_some_iff.mp ran
    obtain ⟨next, moved, rfl⟩ := map_eq_some_iff.mp moves
    obtain ⟨moved, orderly⟩ := filter_eq_some_iff.mp moved
    exact ih (.tail recorded moved (of_decide_eq_true orderly)) later

def missingStore : StoreWorld Bool := ⟨{ file := none, lockHeld := false }, fun _ => .idle⟩

theorem missingStore_initial : Initial (missingStore : StoreWorld Bool) where
  idle := fun _ => rfl
  free := rfl
  sorted := sorted_nil

end Concrete

def acquireStep : Step := ⟨.acquire poolRoute none false, clockAt 10⟩

def acquireRun : List (Bool × Event) :=
  (false, .begin acquireStep) :: List.replicate 6 (false, .proceed)

/-- The second process lists the leases. -/
def listRun : List (Bool × Event) :=
  (true, .begin ⟨.list, clockAt 20⟩) :: List.replicate 6 (true, .proceed)

/-- A step that is not a save, or saves a list in which the lease has not expired. -/
def plainlyKeeps (leaseId : String) (world : StoreWorld Bool) (action : Bool × Event) : Bool :=
  match world.process action.1 with
  | .ready ⟨.list, environment⟩ store =>
    (get leaseId (leasesOf store)).all (unexpired environment.nowMs)
  | .ready _ _ => false
  | _ => true

theorem orderlyKeeping_of_plainlyKeeps {leaseId : String} {world next : StoreWorld Bool}
    {action : Bool × Event}
    (both : Orderly world action next ∧ plainlyKeeps leaseId world action = true) :
    OrderlyKeeping leaseId world action next := by
  refine ⟨both.1, ?_⟩
  rintro ⟨-, step, store, ready, -, ended⟩
  have keeps := both.2
  obtain ⟨command, environment⟩ := step
  rw [plainlyKeeps, ready] at keeps
  cases command with
  | list =>
    rcases ended with ⟨record, found, expired⟩ | ⟨_, isRelease, _⟩ | ⟨_, _, _, isAcquire, _⟩
    · dsimp only at keeps
      rw [found, Option.all_some, unexpired_eq_false_iff.mpr expired] at keeps
      cases keeps
    · cases isRelease
    · cases isAcquire
  | acquire | renew | release => cases keeps

theorem leaseFile_keeps_acquireRun :
    ∃ (world next later : StoreWorld Bool) (listed : LeaseCommandResult),
      Reaches (advance some) Orderly missingStore world ∧
      step (advance some) world (false, .proceed) = some next ∧
      Reaches (advance some) (OrderlyKeeping "lease:files:10:7:10") next later ∧
      later.process true = .returned (.ok listed) ∧
      (get "lease:files:10:7:10" (storedLeases later.shared.file)).isSome = true := by
  have ran : ((runChecked (advance some) Orderly missingStore acquireRun).bind (fun world =>
      (step (advance some) world (false, .proceed)).bind (fun next =>
        (runChecked (advance some) (fun world action next => Orderly world action next ∧
          plainlyKeeps "lease:files:10:7:10" world action = true) next listRun).map (fun later =>
            ((world.process false).releasingLease, (later.process true).hasReturned))))) =
      some (some "lease:files:10:7:10", true) := by decide
  obtain ⟨world, reachedBy, rest⟩ := bind_eq_some_iff.mp ran
  obtain ⟨next, returns, rest⟩ := bind_eq_some_iff.mp rest
  obtain ⟨later, laterBy, observed⟩ := map_eq_some_iff.mp rest
  obtain ⟨acquires, lists⟩ := Prod.mk.inj observed
  obtain ⟨outcome, releasing, acquired⟩ := releasingLease_eq_some acquires
  obtain ⟨listed, returned⟩ := hasReturned_iff.mp lists
  have reached := reaches_of_runChecked reachedBy
  have continues : Reaches (advance some) (OrderlyKeeping "lease:files:10:7:10") next later :=
    (reaches_of_runChecked laterBy).mono (fun _ _ _ => orderlyKeeping_of_plainlyKeeps)
  have after : next.process false = .returned outcome := by
    simp only [step, releasing, advance, Option.map_some, some.injEq] at returns
    rw [← returns]
    exact update_self false (Stage.returned outcome) world.process
  refine ⟨world, next, later, listed, reached, returns, continues, returned,
    leaseFile_keeps some missingStore_initial reached returns ?_ releasing after acquired continues⟩
  intro _ seeding same
  rw [releasing] at same
  cases same

/-- Two processes want one mutex key. -/
def mutexRun : List (Bool × Event) :=
  let acquire := ⟨.acquire { poolRoute with requestMutexKey := some "one" } none false, clockAt 10⟩
  [(false, .begin acquire), (false, .proceed), (false, .proceed), (true, .begin acquire)] ++
    List.replicate 5 (false, .proceed) ++ List.replicate 6 (true, .proceed)

theorem leaseFile_serial_mutexRun : ∃ (world : StoreWorld Bool) (history : History Bool),
    history.saved.map Call.process = [false, true] ∧ (history.returned false).length = 1 ∧
      (∃ first, Serial some first history.saved world.shared.file) ∧
      ∃ pending, history.results true = history.returned true ++ pending ∧
        (world.process true).Pending pending := by
  have ran : (runRecorded (missingStore, ⟨[], fun _ => []⟩) mutexRun).map (fun current =>
      (current.2.saved.map Call.process, (current.2.returned false).length)) = some ([false, true], 1) := by
    decide
  obtain ⟨⟨world, history⟩, recordedBy, observed⟩ := map_eq_some_iff.mp ran
  obtain ⟨processes, returned⟩ := Prod.mk.inj observed
  obtain ⟨⟨first, -, serial⟩, accounted⟩ := leaseFile_serial missingStore_initial
    (recorded_of_runRecorded .start recordedBy)
  exact ⟨world, history, processes, returned, ⟨first, serial⟩, accounted true⟩

theorem mutexRun_reaches :
    ∃ world : StoreWorld Bool, Reaches (advance some) Orderly missingStore world ∧
      0 < (mutexSlot "one").occupancy (storedLeases world.shared.file) := by
  have ran : (runChecked (advance some) Orderly missingStore mutexRun).map (fun world =>
      decide (0 < (mutexSlot "one").occupancy (storedLeases world.shared.file))) = some true := by
    decide
  obtain ⟨world, reachedBy, found⟩ := map_eq_some_iff.mp ran
  exact ⟨world, reaches_of_runChecked reachedBy, of_decide_eq_true found⟩

theorem leaseFile_exclusive_mutexRun :
    ∃ world : StoreWorld Bool, Reaches (advance some) Orderly missingStore world ∧
      (mutexSlot "one").occupancy (storedLeases world.shared.file) = 1 := by
  obtain ⟨world, reached, holds⟩ := mutexRun_reaches
  exact ⟨world, reached, (leaseFile_exclusive missingStore_initial reached rfl "one").antisymm holds⟩

/-- The first process finds the store missing and stops before it seeds; the second
runs a whole acquire up to its return. -/
def lostRun : List (Bool × Event) :=
  [(false, .begin ⟨.list, clockAt 5⟩), (false, .proceed), (true, .begin acquireStep)] ++
    List.replicate 6 (true, .proceed)

/-- The late seeding write loses a lease that was returned and that no step has
ended. -/
theorem leaseFile_lost :
    ∃ (world next later : StoreWorld Bool) (outcome : Except String LeaseCommandResult),
      Reaches (advance some) (fun _ _ _ => True) missingStore world ∧
      world.process true = .releasing outcome ∧
      step (advance some) world (true, .proceed) = some next ∧
      next.process true = .returned outcome ∧
      outcome.toOption.bind acquiredLeaseId = some "lease:files:10:7:10" ∧
      Reaches (advance some)
        (fun before action _ => ¬ EndsLease "lease:files:10:7:10" before action) next later ∧
      get "lease:files:10:7:10" (storedLeases later.shared.file) = none := by
  have ran : (runChecked (advance some) (fun _ _ _ => True) missingStore lostRun).map
      (fun world => ((world.process false).isSeeding, (world.process true).releasingLease)) =
        some (true, some "lease:files:10:7:10") := by decide
  obtain ⟨world, reachedBy, observed⟩ := map_eq_some_iff.mp ran
  rw [Prod.mk.injEq] at observed
  obtain ⟨late, seeding⟩ := isSeeding_iff.mp observed.1
  obtain ⟨outcome, releasing, acquired⟩ := releasingLease_eq_some observed.2
  let next : StoreWorld Bool := ⟨{ world.shared with lockHeld := false },
    update world.process true (.returned outcome)⟩
  let later : StoreWorld Bool := ⟨{ next.shared with
      file := some (.object (defaultStoreMap late.environment.seedMs)) },
    update next.process false (.waiting late)⟩
  have stillSeeding : next.process false = .seeding late := by
    show update world.process true (.returned outcome) false = .seeding late
    rw [update_of_ne (by decide), seeding]
  have overwrites : step (advance some) next (false, .proceed) = some later := by
    rw [step, stillSeeding]
    rfl
  refine ⟨world, next, later, outcome, reaches_of_runChecked reachedBy, releasing, ?_, ?_,
    acquired, .tail .refl overwrites ?_, ?_⟩
  · simp [step, releasing, advance, next]
  · simp [next]
  · rintro ⟨-, step, store, ready, -⟩
    rw [stillSeeding] at ready
    cases ready
  · show get _ (leasesOf (defaultStoreMap late.environment.seedMs)) = none
    rw [leasesOf_defaultStoreMap]
    rfl

end Mcpace.Hub.LeaseFile

import Mcpace.Library.Interleaving

/-!
Contract: mutual exclusion of the lease store lock file.

Mirrors `acquire_lease_store_lock`, `remove_stale_lease_store_lock` and the drop of
`LeaseStoreGuard` in `src/hub/leases.rs`, one atomic step per file-system call.
The clock is one shared reading that may change in any way between steps.

A file has an identity besides its path, so that a handle keeps writing to the
file it opened and a removal can hit another file than the one inspected. That is
the one way the lock fails: a lock file judged stale is removed by path, and by
then the path may belong to a new holder.

Does not own: the store the lock protects.
-/

namespace Mcpace.Hub.LeaseLock

open Library.Interleaving Function

def leaseLockAttempts : Nat := 100
def leaseLockStaleMs : Nat := 30000

/-! ### Processes -/

/-- A lock file; `createdAtMs` is what its text parses to, nothing while the
payload is not written. -/
structure LockFile where
  identity : Nat
  createdAtMs : Option Nat
deriving DecidableEq, Repr

/-- The lock path, the clock, and the identity of the next file. -/
structure Shared where
  file : Option LockFile
  nowMs : Nat
  nextIdentity : Nat
deriving DecidableEq, Repr

/-- Where a process is in `acquire_lease_store_lock`. `createdAtMs` is the time of
its payload, `attempts` the number of passes left. -/
inductive Phase where
  | idle
  | opening (createdAtMs attempts : Nat)
  | writing (createdAtMs identity : Nat)
  | holding (createdAtMs identity : Nat)
  | inspecting (createdAtMs attempts : Nat)
  | judging (createdAtMs attempts identity : Nat) (read : Option Nat)
  | removing (createdAtMs attempts identity : Nat)
  | crashed
deriving DecidableEq, Repr

/-- Steps of a process. A failure is `retryable` where the source retries it. -/
inductive Event where
  | clock (nowMs : Nat)
  | start
  | create
  | createFails (retryable : Bool)
  | giveUp
  | write
  | writeFails (complete : Bool)
  | read
  | readFails (retryable : Bool)
  | judge
  | remove
  | removeFails
  | drop (removed : Bool)
  | crash
deriving DecidableEq, Repr

namespace Shared

/-- Write the payload through a handle. -/
def writeTo (shared : Shared) (identity createdAtMs : Nat) : Shared :=
  { shared with
    file := shared.file.map (fun file =>
      if file.identity = identity then { file with createdAtMs := some createdAtMs } else file) }

/-- `fs::remove_file` on the lock path. -/
def removeFile (shared : Shared) : Shared := { shared with file := none }

end Shared

def advance (shared : Shared) : Phase → Event → Option (Phase × Shared)
  | phase, .clock nowMs => some (phase, { shared with nowMs := nowMs })
  | .idle, .start => some (.opening shared.nowMs leaseLockAttempts, shared)
  | .opening createdAtMs (attempts + 1), .create =>
    match shared.file with
    | none =>
      some (.writing createdAtMs shared.nextIdentity,
        { shared with
          file := some { identity := shared.nextIdentity, createdAtMs := none }
          nextIdentity := shared.nextIdentity + 1 })
    | some _ => some (.inspecting createdAtMs attempts, shared)
  | .opening createdAtMs (attempts + 1), .createFails retryable =>
    some (if retryable then .opening createdAtMs attempts else .idle, shared)
  | .opening _ 0, .giveUp => some (.idle, shared)
  | .writing createdAtMs identity, .write =>
    some (.holding createdAtMs identity, shared.writeTo identity createdAtMs)
  | .writing createdAtMs identity, .writeFails complete =>
    some (.idle, if complete then shared.writeTo identity createdAtMs else shared)
  | .inspecting createdAtMs attempts, .read =>
    match shared.file with
    -- `NotFound` counts as removed: the next pass follows at once.
    | none => some (.opening createdAtMs attempts, shared)
    | some file => some (.judging createdAtMs attempts file.identity file.createdAtMs, shared)
  | .inspecting createdAtMs attempts, .readFails retryable =>
    some (if retryable then .opening createdAtMs attempts else .idle, shared)
  | .judging createdAtMs attempts identity read, .judge =>
    match read with
    | none => some (.opening createdAtMs attempts, shared)
    | some readCreatedAtMs =>
      if shared.nowMs - readCreatedAtMs ≤ leaseLockStaleMs then
        some (.opening createdAtMs attempts, shared)
      else some (.removing createdAtMs attempts identity, shared)
  | .removing createdAtMs attempts _, .remove =>
    some (.opening createdAtMs attempts, shared.removeFile)
  | .removing _ _ _, .removeFails => some (.idle, shared)
  | .holding _ _, .drop removed =>
    some (.idle, if removed then shared.removeFile else shared)
  | .crashed, .crash => none
  | _, .crash => some (.crashed, shared)
  | _, _ => none

abbrev LockWorld (P : Type*) := World P Shared Phase

variable {P : Type*} [DecidableEq P]

/-- Nobody runs yet; a lock file of an earlier process may be there. -/
structure Initial (world : LockWorld P) : Prop where
  idle : ∀ process, world.process process = .idle
  fresh : ∀ file, world.shared.file = some file → file.identity < world.shared.nextIdentity

/-- The process is alive and has a guard. -/
def Holds (world : LockWorld P) (process : P) : Prop :=
  ∃ createdAtMs identity, world.process process = .holding createdAtMs identity

/-- Every guard is dropped less than the stale limit after its payload's time. -/
def Timely (world : LockWorld P) : Prop :=
  ∀ process createdAtMs identity, world.process process = .holding createdAtMs identity →
    world.shared.nowMs < createdAtMs + leaseLockStaleMs

/-- A stale removal meets the file that was judged, or none. -/
def RemovesJudgedFile (world : LockWorld P) (action : P × Event) : Prop :=
  action.2 = .remove → ∀ createdAtMs attempts identity,
    world.process action.1 = .removing createdAtMs attempts identity →
      ∀ file, world.shared.file = some file → file.identity = identity

/-! ### The invariant -/

/-- The file a process has created and still counts on. -/
def Phase.owned : Phase → Option LockFile
  | .writing _ identity => some { identity := identity, createdAtMs := none }
  | .holding createdAtMs identity =>
    some { identity := identity, createdAtMs := some createdAtMs }
  | _ => none

/-- The identity of the file a process has inspected. -/
def Phase.inspected : Phase → Option Nat
  | .judging _ _ identity _ => some identity
  | .removing _ _ identity => some identity
  | _ => none

structure Invariant (world : LockWorld P) : Prop where
  timely : Timely world
  fresh : ∀ file, world.shared.file = some file → file.identity < world.shared.nextIdentity
  known : ∀ process identity, (world.process process).inspected = some identity →
    identity < world.shared.nextIdentity
  present : ∀ process file, (world.process process).owned = some file →
    world.shared.file = some file
  alone : ∀ process other file otherFile, (world.process process).owned = some file →
    (world.process other).owned = some otherFile → process = other
  judged : ∀ process createdAtMs attempts identity readCreatedAtMs,
    world.process process = .judging createdAtMs attempts identity (some readCreatedAtMs) →
      ∀ owner file, (world.process owner).owned = some file → file.identity = identity →
        file.createdAtMs = some readCreatedAtMs
  abandoned : ∀ process createdAtMs attempts identity,
    world.process process = .removing createdAtMs attempts identity →
      ∀ owner file, (world.process owner).owned = some file → file.identity ≠ identity

omit [DecidableEq P] in
theorem Initial.invariant {world : LockWorld P} (initial : Initial world) : Invariant world := by
  obtain ⟨shared, phases⟩ := world
  obtain rfl : phases = fun _ => .idle := funext initial.idle
  refine ⟨?_, initial.fresh, ?_, ?_, ?_, ?_, ?_⟩
  all_goals simp [Timely, Phase.owned, Phase.inspected]

namespace Invariant

variable {world : LockWorld P} {process : P} {phase : Phase} {shared : Shared}

section

variable {after : LockWorld P} (invariant : Invariant world) (timely : Timely after)

include invariant timely

/-- The step leaves the path alone and the process with neither a file of its own
nor an inspected one. -/
theorem quiet (isAfter : after = ⟨shared, update world.process process phase⟩)
    (sameFile : shared.file = world.shared.file)
    (sameNext : shared.nextIdentity = world.shared.nextIdentity)
    (unowned : phase.owned = none) (uninspected : phase.inspected = none) : Invariant after := by
  subst isAfter
  obtain ⟨-, fresh, known, present, alone, judged, abandoned⟩ := invariant
  constructor <;> grind [update_apply, Phase.owned, Phase.inspected]

/-- After the step no process has a file of its own. -/
theorem vacant (isAfter : after = ⟨shared, update world.process process phase⟩)
    (fresh : ∀ file, shared.file = some file → file.identity < shared.nextIdentity)
    (sameNext : shared.nextIdentity = world.shared.nextIdentity)
    (others : ∀ other, other ≠ process → (world.process other).owned = none)
    (unowned : phase.owned = none) (uninspected : phase.inspected = none) : Invariant after := by
  subst isAfter
  obtain ⟨-, -, known, -, -, -, -⟩ := invariant
  constructor <;> grind [update_apply, Phase.owned, Phase.inspected]

/-- A process creates the lock file: the path was free, so nobody had a file. -/
theorem create {createdAtMs : Nat} (free : world.shared.file = none)
    (isAfter : after = ⟨{ world.shared with
        file := some { identity := world.shared.nextIdentity, createdAtMs := none }
        nextIdentity := world.shared.nextIdentity + 1 },
      update world.process process (.writing createdAtMs world.shared.nextIdentity)⟩) :
    Invariant after := by
  subst isAfter
  obtain ⟨-, -, known, present, -, -, -⟩ := invariant
  have nobody : ∀ other, (world.process other).owned = none := by
    intro other
    cases owned : (world.process other).owned with
    | none => rfl
    | some file =>
      rw [present other file owned] at free
      cases free
  -- Inspected identities are older than the new one.
  have removingOlder : ∀ other started attempts identity,
      world.process other = .removing started attempts identity →
        identity < world.shared.nextIdentity := by
    intro other started attempts identity removing
    exact known other identity (by rw [removing]; rfl)
  have judgingOlder : ∀ other started attempts identity readCreatedAtMs,
      world.process other = .judging started attempts identity readCreatedAtMs →
        identity < world.shared.nextIdentity := by
    intro other started attempts identity readCreatedAtMs judging
    exact known other identity (by rw [judging]; rfl)
  constructor <;> grind [update_apply, Phase.owned, Phase.inspected]

/-- The owner writes its payload. Nobody can have read a time from the file before. -/
theorem write {createdAtMs identity : Nat}
    (writing : world.process process = .writing createdAtMs identity)
    (isAfter : after = ⟨world.shared.writeTo identity createdAtMs,
      update world.process process (.holding createdAtMs identity)⟩) : Invariant after := by
  subst isAfter
  obtain ⟨-, fresh, known, present, alone, judged, abandoned⟩ := invariant
  have owned : (world.process process).owned =
      some { identity := identity, createdAtMs := none } := by rw [writing]; rfl
  have file := present process _ owned
  have written : (world.shared.writeTo identity createdAtMs).file =
      some { identity := identity, createdAtMs := some createdAtMs } := by
    rw [Shared.writeTo, file]
    simp
  have sameNext : (world.shared.writeTo identity createdAtMs).nextIdentity =
      world.shared.nextIdentity := rfl
  constructor <;> grind [update_apply, Phase.owned, Phase.inspected]

/-- A process reads the lock file. The only owner there can be wrote what was read. -/
theorem read {createdAtMs attempts : Nat} {file : LockFile} (found : world.shared.file = some file)
    (isAfter : after = ⟨world.shared, update world.process process
      (.judging createdAtMs attempts file.identity file.createdAtMs)⟩) : Invariant after := by
  subst isAfter
  obtain ⟨-, fresh, known, present, alone, judged, abandoned⟩ := invariant
  constructor <;> grind [update_apply, Phase.owned, Phase.inspected]

/-- A process judges a file stale: its owner, were it alive, would be too late. -/
theorem judge {createdAtMs attempts identity readCreatedAtMs : Nat}
    (judging : world.process process = .judging createdAtMs attempts identity (some readCreatedAtMs))
    (stale : ¬ world.shared.nowMs - readCreatedAtMs ≤ leaseLockStaleMs)
    (isAfter : after = ⟨world.shared, update world.process process
      (.removing createdAtMs attempts identity)⟩) : Invariant after := by
  subst isAfter
  have unowned : ∀ owner file, (world.process owner).owned = some file →
      file.identity ≠ identity := by
    intro owner file owned same
    have sameTime := invariant.judged process createdAtMs attempts identity readCreatedAtMs
      judging owner file owned same
    cases phase : world.process owner with
    | holding started fileIdentity =>
      have inTime := invariant.timely owner started fileIdentity phase
      rw [phase, Phase.owned, Option.some.injEq] at owned
      rw [← owned, Option.some.injEq] at sameTime
      change started = readCreatedAtMs at sameTime
      omega
    | writing started fileIdentity =>
      rw [phase, Phase.owned, Option.some.injEq] at owned
      rw [← owned] at sameTime
      cases sameTime
    | idle | opening | inspecting | judging | removing | crashed =>
      rw [phase] at owned
      cases owned
  obtain ⟨-, fresh, known, present, alone, judged, abandoned⟩ := invariant
  have seen := known process identity (by rw [judging]; rfl)
  constructor <;> grind [update_apply, Phase.owned, Phase.inspected]

end

/-- Every step of a timely run that removes only judged files keeps the invariant. -/
theorem step (invariant : Invariant world) {event : Event}
    (advanced : advance world.shared (world.process process) event = some (phase, shared))
    (timely : Timely ⟨shared, update world.process process phase⟩)
    (removes : RemovesJudgedFile world (process, event)) :
    Invariant ⟨shared, update world.process process phase⟩ := by
  have others : ∀ file, (world.process process).owned = some file →
      ∀ other, other ≠ process → (world.process other).owned = none := by
    intro file owned other different
    cases otherOwned : (world.process other).owned with
    | none => rfl
    | some otherFile =>
      exact absurd (invariant.alone other process otherFile file otherOwned owned) different
  have settles : phase.owned = none → phase.inspected = none → shared = world.shared →
      Invariant ⟨shared, update world.process process phase⟩ := by
    intro unowned uninspected same
    exact invariant.quiet timely rfl (by rw [same]) (by rw [same]) unowned uninspected
  unfold advance at advanced
  split at advanced
  · -- clock
    cases advanced
    rw [update_eq_self] at timely ⊢
    exact { invariant with timely := timely }
  · -- start
    cases advanced
    exact settles rfl rfl rfl
  · -- create
    split at advanced
    · rename_i free
      cases advanced
      exact invariant.create timely free rfl
    · cases advanced
      exact settles rfl rfl rfl
  · -- createFails
    cases advanced
    refine settles ?_ ?_ rfl <;> split <;> rfl
  · -- giveUp
    cases advanced
    exact settles rfl rfl rfl
  · -- write
    rename_i writing
    cases advanced
    exact invariant.write timely writing rfl
  · -- writeFails: the file stays behind, with or without its payload
    rename_i complete writing
    cases advanced
    have owned := congrArg Phase.owned writing
    apply invariant.vacant timely rfl _ _ (others _ owned) rfl rfl
    · intro file found
      have before := invariant.present process _ owned
      cases complete with
      | false => exact invariant.fresh file found
      | true =>
        simp only [if_true, Shared.writeTo, before, Option.map_some, Option.some.injEq] at found
        have older := invariant.fresh _ before
        rw [← found]
        exact older
    · split <;> rfl
  · -- read
    split at advanced
    · cases advanced
      exact settles rfl rfl rfl
    · rename_i file found
      cases advanced
      exact invariant.read timely found rfl
  · -- readFails
    cases advanced
    refine settles ?_ ?_ rfl <;> split <;> rfl
  · -- judge
    rename_i judging
    split at advanced
    · cases advanced
      exact settles rfl rfl rfl
    · split at advanced
      · cases advanced
        exact settles rfl rfl rfl
      · rename_i stale
        cases advanced
        exact invariant.judge timely judging stale rfl
  · -- remove: the file at the path, if any, is the judged one, and nobody owns that
    rename_i removing
    cases advanced
    refine invariant.vacant timely rfl nofun rfl ?_ rfl rfl
    intro other different
    cases owned : (world.process other).owned with
    | none => rfl
    | some file =>
      have same := removes rfl _ _ _ removing file (invariant.present other file owned)
      exact absurd same (invariant.abandoned process _ _ _ removing other file owned)
  · -- removeFails
    cases advanced
    exact settles rfl rfl rfl
  · -- drop: the guard's own file is the one at the path
    rename_i removed holding
    cases advanced
    have owned := congrArg Phase.owned holding
    apply invariant.vacant timely rfl _ _ (others _ owned) rfl rfl
    · intro file found
      cases removed with
      | false => exact invariant.fresh file found
      | true => cases found
    · split <;> rfl
  · -- a crashed process does not crash again
    cases advanced
  · -- crash
    cases advanced
    exact settles rfl rfl rfl
  · cases advanced

end Invariant

/-! ### Exclusion -/

/-- The assumption on the environment, and the condition on stale removals. -/
def Disciplined (before : LockWorld P) (action : P × Event) (after : LockWorld P) : Prop :=
  Timely after ∧ RemovesJudgedFile before action

/-- In every timely run in which each stale removal still meets the file that was
judged, no two live processes hold a guard. -/
theorem leaseLock_excludes {start world : LockWorld P} (initial : Initial start)
    (reached : Reaches advance Disciplined start world) {process other : P}
    (holds : Holds world process) (otherHolds : Holds world other) : process = other := by
  have invariant : Invariant world := by
    apply reached.invariant initial.invariant
    intro earlier mover event phase shared held advanced admitted
    exact held.step advanced admitted.1 admitted.2
  obtain ⟨createdAtMs, identity, holding⟩ := holds
  obtain ⟨otherCreatedAtMs, otherIdentity, otherHolding⟩ := otherHolds
  exact invariant.alone process other _ _ (congrArg Phase.owned holding)
    (congrArg Phase.owned otherHolding)

/-! ### Concrete runs -/

section Concrete

variable {n : Nat}

/-- A guard held in this phase is still within the stale limit. -/
def Phase.inTime (nowMs : Nat) : Phase → Bool
  | .holding createdAtMs _ => decide (nowMs < createdAtMs + leaseLockStaleMs)
  | _ => true

/-- A removal in this phase meets the judged file, or none. -/
def Phase.meetsJudged : Phase → Option LockFile → Bool
  | .removing _ _ identity, some file => decide (file.identity = identity)
  | _, _ => true

instance (world : LockWorld (Fin n)) : Decidable (Timely world) :=
  decidable_of_iff (∀ process, (world.process process).inTime world.shared.nowMs = true) (by
    unfold Timely
    refine forall_congr' (fun process => ?_)
    cases world.process process <;> simp [Phase.inTime])

instance (world : LockWorld (Fin n)) (action : Fin n × Event) :
    Decidable (RemovesJudgedFile world action) :=
  decidable_of_iff (action.2 = .remove →
      (world.process action.1).meetsJudged world.shared.file = true) (by
    unfold RemovesJudgedFile
    refine imp_congr_right (fun _ => ?_)
    cases world.process action.1 <;> cases world.shared.file <;> simp [Phase.meetsJudged])

instance (before : LockWorld (Fin n)) (action : Fin n × Event) (after : LockWorld (Fin n)) :
    Decidable (Disciplined before action after) :=
  inferInstanceAs (Decidable (_ ∧ _))

def quietWorld : LockWorld (Fin n) :=
  ⟨{ file := none, nowMs := 0, nextIdentity := 0 }, fun _ => .idle⟩

theorem quietWorld_initial : Initial (quietWorld : LockWorld (Fin n)) where
  idle := fun _ => rfl
  fresh := nofun

end Concrete

/-- A crashed holder's file is judged stale and removed, and the process that
removed it acquires the lock. -/
def recoveryRun : List (Fin 2 × Event) := [
  (0, .start), (0, .create), (0, .write), (0, .crash), (1, .clock 40000),
  (1, .start), (1, .create), (1, .read), (1, .judge), (1, .remove), (1, .create), (1, .write)]

theorem leaseLock_excludes_recoveryRun :
    ∃ world : LockWorld (Fin 2), Reaches advance Disciplined quietWorld world ∧
      Holds world 1 ∧ ∀ other, Holds world other → (1 : Fin 2) = other := by
  have ran : (runChecked advance Disciplined quietWorld recoveryRun).isSome = true := by decide
  obtain ⟨world, reachedBy⟩ := Option.isSome_iff_exists.mp ran
  have holds : Holds world 1 := by
    have phase : (runChecked advance Disciplined quietWorld recoveryRun).map
        (fun world => world.process 1) = some (.holding 40000 1) := by decide
    rw [reachedBy, Option.map_some, Option.some.injEq] at phase
    exact ⟨40000, 1, phase⟩
  have reached := reaches_of_runChecked reachedBy
  exact ⟨world, reached, holds, fun other otherHolds =>
    leaseLock_excludes quietWorld_initial reached holds otherHolds⟩

/-- Two processes judge the same leftover file stale. One removes it and acquires
the lock; the other then removes the new file and acquires the lock too. -/
def raceRun : List (Fin 3 × Event) := [
  (0, .start), (0, .create), (0, .write), (0, .crash), (1, .clock 40000),
  (1, .start), (1, .create), (1, .read), (1, .judge),
  (2, .start), (2, .create), (2, .read), (2, .judge), (2, .remove), (2, .create), (2, .write),
  (1, .remove), (1, .create), (1, .write)]

/-- A timely run in which two live processes hold the guard. -/
theorem leaseLock_race : ∃ world : LockWorld (Fin 3),
      Reaches advance (fun _ _ after => Timely after) quietWorld world ∧
      Holds world 1 ∧ Holds world 2 := by
  have ran : (runChecked advance (fun _ _ after => Timely after) quietWorld raceRun).map
      (fun world => (world.process 1, world.process 2)) =
        some (.holding 40000 2, .holding 40000 1) := by decide
  obtain ⟨world, reachedBy, phases⟩ := Option.map_eq_some_iff.mp ran
  rw [Prod.mk.injEq] at phases
  exact ⟨world, reaches_of_runChecked reachedBy, ⟨_, _, phases.1⟩, ⟨_, _, phases.2⟩⟩

end Mcpace.Hub.LeaseLock

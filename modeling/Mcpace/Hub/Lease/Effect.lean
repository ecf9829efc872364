import Mcpace.Hub.Lease.Command

/-!
Owns what one command can do to the lease map, said once: `LeaseEffect` lists the
outcomes with their guards and the lease id each reports as acquired, and
`execute_cases` reduces every executed command to one of them. Invariants of runs
go through `run_invariant`.
-/

namespace Mcpace.Hub.Lease

open Library Json Machine OrderedMap List Option JsonValue

/-! ### The lease member of a store -/

/-- The lease map of a store; empty when the member is missing. -/
def leasesOf (store : JsonMap) : JsonMap := (leasesMap store).getD []

def purgedLeases (nowMs : Nat) (leases : JsonMap) : JsonMap :=
  retain (fun _ record => unexpired nowMs record) leases

theorem leasesMap_insert_of_ne {key : String} (different : "leases" ≠ key) (value : JsonValue)
    (store : JsonMap) :
    leasesMap (OrderedMap.insert key value store) = leasesMap store := by
  rw [leasesMap, leasesMap, objectMember, objectMember, get_insert_of_ne different]

@[simp] theorem leasesMap_rebuildSessions (store : JsonMap) (refreshedAtMs : Nat) :
    leasesMap (rebuildSessions store refreshedAtMs) = leasesMap store :=
  leasesMap_insert_of_ne (by decide) _ store

@[simp] theorem leasesMap_updateLeases (update : JsonMap → JsonMap) (store : JsonMap) :
    leasesMap (updateLeases update store) = some (update (leasesOf store)) := by
  rw [leasesMap, objectMember, updateLeases, get_insert_self]
  rfl

@[simp] theorem leasesOf_rebuildSessions (store : JsonMap) (refreshedAtMs : Nat) :
    leasesOf (rebuildSessions store refreshedAtMs) = leasesOf store := by
  rw [leasesOf, leasesMap_rebuildSessions, leasesOf]

@[simp] theorem leasesOf_updateLeases (update : JsonMap → JsonMap) (store : JsonMap) :
    leasesOf (updateLeases update store) = update (leasesOf store) := by
  rw [leasesOf, leasesMap_updateLeases, getD_some]

theorem leasesOf_normalizeStoreShape (store : JsonMap) :
    leasesOf (normalizeStoreShape store) = leasesOf store := by
  have sessionsMember : ∀ inner : JsonMap,
      leasesMap (normalizeMember "sessions" inner) = leasesMap inner := by
    intro inner
    unfold normalizeMember
    split
    · rfl
    · exact leasesMap_insert_of_ne (by decide) _ inner
  have leasesMember : leasesOf (normalizeMember "leases" store) = leasesOf store := by
    unfold normalizeMember
    split
    · rfl
    · rename_i missing
      have before : leasesMap store = none := by
        rw [leasesMap, objectMember]
        cases found : get "leases" store with
        | none => rfl
        | some value =>
          cases value with
          | object entries => exact absurd found (missing entries)
          | null | bool _ | number _ | string _ | array _ => rfl
      rw [leasesOf, leasesMap, objectMember, get_insert_self, leasesOf, before]
      rfl
  rw [normalizeStoreShape, leasesOf, sessionsMember]
  exact leasesMember

/-! ### Outcomes of a command -/

def newLeaseId (environment : StepEnvironment) (route : PlannedRoute) : String :=
  generateLeaseId route environment.nowMs environment.processId environment.nanos

def newLeaseRecord (environment : StepEnvironment) (route : PlannedRoute)
    (ttlMs : Option Nat) : JsonValue :=
  leaseRecordJson (newLeaseId environment route) route environment.nowMs
    (saturatingAdd 128 environment.nowMs (normalizeTtl ttlMs)) (normalizeTtl ttlMs)

/-- What a command can do to the purged lease map, and the lease id it acquires. -/
inductive LeaseEffect (environment : StepEnvironment) :
    LeaseCommand → JsonMap → Option String → JsonMap → Prop where
  | listed (leases : JsonMap) : LeaseEffect environment .list leases none leases
  | refused {route : PlannedRoute} {ttlMs : Option Nat} {takeover : Bool} (leases : JsonMap)
      (reason : routeBlockers route ≠ [] ∨ ∃ conflict, findConflictIn leases route = some conflict ∧
          takeoverAllowed takeover conflict.lease route = false) :
      LeaseEffect environment (.acquire route ttlMs takeover) leases none leases
  | granted {route : PlannedRoute} {ttlMs : Option Nat} {takeover : Bool} (leases : JsonMap)
      (admitted : routeBlockers route = [])
      (free : findConflictIn leases route = none) :
      LeaseEffect environment (.acquire route ttlMs takeover) leases
        (some (newLeaseId environment route))
        (OrderedMap.insert (newLeaseId environment route)
          (newLeaseRecord environment route ttlMs) leases)
  | takenOver {route : PlannedRoute} {ttlMs : Option Nat} {takeover : Bool} (leases : JsonMap)
      (conflict : LeaseConflict)
      (admitted : routeBlockers route = [])
      (found : findConflictIn leases route = some conflict)
      (allowed : takeoverAllowed takeover conflict.lease route = true) :
      LeaseEffect environment (.acquire route ttlMs takeover) leases
        (some (newLeaseId environment route))
        (OrderedMap.insert (newLeaseId environment route) (newLeaseRecord environment route ttlMs)
          (remove (requiredString conflict.lease ["leaseId"]) leases))
  | renewed {leaseId : String} {ttlMs : Option Nat} (leases : JsonMap) :
      LeaseEffect environment (.renew leaseId ttlMs) leases none
        (modify (Text.trim leaseId) (renewRecord environment.nowMs (normalizeTtl ttlMs)) leases)
  | released {leaseId : String} (leases : JsonMap) :
      LeaseEffect environment (.release leaseId) leases none
        (remove (Text.trim leaseId) leases)

/-- A result whose status is another text acquires nothing. -/
theorem acquiredLeaseId_of_status {result : LeaseCommandResult} {status : String}
    (reported : result.json.get "status" = some (.string status))
    (different : status ≠ "acquired") : acquiredLeaseId result = none := by
  have text : result.json.stringAtPath ["status"] = some status := by
    rw [stringAtPath, valueAtPath_cons, reported]
    rfl
  rw [acquiredLeaseId, text, if_neg (by simpa using different)]

theorem acquiredLeaseId_grantLease (route : PlannedRoute) (ttlMs : Nat) (leaseId : String)
    (takenOverLease : Option JsonValue) (store : JsonMap) (nowMs count : Nat) :
    acquiredLeaseId (grantLease route ttlMs leaseId takenOverLease store nowMs count).1 =
      some leaseId := by
  simp [acquiredLeaseId, grantLease, stringAtPath, valueAtPath_cons, get_ofEntries, get_cons, asStr]

theorem leasesOf_grantLease (route : PlannedRoute) (ttlMs : Nat) (leaseId : String)
    (takenOverLease : Option JsonValue) (store : JsonMap) (nowMs count : Nat) :
    leasesOf (grantLease route ttlMs leaseId takenOverLease store nowMs count).2 =
      OrderedMap.insert leaseId
        (leaseRecordJson leaseId route nowMs (saturatingAdd 128 nowMs ttlMs) ttlMs)
        (leasesOf store) := by
  simp only [grantLease, leasesOf_rebuildSessions, leasesOf_updateLeases]

theorem acquiredLeaseId_blocked (route : PlannedRoute) (nowMs count : Nat) (reason : String)
    (conflictingLease : Option JsonValue) (active : Nat) (exitCode : Int) :
    acquiredLeaseId {
      json := acquireBlockedJson route nowMs count reason conflictingLease active
      exitCode := exitCode } = none := by
  have reported : (acquireBlockedJson route nowMs count reason conflictingLease active).get
      "status" = some (.string "blocked") := by
    simp [acquireBlockedJson, get_ofEntries, get_cons]
  exact acquiredLeaseId_of_status reported (by decide)

theorem acquireMutator_effect (environment : StepEnvironment) (route : PlannedRoute)
    (ttlMs : Option Nat) (takeover : Bool) {store : JsonMap} {leases : JsonMap}
    (normalized : leasesMap store = some leases) (count : Nat) :
    LeaseEffect environment (.acquire route ttlMs takeover) leases
      (acquiredLeaseId (acquireMutator route (normalizeTtl ttlMs) takeover environment store
        environment.nowMs count).1)
      (leasesOf (acquireMutator route (normalizeTtl ttlMs) takeover environment store
        environment.nowMs count).2) := by
  have current : leasesOf store = leases := by rw [leasesOf, normalized, getD_some]
  have conflictEq : findConflict store route = findConflictIn leases route := by
    rw [findConflict, normalized, bind_some]
  unfold acquireMutator
  by_cases blocked : routeBlockers route = []
  · simp only [blocked, ne_eq, not_true_eq_false, if_false, conflictEq]
    cases found : findConflictIn leases route with
    | none =>
      simp only [acquiredLeaseId_grantLease, leasesOf_grantLease, current]
      exact .granted leases blocked found
    | some conflict =>
      by_cases allowed : takeoverAllowed takeover conflict.lease route = true
      · simp only [allowed, if_true, acquiredLeaseId_grantLease, leasesOf_grantLease,
          leasesOf_updateLeases, current]
        exact .takenOver leases conflict blocked found allowed
      · rw [Bool.not_eq_true] at allowed
        simp only [allowed, Bool.false_eq_true, if_false, acquiredLeaseId_blocked, current]
        exact .refused leases (Or.inr ⟨conflict, found, allowed⟩)
  · simp only [blocked, ne_eq, not_false_eq_true, if_true, acquiredLeaseId_blocked, current]
    exact .refused leases (Or.inl blocked)

theorem acquiredLeaseId_listMutator (store : JsonMap) (nowMs count : Nat) :
    acquiredLeaseId (listMutator store nowMs count).1 = none := by
  have reported : (listMutator store nowMs count).1.json.get "status" =
      some (.string "listed") := by
    simp [listMutator, get_ofEntries, get_cons]
  exact acquiredLeaseId_of_status reported (by decide)

theorem acquiredLeaseId_renewMutator (leaseId : String) (ttlMs : Nat) (store : JsonMap)
    (nowMs count : Nat) :
    acquiredLeaseId (renewMutator leaseId ttlMs store nowMs count).1 = none := by
  apply acquiredLeaseId_of_status
  · simp only [renewMutator, get_ofEntries]
    simp [get_cons]
    rfl
  · split <;> decide

theorem acquiredLeaseId_releaseMutator (leaseId : String) (store : JsonMap) (nowMs count : Nat) :
    acquiredLeaseId (releaseMutator leaseId store nowMs count).1 = none := by
  apply acquiredLeaseId_of_status
  · simp only [releaseMutator, get_ofEntries]
    simp [get_cons]
    rfl
  · split <;> decide

/-- Between loading and saving, a command acts on the purged leases by one of the
listed outcomes. -/
theorem mutateLoaded_effect {environment : StepEnvironment} {command : LeaseCommand}
    {mutator : Mutator} (body : commandMutator environment command = .ok mutator)
    (store : JsonMap) :
    LeaseEffect environment command (purgedLeases environment.nowMs (leasesOf store))
      (acquiredLeaseId (mutateLoaded environment mutator store).1)
      (leasesOf (mutateLoaded environment mutator store).2) := by
  have saved : ∀ inner : JsonMap,
      leasesOf (OrderedMap.insert "updatedAtMs" (.ofNat environment.updatedMs)
        (OrderedMap.insert "version" (.ofNat leaseStoreVersion)
          (rebuildSessions inner environment.rebuildMs))) = leasesOf inner := by
    intro inner
    rw [leasesOf, leasesMap_insert_of_ne (by decide), leasesMap_insert_of_ne (by decide),
      leasesMap_rebuildSessions, leasesOf]
  have purged : leasesMap (rebuildSessions (purgeExpired store environment.nowMs).1
      environment.nowMs) = some (purgedLeases environment.nowMs (leasesOf store)) := by
    rw [leasesMap_rebuildSessions]
    exact leasesMap_updateLeases _ store
  have current : leasesOf (rebuildSessions (purgeExpired store environment.nowMs).1
      environment.nowMs) = purgedLeases environment.nowMs (leasesOf store) := by
    rw [leasesOf, purged, getD_some]
  simp only [mutateLoaded, saved]
  cases command with
  | list =>
    simp only [commandMutator, Except.ok.injEq] at body
    subst body
    rw [acquiredLeaseId_listMutator]
    simp only [listMutator, current]
    exact .listed _
  | acquire route ttlMs takeover =>
    simp only [commandMutator, Except.ok.injEq] at body
    subst body
    exact acquireMutator_effect environment route ttlMs takeover purged _
  | renew leaseId ttlMs =>
    simp only [commandMutator] at body
    split at body
    · cases body
    · simp only [Except.ok.injEq] at body
      subst body
      rw [acquiredLeaseId_renewMutator]
      simp only [renewMutator, leasesOf_rebuildSessions, leasesOf_updateLeases, current]
      exact .renewed _
  | release leaseId =>
    simp only [commandMutator] at body
    split at body
    · cases body
    · simp only [Except.ok.injEq] at body
      subst body
      rw [acquiredLeaseId_releaseMutator]
      simp only [releaseMutator, leasesOf_rebuildSessions, leasesOf_updateLeases, current]
      exact .released _

/-! ### Executed commands -/

theorem leasesOf_defaultStoreMap (seedMs : Nat) : leasesOf (defaultStoreMap seedMs) = [] := by
  rw [leasesOf, leasesMap, objectMember, defaultStoreMap, get_ofList]
  simp [get_cons, asObject]

theorem storedLeases_object (store : JsonMap) :
    storedLeases (some (.object store)) = leasesOf store := rfl

theorem storedLeases_ensureRuntimeLayout (file : StoreFile) (seedMs : Nat) :
    storedLeases (ensureRuntimeLayout file seedMs) = storedLeases file := by
  cases file with
  | some document => rfl
  | none => exact leasesOf_defaultStoreMap seedMs

variable {renumber : String → Option String} {file : StoreFile}

theorem loadStore_leases {seedMs : Nat} {store : JsonMap}
    (loaded : loadStore renumber file seedMs = .ok store) :
    leasesOf store = reloadEntries renumber (storedLeases file) := by
  cases file with
  | none =>
    simp only [loadStore, Except.ok.injEq] at loaded
    subst loaded
    rw [leasesOf_normalizeStoreShape]
    exact leasesOf_defaultStoreMap seedMs
  | some document =>
    cases document with
    | object entries =>
      simp only [loadStore, reload, Except.ok.injEq] at loaded
      subst loaded
      rw [leasesOf_normalizeStoreShape, storedLeases_object, leasesOf, leasesOf, leasesMap,
        leasesMap, objectMember, objectMember, get_reloadEntries]
      cases get "leases" entries with
      | none => rfl
      | some value =>
        cases value with
        | object leases => rfl
        | number text =>
          simp only [map_some, reload, reloadNumber]
          split <;> rfl
        | null | bool _ | string _ | array _ => rfl
    | number text =>
      simp only [loadStore, reload, reloadNumber] at loaded
      split at loaded
      · rename_i equal
        split at equal <;> cases equal
      · cases loaded
    | null | bool _ | string _ | array _ => cases loaded

/-- Every executed command fails and leaves the stored leases alone, or reads them
back, purges them and applies one of the listed outcomes. -/
theorem execute_cases (renumber : String → Option String) (file : StoreFile) (step : Step) :
    ((∃ message, (execute renumber file step).1 = .error message) ∧
        storedLeases (execute renumber file step).2 = storedLeases file) ∨
      ∃ result, (execute renumber file step).1 = .ok result ∧
        LeaseEffect step.environment step.command
          (purgedLeases step.environment.nowMs (reloadEntries renumber (storedLeases file)))
          (acquiredLeaseId result)
          (storedLeases (execute renumber file step).2) := by
  cases body : commandMutator step.environment step.command with
  | error message =>
    refine Or.inl ⟨⟨message, ?_⟩, ?_⟩ <;> rw [execute, body]
  | ok mutator =>
    have failed : ∀ message, ((∃ other, (Except.error message :
        Except String LeaseCommandResult) = .error other) ∧
        storedLeases (ensureRuntimeLayout file step.environment.seedMs) =
          storedLeases file) :=
      fun message => ⟨⟨message, rfl⟩, storedLeases_ensureRuntimeLayout file _⟩
    simp only [execute, body, mutateStore]
    split
    · rename_i message stage
      exact Or.inl ⟨⟨message, rfl⟩, rfl⟩
    · exact Or.inl (failed _)
    · exact Or.inl (failed _)
    · split
      · exact Or.inl (failed _)
      · rename_i store loaded
        split
        · exact Or.inl (failed _)
        · refine Or.inr ⟨_, rfl, ?_⟩
          rw [storedLeases_object, ← storedLeases_ensureRuntimeLayout file
            step.environment.seedMs, ← loadStore_leases loaded]
          exact mutateLoaded_effect body store

/-! ### Runs -/

theorem run_cons (renumber : String → Option String) (file : StoreFile) (step : Step)
    (rest : List Step) :
    run renumber file (step :: rest) = run renumber (execute renumber file step).2 rest := rfl

theorem run_append (renumber : String → Option String) (file : StoreFile)
    (earlier later : List Step) :
    run renumber file (earlier ++ later) = run renumber (run renumber file earlier) later :=
  foldl_append

theorem acquisitions_append (renumber : String → Option String) (file : StoreFile)
    (earlier later : List Step) :
    acquisitions renumber file (earlier ++ later) = acquisitions renumber file earlier ++
        acquisitions renumber (run renumber file earlier) later := by
  induction earlier generalizing file with
  | nil => rfl
  | cons step rest ih =>
    rw [cons_append, acquisitions, acquisitions, ih, run_cons, List.append_assoc]

/-- What a run acquires, one of its acquire commands asked for. -/
theorem command_of_mem_acquisitions {steps : List Step} {leaseId : String} {route : PlannedRoute}
    (acquired : (leaseId, route) ∈ acquisitions renumber file steps) :
    ∃ step ∈ steps, ∃ ttlMs takeover, step.command = .acquire route ttlMs takeover := by
  induction steps generalizing file with
  | nil => cases acquired
  | cons step rest ih =>
    rcases mem_append.mp acquired with now | later
    · rw [mem_toList, acquires] at now
      cases command : step.command with
      | acquire asked ttlMs takeover =>
        rw [command, acquisition, map_eq_some_iff] at now
        obtain ⟨reported, returned, equal⟩ := now
        rw [Prod.mk.injEq] at equal
        rw [equal.2] at command
        exact ⟨step, mem_cons_self, ttlMs, takeover, command⟩
      | list | renew _ _ | release _ =>
        rw [command] at now
        cases now
    · obtain ⟨asking, member, command⟩ := ih later
      exact ⟨asking, mem_cons_of_mem step member, command⟩

/-- Invariants of runs: hold at the start, survive reading back and purging, and
survive every outcome of a command of the run that acquires only what the run
acquires. -/
theorem run_invariant {invariant : JsonMap → Prop} {steps : List Step}
    (reload : ∀ leases, invariant leases → invariant (reloadEntries renumber leases))
    (purge : ∀ nowMs leases, invariant leases → invariant (purgedLeases nowMs leases))
    (effect : ∀ step ∈ steps, ∀ before acquired after, invariant before →
      LeaseEffect step.environment step.command before acquired after →
      (∀ entry ∈ acquisition acquired step.command, entry ∈ acquisitions renumber file steps) →
      invariant after)
    (initial : invariant (storedLeases file)) :
    invariant (storedLeases (run renumber file steps)) := by
  induction steps generalizing file with
  | nil => exact initial
  | cons step rest ih =>
    rw [run_cons]
    apply ih
    · intro later member before acquired after holds outcome acquiredLater
      refine effect later (mem_cons_of_mem step member) before acquired after holds outcome ?_
      intro entry entryAcquired
      exact mem_append_right _ (acquiredLater entry entryAcquired)
    · rcases execute_cases renumber file step with ⟨-, same⟩ | ⟨result, succeeded, outcome⟩
      · rw [same]
        exact initial
      · refine effect step mem_cons_self _ _ _ (purge _ _ (reload _ initial)) outcome ?_
        intro entry entryAcquired
        apply mem_append_left
        simpa [acquires, succeeded, Except.toOption] using entryAcquired

end Mcpace.Hub.Lease

import Mcpace.Hub.Lease.Record

/-!
Contract: how many stored leases can share a resource.

Owns the count of the leases that occupy a slot (a request mutex key or a
capacity key), its bound over every run, and the two consequences: at most one
lease per mutex key, and at most the parallelism limit per capacity key.

The two bounds have one argument. An acquire that finds no conflict found the
slot below its limit, and a takeover first removes a lease of the same slot.
-/

namespace Mcpace.Hub.Lease

open Library Json List OrderedMap

/-! ### Slots -/

/-- A set of records that their texts decide. -/
structure Slot where
  occupies : JsonValue → Bool
  accepts : LeaseTexts → Bool
  decided : ∀ {record texts}, Carries record texts → occupies record = accepts texts

def mutexSlot (mutexKey : String) : Slot where
  occupies := holdsMutex mutexKey
  accepts texts := texts.requestMutexKey == some mutexKey
  decided carries := carries.holdsMutex mutexKey

def capacitySlot (capacityKey : String) : Slot where
  occupies := holdsCapacity capacityKey
  accepts texts := some texts.capacityKey == some capacityKey
  decided carries := carries.holdsCapacity capacityKey

/-- How many leases occupy the slot. -/
def Slot.occupancy (slot : Slot) (leases : JsonMap) : Nat :=
  (values leases).countP slot.occupies

/-- The conflict search keeps the slot to `limit` for a route: it reports a
conflict, with an occupant, once the limit is reached. -/
structure Slot.GuardedBy (slot : Slot) (limit : Nat) (route : PlannedRoute) : Prop where
  free : ∀ leases, findConflictIn leases route = none → slot.occupancy leases < limit
  occupant : ∀ {origin leases conflict}, WellFormed origin leases →
    findConflictIn leases route = some conflict → slot.occupies conflict.lease = true

theorem mutexSlot_guardedBy {route : PlannedRoute} {mutexKey : String}
    (holds : route.requestMutexKey = some mutexKey) :
    (mutexSlot mutexKey).GuardedBy 1 route where
  free := by
    intro leases free
    have absent : ∀ record ∈ values leases, ¬ holdsMutex mutexKey record = true := by
      simpa [findConflictIn, holds] using free
    have zero : (values leases).countP (holdsMutex mutexKey) = 0 :=
      List.countP_eq_zero.mpr absent
    show (values leases).countP (holdsMutex mutexKey) < 1
    omega
  occupant := by
    intro origin leases conflict wellFormed found
    have stored := (findConflictIn_stored wellFormed.sorted
      wellFormed.requiredString_leaseId found).2
    simp only [holds] at stored
    exact stored

theorem capacitySlot_guardedBy {route : PlannedRoute}
    (noMutex : route.requestMutexKey = none) (positive : 0 < route.parallelismLimit) :
    (capacitySlot (routeCapacityKey route)).GuardedBy route.parallelismLimit route where
  free := by
    intro leases free
    have below : ¬ ((values leases).filter
        (holdsCapacity (routeCapacityKey route))).length ≥ route.parallelismLimit := by
      intro full
      simp [findConflictIn, noMutex, positive, full] at free
    show (values leases).countP (holdsCapacity (routeCapacityKey route)) < _
    rw [countP_eq_length_filter]
    omega
  occupant := by
    intro origin leases conflict wellFormed found
    have stored := (findConflictIn_stored wellFormed.sorted
      wellFormed.requiredString_leaseId found).2
    simp only [noMutex] at stored
    exact stored

/-! ### The bound -/

namespace Slot

variable {origin : LeaseTexts → Prop} {leases : JsonMap} (slot : Slot)

include slot

theorem occupancy_filter_le (keep : String × JsonValue → Bool) (leases : JsonMap) :
    slot.occupancy (leases.filter keep) ≤ slot.occupancy leases :=
  OrderedMap.countP_filter_le slot.occupies keep leases

/-- Records keep their texts through `update`, so the slot keeps its occupants. -/
theorem occupancy_map (wellFormed : WellFormed origin leases)
    (update : String × JsonValue → String × JsonValue)
    (keeps : ∀ entry ∈ leases, ∀ texts, Carries entry.2 texts → Carries (update entry).2 texts) :
    slot.occupancy (leases.map update) = slot.occupancy leases := by
  unfold occupancy values
  rw [List.map_map, countP_map, countP_map]
  apply countP_congr
  intro entry member
  obtain ⟨texts, carries, -⟩ := wellFormed.carried entry member
  have before : slot.occupies entry.2 = slot.accepts texts := slot.decided carries
  have after : slot.occupies (update entry).2 = slot.accepts texts :=
    slot.decided (keeps entry member texts carries)
  simp only [Function.comp_apply, before, after]

theorem occupancy_reload (renumber : String → Option String)
    (wellFormed : WellFormed origin leases) :
    slot.occupancy (JsonValue.reloadEntries renumber leases) = slot.occupancy leases := by
  rw [JsonValue.reloadEntries_eq_map]
  exact slot.occupancy_map wellFormed _ (fun _ _ _ carries => carries.reload renumber)

theorem occupancy_renew (leaseId : String) (nowMs ttlMs : Nat)
    (wellFormed : WellFormed origin leases) :
    slot.occupancy (modify leaseId (renewRecord nowMs ttlMs) leases) =
      slot.occupancy leases := by
  apply slot.occupancy_map wellFormed
  intro entry member texts carries
  split
  · exact carries.renewRecord nowMs ttlMs
  · exact carries

/-- A new lease takes a place in the slot only if its route falls into it. -/
theorem occupancy_granted (environment : StepEnvironment) (route : PlannedRoute)
    (ttlMs : Option Nat) (leases : JsonMap) :
    slot.occupancy (OrderedMap.insert (newLeaseId environment route)
        (newLeaseRecord environment route ttlMs) leases) ≤
      slot.occupancy leases +
        if slot.accepts (grantedTexts (newLeaseId environment route) route) then 1 else 0 := by
  have decided : slot.occupies (newLeaseRecord environment route ttlMs) =
      slot.accepts (grantedTexts (newLeaseId environment route) route) :=
    slot.decided (carries_leaseRecordJson _ _ _ _ _)
  rw [← decided]
  exact OrderedMap.countP_insert_le slot.occupies _ _ leases

/-- One outcome keeps the bound when every acquired route that falls into the slot
is guarded by the limit. -/
theorem occupancy_effect {limit : Nat} {environment : StepEnvironment} {command : LeaseCommand}
    {acquired : Option String} {after : JsonMap} (wellFormed : WellFormed origin leases)
    (outcome : LeaseEffect environment command leases acquired after)
    (guarded : ∀ entry ∈ acquisition acquired command,
      slot.accepts (grantedTexts entry.1 entry.2) = true → slot.GuardedBy limit entry.2)
    (bound : slot.occupancy leases ≤ limit) : slot.occupancy after ≤ limit := by
  cases outcome with
  | listed => exact bound
  | refused => exact bound
  | @granted route ttlMs takeover _ admitted free =>
    have inserted := slot.occupancy_granted environment route ttlMs leases
    by_cases falls : slot.accepts (grantedTexts (newLeaseId environment route) route) = true
    · have room := (guarded _ rfl falls).free leases free
      rw [if_pos falls] at inserted
      omega
    · rw [if_neg falls] at inserted
      omega
  | @takenOver route ttlMs takeover _ conflict admitted found allowed =>
    have inserted := slot.occupancy_granted environment route ttlMs
      (remove (requiredString conflict.lease ["leaseId"]) leases)
    by_cases falls : slot.accepts (grantedTexts (newLeaseId environment route) route) = true
    · -- The removed lease occupied the slot the new one enters.
      have stored := (findConflictIn_stored wellFormed.sorted
        wellFormed.requiredString_leaseId found).1
      have removed := OrderedMap.countP_remove stored
        ((guarded _ rfl falls).occupant wellFormed found)
      rw [if_pos falls] at inserted
      unfold occupancy at inserted bound ⊢
      omega
    · have removed : slot.occupancy (remove (requiredString conflict.lease ["leaseId"]) leases) ≤
          slot.occupancy leases := slot.occupancy_filter_le _ leases
      rw [if_neg falls] at inserted
      omega
  | renewed =>
    rw [slot.occupancy_renew _ _ _ wellFormed]
    exact bound
  | released => exact le_trans (slot.occupancy_filter_le _ leases) bound

/-- A slot stays within its limit over a whole run. -/
theorem run_occupancy_le {limit : Nat} {renumber : String → Option String} {steps : List Step}
    {file : StoreFile}
    (guarded : ∀ entry ∈ acquisitions renumber file steps,
      slot.accepts (grantedTexts entry.1 entry.2) = true → slot.GuardedBy limit entry.2)
    (wellFormed : WellFormed (fun _ => True) (storedLeases file))
    (bound : slot.occupancy (storedLeases file) ≤ limit) :
    slot.occupancy (storedLeases (run renumber file steps)) ≤ limit := by
  let invariant : JsonMap → Prop := fun leases =>
    WellFormed (fun _ => True) leases ∧ slot.occupancy leases ≤ limit
  suffices holds : invariant (storedLeases (run renumber file steps)) from holds.2
  apply run_invariant
  · rintro leases ⟨formed, within⟩
    refine ⟨formed.reload renumber, ?_⟩
    rw [slot.occupancy_reload renumber formed]
    exact within
  · rintro nowMs leases ⟨formed, within⟩
    exact ⟨formed.filter _, le_trans (slot.occupancy_filter_le _ leases) within⟩
  · rintro step member before acquired after ⟨formed, within⟩ outcome acquiredInRun
    refine ⟨formed.effect outcome (fun _ _ => trivial), ?_⟩
    apply slot.occupancy_effect formed outcome _ within
    intro entry entryAcquired
    exact guarded entry (acquiredInRun entry entryAcquired)
  · exact ⟨wellFormed, bound⟩

end Slot

/-! ### Runs from the default store -/

theorem storedLeases_emptyStoreFile (seedMs : Nat) : storedLeases (emptyStoreFile seedMs) = [] :=
  leasesOf_defaultStoreMap seedMs

/-- Every stored lease of a run carries the texts of one of the run's acquisitions. -/
theorem run_wellFormed (renumber : String → Option String) (seedMs : Nat) (steps : List Step) :
    WellFormed
      (fun texts => ∃ entry ∈ acquisitions renumber (emptyStoreFile seedMs) steps,
        texts = grantedTexts entry.1 entry.2)
      (storedLeases (run renumber (emptyStoreFile seedMs) steps)) := by
  apply run_invariant
  · exact fun leases wellFormed => wellFormed.reload renumber
  · exact fun nowMs leases wellFormed => wellFormed.filter _
  · intro step member before acquired after wellFormed outcome acquiredInRun
    apply wellFormed.effect outcome
    intro entry entryAcquired
    exact ⟨entry, acquiredInRun entry entryAcquired, rfl⟩
  · rw [storedLeases_emptyStoreFile]
    exact WellFormed.empty

/-- In every store reachable from the default one, at most one lease holds a
request mutex key and every lease is stored under its own id. -/
theorem run_mutualExclusion (renumber : String → Option String) (seedMs : Nat) (steps : List Step) :
    let leases := storedLeases (run renumber (emptyStoreFile seedMs) steps)
    (∀ mutexKey : String, (values leases).countP (fun record =>
        optionalString record ["route", "requestMutexKey"] == some mutexKey) ≤ 1) ∧
      ∀ leaseId record, (leaseId, record) ∈ leases →
        optionalString record ["leaseId"] = some leaseId := by
  refine ⟨?_, ?_⟩
  · intro mutexKey
    apply (mutexSlot mutexKey).run_occupancy_le
    · intro entry acquired falls
      apply mutexSlot_guardedBy
      simpa [mutexSlot, grantedTexts] using falls
    · rw [storedLeases_emptyStoreFile]
      exact WellFormed.empty
    · rw [storedLeases_emptyStoreFile]
      exact Nat.zero_le 1
  · intro leaseId record member
    obtain ⟨texts, carries, named, -⟩ :=
      (run_wellFormed renumber seedMs steps).carried (leaseId, record) member
    rw [carries.leaseId.optionalString, named]

/-- A capacity key whose acquired routes all have no mutex key and the same
positive parallelism limit never exceeds that limit. -/
theorem run_capacity (renumber : String → Option String) (seedMs : Nat) (steps : List Step)
    (capacityKey : String) (limit : Nat) (positive : 1 ≤ limit)
    (uniform : ∀ leaseId route,
      (leaseId, route) ∈ acquisitions renumber (emptyStoreFile seedMs) steps →
      routeCapacityKey route = capacityKey →
      route.requestMutexKey = none ∧ route.parallelismLimit = limit) :
    (values (storedLeases (run renumber (emptyStoreFile seedMs) steps))).countP
      (fun record => optionalString record ["route", "capacityKey"] == some capacityKey) ≤
        limit := by
  apply (capacitySlot capacityKey).run_occupancy_le
  · intro entry acquired falls
    have same : routeCapacityKey entry.2 = capacityKey := by
      simpa [capacitySlot, grantedTexts] using falls
    obtain ⟨noMutex, limited⟩ := uniform entry.1 entry.2 acquired same
    have guarded := capacitySlot_guardedBy noMutex (by omega)
    rw [same, limited] at guarded
    exact guarded
  · rw [storedLeases_emptyStoreFile]
    exact WellFormed.empty
  · rw [storedLeases_emptyStoreFile]
    exact Nat.zero_le limit

/-! ### A pool of one worker -/

/-- A route without a mutex key to a server that runs one request at a time. -/
def poolRoute : PlannedRoute where
  serverName := "files"
  admissionState := "configured-source"
  requestStrategy := "serialized"
  requestMutexKey := none
  sessionAffinityKey := none
  processScopeKey := "worker-group:files"
  processPartition := "shared"
  projectBindingKey := none
  worktreeBindingKey := none
  conflictDomain := "files"
  hostLockKey := none
  stateProfileKey := none
  schedulerLane := "interactive"
  startupStrategy := "lazy"
  upstreamTransport := "stdio"
  parallelismLimit := 1
  warnings := []
  clientId := "editor"
  sessionLeaseId := "external:a"
  sessionId := some "a"
  projectRoot := none
  parallelismLimit_lt := by decide

/-- A process that reads the given time whenever it reads the clock. -/
def clockAt (nowMs : Nat) : StepEnvironment where
  seedMs := nowMs
  nowMs := nowMs
  rebuildMs := nowMs
  updatedMs := nowMs
  processId := 7
  nanos := nowMs
  ioFailure := none

/-- The second acquire takes the first lease over. -/
def poolSteps : List Step := [ ⟨.acquire poolRoute none false, clockAt 10⟩,
  ⟨.acquire poolRoute none true, clockAt 20⟩]

theorem run_capacity_poolSteps : (acquisitions some (emptyStoreFile 5) poolSteps).map Prod.fst =
        ["lease:files:10:7:10", "lease:files:20:7:20"] ∧
      (values (storedLeases (run some (emptyStoreFile 5) poolSteps))).countP
        (fun record => optionalString record ["route", "capacityKey"] ==
          some "worker-group:files") ≤ 1 := by
  refine ⟨by decide, run_capacity some 5 poolSteps "worker-group:files" 1 (le_refl 1) ?_⟩
  intro leaseId route acquired sameKey
  obtain ⟨step, member, ttlMs, takeover, command⟩ := command_of_mem_acquisitions acquired
  have routeEq : route = poolRoute := by
    simp only [poolSteps, mem_cons, not_mem_nil, or_false] at member
    rcases member with rfl | rfl <;> cases command <;> rfl
  rw [routeEq]
  exact ⟨rfl, rfl⟩

end Mcpace.Hub.Lease

import Mcpace.Hub.Lease.Exclusion

/-!
Owns the settled stores (records under their own ids that reading back leaves as
they are), the ways a lease leaves a settled store, and what one outcome does to
the record under a given id.

Does not own: histories of leases over runs, or stores whose records were written
by something else than these commands.
-/

namespace Mcpace.Hub.Lease

open Library Json Machine OrderedMap List JsonValue Text

/-! ### Settled stores -/

/-- Every record is stored under its own id and survives writing and reading. -/
structure Settled (renumber : String → Option String) (leases : JsonMap) : Prop where
  sorted : Sorted leases
  named : ∀ entry ∈ leases, requiredString entry.2 ["leaseId"] = entry.1
  readsBack : ∀ entry ∈ leases, ReadsBack renumber entry.2

theorem normalizeTtl_le (ttlMs : Option Nat) : normalizeTtl ttlMs ≤ maxLeaseTtlMs := by
  unfold normalizeTtl
  cases ttlMs.filter (fun value => value > 0) with
  | none => decide
  | some value => exact Nat.min_le_right value maxLeaseTtlMs

variable {nowMs : Nat}

/-- Below `2 ^ 62` an expiry neither saturates nor leaves the `u64` range. -/
theorem saturatingAdd_normalizeTtl_lt (clock : nowMs < 2 ^ 62) (ttlMs : Option Nat) :
    saturatingAdd 128 nowMs (normalizeTtl ttlMs) < 2 ^ 64 := by
  have bounded := normalizeTtl_le ttlMs
  unfold maxLeaseTtlMs at bounded
  unfold saturatingAdd
  omega

theorem normalizeTtl_lt (ttlMs : Option Nat) : normalizeTtl ttlMs < 2 ^ 64 := by
  have bounded := normalizeTtl_le ttlMs
  unfold maxLeaseTtlMs at bounded
  omega

section Records

variable {renumber : String → Option String} (exactU64 : ExactU64 renumber)

include exactU64

theorem readsBack_routeJson (route : PlannedRoute) :
    ReadsBack renumber (routeJson route) := by
  apply readsBack_ofEntries
  simp only [forall_mem_cons, not_mem_nil, false_implies, implies_true, and_true,
    readsBack_string, readsBack_stringOrNull, true_and]
  exact readsBack_ofNat exactU64 route.parallelismLimit_lt

theorem readsBack_newLeaseRecord {environment : StepEnvironment}
    (clock : environment.nowMs < 2 ^ 62) (route : PlannedRoute) (ttlMs : Option Nat) :
    ReadsBack renumber (newLeaseRecord environment route ttlMs) := by
  apply readsBack_ofEntries
  simp only [forall_mem_cons, not_mem_nil, false_implies, implies_true, and_true,
    readsBack_string, readsBack_stringOrNull, true_and]
  refine ⟨?_, ?_, ?_, readsBack_routeJson exactU64 route⟩
  · exact readsBack_ofNat exactU64 (by omega)
  · exact readsBack_ofNat exactU64 (saturatingAdd_normalizeTtl_lt clock ttlMs)
  · exact readsBack_ofNat exactU64 (normalizeTtl_lt ttlMs)

theorem readsBack_renewRecord {nowMs : Nat} (clock : nowMs < 2 ^ 62) (ttlMs : Option Nat)
    {record : JsonValue} (stable : ReadsBack renumber record) :
    ReadsBack renumber (renewRecord nowMs (normalizeTtl ttlMs) record) := by
  cases record with
  | object members =>
    apply readsBack_object
    apply readsBack_insert _ (readsBack_ofNat exactU64 (normalizeTtl_lt ttlMs))
    apply readsBack_insert _ (readsBack_ofNat exactU64 (saturatingAdd_normalizeTtl_lt clock ttlMs))
    exact readsBack_insert stable.entries (readsBack_ofNat exactU64 (by omega))
  | null | bool _ | number _ | string _ | array _ => exact stable

end Records

theorem requiredString_renewRecord (nowMs ttlMs : Nat) (record : JsonValue) :
    requiredString (renewRecord nowMs ttlMs record) ["leaseId"] =
      requiredString record ["leaseId"] := by
  unfold requiredString optionalString stringAtPath
  rw [valueAtPath_cons, valueAtPath_cons, get_renewRecord_of_ne (by decide) (by decide) (by decide)]

namespace Settled

variable {renumber : String → Option String} {leases : JsonMap}

theorem empty : Settled renumber [] where
  sorted := sorted_nil
  named := by simp
  readsBack := by simp

variable (settled : Settled renumber leases)

include settled

theorem reload : reloadEntries renumber leases = leases :=
  reloadEntries_of_readsBack settled.readsBack

theorem filter (keep : String × JsonValue → Bool) : Settled renumber (leases.filter keep) where
  sorted := sorted_filter settled.sorted
  named := fun entry member => settled.named entry (mem_of_mem_filter member)
  readsBack := fun entry member => settled.readsBack entry (mem_of_mem_filter member)

variable {environment : StepEnvironment}

theorem insertNew (exactU64 : ExactU64 renumber) (clock : environment.nowMs < 2 ^ 62)
    (route : PlannedRoute) (ttlMs : Option Nat) :
    Settled renumber (OrderedMap.insert (newLeaseId environment route)
      (newLeaseRecord environment route ttlMs) leases) where
  sorted := sorted_insert settled.sorted
  named := forall_mem_insert (carries_leaseRecordJson _ _ _ _ _).leaseId.requiredString settled.named
  readsBack := readsBack_insert settled.readsBack
    (readsBack_newLeaseRecord exactU64 clock route ttlMs)

theorem renew (exactU64 : ExactU64 renumber) {nowMs : Nat} (clock : nowMs < 2 ^ 62)
    (leaseId : String) (ttlMs : Option Nat) :
    Settled renumber
      (modify leaseId (renewRecord nowMs (normalizeTtl ttlMs)) leases) where
  sorted := sorted_modify settled.sorted
  named := by
    intro entry member
    obtain ⟨source, sourceMember, rfl⟩ := List.mem_map.mp member
    split
    · rw [requiredString_renewRecord]
      exact settled.named source sourceMember
    · exact settled.named source sourceMember
  readsBack := by
    intro entry member
    obtain ⟨source, sourceMember, rfl⟩ := List.mem_map.mp member
    split
    · exact readsBack_renewRecord exactU64 clock ttlMs (settled.readsBack source sourceMember)
    · exact settled.readsBack source sourceMember

theorem effect (exactU64 : ExactU64 renumber) (clock : environment.nowMs < 2 ^ 62)
    {command : LeaseCommand} {acquired : Option String} {after : JsonMap}
    (outcome : LeaseEffect environment command leases acquired after) : Settled renumber after := by
  cases outcome with
  | listed => exact settled
  | refused => exact settled
  | granted => exact settled.insertNew exactU64 clock _ _
  | takenOver => exact (settled.filter _).insertNew exactU64 clock _ _
  | renewed => exact settled.renew exactU64 clock _ _
  | released => exact settled.filter _

end Settled

/-- Runs keep stores settled while the clock stays below `2 ^ 62`. -/
theorem run_settled {renumber : String → Option String} (exactU64 : ExactU64 renumber)
    {file : StoreFile} (settled : Settled renumber (storedLeases file)) {steps : List Step}
    (clocks : ∀ step ∈ steps, step.environment.nowMs < 2 ^ 62) :
    Settled renumber (storedLeases (run renumber file steps)) := by
  refine run_invariant ?_ ?_ ?_ settled
  · intro leases held
    rw [held.reload]
    exact held
  · exact fun nowMs leases held => held.filter _
  · intro step member before acquired after held outcome _
    exact held.effect exactU64 (clocks step member) outcome

/-! ### Leaving the store -/

def Expired (nowMs : Nat) (record : JsonValue) : Prop :=
  ∃ expiresAt, expiresAtMs record = some expiresAt ∧ expiresAt ≤ nowMs

theorem unexpired_eq_false_iff {record : JsonValue} :
    unexpired nowMs record = false ↔ Expired nowMs record := by
  unfold unexpired Expired
  cases expiresAtMs record with
  | none => simp
  | some expiresAt => simp

/-- The command takes the record away from the unexpired leases: a release of its
id, or a takeover that finds it as the conflict and has its session. -/
def RemovedBy (leases : JsonMap) (leaseId : String) (record : JsonValue) : LeaseCommand → Prop
  | .release named => trim named = leaseId
  | .acquire route _ takeover =>
    takeover = true ∧ routeBlockers route = [] ∧
      (∃ conflict, findConflictIn leases route = some conflict ∧ conflict.lease = record) ∧
      optionalString record ["sessionLeaseId"] = some route.sessionLeaseId
  | .list => False
  | .renew _ _ => False

/-- The step completes and ends the stored lease. -/
def Leaves (renumber : String → Option String) (file : StoreFile) (step : Step)
    (leaseId : String) : Prop :=
  (∃ result, (execute renumber file step).1 = .ok result) ∧
    ∃ record, get leaseId (storedLeases file) = some record ∧
      (Expired step.environment.nowMs record ∨
        RemovedBy (purgedLeases step.environment.nowMs (storedLeases file)) leaseId record
          step.command)

/-- The record a command leaves under an id it does not take away. -/
def renewedBy (environment : StepEnvironment) (leaseId : String) :
    LeaseCommand → JsonValue → JsonValue
  | .renew named ttlMs, record =>
    if trim named = leaseId then
      renewRecord environment.nowMs (normalizeTtl ttlMs) record
    else record
  | _, record => record

section Lookup

variable {renumber : String → Option String} {environment : StepEnvironment}
  {command : LeaseCommand} {leases after : JsonMap} {acquired : Option String}
  {leaseId : String}

theorem lookup_absent (outcome : LeaseEffect environment command leases acquired after)
    (other : acquired ≠ some leaseId) (missing : get leaseId leases = none) :
    get leaseId after = none := by
  have removed : ∀ key, get leaseId (remove key leases) = none := by
    intro key
    by_cases same : leaseId = key
    · rw [same]
      exact get_remove_self key leases
    · rw [get_remove_of_ne same]
      exact missing
  have different : ∀ key, some key ≠ some leaseId → leaseId ≠ key :=
    fun key distinct same => distinct (congrArg some same.symm)
  cases outcome with
  | listed => exact missing
  | refused => exact missing
  | granted =>
    rw [get_insert_of_ne (different _ other)]
    exact missing
  | takenOver =>
    rw [get_insert_of_ne (different _ other)]
    exact removed _
  | renewed =>
    rw [get_modify, missing]
    split <;> rfl
  | released => exact removed _

variable {record : JsonValue}

theorem lookup_removed (settled : Settled renumber leases)
    (outcome : LeaseEffect environment command leases acquired after)
    (other : acquired ≠ some leaseId) (found : get leaseId leases = some record)
    (removed : RemovedBy leases leaseId record command) : get leaseId after = none := by
  have ownId : requiredString record ["leaseId"] = leaseId :=
    settled.named (leaseId, record) (mem_of_get found)
  cases outcome with
  | listed => exact removed.elim
  | renewed => exact removed.elim
  | released =>
    rw [show trim _ = leaseId from removed]
    exact get_remove_self leaseId leases
  | refused _ reason =>
    obtain ⟨asked, admitted, ⟨conflict, reported, same⟩, session⟩ := removed
    rcases reason with blocked | ⟨refusing, reportedToo, denied⟩
    · exact absurd admitted blocked
    · rw [reported, Option.some.injEq] at reportedToo
      rw [← reportedToo, same, takeoverAllowed_iff.mpr ⟨asked, session⟩] at denied
      cases denied
  | granted _ admitted free =>
    obtain ⟨-, -, ⟨conflict, reported, -⟩, -⟩ := removed
    rw [free] at reported
    cases reported
  | takenOver _ conflict admitted reported allowed =>
    obtain ⟨-, -, ⟨removedConflict, reportedToo, same⟩, -⟩ := removed
    rw [reported, Option.some.injEq] at reportedToo
    rw [get_insert_of_ne (fun equal => other (congrArg some equal.symm)), reportedToo, same, ownId]
    exact get_remove_self leaseId leases

theorem lookup_kept (settled : Settled renumber leases)
    (outcome : LeaseEffect environment command leases acquired after)
    (other : acquired ≠ some leaseId) (found : get leaseId leases = some record)
    (kept : ¬ RemovedBy leases leaseId record command) :
    get leaseId after = some (renewedBy environment leaseId command record) := by
  cases outcome with
  | listed => exact found
  | refused => exact found
  | granted =>
    rw [get_insert_of_ne (fun equal => other (congrArg some equal.symm))]
    exact found
  | takenOver _ conflict admitted reported allowed =>
    obtain ⟨stored, -⟩ := findConflictIn_stored settled.sorted settled.named reported
    obtain ⟨asked, session⟩ := takeoverAllowed_iff.mp allowed
    have different : leaseId ≠ requiredString conflict.lease ["leaseId"] := by
      intro same
      rw [← same, found, Option.some.injEq] at stored
      exact kept ⟨asked, admitted, ⟨conflict, reported, stored.symm⟩, stored ▸ session⟩
    rw [get_insert_of_ne (fun equal => other (congrArg some equal.symm)),
      get_remove_of_ne different]
    exact found
  | @renewed named ttlMs =>
    rw [get_modify, found, renewedBy]
    by_cases same : leaseId = trim named
    · rw [if_pos same, if_pos same.symm, Option.map_some]
    · rw [if_neg same, if_neg (Ne.symm same)]
  | released =>
    rw [get_remove_of_ne (fun same => kept same.symm)]
    exact found

end Lookup

end Mcpace.Hub.Lease

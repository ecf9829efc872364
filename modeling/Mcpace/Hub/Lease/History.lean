import Mcpace.Hub.Lease.Lifetime

/-!
Contract: how long a lease lives and what can change its record.

Owns the history of one lease over a run from a settled store: once acquired it
stays, with every member but the three a renewal writes, until the first step
that ends it, and it does not come back afterwards.
-/

namespace Mcpace.Hub.Lease

open Library Json List Option OrderedMap

/-! ### Records up to renewal -/

def renewedMembers : List String := ["renewedAtMs", "expiresAtMs", "ttlMs"]

/-- The two records differ at most in what a renewal writes. -/
def SameLease (left right : JsonValue) : Prop :=
  ∀ key, key ∉ renewedMembers → left.get key = right.get key

theorem SameLease.refl (record : JsonValue) : SameLease record record := fun _ _ => rfl

theorem SameLease.trans {first second third : JsonValue} (left : SameLease first second)
    (right : SameLease second third) : SameLease first third :=
  fun key outside => (left key outside).trans (right key outside)

theorem sameLease_renewRecord (nowMs ttlMs : Nat) (record : JsonValue) :
    SameLease (renewRecord nowMs ttlMs record) record := by
  intro key outside
  simp only [renewedMembers, mem_cons, not_mem_nil, or_false, not_or] at outside
  exact get_renewRecord_of_ne outside.1 outside.2.1 outside.2.2 nowMs ttlMs record

theorem sameLease_renewedBy (environment : StepEnvironment) (leaseId : String)
    (command : LeaseCommand) (record : JsonValue) :
    SameLease (renewedBy environment leaseId command record) record := by
  unfold renewedBy
  split
  · split
    · exact sameLease_renewRecord _ _ record
    · exact SameLease.refl record
  · exact SameLease.refl record

/-! ### One executed step -/

section Step

variable {renumber : String → Option String} {file : StoreFile} {step : Step} {leaseId : String}

/-- Only an acquire acquires, and it acquires the id it generated. -/
theorem LeaseEffect.acquired_eq {environment : StepEnvironment} {command : LeaseCommand}
    {leases after : JsonMap}
    (outcome : LeaseEffect environment command leases (some leaseId) after) :
    ∃ route ttlMs takeover, command = .acquire route ttlMs takeover ∧
      leaseId = newLeaseId environment route ∧
      get leaseId after = some (newLeaseRecord environment route ttlMs) := by
  cases outcome with
  | granted => exact ⟨_, _, _, rfl, rfl, OrderedMap.get_insert_self _ _ _⟩
  | takenOver => exact ⟨_, _, _, rfl, rfl, OrderedMap.get_insert_self _ _ _⟩

section

variable (settled : Settled renumber (storedLeases file))

include settled

/-- From a settled store a step fails and changes no lease, or applies one outcome
to the unexpired leases; a step that does not acquire the id reports another one. -/
theorem execute_settled_cases (fresh : ∀ entry ∈ acquires renumber file step, entry.1 ≠ leaseId) :
    ((∃ message, (execute renumber file step).1 = .error message) ∧
        storedLeases (execute renumber file step).2 = storedLeases file) ∨
      ∃ result acquired, (execute renumber file step).1 = .ok result ∧ acquired ≠ some leaseId ∧
        LeaseEffect step.environment step.command
          (purgedLeases step.environment.nowMs (storedLeases file)) acquired
          (storedLeases (execute renumber file step).2) := by
  rcases execute_cases renumber file step with failed | ⟨result, succeeded, outcome⟩
  · exact Or.inl failed
  · rw [settled.reload] at outcome
    refine Or.inr ⟨result, acquiredLeaseId result, succeeded, ?_, outcome⟩
    intro same
    rw [same] at outcome
    obtain ⟨route, ttlMs, takeover, command, -, -⟩ := outcome.acquired_eq
    refine fresh (leaseId, route) ?_ rfl
    rw [acquires, succeeded, command]
    show acquisition (acquiredLeaseId result) _ = some (leaseId, route)
    rw [same]
    rfl

theorem get_purgedLeases (nowMs : Nat) (leaseId : String) :
    get leaseId (purgedLeases nowMs (storedLeases file)) =
      (get leaseId (storedLeases file)).filter (unexpired nowMs) :=
  OrderedMap.get_retain settled.sorted

section

variable (fresh : ∀ entry ∈ acquires renumber file step, entry.1 ≠ leaseId)

include fresh

theorem execute_absent (missing : get leaseId (storedLeases file) = none) :
    get leaseId (storedLeases (execute renumber file step).2) = none := by
  rcases execute_settled_cases settled fresh with ⟨-, same⟩ | ⟨_, acquired, -, other, outcome⟩
  · rw [same]
    exact missing
  · apply lookup_absent outcome other
    rw [get_purgedLeases settled, missing]
    rfl

theorem execute_leaves (leaves : Leaves renumber file step leaseId) :
    get leaseId (storedLeases (execute renumber file step).2) = none := by
  obtain ⟨⟨result, succeeded⟩, record, found, cause⟩ := leaves
  rcases execute_settled_cases settled fresh with
    ⟨⟨message, failed⟩, -⟩ | ⟨_, acquired, -, other, outcome⟩
  · rw [succeeded] at failed
    cases failed
  · have current := get_purgedLeases settled step.environment.nowMs leaseId
    cases alive : unexpired step.environment.nowMs record with
    | false =>
      apply lookup_absent outcome other
      rw [current, found, filter_some, alive]
      rfl
    | true =>
      rw [found, filter_some, alive, if_pos rfl] at current
      rcases cause with expired | removed
      · rw [unexpired_eq_false_iff.mpr expired] at alive
        cases alive
      · exact lookup_removed (settled.filter _) outcome other current removed

/-- A step that does not end the lease keeps it, renewed if it is the one named. -/
theorem execute_kept
    {record : JsonValue} (found : get leaseId (storedLeases file) = some record)
    (stays : ¬ Leaves renumber file step leaseId) :
    ∃ kept, get leaseId (storedLeases (execute renumber file step).2) = some kept ∧
      (kept = record ∨ kept = renewedBy step.environment leaseId step.command record) := by
  rcases execute_settled_cases settled fresh with
    ⟨-, same⟩ | ⟨result, acquired, succeeded, other, outcome⟩
  · exact ⟨record, by rw [same, found], Or.inl rfl⟩
  · have notEnded : ¬ (Expired step.environment.nowMs record ∨
        RemovedBy (purgedLeases step.environment.nowMs (storedLeases file)) leaseId record
          step.command) :=
      fun cause => stays ⟨⟨result, succeeded⟩, record, found, cause⟩
    rw [not_or] at notEnded
    have alive : unexpired step.environment.nowMs record = true := by
      rw [← Bool.not_eq_false]
      exact fun expired => notEnded.1 (unexpired_eq_false_iff.mp expired)
    have current := get_purgedLeases settled step.environment.nowMs leaseId
    rw [found, filter_some, alive, if_pos rfl] at current
    exact ⟨_, lookup_kept (settled.filter _) outcome other current notEnded.2, Or.inr rfl⟩

theorem execute_sameLease
    {record : JsonValue} (found : get leaseId (storedLeases file) = some record)
    (stays : ¬ Leaves renumber file step leaseId) :
    ∃ kept, get leaseId (storedLeases (execute renumber file step).2) = some kept ∧
      SameLease kept record := by
  obtain ⟨kept, stored, same | renewed⟩ := execute_kept settled fresh found stays
  · exact ⟨kept, stored, same ▸ SameLease.refl kept⟩
  · exact ⟨kept, stored, renewed ▸ sameLease_renewedBy _ _ _ record⟩

end

end

/-- The step that acquires a lease stores the record of its route. -/
theorem execute_acquired {route : PlannedRoute} {ttlMs : Option Nat} {takeover : Bool}
    (command : step.command = .acquire route ttlMs takeover)
    (acquired : acquires renumber file step = some (leaseId, route)) :
    get leaseId (storedLeases (execute renumber file step).2) =
      some (newLeaseRecord step.environment route ttlMs) := by
  rw [acquires, command, acquisition, map_eq_some_iff] at acquired
  obtain ⟨reported, returned, equal⟩ := acquired
  rw [Prod.mk.injEq] at equal
  rw [equal.1] at returned
  rcases execute_cases renumber file step with
    ⟨⟨message, failed⟩, -⟩ | ⟨result, succeeded, outcome⟩
  · rw [failed] at returned
    cases returned
  · rw [succeeded] at returned
    rw [show acquiredLeaseId result = some leaseId from returned] at outcome
    obtain ⟨_, _, _, asked, -, stored⟩ := outcome.acquired_eq
    rw [command] at asked
    cases asked
    exact stored

end Step

/-! ### Runs -/

section Run

variable {renumber : String → Option String} {leaseId : String} {file : StoreFile} {step : Step}

theorem execute_settled (exactU64 : JsonValue.ExactU64 renumber)
    (settled : Settled renumber (storedLeases file)) (clock : step.environment.nowMs < 2 ^ 62) :
    Settled renumber (storedLeases (execute renumber file step).2) := by
  have clocks : ∀ other ∈ [step], other.environment.nowMs < 2 ^ 62 := by simpa using clock
  exact run_settled exactU64 settled clocks

theorem fresh_cons {rest : List Step}
    (fresh : leaseId ∉ (acquisitions renumber file (step :: rest)).map Prod.fst) :
    (∀ entry ∈ acquires renumber file step, entry.1 ≠ leaseId) ∧
      leaseId ∉ (acquisitions renumber (execute renumber file step).2 rest).map Prod.fst := by
  rw [acquisitions, map_append, mem_append, not_or] at fresh
  refine ⟨?_, fresh.2⟩
  intro entry acquired same
  exact fresh.1 (List.mem_map.mpr ⟨entry, mem_toList.mpr acquired, same⟩)

section

variable (exactU64 : JsonValue.ExactU64 renumber)

include exactU64

section

variable (settled : Settled renumber (storedLeases file))

include settled

/-- An id that is not acquired again does not come back. -/
theorem run_absent {steps : List Step} (clocks : ∀ step ∈ steps, step.environment.nowMs < 2 ^ 62)
    (fresh : leaseId ∉ (acquisitions renumber file steps).map Prod.fst)
    (missing : get leaseId (storedLeases file) = none) :
    get leaseId (storedLeases (run renumber file steps)) = none := by
  induction steps generalizing file with
  | nil => exact missing
  | cons step rest ih =>
    obtain ⟨freshNow, freshLater⟩ := fresh_cons fresh
    apply ih
    · exact execute_settled exactU64 settled (clocks step mem_cons_self)
    · exact (forall_mem_cons.mp clocks).2
    · exact freshLater
    · exact execute_absent settled freshNow missing

/-- A stored lease that no step of the run ends is still there, up to renewals. -/
theorem run_kept {steps : List Step} (clocks : ∀ step ∈ steps, step.environment.nowMs < 2 ^ 62)
    (fresh : leaseId ∉ (acquisitions renumber file steps).map Prod.fst) {record : JsonValue}
    (found : get leaseId (storedLeases file) = some record)
    (stays : ∀ passed step rest, steps = passed ++ step :: rest →
      ¬ Leaves renumber (run renumber file passed) step leaseId) :
    ∃ kept, get leaseId (storedLeases (run renumber file steps)) = some kept ∧
      SameLease kept record := by
  induction steps generalizing file record with
  | nil => exact ⟨record, found, SameLease.refl record⟩
  | cons step rest ih =>
    obtain ⟨freshNow, freshLater⟩ := fresh_cons fresh
    obtain ⟨next, stored, sameNext⟩ :=
      execute_sameLease settled freshNow found (stays [] step rest rfl)
    obtain ⟨kept, storedLast, sameKept⟩ := ih
      (execute_settled exactU64 settled (clocks step mem_cons_self))
      (forall_mem_cons.mp clocks).2
      freshLater stored
      (fun passed later others split => stays (step :: passed) later others (by rw [split]; rfl))
    exact ⟨kept, storedLast, sameKept.trans sameNext⟩

/-- A lease that a step of the run ends is gone after the run. -/
theorem run_left {passed rest : List Step}
    (clocks : ∀ other ∈ passed ++ step :: rest, other.environment.nowMs < 2 ^ 62)
    (fresh : leaseId ∉ (acquisitions renumber file (passed ++ step :: rest)).map Prod.fst)
    (leaves : Leaves renumber (run renumber file passed) step leaseId) :
    get leaseId (storedLeases (run renumber file (passed ++ step :: rest))) = none := by
  have settledPassed := run_settled exactU64 settled
    (forall_mem_append.mp clocks).1
  rw [acquisitions_append, map_append, mem_append, not_or] at fresh
  obtain ⟨freshNow, freshLater⟩ := fresh_cons fresh.2
  rw [run_append, run_cons]
  apply run_absent exactU64
  · exact execute_settled exactU64 settledPassed (clocks step (by simp))
  · exact fun later member =>
      clocks later (mem_append_right passed (mem_cons_of_mem step member))
  · exact freshLater
  · exact execute_leaves settledPassed freshNow leaves

end

end

/-- Distinct acquisitions: no later step acquires the id again. -/
theorem fresh_after_acquire {earlier later : List Step} {grant : Step} {route : PlannedRoute}
    (distinct : ((acquisitions renumber file (earlier ++ grant :: later)).map Prod.fst).Nodup)
    (acquired : acquires renumber (run renumber file earlier) grant = some (leaseId, route)) :
    leaseId ∉ (acquisitions renumber
      (execute renumber (run renumber file earlier) grant).2 later).map Prod.fst := by
  rw [acquisitions_append, map_append] at distinct
  have tail := (nodup_append.mp distinct).2.1
  rw [acquisitions, acquired] at tail
  exact (nodup_cons.mp tail).1

/-- A renewal changes at most its three members, and only of the lease it names. -/
theorem execute_renew {named : String} {ttlMs : Option Nat}
    (settled : Settled renumber (storedLeases file)) (command : step.command = .renew named ttlMs)
    {record : JsonValue} (found : get leaseId (storedLeases file) = some record)
    (alive : ¬ Expired step.environment.nowMs record) :
    ∃ kept, get leaseId (storedLeases (execute renumber file step).2) = some kept ∧
      SameLease kept record ∧ (leaseId ≠ Text.trim named → kept = record) := by
  have acquiresNothing : acquires renumber file step = none := by rw [acquires, command]; rfl
  have fresh : ∀ entry ∈ acquires renumber file step, entry.1 ≠ leaseId := by
    intro entry acquired
    rw [acquiresNothing] at acquired
    cases acquired
  have stays : ¬ Leaves renumber file step leaseId := by
    rintro ⟨-, current, stored, expired | removed⟩
    · rw [found, Option.some.injEq] at stored
      exact alive (stored ▸ expired)
    · rw [command] at removed
      exact removed
  obtain ⟨kept, stored, cause⟩ := execute_kept settled fresh found stays
  refine ⟨kept, stored, ?_, ?_⟩
  · rcases cause with same | renewed
    · exact same ▸ SameLease.refl kept
    · exact renewed ▸ sameLease_renewedBy _ _ _ record
  · intro other
    rcases cause with same | renewed
    · exact same
    · rw [renewed, command, renewedBy, if_neg (Ne.symm other)]

/-- The life of a lease. From a settled store, with clocks below `2 ^ 62` and
distinct acquired ids, an acquired lease stays up to renewals until a step ends
it, and is absent from then on; a renewal touches only the lease it names. -/
theorem run_leaseLifetime (renumber : String → Option String)
    (exactU64 : JsonValue.ExactU64 renumber) (file : StoreFile)
    (settled : Settled renumber (storedLeases file)) (steps : List Step)
    (clocks : ∀ step ∈ steps, step.environment.nowMs < 2 ^ 62)
    (distinct : ((acquisitions renumber file steps).map Prod.fst).Nodup) :
    (∀ earlier grant later leaseId route ttlMs takeover, steps = earlier ++ grant :: later →
      grant.command = .acquire route ttlMs takeover →
      acquires renumber (run renumber file earlier) grant = some (leaseId, route) →
      let granted := run renumber file (earlier ++ [grant])
      ((∀ passed step rest, later = passed ++ step :: rest →
          ¬ Leaves renumber (run renumber granted passed) step leaseId) →
        ∃ record, get leaseId (storedLeases (run renumber granted later)) = some record ∧
          SameLease record (newLeaseRecord grant.environment route ttlMs)) ∧
      (∀ passed step rest, later = passed ++ step :: rest →
        Leaves renumber (run renumber granted passed) step leaseId →
        get leaseId (storedLeases (run renumber granted later)) = none) ∧
      (∀ passed rest, later = passed ++ rest →
        get leaseId (storedLeases (run renumber granted passed)) = none →
        get leaseId (storedLeases (run renumber granted later)) = none)) ∧
    (∀ earlier step later named ttlMs, steps = earlier ++ step :: later →
      step.command = .renew named ttlMs →
      ∀ leaseId, (∀ record, get leaseId (storedLeases (run renumber file earlier)) = some record →
          ¬ Expired step.environment.nowMs record →
          ∃ kept, get leaseId
              (storedLeases (run renumber file (earlier ++ [step]))) = some kept ∧
            SameLease kept record ∧ (leaseId ≠ Text.trim named → kept = record)) ∧
        (get leaseId (storedLeases (run renumber file earlier)) = none →
          get leaseId (storedLeases (run renumber file (earlier ++ [step]))) = none)) := by
  refine ⟨?_, ?_⟩
  · rintro earlier grant later leaseId route ttlMs takeover rfl command acquired
    have settledEarlier := run_settled exactU64 settled
      (forall_mem_append.mp clocks).1
    have settledGranted := execute_settled exactU64 settledEarlier (clocks grant (by simp))
    have laterClocks : ∀ step ∈ later, step.environment.nowMs < 2 ^ 62 := fun step member =>
      clocks step (mem_append_right earlier (mem_cons_of_mem grant member))
    have fresh := fresh_after_acquire distinct acquired
    rw [run_append]
    refine ⟨?_, ?_, ?_⟩
    · exact run_kept exactU64 settledGranted laterClocks fresh (execute_acquired command acquired)
    · rintro passed step rest rfl leaves
      exact run_left exactU64 settledGranted laterClocks fresh leaves
    · rintro passed rest rfl missing
      rw [acquisitions_append, map_append, mem_append, not_or] at fresh
      rw [run_append]
      refine run_absent exactU64 ?_ ?_ fresh.2 missing
      · exact run_settled exactU64 settledGranted
          (forall_mem_append.mp laterClocks).1
      · exact (forall_mem_append.mp laterClocks).2
  · rintro earlier step later named ttlMs rfl command leaseId
    have settledEarlier := run_settled exactU64 settled
      (forall_mem_append.mp clocks).1
    rw [run_append]
    refine ⟨fun record found alive => execute_renew settledEarlier command found alive, ?_⟩
    intro missing
    apply execute_absent settledEarlier _ missing
    intro entry acquired
    rw [acquires, command] at acquired
    cases acquired

end Run

/-- An acquire of the one-worker pool and the release of its lease. -/
def leaseSteps : List Step := [ ⟨.acquire poolRoute none false, clockAt 10⟩,
  ⟨.release "lease:files:10:7:10", clockAt 20⟩]

theorem run_leaseLifetime_leaseSteps :
    acquires some (emptyStoreFile 5) ⟨.acquire poolRoute none false, clockAt 10⟩ =
        some ("lease:files:10:7:10", poolRoute) ∧
      get "lease:files:10:7:10"
        (storedLeases (run some (emptyStoreFile 5) leaseSteps)) = none := by
  have acquired : acquires some (emptyStoreFile 5) ⟨.acquire poolRoute none false, clockAt 10⟩ =
      some ("lease:files:10:7:10", poolRoute) := rfl
  have settled : Settled some (storedLeases (emptyStoreFile 5)) := by
    rw [storedLeases_emptyStoreFile]
    exact Settled.empty
  have clocks : ∀ step ∈ leaseSteps, step.environment.nowMs < 2 ^ 62 := by
    simp [leaseSteps, clockAt]
  have distinct : ((acquisitions some (emptyStoreFile 5) leaseSteps).map Prod.fst).Nodup := by
    have listed : acquisitions some (emptyStoreFile 5) leaseSteps =
        [("lease:files:10:7:10", poolRoute)] := by
      rw [leaseSteps, acquisitions, acquired]
      rfl
    rw [listed]
    exact nodup_singleton _
  have life := (run_leaseLifetime some (fun _ _ => rfl) (emptyStoreFile 5) settled leaseSteps
    clocks distinct).1 [] _ [⟨.release "lease:files:10:7:10", clockAt 20⟩] _ _ _ _ rfl rfl acquired
  refine ⟨acquired, life.2.1 [] _ [] rfl ⟨⟨_, rfl⟩, _, execute_acquired rfl acquired, Or.inr ?_⟩⟩
  show Text.trim "lease:files:10:7:10" = "lease:files:10:7:10"
  decide

end Mcpace.Hub.Lease

import Mcpace.Client.Context
import Mcpace.Hub.Lease.Exclusion

/-!
Contract: whose leases an acquire with takeover can remove.

A takeover compares session lease ids. The planner names a session lease after the
sanitized session id alone, so the authority is that of the sanitized session id: it does
not depend on the client, and session ids that sanitize to one text share it. The latter is a
defect, as it is for server names: `resolve_context` promises isolation to callers with a session id.
-/

namespace Mcpace.Hub.Lease

open Library Json Client Option OrderedMap

/-- The context is one that the planner resolved. -/
def Resolved (context : ResolvedContext) : Prop :=
  ∃ env args metadata, context = resolveContext env args metadata

/-- The route carries the identities of a resolved context with a session id, as
`planned_route_from_plan` copies them. -/
structure PlannedForSession (route : PlannedRoute) (session : String) : Prop where
  planned : ∃ context, Resolved context ∧ route.clientId = context.clientId ∧
    route.sessionLeaseId = context.sessionLeaseId ∧ context.sessionId = some session
  sessionId : route.sessionId = some session

theorem PlannedForSession.sessionLeaseId {route : PlannedRoute} {session : String}
    (planned : PlannedForSession route session) :
    route.sessionLeaseId = "external:" ++ sanitizeKey session := by
  obtain ⟨context, ⟨env, args, metadata, rfl⟩, -, named, explicit⟩ := planned.planned
  rw [named]
  exact resolveContext_sessionLeaseId explicit

/-! ### One takeover -/

section Takeover

variable {renumber : String → Option String} {file : StoreFile} {step : Step}
  {origin : LeaseTexts → Prop}

/-- A lease that an acquire removes although it is not expired was acquired for the session
lease of the requester. -/
theorem execute_takeover {route : PlannedRoute} {ttlMs : Option Nat} {takeover : Bool}
    {leaseId : String} {record : JsonValue}
    (wellFormed : WellFormed origin (storedLeases file))
    (command : step.command = .acquire route ttlMs takeover)
    (stored : get leaseId (storedLeases file) = some record)
    (alive : unexpired step.environment.nowMs (record.reload renumber) = true)
    (removed : get leaseId (storedLeases (execute renumber file step).2) = none) :
    ∃ texts, origin texts ∧ texts.leaseId = leaseId ∧
      texts.sessionLeaseId = route.sessionLeaseId := by
  have loaded : get leaseId (purgedLeases step.environment.nowMs
      (JsonValue.reloadEntries renumber (storedLeases file))) = some (record.reload renumber) := by
    rw [purgedLeases, OrderedMap.get_retain (wellFormed.reload renumber).sorted,
      JsonValue.get_reloadEntries, stored, map_some, filter_some, if_pos alive]
  rcases execute_cases renumber file step with ⟨-, unchanged⟩ | ⟨result, -, outcome⟩
  · rw [unchanged, stored] at removed
    cases removed
  · have formed := (wellFormed.reload renumber).filter
      (fun entry => unexpired step.environment.nowMs entry.2)
    rw [command] at outcome
    generalize acquiredLeaseId result = acquired at outcome
    generalize storedLeases (execute renumber file step).2 = after at outcome removed
    cases outcome with
    | refused =>
      rw [loaded] at removed
      cases removed
    | granted =>
      rw [OrderedMap.get_insert] at removed
      split at removed
      · cases removed
      · rw [loaded] at removed
        cases removed
    | takenOver _ conflict admitted found allowed =>
      have conflicting := (findConflictIn_stored formed.sorted
        formed.requiredString_leaseId found).1
      have session := (takeoverAllowed_iff.mp allowed).2
      rw [OrderedMap.get_insert] at removed
      split at removed
      · cases removed
      · -- Only the conflicting lease is taken out, so it is the one that is gone.
        have same : leaseId = requiredString conflict.lease ["leaseId"] := by
          by_contra different
          rw [OrderedMap.get_remove_of_ne different, loaded] at removed
          cases removed
        obtain ⟨texts, carries, named, accepted⟩ := formed.named_of_get conflicting
        refine ⟨texts, accepted, named.trans same.symm, ?_⟩
        have carried := carries.sessionLeaseId.optionalString
        rw [session] at carried
        exact (Option.some.inj carried).symm

end Takeover

/-! ### Authority over runs -/

/-- Two session ids name one session lease exactly when they sanitize to one text, whoever the
clients are. -/
theorem sessionLeaseId_eq_iff {left right : ResolvedContext} {leftSession rightSession : String}
    (leftResolved : Resolved left) (rightResolved : Resolved right)
    (leftExplicit : left.sessionId = some leftSession)
    (rightExplicit : right.sessionId = some rightSession) :
    left.sessionLeaseId = right.sessionLeaseId ↔
      sanitizeKey leftSession = sanitizeKey rightSession := by
  obtain ⟨leftEnv, leftArgs, leftMetadata, rfl⟩ := leftResolved
  obtain ⟨rightEnv, rightArgs, rightMetadata, rfl⟩ := rightResolved
  rw [resolveContext_sessionLeaseId leftExplicit, resolveContext_sessionLeaseId rightExplicit]
  exact String.append_right_inj _

/-- The authority of a takeover is the sanitized session id: it decides which contexts share a
session lease, and in every run an acquire with takeover removes, besides expired leases, only
leases that were acquired for a session id of the same sanitized form. -/
theorem takeover_authority (renumber : String → Option String) (seedMs : Nat) :
    (∀ (left right : ResolvedContext) (leftSession rightSession : String),
      Resolved left → Resolved right → left.sessionId = some leftSession →
      right.sessionId = some rightSession → (left.sessionLeaseId = right.sessionLeaseId ↔
          sanitizeKey leftSession = sanitizeKey rightSession)) ∧
      ∀ (earlier : List Step) (step : Step) (route : PlannedRoute) (ttlMs : Option Nat)
        (session leaseId : String) (record : JsonValue),
        (∀ entry ∈ acquisitions renumber (emptyStoreFile seedMs) earlier,
          ∃ ownSession, PlannedForSession entry.2 ownSession) →
        step.command = .acquire route ttlMs true → PlannedForSession route session →
        get leaseId (storedLeases (run renumber (emptyStoreFile seedMs) earlier)) = some record →
        unexpired step.environment.nowMs (record.reload renumber) = true →
        get leaseId
          (storedLeases (run renumber (emptyStoreFile seedMs) (earlier ++ [step]))) = none →
          ∃ owner ownSession,
            (leaseId, owner) ∈ acquisitions renumber (emptyStoreFile seedMs) earlier ∧
              PlannedForSession owner ownSession ∧
              sanitizeKey ownSession = sanitizeKey session := by
  constructor
  · intro left right leftSession rightSession leftResolved rightResolved leftExplicit
      rightExplicit
    exact sessionLeaseId_eq_iff leftResolved rightResolved leftExplicit rightExplicit
  · intro earlier step route ttlMs session leaseId record planned command requester stored alive
      removed
    rw [run_append] at removed
    obtain ⟨texts, ⟨entry, acquired, rfl⟩, named, shared⟩ := execute_takeover
      (run_wellFormed renumber seedMs earlier) command stored alive removed
    obtain ⟨ownSession, own⟩ := planned entry acquired
    have sameLease : "external:" ++ sanitizeKey ownSession =
        "external:" ++ sanitizeKey session := by
      rw [← own.sessionLeaseId, ← requester.sessionLeaseId]
      exact shared
    have sameId : entry.1 = leaseId := named
    refine ⟨entry.2, ownSession, ?_, own, (String.append_right_inj _).mp sameLease⟩
    rw [← sameId]
    exact acquired

/-! ### Which takeovers are granted -/

/-- The leases that stand against a route: those with its mutex key, or those counted against its
capacity key if they exhaust it. -/
def leasesAgainst (leases : JsonMap) (route : PlannedRoute) : List JsonValue :=
  match route.requestMutexKey with
  | some mutexKey => (values leases).filter (holdsMutex mutexKey)
  | none =>
    let counted := (values leases).filter (holdsCapacity (routeCapacityKey route))
    if route.parallelismLimit > 0 ∧ counted.length ≥ route.parallelismLimit then counted else []

def OwnLease (route : PlannedRoute) (lease : JsonValue) : Prop :=
  optionalString lease ["sessionLeaseId"] = some route.sessionLeaseId

instance (route : PlannedRoute) (lease : JsonValue) : Decidable (OwnLease route lease) :=
  inferInstanceAs (Decidable (_ = _))

/-- The conflict that is reported is with the first of them. -/
theorem findConflictIn_head (leases : JsonMap) (route : PlannedRoute) :
    (findConflictIn leases route).map LeaseConflict.lease = (leasesAgainst leases route).head? := by
  rw [findConflictIn, leasesAgainst]
  cases route.requestMutexKey with
  | some mutexKey =>
    dsimp only
    rw [Option.map_map, List.head?_filter]
    exact Option.map_id_fun' ▸ rfl
  | none =>
    dsimp only
    split
    · rename_i exhausted
      cases counted : (values leases).filter (holdsCapacity (routeCapacityKey route)) with
      | nil =>
        rw [counted, List.length_nil] at exhausted
        omega
      | cons first rest => rfl
    · rfl

/-- An acquire with takeover looks at the first lease against it. -/
theorem acquireMutator_granted_iff {route : PlannedRoute} (unblocked : routeBlockers route = [])
    (ttlMs : Nat) (environment : StepEnvironment) (store : JsonMap) (nowMs purged : Nat) :
    (acquireMutator route ttlMs true environment store nowMs purged).1.exitCode = 0 ↔
      ∀ first ∈ (leasesAgainst ((leasesMap store).getD []) route).head?, OwnLease route first := by
  have found : (findConflict store route).map LeaseConflict.lease =
      (leasesAgainst ((leasesMap store).getD []) route).head? := by
    rw [findConflict]
    cases leasesMap store with
    | some leases => exact findConflictIn_head leases route
    | none =>
      rw [getD_none, leasesAgainst]
      cases route.requestMutexKey <;> simp [values]
  rw [acquireMutator, if_neg (not_not.mpr unblocked), ← found]
  cases findConflict store route with
  | none => exact iff_of_true rfl (by simp)
  | some conflict =>
    dsimp only
    split
    · rename_i allowed
      refine iff_of_true rfl ?_
      rintro _ ⟨⟩
      exact (takeoverAllowed_iff.mp allowed).2
    · rename_i denied
      refine iff_of_false (by simp) (fun own => denied ?_)
      exact takeoverAllowed_iff.mpr ⟨rfl, own _ rfl⟩

/-- A takeover is granted as soon as one of the leases against it is the requester's own, exactly
when the first of them is or none is. -/
theorem takeover_complete_iff {route : PlannedRoute} (unblocked : routeBlockers route = [])
    (ttlMs : Nat) (environment : StepEnvironment) (store : JsonMap) (nowMs purged : Nat) :
    ((acquireMutator route ttlMs true environment store nowMs purged).1.exitCode = 0 ↔
        leasesAgainst ((leasesMap store).getD []) route = [] ∨
          ∃ lease ∈ leasesAgainst ((leasesMap store).getD []) route, OwnLease route lease) ↔
      ∀ first ∈ (leasesAgainst ((leasesMap store).getD []) route).head?, OwnLease route first ∨
          ∀ lease ∈ leasesAgainst ((leasesMap store).getD []) route, ¬OwnLease route lease := by
  rw [acquireMutator_granted_iff unblocked]
  generalize leasesAgainst ((leasesMap store).getD []) route = against
  cases against with
  | nil => simp
  | cons first rest =>
    by_cases own : OwnLease route first
    · simp [own]
    · simp [own]

/-! ### Two clients with one session id -/

def sessionArgs (client session : String) : ParsedArgs :=
  { clientId := some client, sessionId := some session, projectRoot := none, transport := none,
    metadataJson := none }

def sessionContext (client session : String) : ResolvedContext :=
  resolveContext (fun _ => none) (sessionArgs client session) .empty

/-- The one-worker pool, routed for the context. -/
def sessionRoute (client session : String) : PlannedRoute :=
  { poolRoute with
    clientId := (sessionContext client session).clientId
    sessionLeaseId := (sessionContext client session).sessionLeaseId
    sessionId := (sessionContext client session).sessionId }

def sessionSteps (client session other otherSession : String) : List Step := [
  ⟨.acquire (sessionRoute client session) none false, clockAt 10⟩,
  ⟨.acquire (sessionRoute other otherSession) none true, clockAt 20⟩]

theorem sessionRoute_planned {client session : String}
    (explicit : (sessionContext client session).sessionId = some session) :
    PlannedForSession (sessionRoute client session) session where
  planned := ⟨sessionContext client session, ⟨_, _, _, rfl⟩, rfl, rfl, explicit⟩
  sessionId := explicit

def firstLeaseId : String := "lease:files:10:7:10"

/-- A session takes its own lease over. -/
theorem takeover_authority_ownSession : ∃ owner ownSession,
      (firstLeaseId, owner) ∈ acquisitions some (emptyStoreFile 5)
          (sessionSteps "editor" "a" "editor" "a").dropLast ∧
        PlannedForSession owner ownSession ∧ sanitizeKey ownSession = sanitizeKey "a" := by
  have route : PlannedForSession (sessionRoute "editor" "a") "a" :=
    sessionRoute_planned (by decide +kernel)
  have alive : (get firstLeaseId (storedLeases (run some (emptyStoreFile 5)
      [⟨.acquire (sessionRoute "editor" "a") none false, clockAt 10⟩]))).map
        (fun record => unexpired 20 (record.reload some)) = some true := by decide +kernel
  obtain ⟨record, stored, alive⟩ := map_eq_some_iff.mp alive
  refine (takeover_authority some 5).2
    [⟨.acquire (sessionRoute "editor" "a") none false, clockAt 10⟩]
    ⟨.acquire (sessionRoute "editor" "a") none true, clockAt 20⟩ (sessionRoute "editor" "a") none
    "a" firstLeaseId record ?_ rfl route stored alive (by decide +kernel)
  intro entry acquired
  obtain ⟨step, member, ttlMs, takeover, command⟩ := command_of_mem_acquisitions acquired
  rw [List.mem_singleton.mp member] at command
  have sameRoute : sessionRoute "editor" "a" = entry.2 := (LeaseCommand.acquire.inj command).1
  exact ⟨"a", sameRoute ▸ route⟩

/-- The planner gives one session lease to two clients with the same session id, and to two
session ids that sanitize to one text; the second client takes the lease of the first over. -/
theorem takeover_otherClient :
    (sessionContext "editor" "a").clientId ≠ (sessionContext "terminal" "a").clientId ∧
      (sessionContext "editor" "a").sessionLeaseId =
        (sessionContext "terminal" "a").sessionLeaseId ∧
      (sessionContext "editor" "a b").sessionId ≠ (sessionContext "editor" "a_b").sessionId ∧
      (sessionContext "editor" "a b").sessionLeaseId =
        (sessionContext "editor" "a_b").sessionLeaseId ∧
      (acquisitions some (emptyStoreFile 5) (sessionSteps "editor" "a" "terminal" "a")).map
          (fun entry => (entry.1, entry.2.clientId)) =
        [(firstLeaseId, "editor"), ("lease:files:20:7:20", "terminal")] ∧
      (get firstLeaseId (storedLeases (run some (emptyStoreFile 5)
        (sessionSteps "editor" "a" "terminal" "a").dropLast))).map
          (fun record => unexpired 20 (record.reload some)) = some true ∧
      get firstLeaseId (storedLeases (run some (emptyStoreFile 5)
        (sessionSteps "editor" "a" "terminal" "a"))) = none :=
  ⟨by decide +kernel, by decide +kernel, by decide +kernel, by decide +kernel, by decide +kernel,
    by decide +kernel, by decide +kernel⟩

/-! ### A pool of two sessions -/

def contestedRoute (session : String) : PlannedRoute :=
  { sessionRoute "editor" session with parallelismLimit := 2, parallelismLimit_lt := by decide }

/-- The store after one acquire of each session. -/
def contestedStore : JsonMap :=
  ((run some (emptyStoreFile 5) [⟨.acquire (contestedRoute "a") none false, clockAt 10⟩,
    ⟨.acquire (contestedRoute "b") none false, clockAt 20⟩]).bind JsonValue.asObject).getD []

/-- The session whose lease comes first takes it over. -/
theorem takeover_complete_first :
    (acquireMutator (contestedRoute "a") 1000 true (clockAt 30) contestedStore 30 0).1.exitCode =
      0 := by
  have against : (leasesAgainst ((leasesMap contestedStore).getD []) (contestedRoute "a")).head?.map
      (fun first => decide (OwnLease (contestedRoute "a") first)) = some true := by decide +kernel
  obtain ⟨first, isFirst, own⟩ := map_eq_some_iff.mp against
  refine ((takeover_complete_iff (by decide +kernel) 1000 (clockAt 30) contestedStore 30 0).mpr
    ?_).mpr (.inr ⟨first, List.mem_of_head? isFirst, of_decide_eq_true own⟩)
  rw [isFirst]
  rintro _ ⟨⟩
  exact .inl (of_decide_eq_true own)

/-- The other session is refused, although one of the two leases is its own. -/
theorem takeover_incomplete_second : routeBlockers (contestedRoute "b") = [] ∧
      (leasesAgainst ((leasesMap contestedStore).getD []) (contestedRoute "b")).map
        (fun lease => decide (OwnLease (contestedRoute "b") lease)) = [false, true] ∧
      (acquireMutator (contestedRoute "b") 1000 true (clockAt 30) contestedStore 30 0).1.exitCode =
        1 :=
  ⟨by decide +kernel, by decide +kernel, by decide +kernel⟩

end Mcpace.Hub.Lease

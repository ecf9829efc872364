import Mcpace.Client.Plan
import Mcpace.Sources.Selection

/-!
Owns the plan of one server: `build_server_plan`, `resolve_request_strategy` and
`admission_state` of `src/client/plan.rs`, and the documents `src/client/render.rs` writes for
a server plan and for the context.

The strategy refuses in a fixed order: servers that are not routable, the legacy transport,
and a missing affinity. A refusal is a parallelism limit of zero.

Does not own: the counts and warnings of the whole client plan, and its client target.
-/

namespace Mcpace.Client

open Library Json Execution Sources

/-- A server record with every field the plan reads. -/
structure PlanRecord extends ServerRecord where
  required : Bool
  defaultEnabled : Bool
  platformSupported : Bool
  sourceEnabled : Bool
  effectiveEnabled : Bool
  platforms : List String
  startupStrategy : String
  maxWorkers : Nat
  transportStatus : String
  parallelSafetyClass : String
  runtimeType : String
  stateClass : String
  effectClass : String
  defaultPoolModel : String
  lockDomains : List String
  launcherKind : String

namespace PlanRecord

def admissionState (record : PlanRecord) : String :=
  if !record.platformSupported then "unsupported-platform"
  else if record.sourceEnabled && record.effectiveEnabled then "configured-source"
  else if record.sourceEnabled then "disabled-by-policy"
  else if record.required then "required-needs-source"
  else if record.defaultEnabled then "default-needs-source"
  else "optional-disabled"

def isNotRoutable (record : PlanRecord) : Bool :=
  !record.platformSupported || !record.effectiveEnabled ||
    record.startupStrategy = "disabled" || record.routingGroup = "disabled" ||
    record.routingGroup = "sdk-or-example" || record.concurrencyPolicy = "plan-only" ||
    record.scopeClass = "not-runnable" || record.maxWorkers = 0

/-- No parallel profile was ever proved for the server. -/
def unproved (record : PlanRecord) : Bool :=
  Text.startsWith record.parallelSafetyClass "P0_"

end PlanRecord

/-! ### Request strategies -/

structure RequestStrategy where
  name : String
  mutexKey : Option String
  schedulerLane : String
  parallelismLimit : Nat
  warnings : List String

def refusal (name schedulerLane : String) (warnings : List String) : RequestStrategy :=
  { name := name, mutexKey := none, schedulerLane := schedulerLane, parallelismLimit := 0,
    warnings := warnings }

def mutexKey (record : PlanRecord) (scope : ScopeResolution) : String :=
  "server:" ++ sanitizeKey record.name ++ "|execution-mutex:" ++ sanitizeKey scope.workerPoolKey

/-- The strategy of a server that requests may be routed to. -/
def modeStrategy (record : PlanRecord) (scope : ScopeResolution) : RequestStrategy :=
  let capacity := scope.parallelismLimit
  let warnings := record.execution.warnings ++
    if record.execution.reusePolicy = "never" then
      [record.name ++ " disables process reuse; startup cost and process churn will be paid " ++
        "for every call."]
    else []
  let strategy := fun (name : String) (mutexKey : Option String) (limit : Nat) =>
    { name := name, mutexKey := mutexKey, schedulerLane := schedulerLane record.execution.mode,
      parallelismLimit := limit, warnings := warnings : RequestStrategy }
  match record.execution.mode with
  | .disabled => strategy "disabled-no-route" none 0
  | .serialized => strategy "serialize-per-instance" (some (mutexKey record scope)) 1
  | .sessionIsolated =>
    strategy "serialize-per-session-instance" (some (mutexKey record scope)) (max capacity 1)
  | .projectIsolated =>
    strategy "serialize-per-project-instance" (some (mutexKey record scope)) (max capacity 1)
  | .shared =>
    if capacity ≤ 1 then strategy "serialize-shared-worker" (some (mutexKey record scope)) 1
    else strategy "parallel-safe" none capacity
  | .pool =>
    -- A mutex here would collapse several workers back to one call at a time.
    { strategy (if record.unproved then "bounded-worker-pool-pending-probe"
        else "bounded-worker-pool") none (max capacity 1) with
      warnings := warnings ++
        if record.unproved then
          [record.name ++ " has no positive parallel-safety evidence; MCPace keeps one " ++
            "in-flight call per isolated worker until probes justify a higher value."]
        else [] }

def resolveRequestStrategy (record : PlanRecord) (scope : ScopeResolution) : RequestStrategy :=
  if record.isNotRoutable || record.execution.isDisabled then
    refusal "disabled-no-route" "disabled"
      [record.name ++ " is disabled or plan-only; MCPace must not route tool calls to it."]
  else if record.transportStatus = "legacy-compat" then
    refusal "legacy-compat-disabled" "legacy-disabled"
      [record.name ++ " uses legacy SSE compatibility; MCPace does not auto-route it without " ++
        "an explicit compatibility override."]
  else if !scope.affinityResolved then
    refusal "blocked-missing-affinity" "identity-required"
      [record.name ++ " requires execution affinity that is absent from the current client " ++
        "context."]
  else modeStrategy record scope

/-! ### Server plans -/

structure ServerCoordinationPlan where
  name : String
  admissionState : String
  scopeClass : String
  concurrencyPolicy : String
  upstreamTransport : String
  processPartition : String
  processScopeKey : String
  projectBindingKey : Option String
  worktreeBindingKey : Option String
  conflictDomain : String
  hostLockKey : Option String
  stateProfileKey : Option String
  parallelismLimit : Nat
  parallelSafetyClass : String
  runtimeType : String
  stateClass : String
  effectClass : String
  defaultPoolModel : String
  workerPoolKey : String
  maxWorkers : Nat
  maxInFlightPerWorker : Nat
  execution : ExecutionPolicy
  lockDomains : List String
  transportStatus : String
  launcherKind : String
  schedulerLane : String
  startupStrategy : String
  requestStrategy : String
  requestMutexKey : Option String
  sessionAffinityKey : Option String
  affinityResolved : Bool
  affinityFingerprint : String
  warnings : List String

def recordWarnings (platform : String) (record : PlanRecord) : List String :=
  (if record.transportStatus = "legacy-compat" then
    [record.name ++ " uses legacy SSE compatibility; MCPace treats it as " ++
      "disabled-for-auto-parallelism and prefers Streamable HTTP or stdio."] else []) ++
  (if record.unproved then
    [record.name ++ " has no evidence-backed parallel profile yet; the adaptive scheduler " ++
      "should start conservative and raise concurrency only after safe probes/runtime " ++
      "evidence."] else []) ++
  if !supportsCurrentPlatform platform record.platforms then
    [record.name ++ " is not declared for the current platform '" ++ platform ++
      "'; installer/startup logic should skip it unless an override proves compatibility."]
  else []

def buildServerPlan (printer : Printer) (platform : String) (record : PlanRecord)
    (context : ResolvedContext) : ServerCoordinationPlan :=
  let scope := resolveScope printer record.toServerRecord context
  let request := resolveRequestStrategy record scope
  { name := record.name
    admissionState := record.admissionState
    scopeClass := record.scopeClass
    concurrencyPolicy := record.concurrencyPolicy
    upstreamTransport := record.resolveUpstreamTransport
    processPartition := scope.processPartition
    processScopeKey := scope.processScopeKey
    projectBindingKey := scope.projectBindingKey
    worktreeBindingKey := scope.worktreeBindingKey
    conflictDomain := scope.conflictDomain
    hostLockKey := scope.hostLockKey
    stateProfileKey := scope.stateProfileKey
    parallelismLimit := request.parallelismLimit
    parallelSafetyClass := record.parallelSafetyClass
    runtimeType := record.runtimeType
    stateClass := record.stateClass
    effectClass := record.effectClass
    defaultPoolModel := record.defaultPoolModel
    workerPoolKey := scope.workerPoolKey
    maxWorkers := record.execution.workerLimit
    maxInFlightPerWorker :=
      record.execution.effectiveMaxInFlightPerWorker record.resolveUpstreamTransport
    execution := record.execution
    lockDomains := record.lockDomains
    transportStatus := record.transportStatus
    launcherKind := record.launcherKind
    schedulerLane := request.schedulerLane
    startupStrategy := record.startupStrategy
    requestStrategy := request.name
    requestMutexKey := request.mutexKey
    sessionAffinityKey := scope.sessionAffinityKey
    affinityResolved := scope.affinityResolved
    affinityFingerprint := scope.affinityFingerprint
    warnings := Text.sortedUnique
      (scope.warnings ++ request.warnings ++ recordWarnings platform record) }

/-! ### Documents -/

def ServerCoordinationPlan.toJsonValue (plan : ServerCoordinationPlan) : JsonValue :=
  .ofEntries [ ("name", .string plan.name),
    ("admissionState", .string plan.admissionState),
    ("scopeClass", .string plan.scopeClass),
    ("concurrencyPolicy", .string plan.concurrencyPolicy),
    ("upstreamTransport", .string plan.upstreamTransport),
    ("processPartition", .string plan.processPartition),
    ("processScopeKey", .string plan.processScopeKey),
    ("projectBindingKey", .stringOrNull plan.projectBindingKey),
    ("worktreeBindingKey", .stringOrNull plan.worktreeBindingKey),
    ("conflictDomain", .string plan.conflictDomain),
    ("hostLockKey", .stringOrNull plan.hostLockKey),
    ("stateProfileKey", .stringOrNull plan.stateProfileKey),
    ("parallelismLimit", .ofNat plan.parallelismLimit),
    ("parallelSafetyClass", .string plan.parallelSafetyClass),
    ("runtimeType", .string plan.runtimeType),
    ("stateClass", .string plan.stateClass),
    ("effectClass", .string plan.effectClass),
    ("defaultPoolModel", .string plan.defaultPoolModel),
    ("workerPoolKey", .string plan.workerPoolKey),
    ("maxWorkers", .ofNat plan.maxWorkers),
    ("maxInFlightPerWorker", .ofNat plan.maxInFlightPerWorker),
    ("execution", plan.execution.toJsonValue),
    ("lockDomains", .array (plan.lockDomains.map .string)),
    ("transportStatus", .string plan.transportStatus),
    ("launcherKind", .string plan.launcherKind),
    ("schedulerLane", .string plan.schedulerLane),
    ("startupStrategy", .string plan.startupStrategy),
    ("requestStrategy", .string plan.requestStrategy),
    ("requestMutexKey", .stringOrNull plan.requestMutexKey),
    ("sessionAffinityKey", .stringOrNull plan.sessionAffinityKey),
    ("affinityResolved", .bool plan.affinityResolved),
    ("affinityFingerprint", .string plan.affinityFingerprint),
    ("warnings", .array (plan.warnings.map .string))]

/-- The `context` member of a client plan. -/
def ResolvedContext.toJsonValue (context : ResolvedContext) : JsonValue :=
  .ofEntries [ ("clientId", .string context.clientId),
    ("clientIdSource", .string context.clientIdSource),
    ("sessionId", .stringOrNull context.sessionId),
    ("sessionIdSource", .string context.sessionIdSource),
    ("sessionLeaseId", .string context.sessionLeaseId),
    ("sessionLeaseSource", .string context.sessionLeaseSource),
    ("conversationId", .stringOrNull context.conversationId),
    ("conversationIdSource", .string context.conversationIdSource),
    ("clientInstanceId", .stringOrNull context.clientInstanceId),
    ("clientInstanceIdSource", .string context.clientInstanceIdSource),
    ("transportSessionId", .stringOrNull context.transportSessionId),
    ("transportSessionIdSource", .string context.transportSessionIdSource),
    ("credentialProfileId", .stringOrNull context.credentialProfileId),
    ("credentialProfileIdSource", .string context.credentialProfileIdSource),
    ("projectRoot", .stringOrNull context.projectRoot),
    ("projectRootSource", .string context.projectRootSource),
    ("workspaceRoots", .array (context.workspaceRoots.map .string)),
    ("cwd", .stringOrNull context.cwd),
    ("cwdSource", .string context.cwdSource)]

/-! ### What a strategy requires -/

section Strategy

variable {record : PlanRecord} {scope : ScopeResolution}

theorem admissionState_eq_configured : record.admissionState = "configured-source" ↔
      record.platformSupported = true ∧ record.sourceEnabled = true ∧
        record.effectiveEnabled = true := by
  unfold PlanRecord.admissionState
  cases record.platformSupported <;> cases record.sourceEnabled <;>
    cases record.effectiveEnabled <;> cases record.required <;>
    cases record.defaultEnabled <;> decide

/-- A strategy that admits a request has passed each of the three refusals. -/
theorem admits_of_parallelismLimit
    (admits : (resolveRequestStrategy record scope).parallelismLimit ≠ 0) :
    record.isNotRoutable = false ∧ record.execution.isDisabled = false ∧
      record.transportStatus ≠ "legacy-compat" ∧ scope.affinityResolved = true := by
  rw [resolveRequestStrategy] at admits
  by_cases disabled : (record.isNotRoutable || record.execution.isDisabled) = true
  · rw [if_pos disabled] at admits
    exact absurd rfl admits
  · rw [if_neg disabled] at admits
    by_cases legacy : record.transportStatus = "legacy-compat"
    · rw [if_pos legacy] at admits
      exact absurd rfl admits
    · rw [if_neg legacy] at admits
      by_cases unresolved : (!scope.affinityResolved) = true
      · rw [if_pos unresolved] at admits
        exact absurd rfl admits
      · rw [Bool.or_eq_true, not_or, Bool.not_eq_true, Bool.not_eq_true] at disabled
        exact ⟨disabled.1, disabled.2, legacy, by simpa using unresolved⟩

end Strategy

end Mcpace.Client

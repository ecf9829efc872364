import Mcpace.Client.Partition
import Mcpace.Client.ServerPlan
import Mcpace.Hub.Lease.Takeover

/-!
Contract: a lease is granted only to servers and contexts the planner admits.

The planner writes its decision into a document, `planned_route_from_plan` reads a route back
from it, and `route_blockers` refuses routes by the texts it finds there. Every reason for a
refusal has to survive that way; `granted_admissible` lists them for one granted lease.
-/

namespace Mcpace.Hub.Lease

open Library Json Execution Client Option JsonValue Text

/-! ### Reading a route back from a plan -/

/-- The first server whose name is the wanted one up to white space and letter case. -/
def findServerPlan (plan : JsonValue) (serverName : String) : Option JsonValue :=
  let wanted := toAsciiLowercase (trim serverName)
  (plan.arrayAtPath ["servers"]).bind (fun servers => servers.find? (fun server =>
    ((server.stringAtPath ["name"]).map (fun name =>
      decide (toAsciiLowercase (trim name) =
        toAsciiLowercase wanted))).getD false))

/-- A number that is not an `i64` counts as one. -/
def requiredUsize (value : JsonValue) (path : List String) : Nat :=
  (((value.valueAtPath path).bind asI64).bind (fun number =>
    if 0 ≤ number ∧ number < 2 ^ 64 then some number.toNat else none)).getD 1

def stringsAt (value : JsonValue) (path : List String) : List String :=
  ((value.arrayAtPath path).getD []).filterMap asStr

theorem requiredUsize_lt (value : JsonValue) (path : List String) :
    requiredUsize value path < 2 ^ 64 := by
  rw [requiredUsize]
  cases (value.valueAtPath path).bind asI64 with
  | none => decide
  | some number =>
    rw [bind_some]
    split
    · rw [getD_some]
      omega
    · decide

/-- The route that a server plan and a context spell out. -/
def readRoute (server context : JsonValue) : PlannedRoute where
  serverName := requiredString server ["name"]
  admissionState := requiredString server ["admissionState"]
  requestStrategy := requiredString server ["requestStrategy"]
  requestMutexKey := optionalString server ["requestMutexKey"]
  sessionAffinityKey := optionalString server ["sessionAffinityKey"]
  processScopeKey := requiredString server ["processScopeKey"]
  processPartition := requiredString server ["processPartition"]
  projectBindingKey := optionalString server ["projectBindingKey"]
  worktreeBindingKey := optionalString server ["worktreeBindingKey"]
  conflictDomain := requiredString server ["conflictDomain"]
  hostLockKey := optionalString server ["hostLockKey"]
  stateProfileKey := optionalString server ["stateProfileKey"]
  schedulerLane := requiredString server ["schedulerLane"]
  startupStrategy := requiredString server ["startupStrategy"]
  upstreamTransport := requiredString server ["upstreamTransport"]
  parallelismLimit := requiredUsize server ["parallelismLimit"]
  warnings := stringsAt server ["warnings"]
  clientId := requiredString context ["clientId"]
  sessionLeaseId := requiredString context ["sessionLeaseId"]
  sessionId := optionalString context ["sessionId"]
  projectRoot := optionalString context ["projectRoot"]
  parallelismLimit_lt := requiredUsize_lt server ["parallelismLimit"]

def plannedRouteFromPlan (plan : JsonValue) (serverName : String) :
    Except String PlannedRoute :=
  match findServerPlan plan serverName, plan.valueAtPath ["context"] with
  | none, _ =>
    .error ("server '" ++ serverName ++ "' was not found in the client routing plan")
  | some _, none => .error "client routing plan is missing context"
  | some server, some context => .ok (readRoute server context)

/-- The plan document answers the server name with the plan of the record for the context. -/
structure Plans (printer : Printer) (platform : String) (plan : JsonValue) (serverName : String)
    (record : PlanRecord) (context : ResolvedContext) : Prop where
  server : findServerPlan plan serverName =
    some (buildServerPlan printer platform record context).toJsonValue
  context : plan.valueAtPath ["context"] = some context.toJsonValue

theorem get_serverPlan (plan : ServerCoordinationPlan) :
    plan.toJsonValue.get "name" = some (.string plan.name) ∧
      plan.toJsonValue.get "admissionState" = some (.string plan.admissionState) ∧
      plan.toJsonValue.get "requestMutexKey" = some (.stringOrNull plan.requestMutexKey) ∧
      plan.toJsonValue.get "processScopeKey" = some (.string plan.processScopeKey) ∧
      plan.toJsonValue.get "projectBindingKey" = some (.stringOrNull plan.projectBindingKey) ∧
      plan.toJsonValue.get "parallelismLimit" = some (.ofNat plan.parallelismLimit) := by
  simp [ServerCoordinationPlan.toJsonValue, get_ofEntries, OrderedMap.get_cons]

section Reading

variable {printer : Printer} {platform : String} {plan : JsonValue} {serverName : String}
  {record : PlanRecord} {context : ResolvedContext} {route : PlannedRoute}

theorem Plans.planned (plans : Plans printer platform plan serverName record context) :
    plannedRouteFromPlan plan serverName = .ok (readRoute
      (buildServerPlan printer platform record context).toJsonValue context.toJsonValue) := by
  rw [plannedRouteFromPlan, plans.server, plans.context]

theorem Plans.route_eq (plans : Plans printer platform plan serverName record context)
    (planned : plannedRouteFromPlan plan serverName = .ok route) :
    route = readRoute (buildServerPlan printer platform record context).toJsonValue
      context.toJsonValue :=
  (Except.ok.inj (plans.planned.symm.trans planned)).symm

theorem optionalString_of_get {value member : JsonValue} {key : String}
    (found : value.get key = some member) : optionalString value [key] = member.asStr := by
  rw [optionalString, stringAtPath, valueAtPath_singleton, found, bind_some]

theorem requiredString_of_get {value : JsonValue} {key text : String}
    (found : value.get key = some (.string text)) : requiredString value [key] = text := by
  rw [requiredString, optionalString_of_get found, asStr, getD_some]

/-- What a route keeps of the server plan it was read from. Stated for any document with these
members, since the plan's own document is large. -/
theorem readRoute_members {server document : JsonValue} {admissionState processScopeKey : String}
    {requestMutexKey projectBindingKey : Option String}
    (admission : server.get "admissionState" = some (.string admissionState))
    (mutex : server.get "requestMutexKey" = some (.stringOrNull requestMutexKey))
    (scope : server.get "processScopeKey" = some (.string processScopeKey))
    (binding : server.get "projectBindingKey" = some (.stringOrNull projectBindingKey)) :
    (readRoute server document).admissionState = admissionState ∧
      (readRoute server document).requestMutexKey = requestMutexKey ∧
      (readRoute server document).processScopeKey = processScopeKey ∧
      (readRoute server document).projectBindingKey = projectBindingKey :=
  ⟨requiredString_of_get admission,
    (optionalString_of_get mutex).trans (asStr_stringOrNull _), requiredString_of_get scope,
    (optionalString_of_get binding).trans (asStr_stringOrNull _)⟩

/-- A server plan that admits nothing is read as a route that admits nothing. -/
theorem parallelismLimit_readRoute {server document : JsonValue}
    (refused : server.get "parallelismLimit" = some (.ofNat 0)) :
    (readRoute server document).parallelismLimit = 0 := by
  show requiredUsize server ["parallelismLimit"] = 0
  rw [requiredUsize, valueAtPath_singleton, refused]
  decide

end Reading

/-! ### Blockers -/

variable {route : PlannedRoute}

theorem routeBlockers_eq_nil (admitted : routeBlockers route = []) :
    route.admissionState = "configured-source" ∧ route.parallelismLimit ≠ 0 ∧
      ∀ key, route.projectBindingKey = some key →
        Text.startsWith key "project:pending:" = false := by
  have parts := Text.sortedUnique_eq_nil.mp admitted
  simp only [List.append_eq_nil_iff] at parts
  obtain ⟨⟨⟨admission, strategy⟩, project⟩, -⟩ := parts
  refine ⟨?_, ?_, ?_⟩
  · by_contra other
    rw [if_pos other] at admission
    cases admission
  · intro zero
    rw [if_pos (by simp [zero])] at strategy
    cases strategy
  · intro key bound
    by_contra pending
    rw [Bool.not_eq_false] at pending
    rw [if_pos (by simp [bound, pending])] at project
    cases project

variable {leaseId : String}

theorem LeaseEffect.routeBlockers_eq_nil {environment : StepEnvironment} {command : LeaseCommand}
    {leases after : JsonMap} {ttlMs : Option Nat} {takeover : Bool}
    (outcome : LeaseEffect environment command leases (some leaseId) after)
    (asked : command = .acquire route ttlMs takeover) : routeBlockers route = [] := by
  cases outcome with
  | granted _ admitted _ =>
    rw [← (LeaseCommand.acquire.inj asked).1]
    exact admitted
  | takenOver _ _ admitted _ _ =>
    rw [← (LeaseCommand.acquire.inj asked).1]
    exact admitted

theorem routeBlockers_of_acquires {renumber : String → Option String} {file : StoreFile}
    {step : Step} (granted : acquires renumber file step = some (leaseId, route)) :
    routeBlockers route = [] := by
  cases command : step.command with
  | list | renew _ _ | release _ =>
    rw [acquires, command] at granted
    cases granted
  | acquire asked ttlMs takeover =>
    rw [acquires, command, acquisition, map_eq_some_iff] at granted
    obtain ⟨reported, returned, equal⟩ := granted
    rw [← (Prod.mk.inj equal).2]
    rcases execute_cases renumber file step with
      ⟨⟨message, failed⟩, -⟩ | ⟨result, done, outcome⟩
    · rw [failed] at returned
      cases returned
    · rw [done] at returned
      have acquired : acquiredLeaseId result = some reported := returned
      rw [acquired] at outcome
      exact outcome.routeBlockers_eq_nil command

/-! ### Admission -/

/-- What has to hold of a record and a context before a request may be routed. -/
structure Admissible (printer : Printer) (record : PlanRecord) (context : ResolvedContext) :
    Prop where
  platformSupported : record.platformSupported = true
  sourceEnabled : record.sourceEnabled = true
  effectiveEnabled : record.effectiveEnabled = true
  execution : record.execution.isDisabled = false
  transportStatus : record.transportStatus ≠ "legacy-compat"
  routable : record.isNotRoutable = false
  affinity : ∀ dimension ∈ record.execution.affinity,
    (context.plannerIdentity printer record.toServerRecord dimension).isSome = true
  projectRoot : record.requiresProjectBinding = true → context.projectRoot.isSome = true

section Admission

variable {printer : Printer} {record : PlanRecord} {context : ResolvedContext}

theorem projectRoot_of_projectBindingKey (notPending : ∀ key,
      (resolveScope printer record.toServerRecord context).projectBindingKey = some key →
        Text.startsWith key "project:pending:" = false)
    (requires : record.requiresProjectBinding = true) : context.projectRoot.isSome = true := by
  cases root : context.projectRoot with
  | some projectRoot => rfl
  | none =>
    have pending := notPending ("project:pending:" ++ sanitizeKey context.sessionLeaseId)
      (by simp only [resolveScope, requires, if_true, resolveProjectBindingKey, root])
    rw [Text.startsWith_append] at pending
    cases pending

theorem affinity_of_affinityResolved (settled : context.Settled)
    (accepted : (resolveScope printer record.toServerRecord context).affinityResolved = true) :
    ∀ dimension ∈ record.execution.affinity,
      (context.plannerIdentity printer record.toServerRecord dimension).isSome = true := by
  obtain ⟨key, resolved, -⟩ := affinityKey_of_affinityResolved accepted
  intro dimension listed
  rw [← value_affinityContext settled]
  exact (fingerprint_of_affinityKey resolved).1 dimension listed

/-- A lease granted on the route that was planned for a record and a context is granted to an
admissible record and context. -/
theorem granted_admissible {platform : String} {plan : JsonValue} {serverName : String}
    {route : PlannedRoute} {renumber : String → Option String} {file : StoreFile} {step : Step}
    {leaseId : String} (resolved : Resolved context)
    (plans : Plans printer platform plan serverName record context)
    (planned : plannedRouteFromPlan plan serverName = .ok route)
    (granted : acquires renumber file step = some (leaseId, route)) :
    Admissible printer record context := by
  obtain ⟨env, args, metadata, named⟩ := resolved
  have settled : context.Settled := by
    rw [named]
    exact resolveContext_settled env args metadata
  have admitted := routeBlockers_eq_nil (routeBlockers_of_acquires granted)
  rw [plans.route_eq planned] at admitted
  obtain ⟨-, admission, mutex, scope, binding, limit⟩ :=
    get_serverPlan (buildServerPlan printer platform record context)
  obtain ⟨admissionRead, -, -, bindingRead⟩ :=
    @readRoute_members _ context.toJsonValue _ _ _ _ admission mutex scope binding
  obtain ⟨configured, unrefused, notPending⟩ := admitted
  rw [admissionRead] at configured
  simp only [bindingRead] at notPending
  obtain ⟨supported, source, effective⟩ := admissionState_eq_configured.mp configured
  have admits : (resolveRequestStrategy record
      (resolveScope printer record.toServerRecord context)).parallelismLimit ≠ 0 := by
    intro refused
    refine unrefused (parallelismLimit_readRoute (limit.trans ?_))
    exact congrArg (fun value => some (ofNat value)) refused
  obtain ⟨routable, enabled, current, accepted⟩ := admits_of_parallelismLimit admits
  exact {
    platformSupported := supported
    sourceEnabled := source
    effectiveEnabled := effective
    execution := enabled
    transportStatus := current
    routable := routable
    affinity := affinity_of_affinityResolved settled accepted
    projectRoot := @projectRoot_of_projectBindingKey printer record context notPending }

end Admission

/-! ### An admitted server -/

def projectRecord (name : String) (mode : ExecutionMode) : PlanRecord where
  name := name
  kind := "stdio"
  sourceType := "stdio"
  transportPreference := "stdio"
  supportedTransports := ["stdio"]
  scopeClass := "project-local"
  concurrencyPolicy := "isolated-per-project"
  stateBinding := "project"
  conflictDomain := ""
  projectRootMode := "required"
  worktreeBinding := "none"
  stateProfileMode := "none"
  hostLock := "none"
  routingGroup := "stateful"
  execution := .forMode mode
  required := false
  defaultEnabled := false
  platformSupported := true
  sourceEnabled := true
  effectiveEnabled := true
  platforms := []
  startupStrategy := "lazy"
  maxWorkers := 1
  transportStatus := "current"
  parallelSafetyClass := "P1_serialized"
  runtimeType := "node"
  stateClass := "project-stateful"
  effectClass := "read-write"
  defaultPoolModel := "single"
  lockDomains := []
  launcherKind := "npx"

def projectContext : ResolvedContext :=
  resolveContext (fun _ => none)
    { clientId := some "editor", sessionId := some "a", projectRoot := some "/work",
      transport := none, metadataJson := none } .empty

/-- A client plan with the two members that a route is read from. -/
def planDocument (printer : Printer) (platform : String) (records : List PlanRecord)
    (context : ResolvedContext) : JsonValue :=
  .ofEntries [("context", context.toJsonValue),
    ("servers", .array (records.map (fun record =>
      (buildServerPlan printer platform record context).toJsonValue)))]

theorem plans_planDocument {record : PlanRecord} {serverName : String}
    (named : toAsciiLowercase (trim record.name) =
      toAsciiLowercase (toAsciiLowercase (trim serverName)))
    (printer : Printer) (platform : String) (rest : List PlanRecord)
    (context : ResolvedContext) :
    Plans printer platform (planDocument printer platform (record :: rest) context) serverName
      record context where
  server := by
    have servers : (planDocument printer platform (record :: rest) context).arrayAtPath
        ["servers"] = some ((record :: rest).map (fun record =>
          (buildServerPlan printer platform record context).toJsonValue)) := by
      rw [arrayAtPath, valueAtPath_singleton, planDocument, get_ofEntries]
      rfl
    have name := @optionalString_of_get _ _ _
      (get_serverPlan (buildServerPlan printer platform record context)).1
    rw [optionalString, asStr] at name
    rw [findServerPlan, servers, bind_some, List.map_cons, List.find?_cons_of_pos]
    rw [name, map_some, getD_some]
    exact decide_eq_true named
  context := by
    rw [valueAtPath_singleton, planDocument, get_ofEntries]
    rfl

theorem granted_admissible_projectRecord :
    ∃ route, plannedRouteFromPlan (planDocument digitPrinter "linux"
        [projectRecord "Files" .projectIsolated] projectContext) "files" = .ok route ∧
      acquires some (emptyStoreFile 5) ⟨.acquire route none false, clockAt 10⟩ =
        some ("lease:files:10:7:10", route) ∧
      Admissible digitPrinter (projectRecord "Files" .projectIsolated) projectContext := by
  let record := projectRecord "Files" .projectIsolated
  let plan := planDocument digitPrinter "linux" [record] projectContext
  let route := readRoute (buildServerPlan digitPrinter "linux" record projectContext).toJsonValue
    projectContext.toJsonValue
  have plans : Plans digitPrinter "linux" plan "files" record projectContext :=
    plans_planDocument (by decide) digitPrinter "linux" [] projectContext
  have planned : plannedRouteFromPlan plan "files" = .ok route := plans.planned
  have reported : (execute some (emptyStoreFile 5)
      ⟨.acquire route none false, clockAt 10⟩).1.toOption.bind acquiredLeaseId =
        some "lease:files:10:7:10" := by decide +kernel
  have granted : acquires some (emptyStoreFile 5) ⟨.acquire route none false, clockAt 10⟩ =
      some ("lease:files:10:7:10", route) := by
    rw [acquires, reported, acquisition, map_some]
  exact ⟨route, planned, granted, granted_admissible ⟨_, _, _, rfl⟩ plans planned granted⟩

end Mcpace.Hub.Lease

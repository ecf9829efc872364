import Mcpace.Client.Context
import Mcpace.Execution.Affinity

/-!
Owns the scope of a server in a client plan: `resolve_scope` of `src/client/plan.rs`, with
the keys under which its workers, its project and its state are leased.

The planner does not pass the metadata of the request on to the affinity key. It builds a
document of its own from the identities of the resolved context.

Does not own: the request strategy, and what of a record is only copied into the plan.
-/

namespace Mcpace.Client

open Library Json Execution Text

/-- The fields of a server record that `resolve_scope` reads. -/
structure ServerRecord where
  name : String
  kind : String
  sourceType : String
  transportPreference : String
  supportedTransports : List String
  scopeClass : String
  concurrencyPolicy : String
  stateBinding : String
  conflictDomain : String
  projectRootMode : String
  worktreeBinding : String
  stateProfileMode : String
  hostLock : String
  routingGroup : String
  execution : ExecutionPolicy

structure ScopeResolution where
  processPartition : String
  processScopeKey : String
  projectBindingKey : Option String
  worktreeBindingKey : Option String
  conflictDomain : String
  hostLockKey : Option String
  stateProfileKey : Option String
  parallelismLimit : Nat
  workerPoolKey : String
  maxWorkers : Nat
  maxInFlightPerWorker : Nat
  schedulerLane : String
  sessionAffinityKey : Option String
  affinityResolved : Bool
  affinityFingerprint : String
  warnings : List String

def isNoneMarker (value : String) : Bool :=
  ["", "none", "false"].contains (toAsciiLowercase (trim value))

namespace ServerRecord

def requiresProjectBinding (record : ServerRecord) : Bool :=
  record.scopeClass = "project-local" || record.concurrencyPolicy = "isolated-per-project" ||
    record.projectRootMode = "required"

def requiresWorktreeBinding (record : ServerRecord) : Bool :=
  !isNoneMarker record.worktreeBinding ||
    ["repo", "repo-path", "file", "file-path", "db", "db-file-path", "project",
      "project-index"].contains record.stateBinding

def requiresHostLock (record : ServerRecord) : Bool :=
  record.scopeClass = "shared-exclusive" || record.stateBinding = "host-desktop" ||
    !isNoneMarker record.hostLock

def isStateProfiled (record : ServerRecord) : Bool :=
  record.routingGroup = "stateful" || record.routingGroup = "interactive" ||
    record.stateBinding = "host-session" || !isNoneMarker record.stateProfileMode

def resolveUpstreamTransport (record : ServerRecord) : String :=
  let kindHas := Text.contains record.kind
  let supports := fun transport =>
    record.supportedTransports.any (fun supported => normalizeTransport supported = transport)
  if record.sourceType = "stdio" ∨ kindHas "stdio" = true then "stdio"
  else if record.sourceType = "sse-legacy" ∨ record.sourceType = "sse" then "sse-legacy"
  else if record.sourceType = "http" ∨ record.sourceType = "streamable-http" ∨
      record.transportPreference = "http" ∨ record.transportPreference = "streamable-http" ∨
      kindHas "http" = true then "streamable-http"
  else if supports "stdio" then "stdio"
  else if supports "streamable-http" then "streamable-http"
  else "unspecified"

end ServerRecord

/-! ### Keys -/

/-- The key of the project, and the warning when there is none yet. -/
def resolveProjectBindingKey (record : ServerRecord) (context : ResolvedContext) :
    String × List String :=
  match context.projectRoot with
  | some projectRoot => ("project:" ++ sanitizeKey projectRoot, [])
  | none =>
    ("project:pending:" ++ sanitizeKey context.sessionLeaseId,
      [record.name ++ " requires a project root but no project root was resolved; routing " ++
        "should pause or isolate this server until a project is known."])

def optionalProjectOrCwdKey (context : ResolvedContext) : String :=
  match context.projectRoot, context.cwd with
  | some projectRoot, _ => "project:" ++ sanitizeKey projectRoot
  | none, some cwd => "cwd:" ++ sanitizeKey cwd
  | none, none => "session:" ++ sanitizeKey context.sessionLeaseId

def stateSessionPartition (record : ServerRecord) (context : ResolvedContext) : String :=
  match record.stateProfileMode with
  | "project" | "project-shared" => "project-shared"
  | "host" | "global" => "host-shared"
  | _ => sanitizeKey context.sessionLeaseId

def schedulerLane : ExecutionMode → String
  | .disabled => "disabled"
  | .shared => "shared-capacity"
  | .serialized => "serialized-fifo"
  | .sessionIsolated => "session-affinity-fifo"
  | .projectIsolated => "project-affinity-fifo"
  | .pool => "worker-pool"

/-! ### Affinity -/

namespace ResolvedContext

def conversation (context : ResolvedContext) : Option String :=
  context.conversationId.or context.sessionId

def affinityMetadata (context : ResolvedContext) : JsonValue :=
  .ofEntries [("mcpace", .ofEntries [
    ("applicationSessionId", .stringOrNull context.conversation),
    ("chatId", .stringOrNull context.conversation),
    ("clientInstanceId", .stringOrNull context.clientInstanceId),
    ("transportSessionId", .stringOrNull context.transportSessionId),
    ("credentialId", .stringOrNull context.credentialProfileId)])]

def affinityContext (context : ResolvedContext) (record : ServerRecord) :
    ExecutionAffinityContext :=
  { clientId := some context.clientId, sessionId := context.conversation,
    projectRoot := context.projectRoot, transport := some record.resolveUpstreamTransport,
    metadata := some context.affinityMetadata }

end ResolvedContext

def workerPoolKey (record : ServerRecord) (affinityFingerprint : String) : String :=
  "worker-group:" ++ sanitizeKey record.name ++ "|mode:" ++ record.execution.mode.asStr ++
    "|affinity:" ++ sanitizeKey affinityFingerprint

def resolveScope (printer : Printer) (record : ServerRecord) (context : ResolvedContext) :
    ScopeResolution :=
  let conflictDomain :=
    if trim record.conflictDomain = "" then record.name else record.conflictDomain
  let binding := resolveProjectBindingKey record context
  let projectBindingKey := if record.requiresProjectBinding then some binding.1 else none
  let projectWarnings :=
    if record.requiresProjectBinding || record.requiresWorktreeBinding then binding.2 else []
  let transport := record.resolveUpstreamTransport
  let key := record.execution.affinityKey printer (context.affinityContext record)
  let affinityFingerprint := match key with
    | .ok key => key.fingerprint
    | .error _ => "missing-affinity"
  let affinityWarnings := match key with
    | .ok _ => []
    | .error error =>
      [record.name ++ " cannot resolve its execution affinity: " ++ error.message ++
        ". Routing is fail-closed until the client supplies the missing identity."]
  let affinityResolved := key.toOption.isSome
  let mode := record.execution.mode.asStr
  let processPartition := "execution:" ++ mode ++ "|affinity:" ++ affinityFingerprint
  let sessionLike := record.execution.affinity.any (fun value =>
    ["chat", "session", "application", "transport-session"].contains value)
  { processPartition := processPartition
    processScopeKey := "server:" ++ sanitizeKey record.name ++ "|kind:" ++
      sanitizeKey (if trim record.kind = "" then "unknown" else record.kind) ++
      "|execution:" ++ mode ++ "|partition:" ++ sanitizeKey processPartition
    projectBindingKey := projectBindingKey
    worktreeBindingKey := if record.requiresWorktreeBinding then
      some ("worktree:" ++ sanitizeKey record.worktreeBinding ++ "|" ++ binding.1) else none
    conflictDomain := conflictDomain
    hostLockKey := if record.requiresHostLock then
      some ("host-lock:" ++ sanitizeKey conflictDomain ++ "|kind:" ++ sanitizeKey
        (if trim record.hostLock = "" then "host-session" else record.hostLock)) else none
    stateProfileKey := if record.isStateProfiled then
      some ("state-profile:" ++ sanitizeKey conflictDomain ++ "|" ++
        projectBindingKey.getD (optionalProjectOrCwdKey context) ++ "|session:" ++
        stateSessionPartition record context) else none
    parallelismLimit := record.execution.effectiveCapacity transport
    workerPoolKey := workerPoolKey record affinityFingerprint
    maxWorkers := record.execution.workerLimit
    maxInFlightPerWorker := record.execution.effectiveMaxInFlightPerWorker transport
    schedulerLane := schedulerLane record.execution.mode
    sessionAffinityKey := if affinityResolved && sessionLike then
      some ("session-affinity:" ++ sanitizeKey affinityFingerprint) else none
    affinityResolved := affinityResolved
    affinityFingerprint := affinityFingerprint
    warnings := projectWarnings ++ affinityWarnings }

end Mcpace.Client

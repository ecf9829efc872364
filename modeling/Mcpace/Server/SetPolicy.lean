import Mcpace.Execution.Policy
import Mcpace.Sources.Edit
import Mcpace.Sources.Selection

/-!
Owns the command that sets the execution policy of one server: `run` of `src/server/policy.rs`
with its presets, and what argument parsing already guarantees of its options.

The command edits the member of the config's `servers` object that has the name as it was typed.
Every other member, and every member of the block that it does not write, stays.

Does not own: how the root directory is found, and how a policy is resolved from the blocks.
-/

namespace Mcpace.Server

open Library Json Execution Sources

/-! ### Options -/

/-- The counts that argument parsing accepts: a `u64` or `usize` above zero. -/
def ValidCount (value : Nat) : Prop := 0 < value ∧ value < 2 ^ 64

instance (value : Nat) : Decidable (ValidCount value) := inferInstanceAs (Decidable (_ ∧ _))

structure SetPolicyOptions where
  nameFilter : Option String
  executionMode : Option String
  affinity : List String
  queueTimeoutMs : Option Nat
  reusePolicy : Option String
  maxWorkers : Option Nat
  maxInFlightPerWorker : Option Nat
  dryRun : Bool
  jsonOutput : Bool
  queueTimeoutMs_valid : ∀ value ∈ queueTimeoutMs, ValidCount value
  maxWorkers_valid : ∀ value ∈ maxWorkers, ValidCount value
  maxInFlightPerWorker_valid : ∀ value ∈ maxInFlightPerWorker, ValidCount value

inductive ServerPolicyError where
  | unsupportedMode (mode : String)
  | invalidConfigShape (label : String)
deriving DecidableEq, Repr

def ServerPolicyError.message : ServerPolicyError → String
  | .unsupportedMode mode =>
    "unsupported execution mode '" ++ mode ++ "'; expected shared, serialized, " ++
      "session-isolated, project-isolated, pool, or disabled"
  | .invalidConfigShape label => label ++ " must be a JSON object"

/-! ### Presets -/

structure ExecutionPreset where
  mode : ExecutionMode
  scopeClass : String
  concurrencyPolicy : String
  stateBinding : String
  credentialBinding : String
  parallelismLimit : Nat
  conflictDomainPrefix : String
  projectRootMode : String
  worktreeBinding : String
  stateProfileMode : String
  hostLock : String
  startupStrategy : String
  routingGroup : String
  discoveryRequiresLease : Bool
  defaultAffinity : List String
  defaultReusePolicy : String
  defaultQueueTimeoutMs : Nat
deriving DecidableEq, Repr

namespace ExecutionPreset

def ofMode : ExecutionMode → ExecutionPreset
  | .shared =>
    { mode := .shared
      scopeClass := "stateless-local"
      concurrencyPolicy := "multi-reader"
      stateBinding := "none"
      credentialBinding := "none"
      parallelismLimit := 4
      conflictDomainPrefix := "stateless-local"
      projectRootMode := "none"
      worktreeBinding := "none"
      stateProfileMode := "none"
      hostLock := "none"
      startupStrategy := "lazy-shared"
      routingGroup := "shared-parallel"
      discoveryRequiresLease := false
      defaultAffinity := []
      defaultReusePolicy := "shared"
      defaultQueueTimeoutMs := 2000 }
  | .serialized =>
    { mode := .serialized
      scopeClass := "configured-source"
      concurrencyPolicy := "single-writer"
      stateBinding := "runtime-source"
      credentialBinding := "source-config"
      parallelismLimit := 1
      conflictDomainPrefix := "serialized-source"
      projectRootMode := "optional"
      worktreeBinding := "none"
      stateProfileMode := "optional"
      hostLock := "none"
      startupStrategy := "lazy-shared"
      routingGroup := "serialized-queue"
      discoveryRequiresLease := true
      defaultAffinity := ["client"]
      defaultReusePolicy := "sticky"
      defaultQueueTimeoutMs := 10000 }
  | .sessionIsolated =>
    { mode := .sessionIsolated
      scopeClass := "state-profile"
      concurrencyPolicy := "single-session"
      stateBinding := "context-store"
      credentialBinding := "none"
      parallelismLimit := 1
      conflictDomainPrefix := "state-profile"
      projectRootMode := "optional"
      worktreeBinding := "none"
      stateProfileMode := "required"
      hostLock := "none"
      startupStrategy := "lazy-per-profile"
      routingGroup := "session-isolated"
      discoveryRequiresLease := true
      defaultAffinity := ["client", "project", "chat"]
      defaultReusePolicy := "sticky-session"
      defaultQueueTimeoutMs := 10000 }
  | .projectIsolated =>
    { mode := .projectIsolated
      scopeClass := "project-local"
      concurrencyPolicy := "isolated-per-project"
      stateBinding := "file"
      credentialBinding := "none"
      parallelismLimit := 1
      conflictDomainPrefix := "project-local"
      projectRootMode := "required"
      worktreeBinding := "project-root"
      stateProfileMode := "none"
      hostLock := "none"
      startupStrategy := "lazy-per-project"
      routingGroup := "project-isolated"
      discoveryRequiresLease := true
      defaultAffinity := ["client", "project"]
      defaultReusePolicy := "sticky-project"
      defaultQueueTimeoutMs := 10000 }
  | .pool =>
    { mode := .pool
      scopeClass := "stateless-local"
      concurrencyPolicy := "multi-reader"
      stateBinding := "none"
      credentialBinding := "none"
      parallelismLimit := 4
      conflictDomainPrefix := "process-pool"
      projectRootMode := "none"
      worktreeBinding := "none"
      stateProfileMode := "none"
      hostLock := "none"
      startupStrategy := "warm-pool"
      routingGroup := "process-pool"
      discoveryRequiresLease := false
      defaultAffinity := ["client"]
      defaultReusePolicy := "least-busy"
      defaultQueueTimeoutMs := 5000 }
  | .disabled =>
    { mode := .disabled
      scopeClass := "not-runnable"
      concurrencyPolicy := "plan-only"
      stateBinding := "none"
      credentialBinding := "none"
      parallelismLimit := 0
      conflictDomainPrefix := "disabled-source"
      projectRootMode := "none"
      worktreeBinding := "none"
      stateProfileMode := "none"
      hostLock := "none"
      startupStrategy := "disabled"
      routingGroup := "disabled"
      discoveryRequiresLease := false
      defaultAffinity := []
      defaultReusePolicy := "never"
      defaultQueueTimeoutMs := 0 }

/-- `preset_for_mode`; unlike `ExecutionMode.parse` it has no alias of the canonical policies
that disable a server. -/
def forMode (rawMode : String) : Except ServerPolicyError ExecutionPreset :=
  match normalizeToken rawMode with
  | "shared" | "parallel" | "parallel-safe" | "multi-reader" => .ok (ofMode .shared)
  | "serialized" | "serial" | "single-writer" | "queue" | "queued" => .ok (ofMode .serialized)
  | "session" | "session-isolated" | "per-session" | "single-session" =>
    .ok (ofMode .sessionIsolated)
  | "project" | "project-isolated" | "per-project" | "isolated-per-project" =>
    .ok (ofMode .projectIsolated)
  | "pool" | "process-pool" | "worker-pool" => .ok (ofMode .pool)
  | "disabled" | "off" => .ok (ofMode .disabled)
  | other => .error (.unsupportedMode other)

def defaultMaxWorkers (preset : ExecutionPreset) : Nat :=
  if preset.mode = .disabled then 0
  else if preset.mode = .pool then max preset.parallelismLimit 4
  else max preset.parallelismLimit 1

/-- Which presets there are. -/
theorem eq_ofMode {rawMode : String} {preset : ExecutionPreset}
    (found : forMode rawMode = .ok preset) : preset = ofMode preset.mode := by
  rw [forMode] at found
  split at found <;> cases found <;> rfl

end ExecutionPreset

/-! ### The requested policy -/

/-- The affinity tokens have fewer aliases here than where a policy is read. -/
def affinityToken (item : String) : String :=
  match normalizeToken item with
  | "conversation" => "chat"
  | "workspace" => "project"
  | other => other

def normalizedAffinity (options : SetPolicyOptions) (preset : ExecutionPreset) : List String :=
  let affinity := if options.affinity = [] then preset.defaultAffinity else options.affinity
  Text.sortedUnique ((affinity.map affinityToken).filter (· ≠ ""))

/-- What the command settles on and reports. -/
structure PolicyReport where
  dryRun : Bool
  server : String
  preset : ExecutionPreset
  affinity : List String
  queueTimeoutMs : Nat
  reusePolicy : String
  maxWorkers : Nat
  maxInFlightPerWorker : Nat
  configPath : String

namespace PolicyReport

def ofOptions (options : SetPolicyOptions) (serverName : String) (preset : ExecutionPreset)
    (configPath : String) : PolicyReport :=
  { dryRun := options.dryRun
    server := serverName
    preset := preset
    affinity := normalizedAffinity options preset
    queueTimeoutMs := options.queueTimeoutMs.getD preset.defaultQueueTimeoutMs
    reusePolicy := (options.reusePolicy.bind Text.trimNonEmpty).getD preset.defaultReusePolicy
    maxWorkers := if preset.mode = .disabled then 0
      else options.maxWorkers.getD preset.defaultMaxWorkers
    maxInFlightPerWorker := if preset.mode = .disabled then 0
      else options.maxInFlightPerWorker.getD 1
    configPath := configPath }

def conflictDomain (report : PolicyReport) : String :=
  report.preset.conflictDomainPrefix ++ ":" ++ report.server

def parallelism (report : PolicyReport) : Nat :=
  if report.preset.mode = .disabled then 0
  else if report.preset.mode = .pool then max report.maxWorkers 1
  else max report.preset.parallelismLimit 1

/-- `policy_json`. -/
def policy (report : PolicyReport) : JsonValue :=
  .ofEntries [("scopeClass", .string report.preset.scopeClass),
    ("concurrencyPolicy", .string report.preset.concurrencyPolicy),
    ("stateBinding", .string report.preset.stateBinding),
    ("credentialBinding", .string report.preset.credentialBinding),
    ("parallelismLimit", .ofNat report.parallelism),
    ("maxWorkers", .ofNat (if report.preset.mode = .disabled then 0 else report.maxWorkers)),
    ("maxInFlightPerWorker", .ofNat (if report.preset.mode = .disabled then 0
      else max report.maxInFlightPerWorker 1)),
    ("conflictDomain", .string report.conflictDomain),
    ("projectRootMode", .string report.preset.projectRootMode),
    ("worktreeBinding", .string report.preset.worktreeBinding),
    ("stateProfileMode", .string report.preset.stateProfileMode),
    ("hostLock", .string report.preset.hostLock),
    ("startupStrategy", .string report.preset.startupStrategy),
    ("routingGroup", .string report.preset.routingGroup),
    ("discoveryRequiresLease", .bool report.preset.discoveryRequiresLease)]

/-- `execution_json`. -/
def execution (report : PolicyReport) : JsonValue :=
  .ofEntries [("protocol", .string executionProtocol),
    ("mode", .string report.preset.mode.asStr),
    ("affinity", .array (report.affinity.map .string)),
    ("queueTimeoutMs", .ofNat report.queueTimeoutMs),
    ("reusePolicy", .string report.reusePolicy),
    ("maxWorkers", .ofNat report.maxWorkers),
    ("maxInFlightPerWorker", .ofNat report.maxInFlightPerWorker)]

def toJsonValue (report : PolicyReport) : JsonValue :=
  .ofEntries [("status", .string (if report.dryRun then "planned" else "updated")),
    ("server", .string report.server),
    ("mode", .string report.preset.mode.asStr),
    ("affinity", .array (report.affinity.map .string)),
    ("queueTimeoutMs", .ofNat report.queueTimeoutMs),
    ("reusePolicy", .string report.reusePolicy),
    ("maxWorkers", .ofNat report.maxWorkers),
    ("maxInFlightPerWorker", .ofNat report.maxInFlightPerWorker),
    ("configPath", .string report.configPath),
    ("dryRun", .bool report.dryRun),
    ("policy", report.policy),
    ("execution", report.execution)]

def lines (report : PolicyReport) : List String :=
  [(if report.dryRun then "Planned" else "Updated") ++ " policy for " ++ report.server ++
      ": mode=" ++ report.preset.mode.asStr ++ " affinity=" ++ ",".intercalate report.affinity ++
      " queueTimeoutMs=" ++ toString report.queueTimeoutMs ++ " reusePolicy=" ++
      report.reusePolicy ++ " workers=" ++ toString report.maxWorkers ++ " inFlight=" ++
      toString report.maxInFlightPerWorker,
    "  canonical policy: scope=" ++ report.preset.scopeClass ++ " concurrency=" ++
      report.preset.concurrencyPolicy ++ " state=" ++ report.preset.stateBinding ++
      " routing=" ++ report.preset.routingGroup]

end PolicyReport

/-- What is printed: the report as a document or as text. -/
inductive PolicyOutput where
  | document (value : JsonValue)
  | text (lines : List String)

/-! ### Editing the config -/

/-- `ensure_child_object`: a child that is not an object starts empty. -/
def childObject (parent : JsonMap) (key : String) : JsonMap :=
  ((OrderedMap.get key parent).bind JsonValue.asObject).getD []

def insertIfAbsent (key : String) (value : JsonValue) (entries : JsonMap) : JsonMap :=
  if (OrderedMap.get key entries).isSome then entries else OrderedMap.insert key value entries

/-- The block of the server after the edit. -/
def updatedServer (policy execution : JsonValue) (server : JsonMap) : JsonMap :=
  let server := insertIfAbsent "kind" (.string "configured") server
  let server := insertIfAbsent "required" (.bool false) server
  let server := insertIfAbsent "defaultEnabled" (.bool true) server
  OrderedMap.insert "execution" execution (OrderedMap.insert "policy" policy server)

def upsertPolicy (config : JsonValue) (serverName : String) (policy execution : JsonValue) :
    Except ServerPolicyError JsonValue :=
  match config with
  | .object root =>
    let servers := childObject root "servers"
    let server := updatedServer policy execution (childObject servers serverName)
    .ok (.object (OrderedMap.insert "servers"
      (.object (OrderedMap.insert serverName (.object server) servers)) root))
  | _ => .error (.invalidConfigShape "mcpace.config.json root")

/-! ### The command -/

/-- What the command finds at the config path. It reads without the size limit of the loaders. -/
inductive ConfigText where
  | unreadable (error : String)
  | malformed (error : String)
  | parsed (value : JsonValue)

/-- Exit code and message. -/
abbrev Failure := Nat × String

def ConfigText.read (configPath : String) : ConfigText → Except Failure JsonValue
  | .unreadable error => .error (1, "failed to read " ++ configPath ++ ": " ++ error)
  | .malformed error => .error (1, "failed to parse " ++ configPath ++ ": " ++ error)
  | .parsed value => .ok value

/-- What the loaders find after a document was written as the config. -/
def writtenConfig (host : Host) (configPath : String) (document : JsonValue) : ConfigFile :=
  if host.printedBytes document > maxJsonFileBytes then
    .unreadable ("failed to read " ++ configPath ++ ": JSON file exceeds the " ++
      toString maxJsonFileBytes ++ "-byte safety limit")
  else .parsed (document.reload host.renumber)

def commitConfig (host : Host) (dryRun : Bool) (workspace : Workspace) (document : JsonValue) :
    Except Failure Workspace :=
  if dryRun then .ok workspace
  else match host.writeFailure workspace.configPath with
    | some reason => .error (1, reason)
    | none => .ok { workspace with
        configFile := writtenConfig host workspace.configPath document }

def requestedServer (options : SetPolicyOptions) : Except Failure String :=
  match options.nameFilter.bind Text.trimNonEmpty with
  | some serverName => .ok serverName
  | none => .error (2, "server set-policy requires a server name, for example: " ++
      "mcpace advanced server set-policy filesystem --mode session-isolated")

/-- `run`, with the workspace that the loaders see afterwards. -/
def setPolicy (host : Host) (workspace : Workspace) (text : ConfigText)
    (options : SetPolicyOptions) : Except Failure (PolicyReport × PolicyOutput × Workspace) := do
  let serverName ← requestedServer options
  let preset ← (ExecutionPreset.forMode (options.executionMode.getD "serialized")).mapError
    (fun error => (2, error.message))
  (Host.lock (host.settingsLock workspace.configPath) options.dryRun).mapError
    (fun error => (1, error))
  let config ← text.read workspace.configPath
  let report := PolicyReport.ofOptions options serverName preset workspace.configPath
  let document ← (upsertPolicy config serverName report.policy report.execution).mapError
    (fun error => (1, error.message))
  let after ← commitConfig host options.dryRun workspace document
  let output := if options.jsonOutput then PolicyOutput.document report.toJsonValue
    else PolicyOutput.text report.lines
  return (report, output, after)

end Mcpace.Server

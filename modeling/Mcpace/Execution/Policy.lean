import Mcpace.Json.Value

/-!
Contract: how one execution policy is resolved from the defaults, the canonical
policy block and the execution block of a server.

Mirrors `ExecutionMode` and `ExecutionPolicy` of `src/execution.rs`: the presets, the
three ways a JSON block is applied, and the normalization at the end.

Does not own: affinity keys, and which blocks a loader passes in.
-/

namespace Mcpace.Execution

open Library Json JsonValue Text

inductive ExecutionMode where
  | shared
  | serialized
  | sessionIsolated
  | projectIsolated
  | pool
  | disabled
deriving DecidableEq, Repr

inductive ExecutionPolicyError where
  | unsupportedMode (mode : String)
  | missingAffinity (mode dimension : String)
deriving DecidableEq, Repr

def ExecutionPolicyError.message : ExecutionPolicyError → String
  | .unsupportedMode mode =>
    "unsupported execution mode '" ++ mode ++ "'; expected shared, serialized, " ++
      "session-isolated, project-isolated, pool, or disabled"
  | .missingAffinity mode dimension =>
    "execution mode '" ++ mode ++ "' requires '" ++ dimension ++
      "' affinity, but the request did not provide a usable value"

def normalizeToken (value : String) : String :=
  String.ofList ((toAsciiLowercase (trim value)).toList.map
    (fun char => if char = '_' then '-' else char))

namespace ExecutionMode

def parse (raw : String) : Except ExecutionPolicyError ExecutionMode :=
  match normalizeToken raw with
  | "shared" | "parallel" | "parallel-safe" | "multi-reader" => .ok .shared
  | "serialized" | "serial" | "single-writer" | "queue" | "queued" => .ok .serialized
  | "session" | "session-isolated" | "per-session" | "single-session" => .ok .sessionIsolated
  | "project" | "project-isolated" | "per-project" | "isolated-per-project" =>
    .ok .projectIsolated
  | "pool" | "process-pool" | "worker-pool" => .ok .pool
  | "disabled" | "off" | "plan-only" | "not-runnable" => .ok .disabled
  | other => .error (.unsupportedMode other)

def asStr : ExecutionMode → String
  | .shared => "shared"
  | .serialized => "serialized"
  | .sessionIsolated => "session-isolated"
  | .projectIsolated => "project-isolated"
  | .pool => "pool"
  | .disabled => "disabled"

theorem parse_asStr (mode : ExecutionMode) : parse mode.asStr = .ok mode := by
  cases mode <;> decide

end ExecutionMode

/-! ### Policies -/

structure ExecutionPolicy where
  mode : ExecutionMode
  affinity : List String
  queueTimeoutMs : Nat
  reusePolicy : String
  minWorkers : Nat
  maxWorkers : Nat
  maxInFlightPerWorker : Nat
  maxQueueDepth : Nat
  idleTtlMs : Nat
  source : String
  warnings : List String
deriving DecidableEq, Repr

def executionProtocol : String := "mcpace.execution.v1"
def defaultMaxQueueDepth : Nat := 256
def defaultIdleTtlMs : Nat := 5 * 60 * 1000
def maxQueueTimeoutMs : Nat := 5 * 60 * 1000
def workerMaximum : Nat := 64
def inFlightMaximum : Nat := 64
def queueDepthMaximum : Nat := 10000
def idleTtlMaximum : Nat := 24 * 60 * 60 * 1000

/-- The integers that convert to an unsigned type. -/
def nonNegative (value : Option JsonValue) : Option Nat :=
  (value.bind asI64).bind (fun number => if 0 ≤ number then some number.toNat else none)

def positive (value : Option JsonValue) : Option Nat :=
  (nonNegative value).filter (0 < ·)

def modeAt (value : Option JsonValue) : Option ExecutionMode :=
  ((value.bind (JsonValue.get "mode")).bind asStr).bind
    (fun text => (ExecutionMode.parse text).toOption)

def normalizeAffinityToken (value : String) : String :=
  match normalizeToken value with
  | "conversation" => "chat"
  | "workspace" => "project"
  | "credentials" => "credential"
  | other => other

def supportedAffinities : List String :=
  ["client", "project", "chat", "session", "credential", "application", "metadata", "transport",
    "transport-session", "client-instance"]

def normalizeAffinity (values : List String) : List String × List String :=
  let tokens := values.filter (fun raw => normalizeAffinityToken raw ≠ "")
  let supported := fun raw => supportedAffinities.contains (normalizeAffinityToken raw)
  (sortedUnique ((tokens.filter supported).map normalizeAffinityToken),
    (tokens.filter (fun raw => !supported raw)).map (fun raw =>
      "unsupported execution affinity '" ++ trim raw ++ "'; it was ignored"))

def clampWithWarning (value maximum : Nat) (label : String) : Nat × List String :=
  if value > maximum then
    (maximum, [label ++ "=" ++ toString value ++ " exceeded the runtime safety maximum " ++
      toString maximum ++ "; the value was clamped"])
  else (value, [])

def canonicalPolicyDisabled (value : JsonValue) : Bool :=
  let tokenIs := fun (key token : String) =>
    ((value.stringAtPath [key]).map normalizeToken) == some token
  tokenIs "startupStrategy" "disabled" || tokenIs "routingGroup" "disabled" ||
    tokenIs "concurrencyPolicy" "plan-only" || tokenIs "scopeClass" "not-runnable"

def inferredMode (scopeClass concurrencyPolicy stateBinding stateClass : String) :
    ExecutionMode :=
  let scopeClass := normalizeToken scopeClass
  let concurrencyPolicy := normalizeToken concurrencyPolicy
  let stateBinding := normalizeToken stateBinding
  let stateClass := normalizeToken stateClass
  if concurrencyPolicy = "plan-only" ∨ scopeClass = "not-runnable" then .disabled
  else if concurrencyPolicy = "isolated-per-project" ∨ scopeClass = "project-local" ∨
      stateClass = "project-stateful" then .projectIsolated
  else if concurrencyPolicy = "single-session" ∨ stateClass = "session-stateful" ∨
      stateBinding = "host-session" then .sessionIsolated
  else if concurrencyPolicy = "multi-reader" ∧
      stateClass ∈ ["stateless", "credential-stateful", "remote-session-stateful"] then .shared
  else .serialized

def inferredModeFromCanonical (value : JsonValue) : ExecutionMode :=
  inferredMode ((value.stringAtPath ["scopeClass"]).getD "")
    ((value.stringAtPath ["concurrencyPolicy"]).getD "")
    ((value.stringAtPath ["stateBinding"]).getD "") ((value.stringAtPath ["stateClass"]).getD "")

namespace ExecutionPolicy

def forMode (mode : ExecutionMode) : ExecutionPolicy :=
  let preset := fun (affinity : List String) (queueTimeoutMs : Nat) (reusePolicy : String)
      (minWorkers maxWorkers maxInFlight : Nat) =>
    { mode := mode, affinity := affinity, queueTimeoutMs := queueTimeoutMs,
      reusePolicy := reusePolicy, minWorkers := minWorkers, maxWorkers := maxWorkers,
      maxInFlightPerWorker := maxInFlight, maxQueueDepth := defaultMaxQueueDepth,
      idleTtlMs := defaultIdleTtlMs, source := "mode-preset", warnings := [] : ExecutionPolicy }
  match mode with
  | .shared => preset [] 2000 "shared" 0 1 4
  | .serialized => preset [] 10000 "sticky" 0 1 1
  | .sessionIsolated => preset ["client", "chat"] 10000 "sticky-session" 0 1 1
  | .projectIsolated => preset ["project"] 10000 "sticky-project" 0 1 1
  | .pool => preset [] 5000 "least-busy" 1 4 1
  | .disabled => preset [] 0 "never" 0 0 0

def conservative : ExecutionPolicy := forMode .serialized

def isDisabled (policy : ExecutionPolicy) : Bool :=
  policy.mode = .disabled || policy.maxWorkers = 0

def workerLimit (policy : ExecutionPolicy) : Nat :=
  match policy.mode with
  | .disabled => 0
  | .pool => max policy.maxWorkers 1
  | _ => 1

/-- One stdio child has one response consumer, so it never takes two calls at once. -/
def effectiveMaxInFlightPerWorker (policy : ExecutionPolicy) (transport : String) : Nat :=
  if policy.isDisabled then 0
  else if toAsciiLowercase transport = "stdio" then 1
  else max policy.maxInFlightPerWorker 1

def effectiveCapacity (policy : ExecutionPolicy) (transport : String) : Nat :=
  min (policy.workerLimit * policy.effectiveMaxInFlightPerWorker transport) (2 ^ 64 - 1)

def hasAffinity (policy : ExecutionPolicy) (value : String) : Bool :=
  policy.affinity.contains (normalizeAffinityToken value)

def toConfigJsonValue (policy : ExecutionPolicy) : JsonValue :=
  .ofEntries [("protocol", .string executionProtocol), ("mode", .string policy.mode.asStr),
    ("affinity", .array (policy.affinity.map .string)),
    ("queueTimeoutMs", .ofNat policy.queueTimeoutMs), ("reusePolicy", .string policy.reusePolicy),
    ("minWorkers", .ofNat policy.minWorkers), ("maxWorkers", .ofNat policy.maxWorkers),
    ("maxInFlightPerWorker", .ofNat policy.maxInFlightPerWorker),
    ("maxQueueDepth", .ofNat policy.maxQueueDepth), ("idleTtlMs", .ofNat policy.idleTtlMs)]

/-- The same members, with where the policy came from and what was found wrong on the way. -/
def toJsonValue (policy : ExecutionPolicy) : JsonValue :=
  .object (OrderedMap.insert "warnings" (.array (policy.warnings.map .string))
    (OrderedMap.insert "source" (.string policy.source)
      (policy.toConfigJsonValue.asObject.getD [])))

def warn (policy : ExecutionPolicy) (warnings : List String) : ExecutionPolicy :=
  { policy with warnings := policy.warnings ++ warnings }

/-! ### Applying a block -/

/-- What `apply_json` says about the mode of a block; the mode itself is not changed. -/
def modeWarnings (mode : ExecutionMode) (value : JsonValue) (label : String) : List String :=
  match (value.get "mode").bind asStr with
  | none => []
  | some raw =>
    match ExecutionMode.parse raw with
    | .ok named =>
      if named = mode then []
      else [label ++ " mode '" ++ named.asStr ++
        "' was ignored because the resolved mode is '" ++ mode.asStr ++ "'"]
    | .error error => [error.message]

def applyJson (policy : ExecutionPolicy) (value : JsonValue) (label : String) :
    ExecutionPolicy :=
  match value.asObject with
  | none => policy.warn [label ++ " is not an object; mode defaults remain active"]
  | some _ =>
    { policy.warn (modeWarnings policy.mode value label) with
      affinity := (((value.get "affinity").bind asArray).map
        (fun items => stringsFromArray (some items))).getD policy.affinity
      queueTimeoutMs := (nonNegative (value.get "queueTimeoutMs")).getD policy.queueTimeoutMs
      reusePolicy := ((((value.get "reusePolicy").bind asStr).map
        normalizeToken).filter (· ≠ "")).getD policy.reusePolicy
      minWorkers := (nonNegative (value.get "minWorkers")).getD policy.minWorkers
      maxWorkers := (nonNegative (value.get "maxWorkers")).getD policy.maxWorkers
      maxInFlightPerWorker :=
        (nonNegative (value.get "maxInFlightPerWorker")).getD policy.maxInFlightPerWorker
      maxQueueDepth := (positive (value.get "maxQueueDepth")).getD policy.maxQueueDepth
      idleTtlMs := (positive (value.get "idleTtlMs")).getD policy.idleTtlMs }

def applyGlobalLimits (policy : ExecutionPolicy) (value : JsonValue) : ExecutionPolicy :=
  { policy with
    maxQueueDepth := (positive (value.get "maxQueueDepth")).getD policy.maxQueueDepth
    idleTtlMs := (positive (value.get "idleTtlMs")).getD policy.idleTtlMs }

def applyCanonicalJson (policy : ExecutionPolicy) (value : JsonValue) : ExecutionPolicy :=
  if canonicalPolicyDisabled value then
    { policy with mode := .disabled, maxWorkers := 0, maxInFlightPerWorker := 0 }
  else
    { policy with
      maxWorkers := ((nonNegative (value.valueAtPath ["maxWorkers"])).or
        (nonNegative (value.valueAtPath ["parallelismLimit"]))).getD policy.maxWorkers
      maxInFlightPerWorker := (nonNegative (value.valueAtPath ["maxInFlightPerWorker"])).getD
        policy.maxInFlightPerWorker }

/-! ### Normalization -/

def addMissingAffinity (policy : ExecutionPolicy) : ExecutionPolicy :=
  let policy :=
    if policy.mode = .projectIsolated ∧ policy.hasAffinity "project" = false then
      { policy with affinity := policy.affinity ++ ["project"] }.warn
        ["project-isolated requires project affinity; 'project' was added automatically"]
    else policy
  if policy.mode = .sessionIsolated ∧ ¬(policy.affinity.any (fun value =>
      ["chat", "session", "application", "transport-session"].contains value) = true) then
    { policy with affinity := policy.affinity ++ ["session"] }.warn
      ["session-isolated requires a session-like affinity; 'session' was added automatically"]
  else policy

def clampLimits (policy : ExecutionPolicy) : ExecutionPolicy :=
  let queueTimeoutMs := clampWithWarning policy.queueTimeoutMs maxQueueTimeoutMs "queueTimeoutMs"
  let maxWorkers := clampWithWarning (max policy.maxWorkers 1) workerMaximum "maxWorkers"
  let maxInFlight := clampWithWarning (max policy.maxInFlightPerWorker 1) inFlightMaximum
    "maxInFlightPerWorker"
  let maxQueueDepth := clampWithWarning (max policy.maxQueueDepth 1) queueDepthMaximum
    "maxQueueDepth"
  let idleTtlMs := clampWithWarning (max policy.idleTtlMs 1000) idleTtlMaximum "idleTtlMs"
  { policy with
    queueTimeoutMs := queueTimeoutMs.1, maxWorkers := maxWorkers.1,
    maxInFlightPerWorker := maxInFlight.1, maxQueueDepth := maxQueueDepth.1,
    idleTtlMs := idleTtlMs.1 }.warn
      (queueTimeoutMs.2 ++ maxWorkers.2 ++ maxInFlight.2 ++ maxQueueDepth.2 ++ idleTtlMs.2)

def limitWorkers (policy : ExecutionPolicy) : ExecutionPolicy :=
  let policy :=
    if policy.mode ≠ .pool ∧ policy.maxWorkers > 1 then
      { policy with maxWorkers := 1 }.warn
        ["mode '" ++ policy.mode.asStr ++
          "' uses one process per affinity group; maxWorkers was clamped from " ++
          toString policy.maxWorkers ++ " to 1"]
    else policy
  { policy with minWorkers := min policy.minWorkers policy.maxWorkers }

def settleAffinity (policy : ExecutionPolicy) : ExecutionPolicy :=
  let (affinity, warnings) := normalizeAffinity policy.affinity
  { policy with affinity := affinity }.warn warnings

def allowedReuse : List String :=
  ["shared", "sticky", "sticky-session", "sticky-project", "least-busy", "ttl", "never"]

def settleReuse (policy : ExecutionPolicy) : ExecutionPolicy :=
  if allowedReuse.contains policy.reusePolicy then policy
  else
    { policy with reusePolicy := (forMode policy.mode).reusePolicy }.warn
      ["unsupported reusePolicy '" ++ policy.reusePolicy ++ "'; using '" ++
        (forMode policy.mode).reusePolicy ++ "'"]

def normalize (policy : ExecutionPolicy) : ExecutionPolicy :=
  let policy := policy.settleAffinity
  if policy.mode = .disabled ∨ policy.maxWorkers = 0 ∨ policy.maxInFlightPerWorker = 0 then
    { policy with
      mode := .disabled, affinity := [], queueTimeoutMs := 0, reusePolicy := "never",
      minWorkers := 0, maxWorkers := 0, maxInFlightPerWorker := 0 }
  else policy.clampLimits.limitWorkers.addMissingAffinity.settleAffinity.settleReuse

/-! ### Resolution -/

def resolveWithCanonical (executionDefaults canonicalPolicy serverExecution : Option JsonValue)
    (fallbackMode : ExecutionMode) : ExecutionPolicy :=
  let explicitServerMode := modeAt serverExecution
  let defaultMode := modeAt executionDefaults
  if (canonicalPolicy.map canonicalPolicyDisabled).getD false then
    { forMode .disabled with source := "server.policy" }.normalize
  else
    let mode := explicitServerMode.getD fallbackMode
    let preset := forMode mode
    let withDefaults := match executionDefaults with
      | none => preset
      | some defaults =>
        if explicitServerMode = none ∧ defaultMode = some mode then
          preset.applyJson defaults "executionDefaults"
        else preset.applyGlobalLimits defaults
    let withCanonical := (canonicalPolicy.map withDefaults.applyCanonicalJson).getD withDefaults
    let withServer := (serverExecution.map
      (fun server => withCanonical.applyJson server "server.execution")).getD withCanonical
    let source :=
      if explicitServerMode.isSome then "server.execution"
      else if canonicalPolicy.isSome then "server.policy"
      else if defaultMode = some mode then "executionDefaults"
      else "inferred-policy"
    { withServer with mode := mode, source := source }.normalize

def resolve (executionDefaults serverExecution : Option JsonValue)
    (fallbackMode : ExecutionMode) : ExecutionPolicy :=
  resolveWithCanonical executionDefaults none serverExecution fallbackMode

def fromConfigRoot (config : JsonValue) : ExecutionPolicy :=
  let defaults := config.get "executionDefaults"
  resolve defaults none ((modeAt defaults).getD .serialized)

def forServer (defaults : ExecutionPolicy) (rawServer : JsonValue) : ExecutionPolicy :=
  let canonical := rawServer.get "policy"
  resolveWithCanonical (some defaults.toConfigJsonValue) canonical (rawServer.get "execution")
    ((canonical.map inferredModeFromCanonical).getD defaults.mode)

end ExecutionPolicy

end Mcpace.Execution

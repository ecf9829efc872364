import Mcpace.Execution.Policy
import Mcpace.Sources.Selection
import Mcpace.Upstream.ToolPolicy

/-!
Owns the server policies of admission and process reuse: `load_upstream_server_policies` of
`src/upstream/server_config.rs`, and the configuration record they end up in.

The config's `servers` object contributes the policy of the last key that normalizes to a name.

Does not own: the launch settings of a configuration, the workers that list tools, and the
processes that are started.
-/

namespace Mcpace.Upstream

open Library Json Execution Sources JsonValue Text OrderedMap

inductive UpstreamServerConfigError where
  | policy (reason : String)
deriving DecidableEq, Repr

def UpstreamServerConfigError.message : UpstreamServerConfigError → String
  | .policy reason => "failed to load upstream server policy: " ++ reason

structure UpstreamServerConfig where
  name : String
  enabled : Bool
  disabledReason : Option String
  sourceType : String
  command : Option String
  args : List String
  env : List (String × String)
  headers : List (String × String)
  cwd : Option String
  url : Option String
  timeoutMs : Nat
  execution : ExecutionPolicy
  toolPolicies : List ToolRiskPolicy

structure UpstreamServerPolicy where
  profileEnabled : Bool
  platformSupported : Bool
  runtimeEnabled : Bool
  execution : ExecutionPolicy
  toolPolicies : List ToolRiskPolicy

/-! ### Policies -/

def normalizePolicyToken (value : String) : String := toAsciiLowercase (trim value)

def serverPolicyIsDisabled (rawServer : JsonValue) : Bool :=
  let tokenIs := fun (path : List String) (token : String) =>
    ((rawServer.stringAtPath path).map (fun value => decide (normalizePolicyToken value = token))).getD
      false
  let notPositive := fun (path : List String) =>
    (((rawServer.valueAtPath path).bind asI64).map (fun value => decide (value ≤ 0))).getD
      false
  tokenIs ["policy", "startupStrategy"] "disabled" ||
    tokenIs ["policy", "routingGroup"] "disabled" ||
    tokenIs ["policy", "concurrencyPolicy"] "plan-only" ||
    tokenIs ["policy", "scopeClass"] "not-runnable" ||
    notPositive ["policy", "maxWorkers"] ||
    tokenIs ["execution", "mode"] "disabled" ||
    notPositive ["execution", "maxWorkers"]

/-- A tool policy needs a tool and something that can grant it. -/
def parseToolPolicy (raw : JsonValue) : Option ToolRiskPolicy :=
  let tools := stringsFromArray (raw.arrayAtPath ["tools"])
  let riskClass := ((raw.stringAtPath ["riskClass"]).map normalizePolicyToken).filter (· ≠ "")
  let allowArgument := (raw.stringAtPath ["allowArgument"]).bind trimNonEmpty
  if tools = [] ∨ (riskClass = none ∧ allowArgument = none) then none
  else some
    { tools := tools
      riskClass := riskClass
      allowArgument := allowArgument
      description := (raw.stringAtPath ["description"]).bind trimNonEmpty }

def upstreamServerPolicy (platform : String) (executionDefaults : ExecutionPolicy)
    (overrideEnabled : Option Bool) (rawServer : JsonValue) : UpstreamServerPolicy :=
  let execution := ExecutionPolicy.forServer executionDefaults rawServer
  { profileEnabled := profileEnabled rawServer overrideEnabled
    platformSupported := platformSupported platform rawServer
    runtimeEnabled := !execution.isDisabled && !serverPolicyIsDisabled rawServer
    execution := execution
    toolPolicies := ((rawServer.arrayAtPath ["toolPolicies"]).getD []).filterMap parseToolPolicy }

def loadUpstreamServerPolicies (workspace : Workspace) : Except UpstreamServerConfigError
    (ExecutionPolicy × List (String × UpstreamServerPolicy)) :=
  match workspace.configFile with
  | .absent _ => .ok (ExecutionPolicy.conservative, [])
  | .unreadable reason => .error (.policy reason)
  | .parsed config =>
    let profile := loadRuntimeProfileSelection workspace.env config
    let executionDefaults := ExecutionPolicy.fromConfigRoot config
    .ok (executionDefaults, ofList ((declaredServers config).filterMap (fun server =>
      let normalizedName := normalizeServerName server.1
      if normalizedName = "" then none
      else some (normalizedName, upstreamServerPolicy workspace.platform executionDefaults
        (get normalizedName profile.serverOverrides) server.2))))

end Mcpace.Upstream

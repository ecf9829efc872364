import Mcpace.Json.Value
import Mcpace.Library.Machine

/-!
Owns the planned route a lease is requested for: its fields, the capacity key
derived from them, the reasons that refuse it before the store is consulted, and
the JSON records built from it.

Mirrors `src/hub/leases.rs`; does not own the planner that produces routes.
-/

namespace Mcpace.Hub.Lease

open Library Json

def leaseStoreVersion : Nat := 2
def defaultLeaseTtlMs : Nat := 120000
def maxLeaseTtlMs : Nat := 3600000

/-- A route of the client routing plan. `parallelism_limit` is a `usize`. -/
structure PlannedRoute where
  serverName : String
  admissionState : String
  requestStrategy : String
  requestMutexKey : Option String
  sessionAffinityKey : Option String
  processScopeKey : String
  processPartition : String
  projectBindingKey : Option String
  worktreeBindingKey : Option String
  conflictDomain : String
  hostLockKey : Option String
  stateProfileKey : Option String
  schedulerLane : String
  startupStrategy : String
  upstreamTransport : String
  parallelismLimit : Nat
  warnings : List String
  clientId : String
  sessionLeaseId : String
  sessionId : Option String
  projectRoot : Option String
  parallelismLimit_lt : parallelismLimit < 2 ^ 64

/-- The mutex key when there is one, else the process scope key. -/
def routeCapacityKey (route : PlannedRoute) : String :=
  route.requestMutexKey.getD route.processScopeKey

/-! ### Reading JSON -/

def optionalString (value : JsonValue) (path : List String) : Option String :=
  value.stringAtPath path

def requiredString (value : JsonValue) (path : List String) : String :=
  (optionalString value path).getD ""

def numberU128At (value : JsonValue) (path : List String) : Option Nat :=
  (value.valueAtPath path).bind JsonValue.asU128

def expiresAtMs (value : JsonValue) : Option Nat :=
  numberU128At value ["expiresAtMs"]

def normalizeTtl (ttlMs : Option Nat) : Nat :=
  ((ttlMs.filter (fun value => value > 0)).map (fun value => min value maxLeaseTtlMs)).getD
    defaultLeaseTtlMs

/-! ### Tokens and identifiers -/

/-- One character of `sanitize_token`: runs of other characters become one dash. -/
def sanitizeTokenStep (output : List Char) (char : Char) : List Char :=
  if Text.isAsciiAlphanumeric char then output ++ [char.toLower]
  else if char = '-' ∨ char = '_' ∨ char = '.' then output ++ [char]
  else if output.getLast? = some '-' then output
  else output ++ ['-']

def sanitizeToken (value : String) : String :=
  let output := value.toList.foldl sanitizeTokenStep []
  String.ofList ((output.dropWhile (· = '-')).rdropWhile (· = '-'))

def nonEmptyToken (value fallback : String) : String :=
  let token := sanitizeToken value
  if token = "" then fallback else token

/-- The id of a new lease: server token, clock, process id and nanosecond clock. -/
def generateLeaseId (route : PlannedRoute) (nowMs processId nanos : Nat) : String :=
  "lease:" ++ sanitizeToken route.serverName ++ ":" ++ toString nowMs ++ ":" ++
    toString processId ++ ":" ++ toString nanos

/-! ### Records -/

def routeJson (route : PlannedRoute) : JsonValue :=
  .ofEntries [ ("server", .string route.serverName),
    ("admissionState", .string route.admissionState),
    ("requestStrategy", .string route.requestStrategy),
    ("requestMutexKey", .stringOrNull route.requestMutexKey),
    ("sessionAffinityKey", .stringOrNull route.sessionAffinityKey),
    ("capacityKey", .string (routeCapacityKey route)),
    ("processScopeKey", .string route.processScopeKey),
    ("processPartition", .string route.processPartition),
    ("projectBindingKey", .stringOrNull route.projectBindingKey),
    ("worktreeBindingKey", .stringOrNull route.worktreeBindingKey),
    ("conflictDomain", .string route.conflictDomain),
    ("hostLockKey", .stringOrNull route.hostLockKey),
    ("stateProfileKey", .stringOrNull route.stateProfileKey),
    ("schedulerLane", .string route.schedulerLane),
    ("startupStrategy", .string route.startupStrategy),
    ("upstreamTransport", .string route.upstreamTransport),
    ("parallelismLimit", .ofNat route.parallelismLimit)]

def leaseRecordJson (leaseId : String) (route : PlannedRoute)
    (acquiredAtMs expiresAtMs ttlMs : Nat) : JsonValue :=
  .ofEntries [ ("leaseId", .string leaseId),
    ("server", .string route.serverName),
    ("clientId", .string route.clientId),
    ("sessionLeaseId", .string route.sessionLeaseId),
    ("sessionId", .stringOrNull route.sessionId),
    ("projectRoot", .stringOrNull route.projectRoot),
    ("acquiredAtMs", .ofNat acquiredAtMs),
    ("expiresAtMs", .ofNat expiresAtMs),
    ("ttlMs", .ofNat ttlMs),
    ("route", routeJson route)]

def acquireBlockedJson (route : PlannedRoute) (nowMs expiredPurgedCount : Nat) (reason : String)
    (conflictingLease : Option JsonValue) (activeLeaseCount : Nat) : JsonValue :=
  .ofEntries [ ("status", .string "blocked"),
    ("reason", .string reason),
    ("server", .string route.serverName),
    ("clientId", .string route.clientId),
    ("sessionLeaseId", .string route.sessionLeaseId),
    ("nowMs", .ofNat nowMs),
    ("activeLeaseCount", .ofNat activeLeaseCount),
    ("expiredPurgedCount", .ofNat expiredPurgedCount),
    ("route", routeJson route),
    ("conflictingLease", conflictingLease.getD .null),
    ("warnings", .array (route.warnings.map .string))]

/-! ### Refusals -/

def routeBlockers (route : PlannedRoute) : List String :=
  let admission :=
    if route.admissionState ≠ "configured-source" then
      ["server '" ++ route.serverName ++ "' is not routable because admissionState is '" ++
        route.admissionState ++ "'"]
    else []
  let strategy :=
    if route.requestStrategy = "disabled-no-route" ∨
        route.requestStrategy = "legacy-compat-disabled" ∨
        route.schedulerLane = "disabled" ∨ route.schedulerLane = "legacy-disabled" ∨
        route.startupStrategy = "disabled" ∨ route.parallelismLimit = 0 then
      ["server '" ++ route.serverName ++ "' is not routable because strategy='" ++
        route.requestStrategy ++ "' lane='" ++ route.schedulerLane ++ "' startup='" ++
        route.startupStrategy ++ "' parallelismLimit=" ++ toString route.parallelismLimit]
    else []
  let project :=
    if (route.projectBindingKey.map (fun key =>
        Text.startsWith key "project:pending:")).getD false then
      ["server '" ++ route.serverName ++
        "' needs an explicit project root before a runtime lease can be granted"]
    else []
  let warned := route.warnings.filter (fun warning =>
    Text.contains warning "requires a project root but no project root was resolved" ||
    Text.contains warning "no project root was resolved" ||
    Text.contains warning "not declared for the current platform")
  Text.sortedUnique (admission ++ strategy ++ project ++ warned)

end Mcpace.Hub.Lease

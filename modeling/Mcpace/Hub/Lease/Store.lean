import Mcpace.Hub.Lease.Route

/-!
Owns the lease store document: its default and normalized shapes, purging, the
session table rebuilt from the leases, and the search for a conflicting lease.

Mirrors `src/hub/leases.rs`. The store is a string-keyed map with the members
`version`, `leases`, `sessions` and `updatedAtMs`; leases are kept in key order,
which decides the lease a conflict reports.
-/

namespace Mcpace.Hub.Lease

open Library Json OrderedMap

/-! ### Shape -/

def defaultStoreMap (nowMs : Nat) : JsonMap :=
  ofList [ ("version", .ofNat leaseStoreVersion),
    ("leases", .object []),
    ("sessions", .object []),
    ("updatedAtMs", .ofNat nowMs)]

/-- Replace a member that is missing or not an object by the empty object. -/
def normalizeMember (key : String) (store : JsonMap) : JsonMap :=
  match get key store with
  | some (.object _) => store
  | _ => OrderedMap.insert key (.object []) store

def normalizeStoreShape (store : JsonMap) : JsonMap :=
  normalizeMember "sessions" (normalizeMember "leases" store)

def objectMember (key : String) (store : JsonMap) : Option JsonMap :=
  (get key store).bind JsonValue.asObject

def leasesMap (store : JsonMap) : Option JsonMap := objectMember "leases" store

def sessionsMap (store : JsonMap) : Option JsonMap := objectMember "sessions" store

/-- `leases_map_mut`: normalize the member, then update it in place. -/
def updateLeases (update : JsonMap → JsonMap) (store : JsonMap) : JsonMap :=
  OrderedMap.insert "leases" (.object (update ((leasesMap store).getD []))) store

def activeLeaseCount (store : JsonMap) : Nat := ((leasesMap store).map List.length).getD 0

def activeSessionCount (store : JsonMap) : Nat := ((sessionsMap store).map List.length).getD 0

def sortedLeases (store : JsonMap) : List JsonValue :=
  ((leasesMap store).map values).getD []

def sortedSessions (store : JsonMap) : List JsonValue :=
  ((sessionsMap store).map values).getD []

/-! ### Purging -/

/-- A record survives a purge unless it has an expiry at or before the clock. -/
def unexpired (nowMs : Nat) (record : JsonValue) : Bool :=
  ((expiresAtMs record).map (fun expiresAt => decide (expiresAt > nowMs))).getD true

def purgeExpired (store : JsonMap) (nowMs : Nat) : JsonMap × Nat :=
  let before := ((leasesMap store).getD []).length
  let purged := updateLeases (retain (fun _ record => unexpired nowMs record)) store
  (purged, before - activeLeaseCount purged)

/-! ### Sessions -/

structure SessionAccumulator where
  sessionLeaseId : String
  clientId : String
  sessionId : Option String
  projectRoot : Option String
  startedAtMs : Nat
  lastLeaseSeenAtMs : Nat
  activeLeaseIds : List String
  servers : List String

namespace SessionAccumulator

/-- The session id of a record that carries none: client and session tokens. -/
def fallbackSessionLeaseId (leaseId clientId : String) (sessionId : Option String) : String :=
  let sessionToken := match sessionId with
    | some value => nonEmptyToken value "adhoc"
    | none => nonEmptyToken leaseId "adhoc"
  "session:" ++ nonEmptyToken clientId "unknown" ++ ":" ++ sessionToken

def lastSeenAtMs (lease : JsonValue) (refreshedAtMs : Nat) : Nat :=
  ((numberU128At lease ["renewedAtMs"]).or (numberU128At lease ["acquiredAtMs"])).getD
    refreshedAtMs

def fromLease (lease : JsonValue) (refreshedAtMs : Nat) : Option SessionAccumulator :=
  let leaseId := requiredString lease ["leaseId"]
  if leaseId = "" then none
  else
    let clientId := (optionalString lease ["clientId"]).getD "unknown"
    let sessionId := optionalString lease ["sessionId"]
    some {
      sessionLeaseId := (optionalString lease ["sessionLeaseId"]).getD
        (fallbackSessionLeaseId leaseId clientId sessionId)
      clientId := clientId
      sessionId := sessionId
      projectRoot := optionalString lease ["projectRoot"]
      startedAtMs := (numberU128At lease ["acquiredAtMs"]).getD refreshedAtMs
      lastLeaseSeenAtMs := lastSeenAtMs lease refreshedAtMs
      activeLeaseIds := [leaseId]
      servers := (optionalString lease ["server"]).toList }

def addLease (session : SessionAccumulator) (lease : JsonValue) (refreshedAtMs : Nat) :
    SessionAccumulator :=
  let leaseId := requiredString lease ["leaseId"]
  if leaseId = "" then session
  else
    { session with
      activeLeaseIds := session.activeLeaseIds ++ [leaseId]
      servers := session.servers ++ (optionalString lease ["server"]).toList
      projectRoot := session.projectRoot.or (optionalString lease ["projectRoot"])
      startedAtMs :=
        min session.startedAtMs ((numberU128At lease ["acquiredAtMs"]).getD refreshedAtMs)
      lastLeaseSeenAtMs :=
        max session.lastLeaseSeenAtMs (lastSeenAtMs lease refreshedAtMs) }

def intoJson (session : SessionAccumulator) (refreshedAtMs : Nat) : JsonValue :=
  let activeLeaseIds := Text.sortedUnique session.activeLeaseIds
  let servers := Text.sortedUnique session.servers
  .ofEntries [ ("sessionLeaseId", .string session.sessionLeaseId),
    ("clientId", .string session.clientId),
    ("sessionId", .stringOrNull session.sessionId),
    ("projectRoot", .stringOrNull session.projectRoot),
    ("startedAtMs", .ofNat session.startedAtMs),
    ("lastLeaseSeenAtMs", .ofNat session.lastLeaseSeenAtMs),
    ("refreshedAtMs", .ofNat refreshedAtMs),
    ("activeLeaseCount", .ofNat activeLeaseIds.length),
    ("activeLeaseIds", .array (activeLeaseIds.map .string)),
    ("servers", .array (servers.map .string))]

end SessionAccumulator

/-- One lease of `rebuild_sessions`: extend its session or open a new one. -/
def rebuildSessionsStep (refreshedAtMs : Nat) (sessions : List (String × SessionAccumulator))
    (lease : JsonValue) : List (String × SessionAccumulator) :=
  match SessionAccumulator.fromLease lease refreshedAtMs with
  | none => sessions
  | some accumulator =>
    match get accumulator.sessionLeaseId sessions with
    | some existing =>
      OrderedMap.insert accumulator.sessionLeaseId (existing.addLease lease refreshedAtMs)
        sessions
    | none => OrderedMap.insert accumulator.sessionLeaseId accumulator sessions

def rebuildSessions (store : JsonMap) (refreshedAtMs : Nat) : JsonMap :=
  let sessions := (sortedLeases store).foldl (rebuildSessionsStep refreshedAtMs) []
  OrderedMap.insert "sessions"
    (.object (sessions.map (fun session => (session.1, session.2.intoJson refreshedAtMs)))) store

/-! ### Conflicts -/

structure LeaseConflict where
  reason : String
  lease : JsonValue

def holdsMutex (mutexKey : String) (lease : JsonValue) : Bool :=
  optionalString lease ["route", "requestMutexKey"] == some mutexKey

def holdsCapacity (capacityKey : String) (lease : JsonValue) : Bool :=
  optionalString lease ["route", "capacityKey"] == some capacityKey

/-- The search of `find_conflict` over the lease map: the holder of the mutex key,
or the first of the leases that exhaust the capacity. -/
def findConflictIn (leases : JsonMap) (route : PlannedRoute) : Option LeaseConflict :=
  match route.requestMutexKey with
  | some mutexKey =>
    ((values leases).find? (holdsMutex mutexKey)).map (fun lease =>
      { reason := "mutex '" ++ mutexKey ++ "' is already held by lease '" ++
          requiredString lease ["leaseId"] ++ "'"
        lease := lease })
  | none =>
    let candidateCapacityKey := routeCapacityKey route
    let matching := (values leases).filter (holdsCapacity candidateCapacityKey)
    if route.parallelismLimit > 0 ∧ matching.length ≥ route.parallelismLimit then
      some {
        reason := "parallelism limit " ++ toString route.parallelismLimit ++ " for '" ++
          candidateCapacityKey ++ "' is already exhausted"
        lease := matching.head?.getD .null }
    else none

def findConflict (store : JsonMap) (route : PlannedRoute) : Option LeaseConflict :=
  (leasesMap store).bind (fun leases => findConflictIn leases route)

def takeoverAllowed (takeover : Bool) (conflictingLease : JsonValue) (route : PlannedRoute) :
    Bool :=
  takeover && ((conflictingLease.stringAtPath ["sessionLeaseId"]).map
    (fun value => value == route.sessionLeaseId)).getD false

end Mcpace.Hub.Lease

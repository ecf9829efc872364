import Mcpace.Hub.Lease.Store

/-!
Owns the hub lease commands and the read-modify-write cycle they run in.

`mutateStore` mirrors `mutate_store`: seed the layout, take the lock, load and
normalize the store, purge, run the command, rebuild the sessions and save. The
clock is read several times during one command; every reading is an input of the
step, and so are the process id, the nanosecond clock and an I/O failure.

Does not own: the lock protocol, the interleaving of processes, or the event log
the commands append to.
-/

namespace Mcpace.Hub.Lease

open Library Json Machine Text OrderedMap

structure LeaseCommandResult where
  json : JsonValue
  exitCode : Int

/-- The stage of `mutate_store` at which an I/O error stops it. -/
inductive IoStage where
  | layout
  | lock
  | read
  | write
deriving DecidableEq, Repr

/-- Everything one command reads from outside the store. -/
structure StepEnvironment where
  seedMs : Nat
  nowMs : Nat
  rebuildMs : Nat
  updatedMs : Nat
  processId : Nat
  nanos : Nat
  ioFailure : Option (IoStage × String)

inductive LeaseCommand where
  | list
  | acquire (route : PlannedRoute) (ttlMs : Option Nat) (takeover : Bool)
  | renew (leaseId : String) (ttlMs : Option Nat)
  | release (leaseId : String)

/-- A command body: store, clock and purge count in, result and store out. -/
abbrev Mutator := JsonMap → Nat → Nat → LeaseCommandResult × JsonMap

/-! ### Command bodies -/

def listMutator : Mutator := fun store nowMs expiredPurgedCount =>
  ({ json := .ofEntries [
      ("status", .string "listed"),
      ("version", .ofNat leaseStoreVersion),
      ("nowMs", .ofNat nowMs),
      ("activeLeaseCount", .ofNat (sortedLeases store).length),
      ("activeSessionCount", .ofNat (sortedSessions store).length),
      ("expiredPurgedCount", .ofNat expiredPurgedCount),
      ("leases", .array (sortedLeases store)),
      ("sessions", .array (sortedSessions store))]
     exitCode := 0 }, store)

/-- The granting branch of `acquire_lease_for_route`, after a takeover has removed
its lease. -/
def grantLease (route : PlannedRoute) (ttlMs : Nat) (leaseId : String)
    (takenOverLease : Option JsonValue) : Mutator := fun store nowMs expiredPurgedCount =>
  let expiresAt := saturatingAdd 128 nowMs ttlMs
  let leaseJson := leaseRecordJson leaseId route nowMs expiresAt ttlMs
  let granted := rebuildSessions (updateLeases (OrderedMap.insert leaseId leaseJson) store) nowMs
  ({ json := .ofEntries [
      ("status", .string "acquired"),
      ("leaseId", .string leaseId),
      ("server", .string route.serverName),
      ("clientId", .string route.clientId),
      ("sessionLeaseId", .string route.sessionLeaseId),
      ("ttlMs", .ofNat ttlMs),
      ("acquiredAtMs", .ofNat nowMs),
      ("expiresAtMs", .ofNat expiresAt),
      ("activeLeaseCount", .ofNat (activeLeaseCount granted)),
      ("activeSessionCount", .ofNat (activeSessionCount granted)),
      ("expiredPurgedCount", .ofNat expiredPurgedCount),
      ("route", routeJson route),
      ("lease", leaseJson),
      ("takeover", .bool takenOverLease.isSome),
      ("takenOverLease", takenOverLease.getD .null),
      ("warnings", .array (route.warnings.map .string))]
     exitCode := 0 }, granted)

def acquireMutator (route : PlannedRoute) (ttlMs : Nat) (takeover : Bool)
    (environment : StepEnvironment) : Mutator := fun store nowMs expiredPurgedCount =>
  let leaseId := generateLeaseId route nowMs environment.processId environment.nanos
  let blockers := routeBlockers route
  if blockers ≠ [] then
    ({ json := acquireBlockedJson route nowMs expiredPurgedCount (" | ".intercalate blockers) none
        (activeLeaseCount store)
       exitCode := 1 }, store)
  else
    match findConflict store route with
    | some conflict =>
      if takeoverAllowed takeover conflict.lease route then
        let conflictId := requiredString conflict.lease ["leaseId"]
        -- A conflicting record that is not stored under its own id is reported as taken over
        -- although nothing was removed.
        let removed := get conflictId ((leasesMap store).getD [])
        grantLease route ttlMs leaseId (some (removed.getD conflict.lease))
          (updateLeases (remove conflictId) store) nowMs expiredPurgedCount
      else
        ({ json := acquireBlockedJson route nowMs expiredPurgedCount conflict.reason
            (some conflict.lease) (activeLeaseCount store)
           exitCode := 1 }, store)
    | none => grantLease route ttlMs leaseId none store nowMs expiredPurgedCount

/-- The three members a renewal writes into a record that is an object. -/
def renewRecord (nowMs ttlMs : Nat) : JsonValue → JsonValue
  | .object record =>
    .object (OrderedMap.insert "ttlMs" (.ofNat ttlMs)
      (OrderedMap.insert "expiresAtMs" (.ofNat (saturatingAdd 128 nowMs ttlMs))
        (OrderedMap.insert "renewedAtMs" (.ofNat nowMs) record)))
  | value => value

def renewMutator (leaseId : String) (ttlMs : Nat) : Mutator :=
  fun store nowMs expiredPurgedCount =>
    let touched := updateLeases (modify leaseId (renewRecord nowMs ttlMs)) store
    let renewed := get leaseId ((leasesMap touched).getD [])
    let rebuilt := rebuildSessions touched nowMs
    ({ json := .ofEntries [
        ("status", .string (if renewed.isSome then "renewed" else "not-found")),
        ("leaseId", .string leaseId),
        ("nowMs", .ofNat nowMs),
        ("ttlMs", .ofNat ttlMs),
        ("expiresAtMs", .ofNat (saturatingAdd 128 nowMs ttlMs)),
        ("activeLeaseCount", .ofNat (activeLeaseCount rebuilt)),
        ("activeSessionCount", .ofNat (activeSessionCount rebuilt)),
        ("expiredPurgedCount", .ofNat expiredPurgedCount),
        ("renewedLease", renewed.getD .null)]
       exitCode := if renewed.isSome then 0 else 1 }, rebuilt)

def releaseMutator (leaseId : String) : Mutator := fun store nowMs expiredPurgedCount =>
  let removed := get leaseId ((leasesMap store).getD [])
  let rebuilt := rebuildSessions (updateLeases (remove leaseId) store) nowMs
  ({ json := .ofEntries [
      ("status", .string (if removed.isSome then "released" else "not-found")),
      ("leaseId", .string leaseId),
      ("nowMs", .ofNat nowMs),
      ("activeLeaseCount", .ofNat (activeLeaseCount rebuilt)),
      ("activeSessionCount", .ofNat (activeSessionCount rebuilt)),
      ("expiredPurgedCount", .ofNat expiredPurgedCount),
      ("releasedLease", removed.getD .null)]
     exitCode := if removed.isSome then 0 else 1 }, rebuilt)

/-! ### The cycle -/

/-- The lease store file: `none` when it is missing, else the document last
written to it. -/
abbrev StoreFile := Option JsonValue

/-- `seed_json_if_missing` on the lease store. -/
def ensureRuntimeLayout (file : StoreFile) (seedMs : Nat) : StoreFile :=
  match file with
  | some document => some document
  | none => some (.object (defaultStoreMap seedMs))

/-- `read_store_map`, then `normalize_store_shape`. -/
def loadStore (renumber : String → Option String) (file : StoreFile) (seedMs : Nat) :
    Except String JsonMap :=
  match file with
  | none => .ok (normalizeStoreShape (defaultStoreMap seedMs))
  | some document =>
    match JsonValue.reload renumber document with
    | .object store => .ok (normalizeStoreShape store)
    | _ => .error "lease store must be a JSON object"

/-- The part of `mutate_store` between loading and saving. -/
def mutateLoaded (environment : StepEnvironment) (mutator : Mutator) (store : JsonMap) :
    LeaseCommandResult × JsonMap :=
  let purged := purgeExpired store environment.nowMs
  let rebuilt := rebuildSessions purged.1 environment.nowMs
  let mutated := mutator rebuilt environment.nowMs purged.2
  (mutated.1, OrderedMap.insert "updatedAtMs" (.ofNat environment.updatedMs)
      (OrderedMap.insert "version" (.ofNat leaseStoreVersion)
        (rebuildSessions mutated.2 environment.rebuildMs)))

def mutateStore (renumber : String → Option String) (environment : StepEnvironment)
    (mutator : Mutator) (file : StoreFile) :
    Except String LeaseCommandResult × StoreFile :=
  let seeded := ensureRuntimeLayout file environment.seedMs
  match environment.ioFailure with
  | some (.layout, message) => (.error message, file)
  | some (.lock, message) => (.error message, seeded)
  | some (.read, message) => (.error message, seeded)
  | failure =>
    match loadStore renumber seeded environment.seedMs with
    | .error message => (.error message, seeded)
    | .ok store =>
      match failure with
      | some (_, message) => (.error message, seeded)
      | none =>
        let mutated := mutateLoaded environment mutator store
        (.ok mutated.1, some (.object mutated.2))

/-- The body a command runs, or the error it stops with before touching the store. -/
def commandMutator (environment : StepEnvironment) : LeaseCommand → Except String Mutator
  | .list => .ok listMutator
  | .acquire route ttlMs takeover =>
    .ok (acquireMutator route (normalizeTtl ttlMs) takeover environment)
  | .renew leaseId ttlMs =>
    if trim leaseId = "" then .error "hub lease renew requires --lease-id <id>"
    else .ok (renewMutator (trim leaseId) (normalizeTtl ttlMs))
  | .release leaseId =>
    if trim leaseId = "" then .error "hub lease release requires --lease-id <id>"
    else .ok (releaseMutator (trim leaseId))

structure Step where
  command : LeaseCommand
  environment : StepEnvironment

def execute (renumber : String → Option String) (file : StoreFile) (step : Step) :
    Except String LeaseCommandResult × StoreFile :=
  match commandMutator step.environment step.command with
  | .error message => (.error message, file)
  | .ok mutator => mutateStore renumber step.environment mutator file

def run (renumber : String → Option String) (file : StoreFile) (steps : List Step) : StoreFile :=
  steps.foldl (fun current step => (execute renumber current step).2) file

/-- The lease id a command result reports as acquired. -/
def acquiredLeaseId (result : LeaseCommandResult) : Option String :=
  if result.json.stringAtPath ["status"] = some "acquired" then
    result.json.stringAtPath ["leaseId"]
  else none

/-- An acquired lease id with the route it was acquired for. -/
def acquisition (acquired : Option String) : LeaseCommand → Option (String × PlannedRoute)
  | .acquire route _ _ => acquired.map (fun leaseId => (leaseId, route))
  | _ => none

def acquires (renumber : String → Option String) (file : StoreFile) (step : Step) :
    Option (String × PlannedRoute) :=
  acquisition ((execute renumber file step).1.toOption.bind acquiredLeaseId) step.command

def acquisitions (renumber : String → Option String) :
    StoreFile → List Step → List (String × PlannedRoute)
  | _, [] => []
  | file, step :: rest =>
    (acquires renumber file step).toList ++
      acquisitions renumber (execute renumber file step).2 rest

/-- The leases in a store file, in key order. -/
def storedLeases (file : StoreFile) : JsonMap :=
  ((file.bind JsonValue.asObject).bind leasesMap).getD []

def emptyStoreFile (seedMs : Nat) : StoreFile := some (.object (defaultStoreMap seedMs))

end Mcpace.Hub.Lease

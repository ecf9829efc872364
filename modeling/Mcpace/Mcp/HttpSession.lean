import Mcpace.Json.Value
import Mcpace.Library.Machine

/-!
Owns the session store of MCP over HTTP: `McpHttpSessionStore` of `src/dashboard/http_session.rs`.

Every operation here is one critical section of the store's mutex. An operation that fails can
still change the store: a touched session that has expired is removed.

Does not own: how a request names a session, and who calls the operations.
-/

namespace Mcpace.Mcp

open Library Json Machine
open OrderedMap hiding insert

/-! ### Sessions -/

def defaultMcpHttpSessionTtlMs : Nat := 60 * 60 * 1000
def defaultMcpHttpSessionLimit : Nat := 1024
def maxMcpHttpRequestIdsPerSession : Nat := 4096
def maxMcpHttpRequestIdStorageBytes : Nat := 256 + 2
def maxMcpHttpRequestIdReplayBytes : Nat := 512 * 1024
def maxMcpHttpGlobalRequestIdReplayBytes : Nat := 16 * 1024 * 1024
def maxMcpHttpClientInfoFieldBytes : Nat := 256

structure McpHttpSession where
  id : String
  protocolVersion : String
  clientName : Option String
  clientVersion : Option String
  createdAtMs : Nat
  lastSeenAtMs : Nat
  expiresAtMs : Nat
  initialized : Bool
  seenRequestIds : Finset String
  seenRequestIdBytes : Nat

structure McpHttpSessionView where
  id : String
  protocolVersion : String
  initialized : Bool
deriving DecidableEq, Repr

def McpHttpSession.view (session : McpHttpSession) : McpHttpSessionView :=
  ⟨session.id, session.protocolVersion, session.initialized⟩

inductive McpHttpSessionErrorKind where
  | missing
  | invalid
  | unknown
  | expired
  | protocolMismatch
  | duplicateRequestId
  | requestIdLimit
deriving DecidableEq, Repr

structure McpHttpSessionError where
  kind : McpHttpSessionErrorKind
  message : String
deriving DecidableEq, Repr

def McpHttpSessionError.httpStatus (error : McpHttpSessionError) : String :=
  match error.kind with
  | .unknown | .expired => "404 Not Found"
  | .missing | .invalid | .protocolMismatch | .duplicateRequestId => "400 Bad Request"
  | .requestIdLimit => "429 Too Many Requests"

def unknownSession : McpHttpSessionError :=
  ⟨.unknown, "unknown MCP HTTP session; initialize again before sending more requests"⟩

def expiredSession : McpHttpSessionError :=
  ⟨.expired, "expired MCP HTTP session; initialize again before sending more requests"⟩

def globalReplayBudgetFull : McpHttpSessionError :=
  ⟨.requestIdLimit,
    "global MCP HTTP request-id replay budget is full; close an idle session and retry"⟩

def requestIdTooLong : McpHttpSessionError :=
  ⟨.invalid, "JSON-RPC request id exceeds the 256 byte limit"⟩

/-! ### The store -/

abbrev McpHttpSessions := List (String × McpHttpSession)

/-- The map of sessions by id. Its entries are kept in key order; the order in which the map is
iterated is a parameter where it matters. -/
structure McpHttpSessionStore where
  sessions : McpHttpSessions
  maxSessions : Nat
  ttlMs : Nat
  prunedExpiredSessions : Nat

namespace McpHttpSessionStore

/-- Sessions are filed once, under their id. -/
structure WellFormed (store : McpHttpSessionStore) : Prop where
  sorted : Sorted store.sessions
  keyed : ∀ entry ∈ store.sessions, entry.2.id = entry.1

def new (maxSessions ttlMs : Nat) : McpHttpSessionStore := ⟨[], max maxSessions 1, max ttlMs 1, 0⟩

def default : McpHttpSessionStore := new defaultMcpHttpSessionLimit defaultMcpHttpSessionTtlMs

def get (store : McpHttpSessionStore) (sessionId : String) : Option McpHttpSession :=
  OrderedMap.get sessionId store.sessions

def replayBytes (sessions : McpHttpSessions) : Nat :=
  (sessions.map (fun entry => entry.2.seenRequestIdBytes)).sum

def pruneExpired (store : McpHttpSessionStore) (nowMs : Nat) : McpHttpSessionStore :=
  let kept := OrderedMap.retain (fun _ session => decide (session.expiresAtMs > nowMs))
    store.sessions
  { store with
    sessions := kept
    prunedExpiredSessions := saturatingAdd 64 store.prunedExpiredSessions
      (store.sessions.length - kept.length) }

/-- The session that `min_by_key` finds when the map is iterated in the order of `rank`. -/
def oldest (rank : String → Nat) (sessions : McpHttpSessions) : Option (String × McpHttpSession) :=
  sessions.argmin (fun entry => toLex (entry.2.lastSeenAtMs, rank entry.1))

/-- The loop of `evict_until_capacity_for_insert`; each turn removes a session, so their number is
enough fuel. -/
def evictLoop (rank : String → Nat) (maxSessions : Nat) : Nat → McpHttpSessions → McpHttpSessions
  | 0, sessions => sessions
  | fuel + 1, sessions =>
    if sessions.length ≥ maxSessions then
      match oldest rank sessions with
      | none => sessions
      | some victim => evictLoop rank maxSessions fuel (OrderedMap.remove victim.1 sessions)
    else sessions

def evictUntilCapacityForInsert (rank : String → Nat) (store : McpHttpSessionStore) :
    McpHttpSessionStore :=
  { store with
    sessions := evictLoop rank store.maxSessions store.sessions.length store.sessions }

/-- What a successful `initialize` stores. -/
structure NewSession where
  sessionId : String
  protocolVersion : String
  clientName : Option String
  clientVersion : Option String
  initializeRequestIdKey : Option String

def fieldTooLong (field : Option String) : Bool :=
  (field.map (fun value => decide (value.utf8ByteSize > maxMcpHttpClientInfoFieldBytes))).getD false

def NewSession.session (new : NewSession) (nowMs ttlMs : Nat) : McpHttpSession :=
  { id := new.sessionId
    protocolVersion := new.protocolVersion
    clientName := new.clientName
    clientVersion := new.clientVersion
    createdAtMs := nowMs
    lastSeenAtMs := nowMs
    expiresAtMs := saturatingAdd 128 nowMs ttlMs
    initialized := false
    seenRequestIds := new.initializeRequestIdKey.toFinset
    seenRequestIdBytes := (new.initializeRequestIdKey.map String.utf8ByteSize).getD 0 }

def createOrReplace (store : McpHttpSessionStore) (new : NewSession) (rank : String → Nat)
    (nowMs : Nat) : Except McpHttpSessionError McpHttpSessionView × McpHttpSessionStore :=
  if fieldTooLong new.clientName || fieldTooLong new.clientVersion then
    (.error ⟨.invalid, "MCP clientInfo name/version exceeds the 256 byte field limit"⟩, store)
  else if (new.initializeRequestIdKey.map (fun key =>
      decide (key.utf8ByteSize > maxMcpHttpRequestIdStorageBytes))).getD false then
    (.error requestIdTooLong, store)
  else
    let pruned := store.pruneExpired nowMs
    let roomy := if (pruned.get new.sessionId).isSome then pruned
      else pruned.evictUntilCapacityForInsert rank
    let session := new.session nowMs store.ttlMs
    let replaced := ((roomy.get new.sessionId).map McpHttpSession.seenRequestIdBytes).getD 0
    if saturatingAdd 64 (replayBytes roomy.sessions - replaced) session.seenRequestIdBytes >
        maxMcpHttpGlobalRequestIdReplayBytes then
      (.error globalReplayBudgetFull, roomy)
    else
      (.ok session.view,
        { roomy with sessions := OrderedMap.insert new.sessionId session roomy.sessions })

def protocolMismatch (header : String) (session : McpHttpSession) : McpHttpSessionError :=
  ⟨.protocolMismatch, "MCP-Protocol-Version header '" ++ header ++
    "' does not match initialized session protocol '" ++ session.protocolVersion ++ "'"⟩

def remove (store : McpHttpSessionStore) (sessionId : String) : McpHttpSessionStore :=
  { store with sessions := OrderedMap.remove sessionId store.sessions }

/-- A session that was found expired is removed and counted. -/
def dropExpired (store : McpHttpSessionStore) (sessionId : String) : McpHttpSessionStore :=
  { store.remove sessionId with
    prunedExpiredSessions := saturatingAdd 64 store.prunedExpiredSessions 1 }

def put (store : McpHttpSessionStore) (sessionId : String) (session : McpHttpSession) :
    McpHttpSessionStore :=
  { store with sessions := OrderedMap.insert sessionId session store.sessions }

def touch (store : McpHttpSessionStore) (sessionId : String) (protocolHeader : Option String)
    (nowMs : Nat) : Except McpHttpSessionError McpHttpSessionView × McpHttpSessionStore :=
  match store.get sessionId with
  | none => (.error unknownSession, store)
  | some session =>
    if session.expiresAtMs ≤ nowMs then (.error expiredSession, store.dropExpired sessionId)
    else match protocolHeader.filter (· ≠ session.protocolVersion) with
      | some header => (.error (protocolMismatch header session), store)
      | none =>
        let touched := { session with
          lastSeenAtMs := nowMs, expiresAtMs := saturatingAdd 128 nowMs store.ttlMs }
        (.ok touched.view, store.put sessionId touched)

/-- The end of `mark_initialized_from_request`, on the session that was touched. -/
def markInitialized (store : McpHttpSessionStore) (sessionId : String) :
    Except McpHttpSessionError McpHttpSessionView × McpHttpSessionStore :=
  match store.get sessionId with
  | none => (.error unknownSession, store)
  | some session =>
    let marked := { session with initialized := true }
    (.ok marked.view, store.put sessionId marked)

def trackRequestId (store : McpHttpSessionStore) (sessionId requestIdKey : String) :
    Except McpHttpSessionError McpHttpSessionView × McpHttpSessionStore :=
  match store.get sessionId with
  | none => (.error unknownSession, store)
  | some session =>
    if requestIdKey ∈ session.seenRequestIds then
      (.error ⟨.duplicateRequestId,
        "JSON-RPC request id was already used in this MCP HTTP session"⟩, store)
    else if requestIdKey.utf8ByteSize > maxMcpHttpRequestIdStorageBytes then
      (.error requestIdTooLong, store)
    else if saturatingAdd 64 (replayBytes store.sessions) requestIdKey.utf8ByteSize >
        maxMcpHttpGlobalRequestIdReplayBytes then
      (.error globalReplayBudgetFull, store)
    else if session.seenRequestIds.card ≥ maxMcpHttpRequestIdsPerSession ∨
        saturatingAdd 64 session.seenRequestIdBytes requestIdKey.utf8ByteSize >
          maxMcpHttpRequestIdReplayBytes then
      (.error ⟨.requestIdLimit,
        "MCP HTTP session request-id replay budget is full; initialize a new session"⟩, store)
    else
      let tracked := { session with
        seenRequestIds := insert requestIdKey session.seenRequestIds
        seenRequestIdBytes :=
          saturatingAdd 64 session.seenRequestIdBytes requestIdKey.utf8ByteSize }
      (.ok tracked.view, store.put sessionId tracked)

def close (store : McpHttpSessionStore) (sessionId : String) (nowMs : Nat) :
    Except McpHttpSessionError McpHttpSessionView × McpHttpSessionStore :=
  match store.get sessionId with
  | none => (.error unknownSession, store)
  | some session =>
    if session.expiresAtMs ≤ nowMs then (.error expiredSession, store.dropExpired sessionId)
    else (.ok session.view, store.remove sessionId)

/-! ### Lookups after an operation -/

section Lookup

variable {store : McpHttpSessionStore} {sessionId other : String} {session : McpHttpSession}

theorem get_put (store : McpHttpSessionStore) (sessionId other : String)
    (session : McpHttpSession) :
    (store.put sessionId session).get other =
      if other = sessionId then some session else store.get other :=
  get_insert sessionId other session store.sessions

theorem get_remove (store : McpHttpSessionStore) (sessionId other : String) :
    (store.remove sessionId).get other =
      if other = sessionId then none else store.get other := by
  split
  · rename_i same
    rw [same]
    exact get_remove_self sessionId store.sessions
  · rename_i different
    exact get_remove_of_ne different store.sessions

theorem get_of_pruneExpired (sorted : Sorted store.sessions) {nowMs : Nat}
    (found : (store.pruneExpired nowMs).get other = some session) :
    store.get other = some session := by
  rw [get, pruneExpired] at found
  rw [get_retain sorted] at found
  exact (Option.filter_eq_some_iff.mp found).1

variable {rank : String → Nat} {maxSessions : Nat} {sessions : McpHttpSessions}

theorem get_of_evictLoop {fuel : Nat}
    (found : OrderedMap.get other (evictLoop rank maxSessions fuel sessions) = some session) :
    OrderedMap.get other sessions = some session := by
  induction fuel generalizing sessions with
  | zero => exact found
  | succ fuel ih =>
    rw [evictLoop] at found
    split at found
    · split at found
      · exact found
      · rename_i victim _
        have kept := ih found
        by_cases same : other = victim.1
        · rw [same, get_remove_self] at kept
          cases kept
        · rwa [get_remove_of_ne same] at kept
    · exact found

theorem sorted_evictLoop {fuel : Nat} (sorted : Sorted sessions) :
    Sorted (evictLoop rank maxSessions fuel sessions) := by
  induction fuel generalizing sessions with
  | zero => exact sorted
  | succ fuel ih =>
    rw [evictLoop]
    split
    · split
      · exact sorted
      · exact ih (sorted_remove sorted)
    · exact sorted

end Lookup

/-! ### The store stays well formed -/

section WellFormed

variable {store : McpHttpSessionStore} {sessionId : String} {session : McpHttpSession}

theorem wellFormed_iff : store.WellFormed ↔ Sorted store.sessions ∧
      ∀ sessionId session, store.get sessionId = some session → session.id = sessionId := by
  constructor
  · intro wellFormed
    exact ⟨wellFormed.sorted, fun _ _ found => wellFormed.keyed _ (mem_of_get found)⟩
  · intro ⟨sorted, keyed⟩
    exact ⟨sorted, fun entry member => keyed _ _ (get_of_mem sorted member)⟩

section

variable (wellFormed : store.WellFormed)

include wellFormed

theorem WellFormed.id_of_get (found : store.get sessionId = some session) :
    session.id = sessionId :=
  (wellFormed_iff.mp wellFormed).2 sessionId session found

/-- A store whose sessions were all there before is well formed again. -/
theorem WellFormed.of_sub {after : McpHttpSessionStore} (sorted : Sorted after.sessions)
    (kept : ∀ sessionId session, after.get sessionId = some session →
      store.get sessionId = some session) :
    after.WellFormed :=
  wellFormed_iff.mpr ⟨sorted, fun _ _ found => wellFormed.id_of_get (kept _ _ found)⟩

theorem WellFormed.put (keyed : session.id = sessionId) :
    (store.put sessionId session).WellFormed := by
  apply wellFormed_iff.mpr
  refine ⟨sorted_insert wellFormed.sorted, ?_⟩
  intro other found isFound
  rw [get_put] at isFound
  split at isFound
  · rename_i same
    cases isFound
    rw [same, keyed]
  · exact wellFormed.id_of_get isFound

theorem WellFormed.remove (sessionId : String) : (store.remove sessionId).WellFormed := by
  apply wellFormed.of_sub (sorted_remove wellFormed.sorted)
  intro other found isFound
  rw [get_remove] at isFound
  split at isFound
  · cases isFound
  · exact isFound

theorem WellFormed.pruneExpired (nowMs : Nat) : (store.pruneExpired nowMs).WellFormed := by
  have sorted : Sorted (store.pruneExpired nowMs).sessions := by
    show Sorted (OrderedMap.retain
      (fun _ session => decide (session.expiresAtMs > nowMs)) store.sessions)
    exact sorted_retain wellFormed.sorted
  exact wellFormed.of_sub sorted (fun _ _ found => get_of_pruneExpired wellFormed.sorted found)

theorem WellFormed.evict (rank : String → Nat) :
    (store.evictUntilCapacityForInsert rank).WellFormed :=
  wellFormed.of_sub (sorted_evictLoop wellFormed.sorted) (fun _ _ found => get_of_evictLoop found)

end

theorem wellFormed_new (maxSessions ttlMs : Nat) : (new maxSessions ttlMs).WellFormed :=
  ⟨sorted_nil, fun _ member => absurd member List.not_mem_nil⟩

end WellFormed

end McpHttpSessionStore

end Mcpace.Mcp

import Mcpace.Library.Trace
import Mcpace.Mcp.HttpServer

/-!
Owns the interleavings of HTTP requests: connections that serve one request after another, and
the atomic steps they take on the shared session store.

A connection receives a request, runs the critical section the request asks for, and dispatches
it. Other connections may step in between. Each step shows what it did: the session that was
created, marked ready, checked or dispatched for, and the sessions that were lost.

Sessions are told apart by `SessionRef`: the id, and how many sessions had been created under it.
No operation reads that number.
-/

namespace Mcpace.Mcp

open Library Json Function
open Dashboard (HttpRequest)

/-! ### Connections -/

structure SessionRef where
  id : String
  incarnation : Nat
deriving DecidableEq, Repr

inductive HttpPhase where
  | idle
  | waiting (task : HttpTask)
  | admitted (session : SessionRef) (view : McpHttpSessionView) (call : HttpCall)

/-- `creations` counts the sessions created under each id. -/
structure HttpWorld (P : Type) where
  store : McpHttpSessionStore
  creations : String → Nat
  phase : P → HttpPhase

inductive HttpEvent where
  | receive (request : HttpRequest)
  | lock (host : HttpHost)
  | dispatch (adapter : HttpAdapter)
  | overview (nowMs : Nat)

def HttpEvent.clock : HttpEvent → Option Nat
  | .lock host => some host.nowMs
  | .overview nowMs => some nowMs
  | .receive _ | .dispatch _ => none

inductive HttpDeed where
  | created (session : SessionRef) (call : HttpCall)
  | marked (session : SessionRef) (call : HttpCall)
  | checked (session : SessionRef) (call : HttpCall)
  | dispatched (session : SessionRef) (call : HttpCall) (handler : Option HandlerCall)

/-- What a step shows. `touched` is the session whose expiry was put off. -/
structure HttpOutcome where
  response : Option McpHttpResponse
  removed : List SessionRef
  touched : Option SessionRef
  deed : Option HttpDeed

def HttpOutcome.silent : HttpOutcome := ⟨none, [], none, none⟩

def refOf (creations : String → Nat) (sessionId : String) : SessionRef :=
  ⟨sessionId, creations sessionId⟩

/-! ### Critical sections -/

/-- A critical section: what it leaves, and what it shows apart from lost sessions. -/
structure CriticalSection where
  store : McpHttpSessionStore
  creations : String → Nat
  phase : HttpPhase
  response : Option McpHttpResponse
  touched : Option SessionRef
  deed : Option HttpDeed

section Sections

variable (store : McpHttpSessionStore) (creations : String → Nat) (host : HttpHost)

def touchedRef (request : HttpRequest) : Option SessionRef :=
  (touchFromRequest store request host.nowMs).1.toOption.map (fun view => refOf creations view.id)

def touchSection (request : HttpRequest) (id : JsonValue) : CriticalSection :=
  let result := touchFromRequest store request host.nowMs
  { store := result.2
    creations := creations
    phase := .idle
    response := some (match result.1 with
      | .ok _ => .accepted
      | .error error => sessionErrorResponse error id)
    touched := touchedRef store creations host request
    deed := none }

def markSection (call : HttpCall) : CriticalSection :=
  let result := markInitializedFromRequest store call.request host.nowMs
  { store := result.2
    creations := creations
    phase := .idle
    response := some (match result.1 with
      | .ok _ => .accepted
      | .error error => sessionErrorResponse error call.id)
    touched := touchedRef store creations host call.request
    deed := result.1.toOption.map (fun view => .marked (refOf creations view.id) call) }

/-- A request that is admitted goes on to its dispatch, a notification is done. -/
def checkSection (call : HttpCall) : CriticalSection :=
  let result := prepareMcpSession store call host.nowMs
  { store := result.2
    creations := creations
    phase := match result.1 with
      | .ok view => if call.requestId.isSome then .admitted (refOf creations view.id) view call
          else .idle
      | .error _ => .idle
    response := match result.1 with
      | .ok _ => if call.requestId.isSome then none else some .accepted
      | .error response => some response
    touched := touchedRef store creations host call.request
    deed := result.1.toOption.map (fun view => .checked (refOf creations view.id) call) }

def createSection (call : HttpCall) : CriticalSection :=
  let failed := fun (after : McpHttpSessionStore) (response : McpHttpResponse) =>
    (⟨after, creations, .idle, some response, none, none⟩ : CriticalSection)
  match host.randomSessionId with
  | .error error => failed store (.jsonStatus "500 Internal Server Error"
      ((Reply.error errorInternal
        ("failed to generate cryptographically secure MCP HTTP session id: " ++ error)
        none).toResponse call.id))
  | .ok sessionId =>
    match store.createOrReplace (call.newSession sessionId) host.rank host.nowMs with
    | (.error error, after) => failed after (sessionErrorResponse error call.id)
    | (.ok _, after) =>
      let session : SessionRef := ⟨sessionId, creations sessionId + 1⟩
      { store := after
        creations := update creations sessionId (creations sessionId + 1)
        phase := .idle
        response := some (initializeResponse host call sessionId)
        touched := some session
        deed := some (.created session call) }

def closeSection (request : HttpRequest) : CriticalSection :=
  let result := closeFromRequest store request host.nowMs
  { store := result.2
    creations := creations
    phase := .idle
    response := some (match result.1 with
      | .ok _ => .accepted
      | .error error => .sessionError error.httpStatus error.message)
    touched := none
    deed := none }

def HttpTask.run : HttpTask → CriticalSection
  | .touch request id => touchSection store creations host request id
  | .mark call => markSection store creations host call
  | .check call => checkSection store creations host call
  | .create call => createSection store creations host call
  | .close request => closeSection store creations host request

end Sections

/-! ### Steps -/

/-- The sessions that are gone afterwards, or replaced by a new one under their id. -/
def removedRefs (before after : McpHttpSessionStore) (creations creationsAfter : String → Nat) :
    List SessionRef :=
  ((OrderedMap.keys before.sessions).filter (fun sessionId =>
    (after.get sessionId).isNone || creationsAfter sessionId != creations sessionId)).map
      (refOf creations)

def CriticalSection.outcome (done : CriticalSection) (store : McpHttpSessionStore)
    (creations : String → Nat) : HttpOutcome :=
  ⟨done.response, removedRefs store done.store creations done.creations, done.touched, done.deed⟩

section Steps

variable {P : Type} [DecidableEq P] (parse : String → Except String JsonValue)

def HttpWorld.setPhase (world : HttpWorld P) (process : P) (phase : HttpPhase) : HttpWorld P :=
  { world with phase := update world.phase process phase }

def receiveStep (world : HttpWorld P) (process : P) (request : HttpRequest) :
    HttpOutcome × HttpWorld P :=
  match world.phase process with
  | .idle =>
    match routeTask parse request with
    | .error response => ({ HttpOutcome.silent with response := some response }, world)
    | .ok task => (HttpOutcome.silent, world.setPhase process (.waiting task))
  | _ => (HttpOutcome.silent, world)

def lockStep (world : HttpWorld P) (process : P) (host : HttpHost) : HttpOutcome × HttpWorld P :=
  match world.phase process with
  | .waiting task =>
    let done := task.run world.store world.creations host
    (done.outcome world.store world.creations,
      ⟨done.store, done.creations, update world.phase process done.phase⟩)
  | _ => (HttpOutcome.silent, world)

def dispatchStep (world : HttpWorld P) (process : P) (adapter : HttpAdapter) :
    HttpOutcome × HttpWorld P :=
  match world.phase process with
  | .admitted session view call =>
    let answer := dispatchCall adapter call view
    ({ HttpOutcome.silent with
        response := some answer.1, deed := some (.dispatched session call answer.2) },
      world.setPhase process .idle)
  | _ => (HttpOutcome.silent, world)

/-- The overview page also prunes the store. -/
def overviewStep (world : HttpWorld P) (nowMs : Nat) : HttpOutcome × HttpWorld P :=
  let after := world.store.pruneExpired nowMs
  ({ HttpOutcome.silent with
      removed := removedRefs world.store after world.creations world.creations },
    { world with store := after })

/-- One atomic step. An event that does not fit the connection's phase is none. -/
def httpStep (world : HttpWorld P) (action : P × HttpEvent) : HttpOutcome × HttpWorld P :=
  match action.2 with
  | .receive request => receiveStep parse world action.1 request
  | .lock host => lockStep world action.1 host
  | .dispatch adapter => dispatchStep world action.1 adapter
  | .overview nowMs => overviewStep world nowMs

def httpStart (P : Type) (maxSessions ttlMs : Nat) : HttpWorld P :=
  ⟨McpHttpSessionStore.new maxSessions ttlMs, fun _ => 0, fun _ => .idle⟩

/-- An interleaving of the connections, as the trace of its steps. -/
def httpRun (maxSessions ttlMs : Nat) (actions : List (P × HttpEvent)) :
    List ((P × HttpEvent) × HttpOutcome) :=
  Trace.trace (fun world action =>
    ((httpStep parse world action).1, some (httpStep parse world action).2))
    (httpStart P maxSessions ttlMs) actions

end Steps

end Mcpace.Mcp

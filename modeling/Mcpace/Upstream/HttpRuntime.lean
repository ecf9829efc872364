import Mcpace.Library.EventStream
import Mcpace.Mcp.Protocol

/-!
Owns how a JSON-RPC answer is taken from an HTTP response: `sse_json_rpc_body` of
`src/http_probe.rs`, and `jsonrpc_result` with `json_body_from_response` of
`src/upstream/http_runtime.rs`.

The parser, the compact printer and the redaction of diagnostics are parameters.

Does not own: which messages an upstream server may send.
-/

namespace Mcpace.Upstream

open Library Json Mcp List Text EventStream

/-- `line.strip_prefix("data:")`. -/
def stripDataField (line : List Char) : Option (List Char) :=
  if "data:".toList.isPrefixOf line then some (line.drop 5) else none

/-- The data of an event: its trimmed data lines with line feeds between them, trimmed. -/
def eventData (lines : List (List Char)) : List Char :=
  trimChars (['\n'].intercalate ((lines.filterMap stripDataField).map trimChars))

def jsonResponseIdMatches (value : JsonValue) : Option Int → Bool
  | some expectedId => messageId value = some expectedId
  | none => true

/-- The loop of `sse_json_rpc_body` over the lines of the events. -/
def sseScan (parse : String → Except String JsonValue) (expectedId : Option Int) :
    List (List (List Char)) → Option String
  | [] => none
  | event :: events =>
    let data := eventData event
    if data = [] then sseScan parse expectedId events
    else
      match parse (String.ofList data) with
      | .error _ => sseScan parse expectedId events
      | .ok value =>
        if jsonResponseIdMatches value expectedId then some (String.ofList data)
        else sseScan parse expectedId events

def sseJsonRpcBody (parse : String → Except String JsonValue) (body : String)
    (expectedId : Option Int) : Option String :=
  sseScan parse expectedId
    ((splitBlank (normalizeNewlines body.toList)).map lines)

structure HttpResponse where
  status : Nat
  contentType : String
  body : String

/-- The request whose answer is awaited, and how its failures are printed. -/
structure HttpRequest where
  serverName : String
  method : String
  expectedId : Int
  sanitize : String → String
  compact : JsonValue → String

namespace HttpRequest

def authHint (status : Nat) : String :=
  if status = 401 ∨ status = 403 then
    " Authentication is required; configure an explicit --header NAME=VALUE (environment placeholders are supported) or use an OAuth-capable stdio adapter. MCPace does not perform upstream OAuth authorization flows."
  else ""

def statusError (request : HttpRequest) (response : HttpResponse) : String :=
  "HTTP upstream server '" ++ request.serverName ++ "' returned status " ++
    toString response.status ++ " for " ++ request.method ++ ": " ++
    request.sanitize (trim response.body) ++ authHint response.status

def invalidJsonError (request : HttpRequest) (error : String) : String :=
  "HTTP upstream server '" ++ request.serverName ++ "' returned invalid JSON for " ++
    request.method ++ ": " ++ error

def replyError (request : HttpRequest) : ReplyFailure → String
  | .malformed error =>
    "HTTP upstream server '" ++ request.serverName ++
      "' returned a malformed JSON-RPC response for " ++ request.method ++ ": " ++ error.message
  | .rpcError error =>
    "HTTP upstream server '" ++ request.serverName ++ "' returned JSON-RPC error for " ++
      request.method ++ ": " ++ request.sanitize (request.compact error)
  | .missingResult => "validated JSON-RPC result"

/-- What the caller gets for the message taken from the body. -/
def reply (request : HttpRequest) (message : JsonValue) : Except String JsonValue :=
  (readEnvelope message request.expectedId).mapError request.replyError

end HttpRequest

def HttpResponse.isEventStream (response : HttpResponse) : Bool :=
  Text.contains (toAsciiLowercase response.contentType) "text/event-stream"

def jsonBodyFromResponse (parse : String → Except String JsonValue) (response : HttpResponse)
    (expectedId : Option Int) : Except String String :=
  if response.isEventStream then
    match sseJsonRpcBody parse response.body expectedId with
    | some data => .ok data
    | none =>
      .error "HTTP upstream SSE response did not contain a matching JSON-RPC response"
  else .ok (trim response.body)

def jsonrpcResult (parse : String → Except String JsonValue) (request : HttpRequest)
    (response : HttpResponse) : Except String JsonValue :=
  if ¬(200 ≤ response.status ∧ response.status < 300) then
    .error (request.statusError response)
  else do
    let body ← jsonBodyFromResponse parse response (some request.expectedId)
    let value ← (parse body).mapError request.invalidJsonError
    request.reply value

/-! ### Events -/

section Events

variable {parse : String → Except String JsonValue} {expectedId : Int}

/-- Blank lines and events without lines carry no data. -/
theorem eventData_filled (lines : List (List Char)) :
    eventData (lines.filter (· ≠ [])) = eventData lines := by
  have blank : (lines.filter (· ≠ [])).filterMap stripDataField =
      lines.filterMap stripDataField := by
    induction lines with
    | nil => rfl
    | cons line lines ih =>
      by_cases empty : line = []
      · subst empty
        rw [filter_cons_of_neg (by decide), ih]
        rfl
      · rw [filter_cons_of_pos (by simpa using empty), filterMap_cons, filterMap_cons, ih]
  rw [eventData, eventData, blank]

theorem sseScan_filled (expected : Option Int) (events : List (List (List Char))) :
    sseScan parse expected ((events.map (·.filter (· ≠ []))).filter (· ≠ [])) =
      sseScan parse expected events := by
  induction events with
  | nil => rfl
  | cons event events ih =>
    rw [map_cons]
    by_cases empty : event.filter (· ≠ []) = []
    · have silent : eventData event = [] := by
        rw [← eventData_filled, empty]
        rfl
      rw [filter_cons_of_neg (by simpa using empty), ih]
      simp [sseScan, silent]
    · rw [filter_cons_of_pos (by simpa using empty)]
      simp only [sseScan, eventData_filled, ih]

/-- The body of a stream of events is scanned event by event. -/
theorem sseJsonRpcBody_encode {events : List EventStream.Event} (fed : ∀ event ∈ events, event.Fed)
    (rest : List Char) (expected : Option Int) :
    sseJsonRpcBody parse (String.ofList (encode false events ++ rest)) expected =
      sseScan parse expected (events.map EventStream.Event.texts ++
        (splitBlank (normalizeNewlines rest)).map lines) := by
  have filled : ∀ text, ((splitBlank (normalizeNewlines text)).map lines).map
      (·.filter (· ≠ [])) = (splitBlank (normalizeNewlines text)).map filledLines :=
    fun _ => List.map_map
  have texts : (events.map EventStream.Event.texts).map (·.filter (· ≠ [])) =
      events.map EventStream.Event.texts := by
    rw [List.map_map]
    exact map_congr_left (fun event _ => event.filter_texts)
  rw [sseJsonRpcBody, String.toList_ofList, ← sseScan_filled, filled, ← sseScan_filled expected
    (events.map EventStream.Event.texts ++ _), map_append, texts, filled, filter_append]
  exact congrArg (sseScan parse expected) (decode_encode fed rest)

end Events

end Mcpace.Upstream

import Mcpace.Dashboard.Connection
import Mcpace.Mcp.HttpSession
import Mcpace.Mcp.Request

/-!
Owns the `/mcp` route of the HTTP server: `handle_mcp_http_route` and `handle_mcp_http_request` of
`src/dashboard/mcp_http.rs`, with the header checks of `src/dashboard/http_boundary.rs` and
`src/dashboard/http_headers.rs` they use.

A request is served in up to three pieces: what is decided before the session store is locked, one
critical section of the store, and what is dispatched after it. `HttpTask` is the critical section
that a request asks for.

Does not own: sockets, authentication of the route, and the adapter behind the handlers.
-/

namespace Mcpace.Mcp

open Library Json Checks Text
open Dashboard (HttpRequest maxHttpHeaderLineBytes)

/-! ### Responses -/

inductive McpHttpResponse where
  | json (payload : JsonValue)
  | jsonWithHeaders (payload : JsonValue) (headers : List (String × String))
  | jsonStatus (status : String) (payload : JsonValue)
  | accepted
  | methodNotAllowed
  | notFound
  | sessionError (status message : String)

/-- `mcp_error_response` with the status of a bad request. -/
def badRequest (id : JsonValue) (code : Int) (message : String) : McpHttpResponse :=
  .jsonStatus "400 Bad Request" ((Reply.error code message none).toResponse id)

/-! ### Headers -/

def eqIgnoreAsciiCase (left right : String) : Bool :=
  toAsciiLowercase left = toAsciiLowercase right

/-- The media type of a header item, without its parameters. -/
def mediaType (item : String) : String :=
  trim (String.ofList ((trim item).toList.takeWhile (· ≠ ';')))

def accepts (request : HttpRequest) (wanted : String) : Bool :=
  (request.headers.filter (fun header => header.1 = "accept")).any (fun header =>
    (header.2.toList.splitOn ',').any (fun item =>
      eqIgnoreAsciiCase (mediaType (String.ofList item)) wanted))

def acceptsStreamableHttpPost (request : HttpRequest) : Bool :=
  accepts request "application/json" && accepts request "text/event-stream"

def contentTypeIs (request : HttpRequest) (wanted : String) : Bool :=
  match request.headers.filter (fun header => header.1 = "content-type") with
  | [header] => eqIgnoreAsciiCase (mediaType header.2) wanted
  | _ => false

/-- A header that may be given once; the error is its message. -/
def requestHeaderStringUnique (request : HttpRequest) (key : String) :
    Except String (Option String) :=
  match request.headers.filter (fun header => header.1 = toAsciiLowercase key) with
  | [] => .ok none
  | [header] => .ok (trimNonEmpty header.2)
  | _ => .error ("multiple " ++ key ++ " headers are not allowed for MCP HTTP requests")

def mcpStandardHeaderName (message : JsonValue) (method : Method) : Option String :=
  match method with
  | .toolsCall | .promptsGet => message.stringAtPath ["params", "name"]
  | .resourcesRead => message.stringAtPath ["params", "uri"]
  | _ => none

def validateMcpStandardHeaders (request : HttpRequest) (message : JsonValue) (method : Method) :
    Except String Unit := do
  let headerMethod ← requestHeaderStringUnique request "mcp-method"
  match headerMethod.filter (· ≠ method.name) with
  | some other => throw ("Mcp-Method header '" ++ other ++ "' does not match JSON-RPC method '" ++
      method.name ++ "'")
  | none => pure ()
  let headerName ← requestHeaderStringUnique request "mcp-name"
  match headerName, mcpStandardHeaderName message method with
  | some actual, some expected =>
    require (actual = expected) ("Mcp-Name header '" ++ actual ++
      "' does not match JSON-RPC body value '" ++ expected ++ "'")
  | some actual, none => throw ("Mcp-Name header '" ++ actual ++
      "' is not valid for JSON-RPC method '" ++ method.name ++ "'")
  | none, _ => pure ()

def maxMcpHttpSessionIdBytes : Nat := 256

def normalizeMcpHttpSessionId (value : String) : Option String :=
  let trimmed := trim value
  if trimmed = "" ∨ trimmed.utf8ByteSize > maxMcpHttpSessionIdBytes ∨
      trimmed.utf8ByteSize > maxHttpHeaderLineBytes then none
  else if trimmed.toList.all (fun char => 0x21 ≤ char.toNat && char.toNat ≤ 0x7e) then
    some trimmed
  else none

/-- The session that a request names, as `touch_from_request` and `close_from_request` read it. -/
def namedSession (request : HttpRequest) (missing : String) :
    Except McpHttpSessionError String := do
  let header ← (requestHeaderStringUnique request "mcp-session-id").mapError
    (fun message => ⟨.invalid, message⟩)
  match header with
  | none => throw ⟨.missing, missing⟩
  | some raw =>
    match normalizeMcpHttpSessionId raw with
    | none => throw ⟨.invalid, "invalid Mcp-Session-Id header; expected bounded visible ASCII"⟩
    | some sessionId => pure sessionId

/-! ### Before the store is locked -/

/-- A request with a method, once its envelope and headers are accepted. -/
structure HttpCall where
  request : HttpRequest
  message : JsonValue
  method : Method
  requestId : Option JsonValue

def HttpCall.id (call : HttpCall) : JsonValue := call.requestId.getD .null

def HttpCall.requestIdKey (call : HttpCall) : Option String := call.requestId.bind Mcp.requestIdKey

/-- The critical section that a request asks for. -/
inductive HttpTask where
  | touch (request : HttpRequest) (id : JsonValue)
  | mark (call : HttpCall)
  | check (call : HttpCall)
  | create (call : HttpCall)
  | close (request : HttpRequest)

/-- What a request that passed the checks goes on with. -/
def HttpCall.task (call : HttpCall) : Except McpHttpResponse HttpTask :=
  if call.method = .initializeCall then
    if call.requestId = none then .error .accepted else .ok (.create call)
  else if call.method = .initialized ∧ call.requestId = none then .ok (.mark call)
  else .ok (.check call)

def checkProtocolHeader (request : HttpRequest) (id : JsonValue) : Except McpHttpResponse Unit :=
  match requestHeaderStringUnique request "mcp-protocol-version" with
  | .error error => .error (badRequest id errorInvalidRequest error)
  | .ok header =>
    match header.filter (fun version => !supportedProtocolVersions.contains version) with
    | some version => .error (badRequest id errorInvalidRequest
        ("unsupported MCP-Protocol-Version header: " ++ version))
    | none => .ok ()

def checkCall (call : HttpCall) : Except McpHttpResponse Unit := do
  (validateRequestEnvelope call.message).mapError
    (fun error => badRequest call.id errorInvalidRequest error.message)
  require (call.requestId = none ∨ call.method.isNotification = false)
    (badRequest call.id errorInvalidRequest "MCP notifications must not include a JSON-RPC id")
  require ((call.requestId.map requestIdIsWithinLimit).getD true = true)
    (badRequest call.id errorInvalidRequest "JSON-RPC request id exceeds the 256 byte limit")
  checkProtocolHeader call.request call.id
  (validateMcpStandardHeaders call.request call.message call.method).mapError
    (badRequest call.id errorHeaderMismatch)

/-- A message without a method is taken for a client's answer, if it looks like one. -/
def answerTask (request : HttpRequest) (message : JsonValue) : Except McpHttpResponse HttpTask :=
  if ((message.valueAtPath ["result"]).isSome || (message.valueAtPath ["error"]).isSome) then
    .ok (.touch request (requestIdOrNull message))
  else .error (badRequest (requestIdOrNull message) errorInvalidRequest "missing JSON-RPC method")

def messageTask (request : HttpRequest) (message : JsonValue) :
    Except McpHttpResponse HttpTask :=
  match message.valueAtPath ["method"] with
  | some (.string name) => do
      let call : HttpCall := ⟨request, message, Method.parse name, requestId message⟩
      checkCall call
      call.task
  | some _ => .error (badRequest (requestIdOrNull message) errorInvalidRequest
      "JSON-RPC method must be a string")
  | none => answerTask request message

section Parser

variable (parse : String → Except String JsonValue)

def postTask (request : HttpRequest) : Except McpHttpResponse HttpTask := do
  require (acceptsStreamableHttpPost request = true) (badRequest .null errorInvalidRequest
    "missing required Accept header entries: application/json and text/event-stream")
  require (contentTypeIs request "application/json" = true) (badRequest .null errorInvalidRequest
    "missing required Content-Type header: application/json")
  let text ← (Utf8.fromUtf8 request.body).mapError (fun error =>
    badRequest .null errorParse ("invalid UTF-8 request body: " ++ error))
  let message ← (parse (trim text)).mapError (fun error =>
    badRequest .null errorParse ("invalid JSON-RPC body: " ++ error))
  messageTask request message

/-- `handle_mcp_http_route`, up to the store. -/
def routeTask (request : HttpRequest) : Except McpHttpResponse HttpTask :=
  match request.method with
  | "GET" => .error .methodNotAllowed
  | "DELETE" => .ok (.close request)
  | "POST" => postTask parse request
  | _ => .error .notFound

end Parser

/-! ### Under the lock -/

def sessionErrorCode : McpHttpSessionErrorKind → Int
  | .missing | .invalid | .protocolMismatch | .duplicateRequestId | .requestIdLimit =>
    errorInvalidRequest
  | .unknown | .expired => errorNotInitialized

def sessionErrorResponse (error : McpHttpSessionError) (id : JsonValue) : McpHttpResponse :=
  .jsonStatus error.httpStatus
    ((Reply.error (sessionErrorCode error.kind) error.message none).toResponse id)

/-- What a critical section finds outside the store: the clock, the order in which the map is
iterated, the random session id, and the constants of the answer to `initialize`. -/
structure HttpHost where
  nowMs : Nat
  rank : String → Nat
  randomSessionId : Except String String
  capabilities : JsonValue
  instructions : String
  version : String

def touchFromRequest (store : McpHttpSessionStore) (request : HttpRequest) (nowMs : Nat) :
    Except McpHttpSessionError McpHttpSessionView × McpHttpSessionStore :=
  match namedSession request "missing required Mcp-Session-Id header after initialize" with
  | .error error => (.error error, store)
  | .ok sessionId =>
    match requestHeaderStringUnique request "mcp-protocol-version" with
    | .error message => (.error ⟨.invalid, message⟩, store)
    | .ok protocolHeader => store.touch sessionId protocolHeader nowMs

def markInitializedFromRequest (store : McpHttpSessionStore) (request : HttpRequest)
    (nowMs : Nat) : Except McpHttpSessionError McpHttpSessionView × McpHttpSessionStore :=
  match touchFromRequest store request nowMs with
  | (.error error, touched) => (.error error, touched)
  | (.ok session, touched) => touched.markInitialized session.id

def closeFromRequest (store : McpHttpSessionStore) (request : HttpRequest) (nowMs : Nat) :
    Except McpHttpSessionError McpHttpSessionView × McpHttpSessionStore :=
  match namedSession request "DELETE /mcp requires Mcp-Session-Id" with
  | .error error => (.error error, store)
  | .ok sessionId => store.close sessionId nowMs

/-- The request id of a call is taken; a notification has none. -/
def trackCall (store : McpHttpSessionStore) (session : McpHttpSessionView) (call : HttpCall) :
    Except McpHttpSessionError McpHttpSessionView × McpHttpSessionStore :=
  match call.requestIdKey with
  | none => (.ok session, store)
  | some key => store.trackRequestId session.id key

/-- `prepare_mcp_session_for_request`. -/
def prepareMcpSession (store : McpHttpSessionStore) (call : HttpCall) (nowMs : Nat) :
    Except McpHttpResponse McpHttpSessionView × McpHttpSessionStore :=
  match touchFromRequest store call.request nowMs with
  | (.error error, touched) => (.error (sessionErrorResponse error call.id), touched)
  | (.ok view, touched) =>
    match trackCall touched view call with
    | (.error error, tracked) => (.error (sessionErrorResponse error call.id), tracked)
    | (.ok session, tracked) =>
      if call.method ≠ .ping ∧ session.initialized = false then
        (.error (badRequest call.id errorNotInitialized
          ("MCP HTTP session is initialized but not ready; send notifications/initialized " ++
            "before normal operations")), tracked)
      else (.ok session, tracked)

def negotiatedVersion (call : HttpCall) : String :=
  negotiateProtocolVersion
    ((call.message.stringAtPath ["params", "protocolVersion"]).getD currentProtocolVersion)

def HttpCall.newSession (call : HttpCall) (sessionId : String) :
    McpHttpSessionStore.NewSession where
  sessionId := sessionId
  protocolVersion := negotiatedVersion call
  clientName := call.message.stringAtPath ["params", "clientInfo", "name"]
  clientVersion := call.message.stringAtPath ["params", "clientInfo", "version"]
  initializeRequestIdKey := call.requestIdKey

def initializeResponse (host : HttpHost) (call : HttpCall) (sessionId : String) :
    McpHttpResponse :=
  let result := Reply.result (.ofEntries [("protocolVersion", .string (negotiatedVersion call)),
    ("capabilities", host.capabilities),
    ("serverInfo", .ofEntries [("name", .string "mcpace"), ("version", .string host.version)]),
    ("instructions", .string host.instructions)])
  .jsonWithHeaders (result.toResponse call.id)
    [("Mcp-Session-Id", sessionId), ("MCP-Protocol-Version", negotiatedVersion call)]

/-! ### After the lock -/

/-- The adapter as a dispatch finds it. A tool's outcome is given as the payload that the answer
carries. -/
structure HttpAdapter where
  toolListResult : String → Option String → JsonValue
  listPrompts : Option String → JsonValue
  getPrompt : String → JsonValue → Except String JsonValue
  listResources : Option String → JsonValue
  listResourceTemplates : Option String → JsonValue
  readResource : String → Except String JsonValue
  toolNames : List String
  resultOptions : String → JsonValue → Except JsonValue Unit
  runHttpTool : String → JsonValue → JsonValue

def dispatchToolCall (adapter : HttpAdapter) (call : HttpCall) : Reply × Option HandlerCall :=
  match call.message.stringAtPath ["params", "name"] with
  | none => (.error errorInvalidParams "tools/call requires a tool name" none, none)
  | some name =>
    match argumentsObjectOrEmpty call.message "tools/call" with
    | .error error => (.error errorInvalidParams error.message none, none)
    | .ok arguments =>
      if Text.startsWith name "u_" = false ∧ name ∉ adapter.toolNames then
        (.error errorInvalidParams ("Unknown tool: " ++ name) none, none)
      else match adapter.resultOptions name arguments with
        | .error payload => (.result payload, none)
        | .ok () => (.result (adapter.runHttpTool name arguments),
            some (.executeTool name arguments))

def dispatchPromptGet (adapter : HttpAdapter) (call : HttpCall) : Reply × Option HandlerCall :=
  match argumentsObjectOrEmpty call.message "prompts/get" with
  | .error error => (.error errorInvalidParams error.message none, none)
  | .ok arguments =>
    match call.message.stringAtPath ["params", "name"] with
    | some name => (Reply.ofResult (adapter.getPrompt name arguments), some (.getPrompt name arguments))
    | none => (.error errorInvalidParams "prompts/get requires a prompt name" none, none)

def dispatchRead (adapter : HttpAdapter) (call : HttpCall) : Reply × Option HandlerCall :=
  match call.message.stringAtPath ["params", "uri"] with
  | some uri => (Reply.ofResult (adapter.readResource uri), some (.readResource uri))
  | none => (.error errorInvalidParams "resources/read requires a uri" none, none)

def HttpCall.answer (call : HttpCall) (outcome : Reply × Option HandlerCall) :
    McpHttpResponse × Option HandlerCall :=
  (.json (outcome.1.toResponse call.id), outcome.2)

def dispatchToolList (adapter : HttpAdapter) (call : HttpCall) (session : McpHttpSessionView) :
    McpHttpResponse × Option HandlerCall :=
  match requestHeaderStringUnique call.request "mcp-protocol-version" with
  | .error error => (badRequest call.id errorInvalidRequest error, none)
  | .ok header =>
    call.answer (.result (adapter.toolListResult (header.getD session.protocolVersion)
      (cursorOf call.message)), some (.toolListResult (cursorOf call.message)))

/-- The `match method` at the end of `handle_mcp_http_request`, for a request that passed the
session check. -/
def dispatchCall (adapter : HttpAdapter) (call : HttpCall) (session : McpHttpSessionView) :
    McpHttpResponse × Option HandlerCall :=
  let cursor := cursorOf call.message
  match call.method with
  | .ping => call.answer (.result (.object []), none)
  | .toolsList => dispatchToolList adapter call session
  | .promptsList => call.answer (.result (adapter.listPrompts cursor), some (.listPrompts cursor))
  | .promptsGet => call.answer (dispatchPromptGet adapter call)
  | .resourcesList =>
    call.answer (.result (adapter.listResources cursor), some (.listResources cursor))
  | .resourcesTemplatesList =>
    call.answer (.result (adapter.listResourceTemplates cursor),
      some (.listResourceTemplates cursor))
  | .resourcesRead => call.answer (dispatchRead adapter call)
  | .toolsCall => call.answer (dispatchToolCall adapter call)
  | .initializeCall | .initialized | .cancelled | .other _ =>
    call.answer (.error errorMethodNotFound
      ("unsupported MCP method '" ++ call.method.name ++ "'") none, none)

end Mcpace.Mcp

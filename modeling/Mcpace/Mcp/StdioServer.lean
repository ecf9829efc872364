import Mcpace.Library.Trace
import Mcpace.Mcp.Request

/-!
Owns the loop of the stdio server: `serve` of `src/mcp_server.rs` with `track_stdio_request_id`.

One turn of the loop reads one line, writes at most one message and may stop the server. What is
read, whether stdout takes the message and what the adapter answers are given turn by turn; they
may change from one turn to the next. The JSON parser is a parameter.

Does not own: how bytes are cut into lines, and the adapter behind the tools, prompts and
resources methods.
-/

namespace Mcpace.Mcp

open Library Json

/-! ### Replay tracking -/

def maxMcpStdioMessageBytes : Nat := 8 * 1024 * 1024
def maxMcpStdioRequestIds : Nat := 4096

inductive RequestIdReplayError where
  | invalid
  | tooLong
  | duplicate
  | full
deriving DecidableEq, Repr

/-- `track_stdio_request_id`: the key that is now taken. -/
def trackStdioRequestId (seenRequestIds : Finset String) (id : JsonValue) :
    Except RequestIdReplayError String :=
  if !isRequestIdValue id then .error .invalid
  else if !requestIdIsWithinLimit id then .error .tooLong
  else match requestIdKey id with
    | none => .error .invalid
    | some idKey =>
      if idKey ∈ seenRequestIds then .error .duplicate
      else if seenRequestIds.card ≥ maxMcpStdioRequestIds then .error .full
      else .ok idKey

/-! ### Turns -/

inductive StdioRead where
  | eof
  | line (text : String)
  | tooLong
  | failed (error : String)
  | notUtf8 (error : String)

inductive ToolCallError where
  | invalidParams (message : String)
  | unknownTool (message : String)
  | execution (message : String)

/-- The adapter as one turn finds it. -/
structure Adapter where
  capabilities : JsonValue
  instructions : String
  version : String
  toolListResult : Option JsonValue → Option String → JsonValue
  listPrompts : Option String → JsonValue
  getPrompt : String → JsonValue → Except String JsonValue
  listResources : Option String → JsonValue
  listResourceTemplates : Option String → JsonValue
  readResource : String → Except String JsonValue
  executeTool : String → JsonValue → Option JsonValue → Except ToolCallError JsonValue

structure StdioTurn where
  read : StdioRead
  stdoutAccepts : Bool
  adapter : Adapter

structure StdioState where
  initializeSeen : Bool
  initializedNotificationSeen : Bool
  initializeParams : Option JsonValue
  seenRequestIds : Finset String

def StdioState.start : StdioState := ⟨false, false, none, ∅⟩

/-- What a turn shows: the message that was written, what replay tracking said of its id, the
handler that ran, the line on stderr and the exit code of a server that stops. -/
structure TurnOutcome where
  response : Option JsonValue
  replay : Option (Except RequestIdReplayError String)
  handler : Option HandlerCall
  diagnostic : Option String
  exit : Option Nat

def TurnOutcome.silent : TurnOutcome := ⟨none, none, none, none, none⟩

/-! ### Admission -/

def isEmptyLine (text : String) : Bool := Text.trim text = ""

/-- Why a message does not get to the replay check, or that it does. -/
inductive Admission where
  | refused (id : JsonValue) (reply : Reply)
  | ignored
  | admitted (method : Method)

/-- A gate that answers requests and drops notifications. -/
def notReady (id : Option JsonValue) (message : String) : Admission :=
  match id with
  | some id => .refused id (.error errorNotInitialized message none)
  | none => .ignored

def lifecycleGate (state : StdioState) (method : Method) (id : Option JsonValue) : Admission :=
  if method ≠ .initializeCall ∧ method ≠ .ping ∧ state.initializeSeen = false then
    notReady id "Server not initialized; send initialize first"
  else if state.initializeSeen = true ∧ state.initializedNotificationSeen = false ∧
      method ≠ .initializeCall ∧ method ≠ .ping ∧ method ≠ .initialized then
    notReady id ("MCP session is initialized but not ready; send notifications/initialized " ++
      "before normal operations")
  else .admitted method

def idGate (method : Method) (id : JsonValue) (pass : Admission) : Admission :=
  if method.isNotification then
    .refused id (.error errorInvalidRequest "MCP notifications must not include a JSON-RPC id" none)
  else if !requestIdIsWithinLimit id then
    .refused id (.error errorInvalidRequest "JSON-RPC request id exceeds the 256 byte limit" none)
  else pass

def admitMessage (state : StdioState) (message : JsonValue) : Admission :=
  match validateRequestEnvelope message with
  | .error error =>
    .refused (requestIdOrNull message) (.error errorInvalidRequest error.message none)
  | .ok () =>
    match messageMethod message with
    | none =>
      .refused (requestIdOrNull message)
        (.error errorInvalidRequest "Missing JSON-RPC method" none)
    | some method =>
      match requestId message with
      | some id => idGate method id (lifecycleGate state method (some id))
      | none => lifecycleGate state method none

/-! ### Dispatch -/

structure Dispatched where
  state : StdioState
  reply : Option Reply
  handler : Option HandlerCall

def toolErrorResult (message : String) : JsonValue :=
  .ofEntries [("content", .array [.ofEntries [("type", .string "text"), ("text", .string message)]]),
    ("structuredContent", .ofEntries [("error", .string message)]), ("isError", .bool true)]

def ofToolCall (outcome : Except ToolCallError JsonValue) : Reply :=
  match outcome with
  | .ok value => .result value
  | .error (.invalidParams message) => .error errorInvalidParams message none
  | .error (.unknownTool message) => .error errorInvalidParams message none
  | .error (.execution message) => .result (toolErrorResult message)

def initializeResult (adapter : Adapter) (message : JsonValue) : JsonValue :=
  let requested := (message.stringAtPath ["params", "protocolVersion"]).getD currentProtocolVersion
  .ofEntries [("protocolVersion", .string (negotiateProtocolVersion requested)),
    ("capabilities", adapter.capabilities),
    ("serverInfo", .ofEntries [("name", .string "mcpace"), ("version", .string adapter.version)]),
    ("instructions", .string adapter.instructions)]

/-- The branches of the tools, prompts and resources methods: the reply, and the handler that gave
it. A request that lacks what its handler is called on is answered without one. -/
def handle (adapter : Adapter) (initializeParams : Option JsonValue) (message : JsonValue) :
    Method → Option (Reply × Option HandlerCall)
  | .toolsList =>
    some (.result (adapter.toolListResult initializeParams (cursorOf message)),
      some (.toolListResult (cursorOf message)))
  | .promptsList =>
    some (.result (adapter.listPrompts (cursorOf message)), some (.listPrompts (cursorOf message)))
  | .promptsGet =>
    let arguments := (message.valueAtPath ["params", "arguments"]).getD (.object [])
    match message.stringAtPath ["params", "name"] with
    | some name => some (Reply.ofResult (adapter.getPrompt name arguments),
        some (.getPrompt name arguments))
    | none => some (.error errorInvalidParams "prompts/get requires a prompt name" none, none)
  | .resourcesList =>
    some (.result (adapter.listResources (cursorOf message)),
      some (.listResources (cursorOf message)))
  | .resourcesTemplatesList =>
    some (.result (adapter.listResourceTemplates (cursorOf message)),
      some (.listResourceTemplates (cursorOf message)))
  | .resourcesRead =>
    match message.stringAtPath ["params", "uri"] with
    | some uri => some (Reply.ofResult (adapter.readResource uri), some (.readResource uri))
    | none => some (.error errorInvalidParams "resources/read requires a uri" none, none)
  | .toolsCall =>
    match message.stringAtPath ["params", "name"] with
    | none => some (.error errorInvalidParams "tools/call requires a tool name" none, none)
    | some name =>
      match argumentsObjectOrEmpty message "tools/call" with
      | .error error => some (.error errorInvalidParams error.message none, none)
      | .ok arguments =>
        some (ofToolCall (adapter.executeTool name arguments initializeParams),
          some (.executeTool name arguments))
  | _ => none

/-- The `match method` of the loop. -/
def dispatch (state : StdioState) (adapter : Adapter) (message : JsonValue) (method : Method)
    (id : Option JsonValue) : Dispatched :=
  match method, id with
  | .initialized, _ => ⟨{ state with initializedNotificationSeen := true }, none, none⟩
  | .cancelled, _ => ⟨state, none, none⟩
  | _, none => ⟨state, none, none⟩
  | .initializeCall, some _ =>
    if state.initializeSeen then
      ⟨state, some (.error errorInvalidRequest "MCP session is already initialized" none), none⟩
    else
      ⟨{ state with
          initializeSeen := true, initializeParams := message.valueAtPath ["params"] },
        some (.result (initializeResult adapter message)), none⟩
  | .ping, some _ => ⟨state, some (.result (.object [])), none⟩
  | .other name, some _ =>
    ⟨state, some (.error errorMethodNotFound ("unsupported MCP method '" ++ name ++ "'") none),
      none⟩
  | handled, some _ =>
    if state.initializeSeen = false then
      ⟨state, some (.error errorNotInitialized "Server not initialized" none), none⟩
    else match handle adapter state.initializeParams message handled with
      | some (reply, handler) => ⟨state, some reply, handler⟩
      | none => ⟨state, none, none⟩

/-! ### The loop -/

/-- A turn ends with a write, if there is something to write; a failed write stops the server. -/
def finish (turn : StdioTurn) (outcome : TurnOutcome) (next : Option StdioState) :
    TurnOutcome × Option StdioState :=
  if outcome.response.isSome ∧ turn.stdoutAccepts = false then
    ({ outcome with response := none, exit := some 1 }, none)
  else (outcome, next)

def replayMessage : RequestIdReplayError → String
  | .duplicate => "JSON-RPC request id was already used in this MCP session"
  | .full => "MCP stdio request-id replay window is full; restart the session"
  | .invalid | .tooLong => "JSON-RPC request id must be a bounded string or integer number"

/-- What happens to an id that replay tracking does not take. -/
def refuseReplay (turn : StdioTurn) (state : StdioState) (id : JsonValue)
    (error : RequestIdReplayError) : TurnOutcome × Option StdioState :=
  let response := (Reply.error errorInvalidRequest (replayMessage error) none).toResponse id
  let outcome : TurnOutcome :=
    { TurnOutcome.silent with response := some response, replay := some (.error error) }
  if error = .full then finish turn { outcome with exit := some 1 } none
  else finish turn outcome (some state)

/-- A message that passed the gates. -/
def serveAdmitted (turn : StdioTurn) (state : StdioState) (message : JsonValue)
    (method : Method) : TurnOutcome × Option StdioState :=
  match requestId message with
  | none =>
    (TurnOutcome.silent, some (dispatch state turn.adapter message method none).state)
  | some id =>
    match trackStdioRequestId state.seenRequestIds id with
    | .error error => refuseReplay turn state id error
    | .ok idKey =>
      let tracked := { state with seenRequestIds := insert idKey state.seenRequestIds }
      let dispatched := dispatch tracked turn.adapter message method (some id)
      finish turn
        { TurnOutcome.silent with
          response := dispatched.reply.map (Reply.toResponse id)
          replay := some (.ok idKey)
          handler := dispatched.handler }
        (some dispatched.state)

def serveMessage (turn : StdioTurn) (state : StdioState) (message : JsonValue) :
    TurnOutcome × Option StdioState :=
  match admitMessage state message with
  | .refused id reply =>
    finish turn { TurnOutcome.silent with response := some (reply.toResponse id) } (some state)
  | .ignored => (TurnOutcome.silent, some state)
  | .admitted method => serveAdmitted turn state message method

/-- A server that stops without having written. -/
def stop (exit : Nat) (diagnostic : Option String) : TurnOutcome × Option StdioState :=
  ({ TurnOutcome.silent with exit := some exit, diagnostic := diagnostic }, none)

section Parser

variable (parse : String → Except String JsonValue)

def serveLine (turn : StdioTurn) (state : StdioState) (text : String) :
    TurnOutcome × Option StdioState :=
  if isEmptyLine text then (TurnOutcome.silent, some state)
  else match parse (Text.trim text) with
    | .error error =>
      let reply := Reply.error errorParse "Invalid JSON message"
        (some (.ofEntries [("details", .string error)]))
      finish turn { TurnOutcome.silent with response := some (reply.toResponse .null) }
        (some state)
    | .ok message => serveMessage turn state message

def serveTurn (state : StdioState) (turn : StdioTurn) : TurnOutcome × Option StdioState :=
  match turn.read with
  | .eof => stop 0 none
  | .tooLong => stop 1 (some ("MCP stdin message exceeds the " ++
      toString maxMcpStdioMessageBytes ++ " byte limit"))
  | .failed error => stop 1 (some ("failed to read MCP stdin: " ++ error))
  | .notUtf8 error => stop 1 (some ("failed to read MCP stdin as UTF-8: " ++ error))
  | .line text => serveLine parse turn state text

/-- `serve`, as the trace of its turns. -/
def serve (turns : List StdioTurn) : List (StdioTurn × TurnOutcome) :=
  Trace.trace (serveTurn parse) StdioState.start turns

/-- The JSON message that a line holds. -/
def StdioTurn.message (turn : StdioTurn) : Option JsonValue :=
  match turn.read with
  | .line text => if isEmptyLine text then none else (parse (Text.trim text)).toOption
  | _ => none

end Parser

end Mcpace.Mcp

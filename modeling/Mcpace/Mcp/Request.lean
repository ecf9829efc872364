import Mcpace.Mcp.Protocol

/-!
Owns the request half of `src/mcp_protocol.rs`: request ids and their keys, the envelope that both
servers accept, the responses they build, and the methods they tell apart.

Does not own: what the methods do.
-/

namespace Mcpace.Mcp

open Library Json

/-! ### Request ids -/

def maxRequestIdBytes : Nat := 256

def isIntegerNumberText (value : String) : Bool :=
  let digits := (Text.stripPrefix "-" value).getD value
  digits ≠ "" && digits.toList.all Char.isDigit

def requestId (message : JsonValue) : Option JsonValue := message.valueAtPath ["id"]

def requestIdOrNull (message : JsonValue) : JsonValue := (requestId message).getD .null

def requestIdKey : JsonValue → Option String
  | .string value => some ("s:" ++ value)
  | .number value => if isIntegerNumberText value then some ("n:" ++ value) else none
  | _ => none

def requestIdByteLen : JsonValue → Option Nat
  | .string value => some value.utf8ByteSize
  | .number value => if isIntegerNumberText value then some value.utf8ByteSize else none
  | _ => none

def requestIdIsWithinLimit (id : JsonValue) : Bool :=
  ((requestIdByteLen id).map (fun length => decide (length ≤ maxRequestIdBytes))).getD false

def isRequestIdValue : JsonValue → Bool
  | .string _ => true
  | .number value => isIntegerNumberText value
  | _ => false

/-! ### Envelopes -/

/-- The members of `McpProtocolError` that a request can be refused with. -/
inductive RequestError where
  | messageNotObject
  | jsonRpcVersionMismatch (actual : Option String)
  | methodMissing
  | methodNotString
  | methodEmpty
  | paramsNotObject
  | idMustBeIntegerNumber
  | idMustNotBeNull
  | idMustBeStringOrInteger
  | argumentsNotObject (methodLabel : String)
deriving DecidableEq, Repr

def RequestError.message : RequestError → String
  | .messageNotObject => "JSON-RPC message must be an object"
  | .jsonRpcVersionMismatch (some actual) =>
    "JSON-RPC request must declare jsonrpc \"2.0\"; got '" ++ actual ++ "'"
  | .jsonRpcVersionMismatch none => "JSON-RPC request must declare jsonrpc \"2.0\""
  | .methodMissing => "JSON-RPC request requires a method"
  | .methodNotString => "JSON-RPC method must be a string"
  | .methodEmpty => "JSON-RPC method must be non-empty"
  | .paramsNotObject => "MCP params must be a JSON object when present"
  | .idMustBeIntegerNumber => "JSON-RPC request id must be an integer number when numeric"
  | .idMustNotBeNull => "JSON-RPC request id must not be null"
  | .idMustBeStringOrInteger => "JSON-RPC id must be a string or integer number when present"
  | .argumentsNotObject methodLabel =>
    methodLabel ++ " arguments must be a JSON object when present"

def validateObject (message : JsonValue) : Except RequestError Unit :=
  match message with
  | .object _ => .ok ()
  | _ => .error .messageNotObject

def validateVersion (message : JsonValue) : Except RequestError Unit :=
  match (message.get "jsonrpc").bind JsonValue.asStr with
  | some version =>
    if version = jsonRpcVersion then .ok () else .error (.jsonRpcVersionMismatch (some version))
  | none => .error (.jsonRpcVersionMismatch none)

def validateMethod (message : JsonValue) : Except RequestError Unit :=
  match message.get "method" with
  | some (.string value) => if Text.trim value = "" then .error .methodEmpty else .ok ()
  | some _ => .error .methodNotString
  | none => .error .methodMissing

def validateParams (message : JsonValue) : Except RequestError Unit :=
  match message.get "params" with
  | none | some (.object _) => .ok ()
  | some _ => .error .paramsNotObject

def validateId (message : JsonValue) : Except RequestError Unit :=
  match message.get "id" with
  | none | some (.string _) => .ok ()
  | some (.number value) =>
    if isIntegerNumberText value then .ok () else .error .idMustBeIntegerNumber
  | some .null => .error .idMustNotBeNull
  | some _ => .error .idMustBeStringOrInteger

def validateRequestEnvelope (message : JsonValue) : Except RequestError Unit := do
  validateObject message
  validateVersion message
  validateMethod message
  validateParams message
  validateId message

/-- `params_arguments_object_or_empty`. -/
def argumentsObjectOrEmpty (message : JsonValue) (methodLabel : String) :
    Except RequestError JsonValue :=
  match message.valueAtPath ["params", "arguments"] with
  | some (.object entries) => .ok (.object entries)
  | none | some .null => .ok (.object [])
  | some _ => .error (.argumentsNotObject methodLabel)

def cursorOf (message : JsonValue) : Option String := message.stringAtPath ["params", "cursor"]

/-! ### Responses -/

def errorParse : Int := -32700
def errorInvalidRequest : Int := -32600
def errorMethodNotFound : Int := -32601
def errorInvalidParams : Int := -32602
def errorInternal : Int := -32603
def errorHeaderMismatch : Int := -32001
def errorNotInitialized : Int := -32002

/-- What a request is answered with. -/
inductive Reply where
  | result (value : JsonValue)
  | error (code : Int) (message : String) (data : Option JsonValue)

/-- `mcp::result` and `mcp::error`. -/
def Reply.toResponse (id : JsonValue) : Reply → JsonValue
  | .result value =>
    .ofEntries [("jsonrpc", .string jsonRpcVersion), ("id", id), ("result", value)]
  | .error code message data =>
    let body := [("code", JsonValue.number (toString code)), ("message", .string message)]
    .ofEntries [("jsonrpc", .string jsonRpcVersion), ("id", id),
      ("error", .ofEntries (body ++ (data.map (fun value => ("data", value))).toList))]

/-- The answer of a handler whose errors are the caller's. -/
def Reply.ofResult (outcome : Except String JsonValue) : Reply :=
  match outcome with
  | .ok value => .result value
  | .error reason => .error errorInvalidParams reason none

theorem get_id_toResponse (id : JsonValue) (reply : Reply) :
    (reply.toResponse id).get "id" = some id := by
  cases reply <;> exact JsonValue.get_ofEntries "id" _

/-! ### Methods -/

def currentProtocolVersion : String := "2025-11-25"

def supportedProtocolVersions : List String :=
  ["2025-11-25", "2025-06-18", "2025-03-26", "2024-11-05"]

def negotiateProtocolVersion (requested : String) : String :=
  (supportedProtocolVersions.find? (· = requested)).getD currentProtocolVersion

/-- The methods that the servers dispatch on. -/
inductive Method where
  | initializeCall
  | initialized
  | cancelled
  | ping
  | toolsList
  | promptsList
  | promptsGet
  | resourcesList
  | resourcesTemplatesList
  | resourcesRead
  | toolsCall
  | other (name : String)
deriving DecidableEq, Repr

namespace Method

def parse : String → Method
  | "initialize" => .initializeCall
  | "notifications/initialized" => .initialized
  | "notifications/cancelled" => .cancelled
  | "ping" => .ping
  | "tools/list" => .toolsList
  | "prompts/list" => .promptsList
  | "prompts/get" => .promptsGet
  | "resources/list" => .resourcesList
  | "resources/templates/list" => .resourcesTemplatesList
  | "resources/read" => .resourcesRead
  | "tools/call" => .toolsCall
  | name => .other name

def name : Method → String
  | .initializeCall => "initialize"
  | .initialized => "notifications/initialized"
  | .cancelled => "notifications/cancelled"
  | .ping => "ping"
  | .toolsList => "tools/list"
  | .promptsList => "prompts/list"
  | .promptsGet => "prompts/get"
  | .resourcesList => "resources/list"
  | .resourcesTemplatesList => "resources/templates/list"
  | .resourcesRead => "resources/read"
  | .toolsCall => "tools/call"
  | .other name => name

theorem name_parse (text : String) : (parse text).name = text := by
  rw [parse.eq_def]
  split <;> rfl

/-- `method_is_notification`. -/
def isNotification (method : Method) : Bool := Text.startsWith method.name "notifications/"

end Method

/-- The handlers behind the tools, prompts and resources methods, with what they are called on. -/
inductive HandlerCall where
  | toolListResult (cursor : Option String)
  | listPrompts (cursor : Option String)
  | getPrompt (name : String) (arguments : JsonValue)
  | listResources (cursor : Option String)
  | listResourceTemplates (cursor : Option String)
  | readResource (uri : String)
  | executeTool (name : String) (arguments : JsonValue)
deriving DecidableEq, Repr

/-- The method of a message that has one. -/
def messageMethod (message : JsonValue) : Option Method :=
  (message.stringAtPath ["method"]).map Method.parse

end Mcpace.Mcp

import Mcpace.Json.Value

/-!
Owns the envelope of JSON-RPC messages: which documents are calls and which are
responses, and what `validate_response_envelope` of `src/mcp_protocol.rs` accepts.

`readEnvelope` is the common end of both transports: the envelope is validated,
then its error or its result is taken.
-/

namespace Mcpace.Mcp

open Json JsonValue

def jsonRpcVersion : String := "2.0"

inductive McpProtocolError where
  | messageNotObject
  | responseJsonRpcVersionMismatch (actual : Option String)
  | responseIdMismatch (expected : Int)
  | responseHasBothResultAndError
  | responseMissingResultOrError
  | responseErrorNotObject
deriving DecidableEq, Repr

def McpProtocolError.message : McpProtocolError → String
  | .messageNotObject => "JSON-RPC message must be an object"
  | .responseJsonRpcVersionMismatch (some actual) =>
    "JSON-RPC response must declare jsonrpc \"2.0\"; got '" ++ actual ++ "'"
  | .responseJsonRpcVersionMismatch none => "JSON-RPC response must declare jsonrpc \"2.0\""
  | .responseIdMismatch expected =>
    "JSON-RPC response id does not match request id " ++ toString expected
  | .responseHasBothResultAndError => "JSON-RPC response cannot contain both result and error"
  | .responseMissingResultOrError =>
    "JSON-RPC response must contain exactly one of result or error"
  | .responseErrorNotObject => "JSON-RPC response error must be an object"

/-- The integer id of a message, as both transports read it. -/
def messageId (message : JsonValue) : Option Int :=
  (message.valueAtPath ["id"]).bind asI64

def validateResponseEnvelope (message : JsonValue) (expectedId : Int) :
    Except McpProtocolError Unit :=
  match message with
  | .object entries =>
    let object := JsonValue.object entries
    match (object.get "jsonrpc").bind asStr with
    | none => .error (.responseJsonRpcVersionMismatch none)
    | some version =>
      if version ≠ jsonRpcVersion then
        .error (.responseJsonRpcVersionMismatch (some version))
      else if (object.get "id").bind asI64 ≠ some expectedId then
        .error (.responseIdMismatch expectedId)
      else
        match (object.get "result").isSome, object.get "error" with
        | true, some _ => .error .responseHasBothResultAndError
        | false, none => .error .responseMissingResultOrError
        | false, some (.object _) | true, none => .ok ()
        | false, some _ => .error .responseErrorNotObject
  | _ => .error .messageNotObject

/-- Why an envelope gives no result. `missingResult` is the `expect` on a validated
envelope. -/
inductive ReplyFailure where
  | malformed (error : McpProtocolError)
  | rpcError (error : JsonValue)
  | missingResult
deriving DecidableEq, Repr

def readEnvelope (message : JsonValue) (expectedId : Int) : Except ReplyFailure JsonValue :=
  match validateResponseEnvelope message expectedId with
  | .error error => .error (.malformed error)
  | .ok () =>
    match message.valueAtPath ["error"], message.valueAtPath ["result"] with
    | some error, _ => .error (.rpcError error)
    | none, some result => .ok result
    | none, none => .error .missingResult

/-! ### Calls and responses -/

/-- A notification or a request: an object with a method, under any id or none. -/
structure IsCall (message : JsonValue) : Prop where
  object : ∃ entries, message = .object entries
  method : ∃ name, message.get "method" = some (.string name)

/-- What a response answers with. -/
inductive Answer where
  | result (value : JsonValue)
  | error (entries : JsonMap)

/-- A response to the request `expectedId`: no method, and exactly one of a result and
an error object. -/
structure IsResponse (expectedId : Int) (message : JsonValue) (answer : Answer) : Prop where
  object : ∃ entries, message = .object entries
  method : message.get "method" = none
  version : message.get "jsonrpc" = some (.string jsonRpcVersion)
  id : messageId message = some expectedId
  body : match answer with
    | .result value => message.get "result" = some value ∧ message.get "error" = none
    | .error entries => message.get "result" = none ∧ message.get "error" = some (.object entries)

def Answer.outcome : Answer → Except ReplyFailure JsonValue
  | .result value => .ok value
  | .error entries => .error (.rpcError (.object entries))

variable {message : JsonValue} {expectedId : Int} {answer : Answer}

theorem IsCall.ne_response {call : JsonValue} (isCall : IsCall call)
    (response : IsResponse expectedId message answer) : call ≠ message := by
  intro same
  obtain ⟨name, method⟩ := isCall.method
  rw [same, response.method] at method
  cases method

theorem IsResponse.validate (response : IsResponse expectedId message answer) :
    validateResponseEnvelope message expectedId = .ok () := by
  obtain ⟨entries, rfl⟩ := response.object
  have id : ((JsonValue.object entries).get "id").bind asI64 = some expectedId := by
    rw [← valueAtPath_singleton]
    exact response.id
  have body := response.body
  cases answer with
  | result value =>
    simp only [validateResponseEnvelope, response.version, Option.bind_some, asStr, id,
      body.1, body.2]
    simp
  | error members =>
    simp only [validateResponseEnvelope, response.version, Option.bind_some, asStr, id,
      body.1, body.2]
    simp

/-- A response is read as its answer. -/
theorem IsResponse.readEnvelope_eq (response : IsResponse expectedId message answer) :
    readEnvelope message expectedId = answer.outcome := by
  have body := response.body
  rw [readEnvelope, response.validate, valueAtPath_singleton, valueAtPath_singleton]
  cases answer with
  | result value =>
    rw [body.1, body.2]
    rfl
  | error members =>
    rw [body.1, body.2]
    rfl

end Mcpace.Mcp

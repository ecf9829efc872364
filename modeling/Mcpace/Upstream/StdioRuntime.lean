import Mcpace.Mcp.Protocol

/-!
Owns the loop of `read_response` in `src/upstream/stdio_runtime.rs`, which waits
for the answer to one request on the output of an upstream process.

Every turn of the loop sees a lease flag, a clock and one receive; a `Poll` holds
what a turn sees. The parser, the compact printer and what the process wrote to
its error output are parameters.

Does not own: which messages an upstream process may send.
-/

namespace Mcpace.Upstream

open Library Json Mcp

/-- One receive from the output channel. -/
inductive Received where
  | line (text : String)
  | error (text : String)
  | timeout
  | disconnected
deriving DecidableEq, Repr

/-- What one turn of the loop observes. -/
structure Poll where
  leaseLost : Bool
  expired : Bool
  received : Received
  /-- The lease flag after a line has arrived, and again after its id has matched. -/
  leaseLostOnLine : Bool
  leaseLostOnMatch : Bool
deriving DecidableEq, Repr

/-- The request whose answer is awaited, and how its failures are printed. -/
structure StdioRequest where
  serverName : String
  method : String
  expectedId : Int
  stderrSuffix : String
  compact : JsonValue → String

namespace StdioRequest

def leaseLostError (request : StdioRequest) : String :=
  "runtime lease lost while waiting for upstream server '" ++ request.serverName ++
    "' response to " ++ request.method ++
    "; upstream process was cancelled before using a stale result" ++ request.stderrSuffix

def timedOutError (request : StdioRequest) : String :=
  "timed out waiting for upstream server '" ++ request.serverName ++ "' response to " ++
    request.method ++ "." ++ " (id " ++ toString request.expectedId ++ ")" ++
    request.stderrSuffix

def invalidOutputError (request : StdioRequest) (error : String) : String :=
  "upstream server '" ++ request.serverName ++ "' produced invalid output while responding to " ++
    request.method ++ ": " ++ error ++ request.stderrSuffix

def closedError (request : StdioRequest) : String :=
  "upstream server '" ++ request.serverName ++ "' closed stdout before responding to " ++
    request.method ++ request.stderrSuffix

def replyError (request : StdioRequest) : ReplyFailure → String
  | .malformed error =>
    "upstream server '" ++ request.serverName ++
      "' returned a malformed JSON-RPC response for " ++ request.method ++ ": " ++
      error.message ++ request.stderrSuffix
  | .rpcError error =>
    "upstream server '" ++ request.serverName ++ "' returned JSON-RPC error for " ++
      request.method ++ ": " ++ request.compact error ++ request.stderrSuffix
  | .missingResult => "validated JSON-RPC result"

/-- What the caller gets for a message whose id matches. -/
def reply (request : StdioRequest) (message : JsonValue) : Except String JsonValue :=
  (readEnvelope message request.expectedId).mapError request.replyError

end StdioRequest

/-- The message of a line, if the loop looks at its id at all. -/
def lineMessage (parse : String → Except String JsonValue) (line : String) : Option JsonValue :=
  let trimmed := Text.trim line
  if trimmed.toList.head? ≠ some '\x7b' then none
  else (parse trimmed).toOption

/-- `read_response`: its result and the turns that were not taken. It is `none` while
it still waits after all the given turns. -/
def readResponse (parse : String → Except String JsonValue) (request : StdioRequest) :
    List Poll → Option (Except String JsonValue × List Poll)
  | [] => none
  | poll :: polls =>
    if poll.leaseLost then some (.error request.leaseLostError, polls)
    else if poll.expired then some (.error request.timedOutError, polls)
    else
      match poll.received with
      | .error error => some (.error (request.invalidOutputError error), polls)
      | .timeout => readResponse parse request polls
      | .disconnected => some (.error request.closedError, polls)
      | .line line =>
        if poll.leaseLostOnLine then some (.error request.leaseLostError, polls)
        else
          match lineMessage parse line with
          | none => readResponse parse request polls
          | some message =>
            if messageId message ≠ some request.expectedId then
              readResponse parse request polls
            else if poll.leaseLostOnMatch then some (.error request.leaseLostError, polls)
            else some (request.reply message, polls)

/-- The lease is held and the deadline has not passed when the turn looks. -/
structure Poll.Calm (poll : Poll) : Prop where
  leaseHeld : poll.leaseLost = false
  inTime : poll.expired = false
  leaseHeldOnLine : ∀ line, poll.received = .line line → poll.leaseLostOnLine = false

section Turns

variable {parse : String → Except String JsonValue} {request : StdioRequest} {poll : Poll}

theorem readResponse_timeout (calm : poll.Calm) (silent : poll.received = .timeout)
    (polls : List Poll) :
    readResponse parse request (poll :: polls) = readResponse parse request polls := by
  simp [readResponse, calm.leaseHeld, calm.inTime, silent]

theorem readResponse_skip {line : String} {message : JsonValue} (calm : poll.Calm)
    (arrived : poll.received = .line line) (read : lineMessage parse line = some message)
    (other : messageId message ≠ some request.expectedId) (polls : List Poll) :
    readResponse parse request (poll :: polls) = readResponse parse request polls := by
  simp [readResponse, calm.leaseHeld, calm.inTime, calm.leaseHeldOnLine line arrived, arrived, read,
    other]

theorem readResponse_match {line : String} {message : JsonValue} (calm : poll.Calm)
    (arrived : poll.received = .line line) (read : lineMessage parse line = some message)
    (same : messageId message = some request.expectedId) (polls : List Poll) :
    readResponse parse request (poll :: polls) =
      some (if poll.leaseLostOnMatch then .error request.leaseLostError else request.reply message,
        polls) := by
  simp only [readResponse, calm.leaseHeld, calm.inTime, calm.leaseHeldOnLine line arrived, arrived,
    read, same]
  cases poll.leaseLostOnMatch <;> simp

/-- The loop ends in a turn that finds the lease lost or the deadline passed. -/
theorem readResponse_uncalm (uncalm : ¬poll.Calm)
    (received : poll.received = .timeout ∨ ∃ line, poll.received = .line line) (polls : List Poll) :
    ∃ error, (error = request.leaseLostError ∨ error = request.timedOutError) ∧
      readResponse parse request (poll :: polls) = some (.error error, polls) := by
  cases lost : poll.leaseLost with
  | true => exact ⟨_, .inl rfl, by simp [readResponse, lost]⟩
  | false =>
    cases expired : poll.expired with
    | true => exact ⟨_, .inr rfl, by simp [readResponse, lost, expired]⟩
    | false =>
      rcases received with silent | ⟨line, arrived⟩
      · refine absurd ⟨lost, expired, ?_⟩ uncalm
        intro line arrived
        rw [silent] at arrived
        cases arrived
      · cases lostOnLine : poll.leaseLostOnLine with
        | true => exact ⟨_, .inl rfl, by simp [readResponse, lost, expired, arrived, lostOnLine]⟩
        | false => exact absurd ⟨lost, expired, fun _ _ => lostOnLine⟩ uncalm

theorem head?_append {text : String} {first : Char} (opens : text.toList.head? = some first)
    (rest : String) : (text ++ rest).toList.head? = some first := by
  rw [String.toList_append, List.head?_append, opens]
  rfl

/-- Replies are told from the ends of the wait by their first letter. -/
theorem replyError_ne (failure : ReplyFailure) :
    request.replyError failure ≠ request.leaseLostError ∧
      request.replyError failure ≠ request.timedOutError := by
  have lost : request.leaseLostError.toList.head? = some 'r' := by
    unfold StdioRequest.leaseLostError
    iterate 5 apply head?_append
    decide
  have late : request.timedOutError.toList.head? = some 't' := by
    unfold StdioRequest.timedOutError
    iterate 8 apply head?_append
    decide
  have reply : (request.replyError failure).toList.head? ≠ some 'r' ∧
      (request.replyError failure).toList.head? ≠ some 't' := by
    cases failure with
    | malformed error =>
      have opens : (request.replyError (.malformed error)).toList.head? = some 'u' := by
        unfold StdioRequest.replyError
        iterate 6 apply head?_append
        decide
      rw [opens]
      decide
    | rpcError error =>
      have opens : (request.replyError (.rpcError error)).toList.head? = some 'u' := by
        unfold StdioRequest.replyError
        iterate 6 apply head?_append
        decide
      rw [opens]
      decide
    | missingResult =>
      have opens : (request.replyError .missingResult).toList.head? = some 'v' := by
        show "validated JSON-RPC result".toList.head? = some 'v'
        decide
      rw [opens]
      decide
  constructor
  · intro same
    rw [same] at reply
    exact reply.1 lost
  · intro same
    rw [same] at reply
    exact reply.2 late

end Turns

end Mcpace.Upstream

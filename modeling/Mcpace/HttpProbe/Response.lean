import Mcpace.Dashboard.Connection
import Mcpace.Library.Delimiters
import Mcpace.Library.HttpMessage
import Mcpace.Sources.ServerEntry
import Mcpace.Upstream.HttpRuntime

/-!
Owns the client's reading of an HTTP response: `read_response_until`, the two readiness checks,
`parse_response`, `decode_chunked_body` and `body_bytes` of `src/http_probe.rs`.

A thread that panics is a result of its own: the offset of a chunk and its size are machine words,
and their sum can leave the word. A socket is the pieces its reads deliver and how it ends.

Does not own: the connection, the request, and what is done with the JSON of the body.
-/

namespace Mcpace.HttpProbe

open Library ByteStream Checks Delimiters HttpMessage Text

inductive Fault where
  | error (message : String)
  | panic
deriving DecidableEq, Repr

/-- `Result::ok`; a panic is passed on. -/
def attempt {α : Type} : Except Fault α → Except Fault (Option α)
  | .ok value => .ok (some value)
  | .error (.error _) => .ok none
  | .error .panic => .error .panic

structure HttpResponse where
  statusLine : String
  status : Nat
  headers : List (String × String)
  contentType : String
  contentLength : Option Nat
  transferEncoding : String
  body : String
deriving DecidableEq, Repr

/-! ### Chunks -/

def isFieldText (text : String) : Bool := (Utf8.encode text.toList).all isFieldByte

def incomplete : Fault := .error "chunked HTTP body is incomplete"

def missingTerminator : Fault :=
  .error "chunked HTTP body is missing the final trailer terminator"

/-- The size of a chunk from its size line. -/
def chunkSize (line : List UInt8) : Except Fault Nat :=
  match Utf8.decode line with
  | none => .error (.error "chunked HTTP body has a non-UTF-8 size line")
  | some sizeLine =>
    let sizeHex := trim (String.ofList (sizeLine.takeWhile (· ≠ ';')))
    match Text.parseHexUnsigned 64 sizeHex with
    | none => .error (.error "chunked HTTP body has an invalid chunk size")
    | some size => .ok size

def checkTrailer (line : List UInt8) : Except Fault Unit :=
  match Utf8.decode line with
  | none => .error (.error "chunked HTTP body has a non-UTF-8 trailer")
  | some trailer =>
    match splitOnce ':' (String.ofList trailer) with
    | none => .error (.error "chunked HTTP body has a malformed trailer")
    | some (name, value) =>
      require (Sources.validHttpHeaderName (trim name) = true ∧ isFieldText value = true)
        (.error "chunked HTTP body has an invalid trailer")

/-- The loop over the trailers; every turn takes a line, so the bytes are turns enough. -/
def decodeTrailers : Nat → List UInt8 → Except Fault Unit
  | 0, _ => .error missingTerminator
  | fuel + 1, rest =>
    match cut crlf rest with
    | none => .error missingTerminator
    | some (trailer, after) =>
      if trailer = [] then
        require (after = []) (.error "chunked HTTP body has bytes after the final terminator")
      else do
        checkTrailer trailer
        decodeTrailers fuel after

/-- Move a chunk behind the decoded bytes; `after` is what stands behind its size line in a body of
`total` bytes. -/
def takeChunk (total size : Nat) (after decoded : List UInt8) :
    Except Fault (List UInt8 × List UInt8) := do
  let offset := total - after.length
  -- `offset + size` overflows: checked arithmetic panics, and wrapped the slice does.
  require (offset + size < 2 ^ 64) .panic
  require (size ≤ after.length) incomplete
  let decoded := decoded ++ after.take size
  let rest := after.drop size
  if crlf.isPrefixOf rest then .ok (rest.drop 2, decoded)
  else do
    require (rest = []) (.error "chunked HTTP body is missing a chunk terminator")
    .ok (rest, decoded)

/-- The loop over the chunks; `rest` is what stands behind the offset. -/
def decodeChunks (total : Nat) : Nat → List UInt8 → List UInt8 → Except Fault (List UInt8)
  | 0, _, _ => .error incomplete
  | fuel + 1, rest, decoded =>
    match cut crlf rest with
    | none => .error incomplete
    | some (line, after) => do
        let size ← chunkSize line
        if size = 0 then do
          decodeTrailers (after.length + 1) after
          .ok decoded
        else do
          let (rest, decoded) ← takeChunk total size after decoded
          decodeChunks total fuel rest decoded

def decodeChunkedBody (body : List UInt8) : Except Fault (List UInt8) :=
  decodeChunks body.length (body.length + 1) body []

namespace HttpResponse

def isChunked (response : HttpResponse) : Bool :=
  Text.contains (toAsciiLowercase response.transferEncoding) "chunked"

def isEventStream (response : HttpResponse) : Bool :=
  Text.contains (toAsciiLowercase response.contentType) "text/event-stream"

def bodyBytes (response : HttpResponse) : Except Fault (List UInt8) :=
  let bytes := Utf8.encode response.body.toList
  if response.isChunked then decodeChunkedBody bytes
  else
    match response.contentLength with
    | some contentLength => do
        require (contentLength ≤ bytes.length)
          (.error ("HTTP response body is truncated: expected " ++ toString contentLength ++
            " bytes, received " ++ toString bytes.length))
        .ok (bytes.take contentLength)
    | none => .ok bytes

end HttpResponse

/-! ### Head -/

/-- What the loop over the header lines has found. -/
structure HeadState where
  headers : List (String × String)
  contentType : String
  contentLength : Option Nat
  transferEncoding : String
  transferEncodingSeen : Bool
deriving DecidableEq, Repr

def parseStatus (statusLine : String) : Except Fault Nat := do
  require (statusLine.toList.all (fun char =>
      char ≠ '\n' && char ≠ '\r' && char.toNat ≠ 0) = true)
    (.error "HTTP response status line contains invalid line framing")
  let statusParts := Dashboard.splitWhitespace statusLine
  let httpVersion := statusParts.head?.getD ""
  let status := (statusParts.tail.head?.bind (parseUnsigned 16)).filter
    (fun value => 100 ≤ value ∧ value ≤ 599)
  match status with
  | none => .error (.error ("HTTP response has malformed status line: " ++ statusLine))
  | some status => do
      require (Dashboard.isSupportedHttpVersion httpVersion = true)
        (.error ("HTTP response has unsupported version in status line: " ++ statusLine))
      .ok status

def readHeader (state : HeadState) (name value : String) : Except Fault HeadState :=
  let lower := toAsciiLowercase name
  if lower = "content-type" then .ok { state with contentType := value }
  else if lower = "content-length" then
    match parseUnsigned 64 value with
    | none => .error (.error "HTTP response has an invalid Content-Length header")
    | some parsed => do
        require (state.contentLength = none)
          (.error "HTTP response has duplicate Content-Length headers")
        .ok { state with contentLength := some parsed }
  else if lower = "transfer-encoding" then do
    require (state.transferEncodingSeen = false)
      (.error "HTTP response has duplicate Transfer-Encoding headers")
    .ok { state with
      transferEncodingSeen := true
      transferEncoding := value }
  else .ok state

def addHeader (state : HeadState) (line : String) : Except Fault HeadState :=
  match splitOnce ':' line with
  | none => .error (.error ("HTTP response contains malformed header line: " ++ line))
  | some (name, value) => do
      let name := trim name
      let value := trim value
      require (Sources.validHttpHeaderName name = true ∧ isFieldText value = true)
        (.error ("HTTP response contains an invalid header: " ++ name))
      let state ← readHeader state name value
      .ok { state with headers := state.headers ++ [(name, value)] }

def codings (transferEncoding : String) : List String :=
  ((transferEncoding.toList.splitOnP (· = ',')).map
    (fun value => trim (String.ofList value))).filter (· ≠ "")

def checkFraming (state : HeadState) : Except Fault Unit := do
  require (state.contentLength = none ∨ state.transferEncoding = "")
    (.error "HTTP response cannot combine Content-Length with Transfer-Encoding")
  require (state.transferEncoding = "" ∨
      (codings state.transferEncoding).map toAsciiLowercase = ["chunked"])
    (.error "HTTP response uses an unsupported or ambiguous Transfer-Encoding")

def lineEnd : List Char := "\r\n".toList

def headEnd : List Char := "\r\n\r\n".toList

def parseResponse (raw : String) : Except Fault HttpResponse :=
  match cut headEnd raw.toList with
  | none => .error (.error "HTTP response missing header/body separator")
  | some (headersText, body) => do
      let lines := (splitAll lineEnd headersText).map String.ofList
      let statusLine := lines.head?.getD ""
      let status ← parseStatus statusLine
      let state ← lines.tail.foldlM addHeader ⟨[], "", none, "", false⟩
      checkFraming state
      .ok ⟨statusLine, status, state.headers, state.contentType, state.contentLength,
        state.transferEncoding, String.ofList body⟩

/-! ### Readiness -/

section Readiness

variable (parse : String → Except String Json.JsonValue)

/-- The body as a text, if it can be extracted. -/
def bodyText? (parsed : HttpResponse) : Except Fault (Option String) := do
  let bytes ← attempt parsed.bodyBytes
  .ok ((bytes.bind Utf8.decode).map String.ofList)

def genericHttpBodyReady (parsed : HttpResponse) : Except Fault Bool :=
  if parsed.isEventStream then do
    let body ← bodyText? parsed
    .ok (body.bind (fun body => Upstream.sseJsonRpcBody parse body none)).isSome
  else if parsed.isChunked then do
    let bytes ← attempt parsed.bodyBytes
    .ok bytes.isSome
  else
    match parsed.contentLength with
    | some contentLength => .ok (contentLength ≤ (Utf8.encode parsed.body.toList).length)
    | none => .ok (parse (trim parsed.body)).isOk

def responseReady (raw : String) : Except Fault Bool :=
  match parseResponse raw with
  | .error _ => .ok false
  | .ok parsed => genericHttpBodyReady parse parsed

/-- The message of a complete body has the awaited id. -/
def answers (expectedId : Option Int) (parsed : HttpResponse) : Except Fault Bool := do
  let bytes ← attempt parsed.bodyBytes
  match Utf8.decode (bytes.getD []) with
  | none => .ok false
  | some body =>
    match parse (trim (String.ofList body)) with
    | .error _ => .ok false
    | .ok value => .ok (Upstream.jsonResponseIdMatches value expectedId)

def mcpJsonRpcResponseReady (expectedId : Option Int) (raw : String) : Except Fault Bool :=
  match parseResponse raw with
  | .error _ => .ok false
  | .ok parsed =>
    if parsed.status = 202 ∨ parsed.status = 204 ∨ parsed.status = 304 then .ok true
    else if ¬(200 ≤ parsed.status ∧ parsed.status < 300) then genericHttpBodyReady parse parsed
    else if parsed.isEventStream then do
      let body ← bodyText? parsed
      .ok (body.bind (fun body => Upstream.sseJsonRpcBody parse body expectedId)).isSome
    else do
      let complete ← genericHttpBodyReady parse parsed
      if complete then answers parse expectedId parsed else .ok false

/-- What a caller waits for: any complete response, or one with the awaited message. -/
inductive Readiness where
  | response
  | jsonRpc (expectedId : Option Int)

def Readiness.ready : Readiness → String → Except Fault Bool
  | .response => responseReady parse
  | .jsonRpc expectedId => mcpJsonRpcResponseReady parse expectedId

end Readiness

/-! ### Reading -/

/-- How the reads of a socket end. `expired` and `refused` come before a read: the deadline has
passed, or the timeout cannot be set. -/
inductive Ending where
  | closed
  | timedOut
  | failed (error : String)
  | expired
  | refused (error : String)

structure Delivery where
  pieces : List Piece
  ending : Ending

def timedOutReading : Fault := .error "timed out while reading HTTP probe response"

/-- The text read so far, if it is one and it is ready. -/
def readyText (ready : String → Except Fault Bool) (raw : List UInt8) :
    Except Fault (Option String) :=
  match Utf8.decode raw with
  | none => .ok none
  | some text => do
      let isReady ← ready (String.ofList text)
      .ok (if isReady then some (String.ofList text) else none)

/-- What the end of the reads makes of the bytes. -/
def finishReading (ready : String → Except Fault Bool) (raw : List UInt8) :
    Ending → Except Fault String
  | .closed =>
    match Utf8.decode raw with
    | none => .error (.error "HTTP probe returned a non-UTF-8 response")
    | some text => .ok (String.ofList text)
  | .timedOut => do
      let text ← readyText ready raw
      text.elim (.error timedOutReading) .ok
  | .failed error => .error (.error ("read response: " ++ error))
  | .expired => .error timedOutReading
  | .refused error => .error (.error ("set read timeout: " ++ error))

def readLoop (maxResponseBytes : UInt64) (ready : String → Except Fault Bool) (ending : Ending) :
    List Piece → List UInt8 → Except Fault String
  | [], raw => finishReading ready raw ending
  | piece :: pieces, raw => do
      let raw := raw ++ piece.val
      require (raw.length ≤ maxResponseBytes.toNat)
        (.error "HTTP probe response exceeded the maximum supported size")
      let text ← readyText ready raw
      match text with
      | some text => .ok text
      | none => readLoop maxResponseBytes ready ending pieces raw

def readResponseUntil (maxResponseBytes : UInt64) (ready : String → Except Fault Bool)
    (delivery : Delivery) : Except Fault String :=
  readLoop maxResponseBytes ready delivery.ending delivery.pieces []

/-- The body of a response with status 200. -/
def responseBody (response : String) : Except Fault String := do
  let parsed ← parseResponse response
  require (parsed.status = 200) (.error ("HTTP request failed: " ++ parsed.statusLine))
  let bytes ← parsed.bodyBytes
  match Utf8.decode bytes with
  | none => .error (.error "HTTP probe returned a non-UTF-8 body")
  | some body => .ok (String.ofList body)

/-- Read a response and extract its body. -/
def fetchBody (parse : String → Except String Json.JsonValue) (maxResponseBytes : UInt64)
    (readiness : Readiness) (delivery : Delivery) : Except Fault String := do
  let raw ← readResponseUntil maxResponseBytes (readiness.ready parse) delivery
  responseBody raw

end Mcpace.HttpProbe

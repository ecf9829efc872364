import Mcpace.Library.ByteStream
import Mcpace.Library.Checks
import Mcpace.Library.Machine
import Mcpace.Library.Text
import Mcpace.Library.Utf8

/-!
Owns the reading of a request from a connection: `handle_connection` of `src/dashboard.rs` up to
the dispatch, with `read_limited_http_line`, `read_limited_http_body` and the header, host and origin
checks of `src/dashboard/http_boundary.rs`.

The checks between the headers and the body that depend on the state and the settings of the server
(rate limit, authorization, resources) are the parameter `gate`, which sees the request without its
body. Which texts are loopback addresses is decided by the standard library's address parser, a
parameter. Read errors and the deadline close the connection.

Does not own: latency records, the text of responses beyond status and message, and the handlers.
-/

namespace Mcpace.Dashboard

open Library ByteStream Checks Machine Text

def maxHttpRequestLineBytes : Nat := 8 * 1024
def maxHttpHeaderLineBytes : Nat := 8 * 1024
def maxHttpHeaderBytes : Nat := 64 * 1024
def maxHttpHeaderCount : Nat := 128
def bodyReadChunkBytes : Nat := 8 * 1024

/-! ### Lines -/

inductive LimitedHttpLine where
  | empty
  | line (text : String)
  | tooLong
deriving DecidableEq, Repr

/-- `String::from_utf8_lossy`. -/
def fromUtf8Lossy (bytes : List UInt8) : String :=
  String.ofList (Utf8.decodeLossy bytes.length (bytes.map UInt8.toNat))

def untilNewline (available : List UInt8) : Nat :=
  if newline ∈ available then available.idxOf newline + 1 else available.length

/-- The loop over the buffer; `read` is the line so far. The turns are the reads before the
deadline. -/
def readLineLoop (maxBytes : Nat) (label : String) :
    Nat → Reader → List UInt8 → Except String (LimitedHttpLine × Reader)
  | 0, _, _ => .error ("HTTP request deadline exceeded while reading " ++ label)
  | patience + 1, reader, read => do
      let filled ← reader.fillBuf.mapError (fun error => "read " ++ label ++ ": " ++ error)
      let reader := { filled with patience := patience }
      let available := reader.buffer
      if available = [] then
        if read = [] then .ok (.empty, reader)
        else .ok (.line (fromUtf8Lossy read), reader)
      else
        let remaining := saturatingAdd 64 maxBytes 1 - read.length
        let takeLen := min (untilNewline available) remaining
        let line := read ++ available.take takeLen
        let consumed := { reader with buffer := available.drop takeLen }
        if line.length > maxBytes then .ok (.tooLong, consumed)
        else if takeLen = untilNewline available ∧ newline ∈ available.take takeLen then
          .ok (.line (fromUtf8Lossy line), consumed)
        else if takeLen = 0 then .ok (.tooLong, consumed)
        else readLineLoop maxBytes label patience consumed line

def readLimitedHttpLine (maxBytes : Nat) (label : String) (reader : Reader) :
    Except String (LimitedHttpLine × Reader) :=
  readLineLoop maxBytes label reader.patience reader []

/-! ### Body -/

/-- The loop over the chunks; `body` is what was read. -/
def readBodyLoop (contentLength : Nat) :
    Nat → Reader → List UInt8 → Except String (List UInt8 × Reader)
  | patience, reader, body =>
    if body.length < contentLength then
      match patience with
      | 0 => .error "HTTP request deadline exceeded while reading request body"
      | patience + 1 => do
          let (chunk, after) ← (reader.readExact
            (min (contentLength - body.length) bodyReadChunkBytes)).mapError
              (fun error => "read request body: " ++ error)
          readBodyLoop contentLength patience { after with patience := patience }
            (body ++ chunk)
    else .ok (body, reader)

def readLimitedHttpBody (contentLength : Nat) (reader : Reader) :
    Except String (List UInt8 × Reader) :=
  readBodyLoop contentLength reader.patience reader []

/-! ### Head -/

/-- Why a request is not dispatched: the connection is closed, with an error for the log if there
is one, or answered with a status and a message. -/
inductive Refusal where
  | closed (error : Option String)
  | answered (status message : String)
deriving DecidableEq, Repr

/-- Header names are in lower case. -/
structure HttpRequest where
  method : String
  path : String
  query : String
  headers : List (String × String)
  body : List UInt8
deriving DecidableEq, Repr

def badRequest (message : String) : Refusal := .answered "400 Bad Request" message

def headersTooLarge : Refusal :=
  .answered "431 Request Header Fields Too Large" "HTTP request headers are too large"

def splitWhitespace (text : String) : List String :=
  ((text.toList.splitOnP isWhitespace).filter (· ≠ [])).map String.ofList

def isSupportedHttpVersion (version : String) : Bool :=
  version = "HTTP/1.1" || version = "HTTP/1.0"

def splitTarget (target : String) : String × String :=
  (splitOnce '?' target).getD (target, "")

def parseRequestLine (text : String) : Except Refusal (String × String) := do
  require (trim text ≠ "") (.closed none)
  match splitWhitespace text with
  | [method, target, version] =>
    require (isSupportedHttpVersion version = true) (badRequest "Malformed HTTP request")
    require (Text.startsWith target "/" = true) (badRequest "Unsupported HTTP request target")
    .ok (method, target)
  | _ => .error (badRequest "Malformed HTTP request")

def isHeaderNameChar (char : Char) : Bool :=
  isAsciiAlphanumeric char || char ∈ "!#$%&'*+-.^_`|~".toList

def isValidHttpHeaderName (name : String) : Bool :=
  name ≠ "" && name.toList.all isHeaderNameChar

def isValidHttpHeaderValue (value : String) : Bool :=
  value.toList.all (fun char => 0x20 ≤ char.toNat && char.toNat ≤ 0x7e)

structure HeaderState where
  headers : List (String × String)
  contentLength : Option Nat
  bytes : Nat

def parseHeader (text : String) : Except Refusal (String × String) :=
  match splitOnce ':' text with
  | none => .error (badRequest "Malformed HTTP header")
  | some (name, value) => do
      require (isValidHttpHeaderName (trim name) = true)
        (badRequest "Invalid HTTP header name")
      require (isValidHttpHeaderValue (trim value) = true)
        (badRequest "Invalid HTTP header value")
      .ok (toAsciiLowercase (trim name), trim value)

/-- The content length after a header. -/
def nextContentLength (known : Option Nat) (header : String × String) :
    Except Refusal (Option Nat) :=
  if header.1 = "content-length" then
    match parseUnsigned 64 header.2 with
    | none => .error (badRequest "Invalid Content-Length")
    | some length => do
        require (known = none) (badRequest "Duplicate Content-Length is not allowed")
        .ok (some length)
  else .ok known

/-- A header line that is not blank and not one too many. -/
def addHeader (state : HeaderState) (text : String) : Except Refusal HeaderState := do
  let bytes := saturatingAdd 64 state.bytes text.utf8ByteSize
  require (bytes ≤ maxHttpHeaderBytes) headersTooLarge
  let header ← parseHeader text
  require (header.1 ≠ "transfer-encoding") (badRequest "Transfer-Encoding is not supported")
  let contentLength ← nextContentLength state.contentLength header
  .ok ⟨state.headers ++ [header], contentLength, bytes⟩

/-- The next header line; none at the end of the head. -/
def readHeaderLine (reader : Reader) : Except Refusal (Option String × Reader) :=
  match readLimitedHttpLine maxHttpHeaderLineBytes "request header" reader with
  | .error error => .error (.closed (some error))
  | .ok (.empty, after) => .ok (none, after)
  | .ok (.tooLong, _) => .error headersTooLarge
  | .ok (.line text, after) =>
    if text = "\r\n" ∨ text = "\n" ∨ text = "" then .ok (none, after)
    else .ok (some text, after)

/-- The loop over the headers; the turns are the headers still allowed. -/
def readHeaders : Nat → HeaderState → Reader → Except Refusal (HeaderState × Reader)
  | 0, state, reader => do
      let (line, after) ← readHeaderLine reader
      match line with
      | none => .ok (state, after)
      | some _ => .error headersTooLarge
  | allowed + 1, state, reader => do
      let (line, after) ← readHeaderLine reader
      match line with
      | none => .ok (state, after)
      | some text => do
          let state ← addHeader state text
          readHeaders allowed state after

/-! ### Connections -/

structure ConnectionLimits where
  maxBodyBytes : Nat
  isLoopbackAddress : String → Bool

def checkHost (headers : List (String × String)) : Except Refusal Unit :=
  match (headers.filter (fun header => header.1 = "host")).length with
  | 0 => .error (badRequest "Missing Host header")
  | 1 => .ok ()
  | _ => .error (badRequest "Duplicate Host headers are not allowed")

def validPort (value : String) : Bool := (parseUnsigned 16 value).any (0 < ·)

/-- At most one colon is left when the authority is split. -/
def originHost (authority : String) : Option String :=
  if Text.startsWith authority "[" then
    (splitOnce ']' authority).bind (fun (host, suffix) =>
      if suffix = "" ∨ (Text.stripPrefix ":" suffix).any validPort then some (host ++ "]") else none)
  else if authority.toList.count ':' > 1 then none
  else
    match splitOnce ':' authority with
    | some (host, port) => if host ≠ "" ∧ validPort port then some host else none
    | none => some authority

/-- The host without its brackets, if it has both. -/
def bareHost (host : String) : String :=
  ((Text.stripPrefix "[" host).bind (fun inner =>
    if inner.toList.getLast? = some ']' then some (String.ofList inner.toList.dropLast)
    else none)).getD host

def isValidHttpAuthority (authority : String) : Bool :=
  authority ≠ "" && authority.toList.all (fun char => char ≠ '/' && char ≠ '@' &&
      !isControl char && !isWhitespace char) &&
    (Text.startsWith authority "[" || authority.toList.all (fun char => char ≠ '[' && char ≠ ']')) &&
    (originHost authority).any (fun host =>
      bareHost host ≠ "" && (bareHost host).toList.all (fun char => char ≠ '[' && char ≠ ']'))

section Boundary

variable (isLoopbackAddress : String → Bool)

def isLoopbackHost (host : String) : Bool :=
  toAsciiLowercase (trim host) = "localhost" || isLoopbackAddress (bareHost (trim host))

def isAllowedLocalAuthority (authority : String) : Bool :=
  isValidHttpAuthority authority &&
    (originHost authority).any (isLoopbackHost isLoopbackAddress)

def originAuthority (origin : String) : Option String :=
  if origin = "null" then none
  else ((Text.stripPrefix "http://" origin).or (Text.stripPrefix "https://" origin)).filter
    isValidHttpAuthority

def isAllowedLocalOrigin (origin : String) : Bool :=
  (originAuthority origin).any (isAllowedLocalAuthority isLoopbackAddress)

/-- The headers have one `host`. -/
def validateOriginForBind (headers : List (String × String)) : Except String Unit := do
  let host := trim ((headers.lookup "host").getD "")
  require (isAllowedLocalAuthority isLoopbackAddress host = true)
    ("host '" ++ host ++ "' is not allowed for MCPace serve mode")
  match headers.filter (fun header => header.1 = "origin") with
  | [] => .ok ()
  | [(_, origin)] =>
    let origin := trim origin
    require (isAllowedLocalOrigin isLoopbackAddress origin = true ∧
        (originAuthority origin).any (fun authority =>
          toAsciiLowercase authority = toAsciiLowercase host) = true)
      ("origin '" ++ origin ++ "' is not allowed for MCPace serve mode")
  | _ => .error "multiple Origin headers are not allowed for MCPace serve mode"

end Boundary

def readRequestLine (reader : Reader) : Except Refusal (String × Reader) :=
  match readLimitedHttpLine maxHttpRequestLineBytes "request line" reader with
  | .error error => .error (.closed (some error))
  | .ok (.empty, _) => .error (.closed none)
  | .ok (.tooLong, _) => .error (.answered "414 URI Too Long" "HTTP request line is too large")
  | .ok (.line text, after) => .ok (text, after)

/-- The request that is dispatched, and the reader behind it. -/
def handleConnection (limits : ConnectionLimits) (gate : HttpRequest → Option Refusal)
    (reader : Reader) : Except Refusal (HttpRequest × Reader) := do
  let (line, reader) ← readRequestLine reader
  let (method, target) ← parseRequestLine line
  let (head, reader) ← readHeaders maxHttpHeaderCount ⟨[], none, 0⟩ reader
  checkHost head.headers
  let contentLength := head.contentLength.getD 0
  let (path, query) := splitTarget target
  require (contentLength ≤ limits.maxBodyBytes)
    (.answered "413 Payload Too Large" "HTTP request body is too large")
  (validateOriginForBind limits.isLoopbackAddress head.headers).mapError
    (.answered "403 Forbidden")
  (gate ⟨method, path, query, head.headers, []⟩).elim (.ok ()) .error
  let (body, reader) ← (readLimitedHttpBody contentLength reader).mapError
    (fun error => .closed (some error))
  .ok (⟨method, path, query, head.headers, body⟩, reader)

end Mcpace.Dashboard

import Mcpace.Upstream.HttpRuntime
import Mcpace.Upstream.StdioRuntime

/-!
Contract: which message of an upstream server is taken for the answer to a request.

Both transports take the first message whose id is the awaited one. Servers number
their own requests independently, so a request of the server may carry that id; it
is then taken for the answer, and refused as a malformed one. `correlation_iff` says
that this is the only way to miss the response while the lease is held and the deadline
has not passed, in streams that the scanner can read: it knows neither bare carriage
returns as line ends nor a byte order mark.
-/

namespace Mcpace.Upstream

open Library Json Mcp List String Text

/-- What is used of the external JSON parser: white space around a text, or around the
lines of a text, may be removed, blank lines may come and go (a line break never stands
inside a token), and the text of an object opens with a brace. -/
structure JsonText (parse : String → Except String JsonValue) : Prop where
  trimmed : ∀ {text value}, parse (String.ofList text) = .ok value →
    parse (String.ofList (trimChars text)) = .ok value
  margins : ∀ {lines kept value}, kept.filter (· ≠ []) = (lines.map trimChars).filter (· ≠ []) →
    parse (String.ofList (['\n'].intercalate lines)) = .ok value →
      parse (String.ofList (['\n'].intercalate kept)) = .ok value
  opens : ∀ {text entries}, parse (String.ofList text) = .ok (.object entries) →
    (trimChars text).head? = some '\x7b'

/-- No message carries the awaited id. -/
def NoCollision (expectedId : Int) (messages : List JsonValue) : Prop :=
  ∀ message ∈ messages, messageId message ≠ some expectedId

instance (expectedId : Int) (messages : List JsonValue) :
    Decidable (NoCollision expectedId messages) :=
  inferInstanceAs (Decidable (∀ message ∈ messages, messageId message ≠ some expectedId))

theorem noCollision_cons {expectedId : Int} {message : JsonValue} {messages : List JsonValue} :
    NoCollision expectedId (message :: messages) ↔
      messageId message ≠ some expectedId ∧ NoCollision expectedId messages :=
  forall_mem_cons

section Transports

variable {parse : String → Except String JsonValue} {expectedId : Int}

/-! ### Lines -/

/-- The turns deliver the messages in order, one to a line, with pauses in between. -/
inductive Delivers (parse : String → Except String JsonValue) :
    List Poll → List JsonValue → Prop where
  | done : Delivers parse [] []
  | pause {poll : Poll} {polls : List Poll} {messages : List JsonValue}
      (silent : poll.received = .timeout) (later : Delivers parse polls messages) :
      Delivers parse (poll :: polls) messages
  | message {poll : Poll} {polls : List Poll} {line : String} {message : JsonValue}
      {messages : List JsonValue} (arrived : poll.received = .line line)
      (parsed : parse line = .ok message) (later : Delivers parse polls messages) :
      Delivers parse (poll :: polls) (message :: messages)

variable {entries : JsonMap} {line : String}

theorem lineMessage_of_parse (jsonText : JsonText parse)
    (parsed : parse line = .ok (.object entries)) :
    lineMessage parse line = some (.object entries) := by
  have chars : parse (String.ofList line.toList) = .ok (.object entries) := by
    rw [ofList_toList]
    exact parsed
  have opens : (Text.trim line).toList.head? = some '\x7b' := by
    rw [Text.trim, toList_ofList]
    exact jsonText.opens chars
  have trimmed : parse (Text.trim line) = .ok (.object entries) := jsonText.trimmed chars
  simp only [lineMessage, opens, trimmed]
  rfl

variable {request : StdioRequest} {messages : List JsonValue} {polls : List Poll}

/-- Messages under other ids are passed over; one under the awaited id, the loss of the lease or the
deadline ends the loop with turns still to come. -/
theorem readResponse_delivers (jsonText : JsonText parse) (delivers : Delivers parse polls messages)
    (objects : ∀ message ∈ messages, ∃ entries, message = .object entries) (rest : List Poll) :
    ((∀ poll ∈ polls, poll.Calm) ∧ NoCollision request.expectedId messages →
        readResponse parse request (polls ++ rest) = readResponse parse request rest) ∧
      (¬((∀ poll ∈ polls, poll.Calm) ∧ NoCollision request.expectedId messages) →
        ∃ outcome remaining,
          readResponse parse request (polls ++ rest) = some (outcome, remaining ++ rest)) := by
  induction delivers with
  | done => exact ⟨fun _ => rfl, fun disturbed => absurd ⟨nofun, nofun⟩ disturbed⟩
  | @pause poll polls messages silent later ih =>
    rw [cons_append, forall_mem_cons]
    by_cases calm : poll.Calm
    · rw [readResponse_timeout calm silent, and_iff_right calm]
      exact ih objects
    · obtain ⟨error, -, ended⟩ := readResponse_uncalm calm (.inl silent) (polls ++ rest)
      exact ⟨fun all => absurd all.1.1 calm, fun _ => ⟨_, polls, ended⟩⟩
  | @message poll polls line message messages arrived parsed later ih =>
    obtain ⟨entries, rfl⟩ := objects message mem_cons_self
    have read := lineMessage_of_parse jsonText parsed
    have later := ih (forall_mem_cons.mp objects).2
    rw [cons_append, noCollision_cons, forall_mem_cons]
    by_cases calm : poll.Calm
    · by_cases same : messageId (.object entries) = some request.expectedId
      · have ended := readResponse_match calm arrived read same (polls ++ rest)
        exact ⟨fun all => absurd same all.2.1, fun _ => ⟨_, polls, ended⟩⟩
      · rw [readResponse_skip calm arrived read same, and_iff_right calm, and_iff_right same]
        exact later
    · obtain ⟨error, -, ended⟩ := readResponse_uncalm calm (.inr ⟨line, arrived⟩) (polls ++ rest)
      exact ⟨fun all => absurd all.1.1 calm, fun _ => ⟨_, polls, ended⟩⟩

variable {calls : List JsonValue} {answer : Answer}

/-- The turn with the response gives it exactly if it is calm. -/
theorem readResponse_response (jsonText : JsonText parse) {rest : List Poll} {poll : Poll}
    {response : JsonValue} (isResponse : IsResponse request.expectedId response answer)
    (arrived : poll.received = .line line) (parsed : parse line = .ok response) :
    readResponse parse request (poll :: rest) =
        some (answer.outcome.mapError request.replyError, rest) ↔
      poll.Calm ∧ poll.leaseLostOnMatch = false := by
  have cancelled : ∀ error, error = request.leaseLostError ∨ error = request.timedOutError →
      (.error error : Except String JsonValue) ≠ answer.outcome.mapError request.replyError := by
    intro error ended same
    cases outcome : answer.outcome with
    | ok value =>
      rw [outcome] at same
      cases same
    | error failure =>
      rw [outcome] at same
      have equal : error = request.replyError failure := Except.error.inj same
      rcases ended with rfl | rfl
      · exact (replyError_ne failure).1 equal.symm
      · exact (replyError_ne failure).2 equal.symm
  obtain ⟨entries, rfl⟩ := isResponse.object
  by_cases calm : poll.Calm
  · rw [readResponse_match calm arrived (lineMessage_of_parse jsonText parsed) isResponse.id,
      StdioRequest.reply, isResponse.readEnvelope_eq, and_iff_right calm]
    cases poll.leaseLostOnMatch with
    | false => exact iff_of_true rfl rfl
    | true =>
      refine iff_of_false ?_ (by decide)
      intro yields
      exact cancelled _ (.inl rfl) (Prod.mk.inj (Option.some.inj yields)).1
  · obtain ⟨error, cause, ended⟩ := readResponse_uncalm calm (.inr ⟨line, arrived⟩) rest
    rw [ended]
    refine iff_of_false ?_ (fun all => calm all.1)
    intro yields
    exact cancelled error cause (Prod.mk.inj (Option.some.inj yields)).1

theorem readResponse_iff (jsonText : JsonText parse) {earlier rest : List Poll} {poll : Poll}
    {response : JsonValue} (areCalls : ∀ call ∈ calls, IsCall call)
    (isResponse : IsResponse request.expectedId response answer)
    (delivers : Delivers parse earlier calls)
    (arrived : poll.received = .line line) (parsed : parse line = .ok response) :
    readResponse parse request (earlier ++ poll :: rest) =
        some (answer.outcome.mapError request.replyError, rest) ↔
      (∀ turn ∈ earlier ++ [poll], turn.Calm) ∧ poll.leaseLostOnMatch = false ∧
        NoCollision request.expectedId calls := by
  have objects : ∀ call ∈ calls, ∃ entries, call = .object entries :=
    fun call member => (areCalls call member).object
  have before : (_ → readResponse parse request (earlier ++ poll :: rest) = _) ∧ _ :=
    readResponse_delivers jsonText delivers objects (poll :: rest)
  have here : readResponse parse request (poll :: rest) = _ ↔ _ :=
    readResponse_response jsonText isResponse arrived parsed
  rw [forall_mem_append, forall_mem_singleton]
  constructor
  · intro yields
    by_cases undisturbed : (∀ turn ∈ earlier, turn.Calm) ∧ NoCollision request.expectedId calls
    · rw [before.1 undisturbed, here] at yields
      exact ⟨⟨undisturbed.1, yields.1⟩, yields.2, undisturbed.2⟩
    · obtain ⟨outcome, remaining, ended⟩ := before.2 undisturbed
      rw [ended] at yields
      have left : remaining ++ poll :: rest = rest := (Prod.mk.inj (Option.some.inj yields)).2
      have lengths := congrArg List.length left
      rw [List.length_append, length_cons] at lengths
      omega
  · rintro ⟨⟨calmBefore, calm⟩, held, free⟩
    rw [before.1 ⟨calmBefore, free⟩]
    exact here.mpr ⟨calm, held⟩

/-! ### Events -/

/-- The value of a data line: what follows the colon and one optional space, and nothing if there is
no colon. -/
def dataField (line : List Char) : Option (List Char) :=
  if line = "data".toList then some []
  else (stripDataField line).map (fun value => if value.head? = some ' ' then value.tail else value)

def dataFields (event : EventStream.Event) : List (List Char) := event.texts.filterMap dataField

/-- The data of the event is the text of the message. -/
def CarriesMessage (parse : String → Except String JsonValue) (event : EventStream.Event)
    (message : JsonValue) : Prop :=
  parse (String.ofList (['\n'].intercalate (dataFields event))) = .ok message

instance (parse : String → Except String JsonValue) (event : EventStream.Event)
    (message : JsonValue) : Decidable (CarriesMessage parse event message) :=
  inferInstanceAs (Decidable (parse (String.ofList _) = .ok message))

/-- The events carry the messages in order, with events without data in between. -/
inductive Streams (parse : String → Except String JsonValue) :
    List EventStream.Event → List JsonValue → Prop where
  | done : Streams parse [] []
  | silent {event : EventStream.Event} {events : List EventStream.Event}
      {messages : List JsonValue} (noData : dataFields event = [])
      (later : Streams parse events messages) : Streams parse (event :: events) messages
  | message {event : EventStream.Event} {events : List EventStream.Event} {message : JsonValue}
      {messages : List JsonValue} (carries : CarriesMessage parse event message)
      (later : Streams parse events messages) :
      Streams parse (event :: events) (message :: messages)

/-- The scanner trims data lines and skips those without a colon, so it sees the same lines up to
white space. -/
theorem filled_dataFields (texts : List (List Char)) :
    ((texts.filterMap stripDataField).map trimChars).filter (· ≠ []) =
      ((texts.filterMap dataField).map trimChars).filter (· ≠ []) := by
  have optional : ∀ value : List Char,
      trimChars (if value.head? = some ' ' then value.tail else value) = trimChars value := by
    intro value
    split
    · rename_i space
      obtain ⟨rest, rfl⟩ := List.head?_eq_some_iff.mp space
      exact (trimChars_cons (by decide) rest).symm
    · rfl
  induction texts with
  | nil => rfl
  | cons line texts ih =>
    by_cases bare : line = "data".toList
    · rw [filterMap_cons_none (by rw [bare]; rfl), filterMap_cons_some (by rw [dataField, if_pos bare]),
        map_cons, filter_cons_of_neg (by decide)]
      exact ih
    · have field : dataField line = (stripDataField line).map _ := if_neg bare
      cases stripped : stripDataField line with
      | none =>
        rw [stripped] at field
        rw [filterMap_cons_none stripped, filterMap_cons_none field]
        exact ih
      | some value =>
        rw [stripped] at field
        rw [filterMap_cons_some stripped, filterMap_cons_some field, map_cons, map_cons, optional,
          filter_cons, filter_cons, ih]

variable {event : EventStream.Event}

theorem CarriesMessage.eventData_ne_nil (jsonText : JsonText parse)
    (carries : CarriesMessage parse event (.object entries)) : eventData event.texts ≠ [] := by
  have opens := jsonText.opens (jsonText.margins (filled_dataFields event.texts) carries)
  intro empty
  rw [← eventData, empty] at opens
  cases opens

variable {message : JsonValue}

theorem CarriesMessage.parse_eventData (jsonText : JsonText parse)
    (carries : CarriesMessage parse event message) :
    parse (String.ofList (eventData event.texts)) = .ok message :=
  jsonText.trimmed (jsonText.margins (filled_dataFields event.texts) carries)

theorem sseScan_silent (noData : dataFields event = []) (events : List (List (List Char))) :
    sseScan parse (some expectedId) (event.texts :: events) =
      sseScan parse (some expectedId) events := by
  have unseen : event.texts.filterMap stripDataField = [] := by
    refine filterMap_eq_nil_iff.mpr fun line member => ?_
    have absent := filterMap_eq_nil_iff.mp noData line member
    rw [dataField] at absent
    split_ifs at absent
    exact Option.map_eq_none_iff.mp absent
  have empty : eventData event.texts = [] := by
    rw [eventData, unseen]
    rfl
  simp only [sseScan, empty, ↓reduceIte]

/-- The scanner takes the data of the first event under the awaited id. -/
theorem sseScan_carries (jsonText : JsonText parse)
    (carries : CarriesMessage parse event (.object entries)) (events : List (List (List Char))) :
    sseScan parse (some expectedId) (event.texts :: events) =
      if messageId (.object entries) = some expectedId then
        some (String.ofList (eventData event.texts))
      else sseScan parse (some expectedId) events := by
  simp only [sseScan, carries.eventData_ne_nil jsonText, ↓reduceIte,
    carries.parse_eventData jsonText, jsonResponseIdMatches, decide_eq_true_eq]

variable {events : List EventStream.Event}

/-- Events under other ids are passed over; with a message under the awaited id, the scanner takes
one of the messages. -/
theorem sseScan_streams (jsonText : JsonText parse) (streams : Streams parse events messages)
    (objects : ∀ message ∈ messages, ∃ entries, message = .object entries)
    (rest : List (List (List Char))) :
    (NoCollision expectedId messages →
        sseScan parse (some expectedId) (events.map EventStream.Event.texts ++ rest) =
          sseScan parse (some expectedId) rest) ∧
      (¬NoCollision expectedId messages → ∃ data, ∃ message ∈ messages,
        sseScan parse (some expectedId) (events.map EventStream.Event.texts ++ rest) = some data ∧
          parse data = .ok message) := by
  induction streams with
  | done => exact ⟨fun _ => rfl, fun collision => absurd nofun collision⟩
  | silent noData later ih =>
    rw [map_cons, cons_append, sseScan_silent noData]
    exact ih objects
  | @message event events message messages carries later ih =>
    obtain ⟨entries, rfl⟩ := objects message mem_cons_self
    have later := ih (forall_mem_cons.mp objects).2
    rw [map_cons, cons_append, sseScan_carries jsonText carries, noCollision_cons]
    by_cases same : messageId (.object entries) = some expectedId
    · rw [if_pos same]
      refine ⟨fun free => absurd same free.1, fun _ => ⟨_, _, mem_cons_self, rfl, ?_⟩⟩
      exact carries.parse_eventData jsonText
    · rw [if_neg same, and_iff_right same]
      refine ⟨later.1, fun collision => ?_⟩
      obtain ⟨data, taken, member, scanned⟩ := later.2 collision
      exact ⟨data, taken, mem_cons_of_mem _ member, scanned⟩

variable {response : HttpResponse}

/-- The answer that the HTTP client extracts from the data of an event. -/
theorem jsonrpcResult_of_body {request : HttpRequest} {data : String}
    (success : 200 ≤ response.status ∧ response.status < 300)
    (isStream : response.isEventStream = true)
    (taken : sseJsonRpcBody parse response.body (some request.expectedId) = some data)
    (parsed : parse data = .ok message) :
    jsonrpcResult parse request response = request.reply message := by
  have body : jsonBodyFromResponse parse response (some request.expectedId) = .ok data := by
    rw [jsonBodyFromResponse, if_pos isStream, taken]
  rw [jsonrpcResult, if_neg (not_not.mpr success), body]
  show ((parse data).mapError request.invalidJsonError >>= request.reply) = _
  rw [parsed]
  rfl

theorem sseJsonRpcBody_iff (jsonText : JsonText parse) {request : HttpRequest}
    {earlier : List EventStream.Event} {rest : List Char} (areCalls : ∀ call ∈ calls, IsCall call)
    (isResponse : IsResponse request.expectedId message answer)
    (streams : Streams parse earlier calls) (carries : CarriesMessage parse event message)
    (success : 200 ≤ response.status ∧ response.status < 300)
    (isStream : response.isEventStream = true) (fed : ∀ sent ∈ earlier ++ [event], sent.Fed)
    (body : response.body = String.ofList (EventStream.encode false (earlier ++ [event]) ++ rest)) :
    (∃ data, sseJsonRpcBody parse response.body (some request.expectedId) = some data ∧
        parse data = .ok message ∧
        jsonrpcResult parse request response = answer.outcome.mapError request.replyError) ↔
      NoCollision request.expectedId calls := by
  have objects : ∀ call ∈ calls, ∃ entries, call = .object entries :=
    fun call member => (areCalls call member).object
  have scanned : sseJsonRpcBody parse response.body (some request.expectedId) =
      sseScan parse (some request.expectedId) (earlier.map EventStream.Event.texts ++
        event.texts :: (EventStream.splitBlank (EventStream.normalizeNewlines rest)).map
          EventStream.lines) := by
    rw [body, sseJsonRpcBody_encode fed, map_append, List.append_assoc]
    rfl
  constructor
  · intro yields
    by_contra collision
    obtain ⟨data, taken, parsed, -⟩ := yields
    obtain ⟨other, call, member, first, parsedCall⟩ := (sseScan_streams jsonText streams
      objects _).2 collision
    rw [scanned, first] at taken
    rw [← Option.some.inj taken, parsedCall] at parsed
    exact (areCalls call member).ne_response isResponse (Except.ok.inj parsed)
  · intro free
    obtain ⟨entries, rfl⟩ := isResponse.object
    have parsed := carries.parse_eventData jsonText
    have taken : sseJsonRpcBody parse response.body (some request.expectedId) =
        some (String.ofList (eventData event.texts)) := by
      rw [scanned, (sseScan_streams jsonText streams objects _).1 free,
        sseScan_carries jsonText carries, if_pos isResponse.id]
    refine ⟨_, taken, parsed, ?_⟩
    rw [jsonrpcResult_of_body success isStream taken parsed, HttpRequest.reply,
      isResponse.readEnvelope_eq]

end Transports

/-! ### Correlation -/

/-- Lines give the response to the caller, and with it everything that came before is used up,
exactly when no call of the server carries the awaited id, the lease is held and the deadline has
not passed. Events do exactly when no call carries the awaited id, if their lines up to the response
end with line feeds and no byte order mark stands before them. -/
theorem correlation_iff {parse : String → Except String JsonValue} (jsonText : JsonText parse)
    {expectedId : Int} {calls : List JsonValue} {message : JsonValue} {answer : Answer}
    (areCalls : ∀ call ∈ calls, IsCall call) (isResponse : IsResponse expectedId message answer) :
    (∀ (request : StdioRequest) (earlier rest : List Poll) (poll : Poll) (line : String),
      request.expectedId = expectedId → Delivers parse earlier calls →
      poll.received = .line line → parse line = .ok message →
        (readResponse parse request (earlier ++ poll :: rest) =
            some (answer.outcome.mapError request.replyError, rest) ↔
          (∀ turn ∈ earlier ++ [poll], turn.Calm) ∧ poll.leaseLostOnMatch = false ∧
            NoCollision expectedId calls)) ∧
      ∀ (request : HttpRequest) (marked : Bool) (earlier : List EventStream.Event)
        (event : EventStream.Event) (rest : List Char) (response : HttpResponse),
        request.expectedId = expectedId → Streams parse earlier calls →
        CarriesMessage parse event message → 200 ≤ response.status ∧ response.status < 300 →
        response.isEventStream = true →
        response.body = String.ofList (EventStream.encode marked (earlier ++ [event]) ++ rest) →
        marked = false ∧ (∀ sent ∈ earlier ++ [event], sent.Fed) →
          ((∃ data, sseJsonRpcBody parse response.body (some request.expectedId) = some data ∧
              parse data = .ok message ∧
              jsonrpcResult parse request response = answer.outcome.mapError request.replyError) ↔
            NoCollision expectedId calls) := by
  constructor
  · intro request earlier rest poll line sameId delivers arrived parsed
    subst sameId
    exact readResponse_iff jsonText areCalls isResponse delivers arrived parsed
  · intro request marked earlier event rest response sameId streams carries success isStream body
      ⟨unmarked, fed⟩
    subst sameId unmarked
    exact sseJsonRpcBody_iff jsonText areCalls isResponse streams carries success isStream fed body

/-! ### Runs -/

/-- A parser for the texts of a table, up to white space. -/
def tableParse (table : List (String × JsonValue)) (text : String) : Except String JsonValue :=
  let solid := text.toList.filter (!isWhitespace ·)
  match table.find? (fun entry => entry.1.toList = solid) with
  | some entry => .ok entry.2
  | none => .error "expected value"

variable {table : List (String × JsonValue)}

theorem tableParse_congr {left right : List Char}
    (same : left.filter (!isWhitespace ·) = right.filter (!isWhitespace ·)) :
    tableParse table (String.ofList left) = tableParse table (String.ofList right) := by
  simp only [tableParse, toList_ofList, same]

theorem filter_intercalate (lines : List (List Char)) :
    (['\n'].intercalate lines).filter (!isWhitespace ·) =
      lines.flatMap (·.filter (!isWhitespace ·)) := by
  induction lines with
  | nil => rfl
  | cons line lines ih =>
    cases lines with
    | nil => simp
    | cons next lines =>
      rw [List.intercalate_cons_cons, filter_append, filter_append, ih, flatMap_cons,
        List.append_assoc]
      rfl

theorem flatMap_filled (lines : List (List Char)) :
    (lines.filter (· ≠ [])).flatMap (·.filter (!isWhitespace ·)) =
      lines.flatMap (·.filter (!isWhitespace ·)) := by
  induction lines with
  | nil => rfl
  | cons line lines ih =>
    by_cases empty : line = []
    · rw [filter_cons_of_neg (by simpa using empty), ih, flatMap_cons, empty]
      rfl
    · rw [filter_cons_of_pos (by simpa using empty), flatMap_cons, flatMap_cons, ih]

theorem tableParse_jsonText (braces : ∀ entry ∈ table, entry.1.toList.head? = some '\x7b') :
    JsonText (tableParse table) where
  trimmed := by
    intro text value parsed
    rw [tableParse_congr (filter_trimChars text)]
    exact parsed
  margins := by
    intro lines kept value same parsed
    have solid : (['\n'].intercalate kept).filter (!isWhitespace ·) =
        (['\n'].intercalate lines).filter (!isWhitespace ·) := by
      rw [filter_intercalate, filter_intercalate, ← flatMap_filled, same, flatMap_filled,
        flatMap_map]
      exact congrArg (List.flatMap · lines) (funext filter_trimChars)
    rw [tableParse_congr solid]
    exact parsed
  opens := by
    intro text entries parsed
    simp only [tableParse, toList_ofList] at parsed
    split at parsed
    · rename_i entry found
      have solid : entry.1.toList = text.filter (!isWhitespace ·) := by
        simpa using List.find?_some found
      rw [Text.head?_trimChars, ← solid]
      exact braces entry (List.mem_of_find?_eq_some found)
    · cases parsed

/-- A request of the server under the given id, and a response to it. -/
def serverRequest (id : String) : JsonValue :=
  .object [("id", .number id), ("jsonrpc", .string "2.0"), ("method", .string "roots/list")]

def serverRequestText (id : String) : String :=
  "\x7b\"jsonrpc\":\"2.0\",\"id\":" ++ id ++ ",\"method\":\"roots/list\"\x7d"

def toolResponse : JsonValue :=
  .object [("id", .number "7"), ("jsonrpc", .string "2.0"), ("result", .bool true)]

def toolResponseText : String := "\x7b\"jsonrpc\":\"2.0\",\"id\":7,\"result\":true\x7d"

def toolParse : String → Except String JsonValue :=
  tableParse [(serverRequestText "7", serverRequest "7"), (serverRequestText "8", serverRequest "8"),
    (toolResponseText, toolResponse)]

def linePoll (line : String) : Poll :=
  { leaseLost := false, expired := false, received := .line line, leaseLostOnLine := false,
    leaseLostOnMatch := false }

def stdioToolCall : StdioRequest :=
  { serverName := "files", method := "tools/call", expectedId := 7, stderrSuffix := "",
    compact := fun _ => "" }

def httpToolCall : HttpRequest :=
  { serverName := "files", method := "tools/call", expectedId := 7, sanitize := fun text => text,
    compact := fun _ => "" }

/-- The stream of one data line to an event, with CRLF line ends. -/
def dataStream (texts : List String) : HttpResponse :=
  { status := 200, contentType := "text/event-stream",
    body := String.join (texts.map (fun text => "data: " ++ text ++ "\r\n\r\n")) }

def dataEvent (text : String) (plain : ("data: " ++ text).toList.all (fun char =>
      char != '\n' && char != '\r') = true) : EventStream.Event where
  lines := [⟨("data: " ++ text).toList, .crlf, by simp, by simpa using plain⟩]
  ending := .crlf

theorem toolParse_jsonText : JsonText toolParse := tableParse_jsonText (by decide)

theorem serverRequest_isCall (id : String) : IsCall (serverRequest id) :=
  ⟨⟨_, rfl⟩, ⟨"roots/list", rfl⟩⟩

theorem toolResponse_isResponse : IsResponse 7 toolResponse (.result (.bool true)) where
  object := ⟨_, rfl⟩
  method := rfl
  version := rfl
  id := by decide
  body := ⟨rfl, rfl⟩

theorem linePoll_calm (line : String) : (linePoll line).Calm := ⟨rfl, rfl, fun _ _ => rfl⟩

/-- A request of the server under another id does not disturb the call. -/
theorem correlation_otherId : readResponse toolParse stdioToolCall
        [linePoll (serverRequestText "8"), linePoll toolResponseText] =
      some (.ok (.bool true), []) ∧
    jsonrpcResult toolParse httpToolCall
        (dataStream [serverRequestText "8", toolResponseText]) = .ok (.bool true) := by
  have calls : ∀ call ∈ [serverRequest "8"], IsCall call := by
    intro call member
    rw [mem_singleton.mp member]
    exact serverRequest_isCall "8"
  have both := correlation_iff toolParse_jsonText calls toolResponse_isResponse
  have free : NoCollision 7 [serverRequest "8"] := by decide
  constructor
  · exact (both.1 stdioToolCall [linePoll (serverRequestText "8")] [] (linePoll toolResponseText)
      toolResponseText rfl (.message rfl (by decide) .done) rfl (by decide)).mpr
      ⟨by simp [linePoll_calm], rfl, free⟩
  · obtain ⟨data, -, -, result⟩ := (both.2 httpToolCall false
      [dataEvent (serverRequestText "8") (by decide)] (dataEvent toolResponseText (by decide)) []
      (dataStream [serverRequestText "8", toolResponseText]) rfl
      (.message (by decide) .done) (by decide) (by decide) (by decide) (by decide)
      ⟨rfl, by decide⟩).mpr free
    exact result

/-- A request of the server under the awaited id is taken for the answer: the call fails
and the response is left unread. Behind a bare carriage return or a byte order mark it is not
found. -/
theorem correlation_sameId : JsonText toolParse ∧ IsCall (serverRequest "7") ∧
      IsResponse 7 toolResponse (.result (.bool true)) ∧
      toolParse (serverRequestText "7") = .ok (serverRequest "7") ∧
      toolParse toolResponseText = .ok toolResponse ∧
      readResponse toolParse stdioToolCall
          [linePoll (serverRequestText "7"), linePoll toolResponseText] =
        some (.error ("upstream server 'files' returned a malformed JSON-RPC response for " ++
            "tools/call: JSON-RPC response must contain exactly one of result or error"),
          [linePoll toolResponseText]) ∧
      sseJsonRpcBody toolParse (dataStream [serverRequestText "7", toolResponseText]).body
          (some 7) = some (serverRequestText "7") ∧
      jsonrpcResult toolParse httpToolCall
          (dataStream [serverRequestText "7", toolResponseText]) =
        .error ("HTTP upstream server 'files' returned a malformed JSON-RPC response for " ++
          "tools/call: JSON-RPC response must contain exactly one of result or error") ∧
      sseJsonRpcBody toolParse ("event: message\rdata: " ++ toolResponseText ++ "\r\r")
          (some 7) = none ∧
      sseJsonRpcBody toolParse ("\uFEFFdata: " ++ toolResponseText ++ "\n\n") (some 7) = none :=
  ⟨toolParse_jsonText, serverRequest_isCall "7", toolResponse_isResponse, by decide,
    by decide +kernel, by decide +kernel, by decide +kernel, by decide +kernel, by decide +kernel,
    by decide +kernel⟩

end Mcpace.Upstream

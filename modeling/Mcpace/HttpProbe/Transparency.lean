import Mcpace.HttpProbe.Head

/-!
Owns the transparency of the transfer framing: which responses give the client exactly their body,
framed by chunks or by their length, however the socket delivers them.

No beginning of a framed response is taken for the whole of it, so only complete responses are
ready. A complete response is taken as soon as it has what the caller waits for; the others are
taken when the connection is closed. A complete response has to be UTF-8 as a whole: a chunk that
ends inside a character is not.
-/

namespace Mcpace.HttpProbe

open Library ByteStream Checks HttpMessage List String Utf8

/-! ### Readiness -/

section Readiness

variable {parse : String → Except String Json.JsonValue} {parsed : HttpResponse}

theorem attempt_eq_some {α : Type} {result : Except Fault α} {value : α}
    (attempted : attempt result = .ok (some value)) : result = .ok value := by
  cases result with
  | ok found =>
    cases attempted
    rfl
  | error fault =>
    cases fault with
    | error message => cases attempted
    | panic => cases attempted

theorem exists_attempt {α : Type} {result : Except Fault α} (safe : NoPanic result) :
    ∃ value, attempt result = .ok value := by
  cases result with
  | ok found => exact ⟨_, rfl⟩
  | error fault =>
    cases fault with
    | error message => exact ⟨_, rfl⟩
    | panic => exact absurd rfl safe

/-- A text of the body was extracted only if the body was. -/
theorem bodyBytes_of_bodyText {text : String} (extracted : bodyText? parsed = .ok (some text)) :
    ∃ bytes, parsed.bodyBytes = .ok bytes := by
  rw [bodyText?, bind_eq_ok] at extracted
  obtain ⟨bytes, attempted, decoded⟩ := extracted
  cases bytes with
  | none => cases decoded
  | some bytes => exact ⟨bytes, attempt_eq_some attempted⟩

theorem exists_bodyText (safe : NoPanic parsed.bodyBytes) :
    ∃ text, bodyText? parsed = .ok text := by
  obtain ⟨bytes, attempted⟩ := exists_attempt safe
  rw [bodyText?, attempted]
  exact ⟨_, rfl⟩

/-- The body of a framed response is complete when the generic check says so. -/
theorem bodyBytes_of_genericReady (framed : parsed.isChunked = true ∨ parsed.contentLength ≠ none)
    (isReady : genericHttpBodyReady parse parsed = .ok true) :
    ∃ bytes, parsed.bodyBytes = .ok bytes := by
  unfold genericHttpBodyReady at isReady
  split_ifs at isReady with stream chunked
  · rw [bind_eq_ok] at isReady
    obtain ⟨text, extracted, found⟩ := isReady
    cases text with
    | none => cases found
    | some text => exact bodyBytes_of_bodyText extracted
  · rw [bind_eq_ok] at isReady
    obtain ⟨bytes, attempted, found⟩ := isReady
    cases bytes with
    | none => cases found
    | some bytes => exact ⟨bytes, attempt_eq_some attempted⟩
  · cases length : parsed.contentLength with
    | none => exact absurd length (framed.resolve_left chunked)
    | some contentLength =>
      rw [length] at isReady
      have enough := of_decide_eq_true (Except.ok.inj isReady)
      refine ⟨(encode parsed.body.toList).take contentLength, ?_⟩
      simp only [HttpResponse.bodyBytes, length]
      rw [if_neg chunked]
      exact require_bind_eq_ok.mpr ⟨enough, rfl⟩

theorem exists_genericReady (safe : NoPanic parsed.bodyBytes) :
    ∃ isReady, genericHttpBodyReady parse parsed = .ok isReady := by
  obtain ⟨bytes, attempted⟩ := exists_attempt safe
  obtain ⟨text, extracted⟩ := exists_bodyText safe
  unfold genericHttpBodyReady
  split_ifs
  · rw [extracted]
    exact ⟨_, rfl⟩
  · rw [attempted]
    exact ⟨_, rfl⟩
  · split
    · exact ⟨_, rfl⟩
    · exact ⟨_, rfl⟩

theorem exists_answers {expectedId : Option Int} (safe : NoPanic parsed.bodyBytes) :
    ∃ isReady, answers parse expectedId parsed = .ok isReady := by
  obtain ⟨bytes, attempted⟩ := exists_attempt safe
  rw [answers, attempted]
  simp only [bind, Except.bind]
  split
  · exact ⟨_, rfl⟩
  · split
    · exact ⟨_, rfl⟩
    · exact ⟨_, rfl⟩

variable {readiness : Readiness}

/-- A response with status 200 is ready only if its body can be extracted. -/
theorem bodyBytes_of_ready {raw : String} (isReady : readiness.ready parse raw = .ok true) :
    ∃ parsed, parseResponse raw = .ok parsed ∧ (parsed.status = 200 →
      parsed.isChunked = true ∨ parsed.contentLength ≠ none →
        ∃ bytes, parsed.bodyBytes = .ok bytes) := by
  cases parses : parseResponse raw with
  | error fault =>
    cases readiness with
    | response =>
      simp only [Readiness.ready, responseReady, parses] at isReady
      cases isReady
    | jsonRpc expectedId =>
      simp only [Readiness.ready, mcpJsonRpcResponseReady, parses] at isReady
      cases isReady
  | ok parsed =>
    refine ⟨parsed, rfl, fun status framed => ?_⟩
    cases readiness with
    | response =>
      simp only [Readiness.ready, responseReady, parses] at isReady
      exact bodyBytes_of_genericReady framed isReady
    | jsonRpc expectedId =>
      simp only [Readiness.ready, mcpJsonRpcResponseReady, parses, status] at isReady
      rw [if_neg (by decide), if_neg (by decide)] at isReady
      split_ifs at isReady
      · rw [bind_eq_ok] at isReady
        obtain ⟨text, extracted, found⟩ := isReady
        cases text with
        | none => cases found
        | some text => exact bodyBytes_of_bodyText extracted
      · rw [bind_eq_ok] at isReady
        obtain ⟨complete, generic, answered⟩ := isReady
        cases complete with
        | true => exact bodyBytes_of_genericReady framed generic
        | false => cases answered

theorem exists_ready {raw : String}
    (safe : ∀ parsed, parseResponse raw = .ok parsed → NoPanic parsed.bodyBytes) :
    ∃ isReady, readiness.ready parse raw = .ok isReady := by
  cases parses : parseResponse raw with
  | error fault =>
    cases readiness with
    | response =>
      simp only [Readiness.ready, responseReady, parses]
      exact ⟨_, rfl⟩
    | jsonRpc expectedId =>
      simp only [Readiness.ready, mcpJsonRpcResponseReady, parses]
      exact ⟨_, rfl⟩
  | ok parsed =>
    have extracts := safe parsed parses
    cases readiness with
    | response =>
      simp only [Readiness.ready, responseReady, parses]
      exact exists_genericReady extracts
    | jsonRpc expectedId =>
      simp only [Readiness.ready, mcpJsonRpcResponseReady, parses]
      split_ifs
      · exact ⟨_, rfl⟩
      · obtain ⟨text, extracted⟩ := exists_bodyText extracts
        rw [extracted]
        exact ⟨_, rfl⟩
      · obtain ⟨complete, generic⟩ : ∃ isReady, genericHttpBodyReady parse parsed = .ok isReady :=
          exists_genericReady extracts
        rw [generic]
        show ∃ isReady, (if complete then answers parse expectedId parsed else .ok false) =
          .ok isReady
        split_ifs
        · exact exists_answers extracts
        · exact ⟨_, rfl⟩
      · exact exists_genericReady extracts

/-- What the caller waits for in a complete response with status 200: the message of an event
stream, the awaited message of any other body, or only the body. -/
def Awaited (parse : String → Except String Json.JsonValue) (readiness : Readiness) (head : Head)
    (body : String) : Prop :=
  match readiness, Text.contains (Text.toAsciiLowercase (headContentType head))
      "text/event-stream" with
  | .response, true => (Upstream.sseJsonRpcBody parse body none).isSome = true
  | .jsonRpc expectedId, true => (Upstream.sseJsonRpcBody parse body expectedId).isSome = true
  | .response, false => True
  | .jsonRpc expectedId, false => ∃ value, parse (Text.trim body) = .ok value ∧
      Upstream.jsonResponseIdMatches value expectedId = true

theorem ready_iff_awaited {raw body : String} {head : Head} {framed : Option Nat × String × Bool}
    (parses : parseResponse raw = .ok parsed) (shape : ParsedHead head framed parsed)
    (isFramed : parsed.isChunked = true ∨ parsed.contentLength ≠ none)
    (extracted : parsed.bodyBytes = .ok (encode body.toList)) :
    readiness.ready parse raw = .ok true ↔ Awaited parse readiness head body := by
  have text : bodyText? parsed = .ok (some body) := by
    simp only [bodyText?, extracted, attempt, bind, Except.bind, Option.bind, decode_encode,
      Option.map_some, ofList_toList]
  have generic : genericHttpBodyReady parse parsed = .ok (if parsed.isEventStream then
      (Upstream.sseJsonRpcBody parse body none).isSome else true) := by
    unfold genericHttpBodyReady
    split_ifs with stream chunked
    · rw [text]
      rfl
    · rw [extracted]
      rfl
    · cases length : parsed.contentLength with
      | none => exact absurd length (isFramed.resolve_left chunked)
      | some contentLength =>
        simp only [HttpResponse.bodyBytes, length] at extracted
        rw [if_neg chunked, require_bind_eq_ok] at extracted
        exact congrArg Except.ok (decide_eq_true extracted.1)
  have stream : parsed.isEventStream = Text.contains
      (Text.toAsciiLowercase (headContentType head)) "text/event-stream" := by
    rw [HttpResponse.isEventStream, shape.contentType]
  unfold Awaited
  rw [← stream]
  cases readiness with
  | response =>
    simp only [Readiness.ready, responseReady, parses, generic]
    cases parsed.isEventStream with
    | true => simp only [if_true, Except.ok.injEq]
    | false => simp
  | jsonRpc expectedId =>
    simp only [Readiness.ready, mcpJsonRpcResponseReady, parses, shape.status, generic, text]
    rw [if_neg (by decide), if_neg (by decide)]
    cases parsed.isEventStream with
    | true => simp [bind, Except.bind]
    | false =>
      simp only [Bool.false_eq_true, if_false, bind, Except.bind, if_true, answers, extracted,
        attempt, Option.getD_some, decode_encode, ofList_toList]
      cases parse (Text.trim body) with
      | error message => simp
      | ok value => simp

end Readiness

/-! ### Reading -/

section Reading

variable {maxResponseBytes : UInt64} {ready : String → Except Fault Bool} {ending : Ending}

def delivered (pieces : List Piece) : List UInt8 := (pieces.map Subtype.val).flatten

variable {pieces : List Piece} {raw : List UInt8}

theorem eq_of_readyText {text : String} (found : readyText ready raw = .ok (some text)) :
    encode text.toList = raw ∧ ready text = .ok true := by
  rw [readyText] at found
  cases decoded : decode raw with
  | none =>
    rw [decoded] at found
    cases found
  | some chars =>
    simp only [decoded, bind_eq_ok] at found
    obtain ⟨isReady, known, same⟩ := found
    cases isReady with
    | false => cases same
    | true =>
      cases same
      rw [toList_ofList]
      exact ⟨Utf8.decode_eq_some_iff.mp decoded, known⟩

/-- What was read is the text of the first bytes, and not too many; it is ready, or the socket was
closed. -/
theorem delivered_of_readLoop {text : String} (small : raw.length ≤ maxResponseBytes.toNat)
    (read : readLoop maxResponseBytes ready ending pieces raw = .ok text) :
    ∃ rest, encode text.toList ++ rest = raw ++ delivered pieces ∧
      (encode text.toList).length ≤ maxResponseBytes.toNat ∧
      (ending = .closed ∨ ready text = .ok true) := by
  induction pieces generalizing raw with
  | nil =>
    rw [readLoop] at read
    cases ending with
    | closed =>
      rw [finishReading] at read
      cases decoded : decode raw with
      | none =>
        rw [decoded] at read
        cases read
      | some chars =>
        rw [decoded] at read
        cases read
        rw [toList_ofList, Utf8.decode_eq_some_iff.mp decoded]
        exact ⟨[], rfl, small, .inl rfl⟩
    | timedOut =>
      rw [finishReading, bind_eq_ok] at read
      obtain ⟨found, isReady, read⟩ := read
      cases found with
      | none => cases read
      | some early =>
        cases read
        obtain ⟨rfl, known⟩ := eq_of_readyText isReady
        exact ⟨[], rfl, small, .inr known⟩
    | failed | expired | refused => cases read
  | cons piece pieces ih =>
    rw [readLoop] at read
    rw [require_bind_eq_ok, bind_eq_ok] at read
    obtain ⟨fits, found, isReady, read⟩ := read
    have split : raw ++ delivered (piece :: pieces) = raw ++ piece.val ++ delivered pieces := by
      simp [delivered]
    rw [split]
    cases found with
    | none => exact ih fits read
    | some early =>
      cases read
      obtain ⟨same, known⟩ := eq_of_readyText isReady
      rw [same]
      exact ⟨delivered pieces, rfl, fits, .inr known⟩

/-- A socket that delivers a text which is not ready before its end is read to the end, which has
to be ready if the socket stays open. -/
theorem readLoop_eq_ok {text : List Char} (whole : raw ++ delivered pieces = encode text)
    (pending : ending = .closed ∨ delivered pieces ≠ [])
    (fits : (encode text).length ≤ maxResponseBytes.toNat)
    (early : ∀ front rest, rest ≠ [] → encode front ++ rest = encode text →
      ready (String.ofList front) = .ok false)
    (total : ∃ isReady, ready (String.ofList text) = .ok isReady ∧
      (ending = .closed ∨ isReady = true)) :
    readLoop maxResponseBytes ready ending pieces raw = .ok (String.ofList text) := by
  induction pieces generalizing raw with
  | nil =>
    obtain rfl : ending = .closed := pending.resolve_right (fun more => more rfl)
    have all : raw = encode text := by rw [← whole, delivered]; simp
    rw [readLoop, finishReading, all, decode_encode]
  | cons piece pieces ih =>
    have split : raw ++ piece.val ++ delivered pieces = encode text := by
      rw [← whole]
      simp [delivered]
    have inside : (raw ++ piece.val).length ≤ maxResponseBytes.toNat := by
      have lengths := congrArg List.length split
      rw [List.length_append] at lengths
      omega
    rw [readLoop, require_eq_ok.mpr inside, readyText]
    cases decoded : decode (raw ++ piece.val) with
    | none =>
      refine ih split (.inr ?_)
      intro ended
      rw [ended, append_nil] at split
      rw [split, decode_encode] at decoded
      cases decoded
    | some front =>
      have encoded := Utf8.decode_eq_some_iff.mp decoded
      by_cases ended : delivered pieces = []
      · obtain rfl : front = text := by
          apply encode_injective
          rw [encoded, ← split, ended, append_nil]
        obtain ⟨isReady, known, taken⟩ := total
        dsimp only
        rw [known]
        cases isReady with
        | false => exact ih split (.inl (taken.resolve_right Bool.false_ne_true))
        | true => rfl
      · dsimp only
        rw [early front (delivered pieces) ended (encoded ▸ split)]
        exact ih split (.inr ended)

end Reading

/-! ### Framed responses -/

/-- The framing a parsed response has. -/
def HttpResponse.Carries (parsed : HttpResponse) (framed : Option Nat × String × Bool) : Prop :=
  parsed.contentLength = framed.1 ∧ parsed.transferEncoding = framed.2.1

/-- How the body is extracted from a payload under a framing: only from all of it, and from all of
it if the payload is acceptable. -/
structure Extraction (framed : Option Nat × String × Bool) (payload data : List UInt8)
    (acceptable : Prop) : Prop where
  checked : ∀ state : HeadState, state.framing = framed → checkFraming state = .ok ()
  complete : ∀ parsed : HttpResponse, parsed.Carries framed →
    parsed.isChunked = true ∨ parsed.contentLength ≠ none
  sound : ∀ (parsed : HttpResponse) rest bytes, parsed.Carries framed →
    encode parsed.body.toList ++ rest = payload → parsed.bodyBytes = .ok bytes →
      rest = [] ∧ bytes = data ∧ acceptable
  safe : ∀ (parsed : HttpResponse) rest, parsed.Carries framed →
    encode parsed.body.toList ++ rest = payload → payload.length < 2 ^ 64 → NoPanic parsed.bodyBytes
  extracts : ∀ parsed : HttpResponse, parsed.Carries framed →
    encode parsed.body.toList = payload → payload.length < 2 ^ 64 → acceptable →
      parsed.bodyBytes = .ok data

section Framed

variable {parse : String → Except String Json.JsonValue} {maxResponseBytes : UInt64}
  {readiness : Readiness} {head : Head} {framing : FieldLine} {fits acceptable : Prop}
  {framed : Option Nat × String × Bool} {payload : List UInt8} {body : String}
  {pieces : List Piece} {ending : Ending}

theorem response_ne_nil (head : Head) (framing : FieldLine) (payload : List UInt8) :
    head.response framing payload ≠ [] := by
  rw [Head.response]
  exact append_ne_nil_of_left_ne_nil (append_ne_nil_of_right_ne_nil _ (by decide)) _

theorem ready_early (frames : FramedBy framing fits framed)
    (extraction : Extraction framed payload (encode body.toList) acceptable)
    (small : payload.length < 2 ^ 64) {front : List Char} {rest : List UInt8}
    (whole : encode front ++ rest = head.response framing payload) :
    ∃ isReady, readiness.ready parse (String.ofList front) = .ok isReady ∧
      (isReady = true → rest = []) := by
  obtain ⟨isReady, known⟩ : ∃ isReady, readiness.ready parse (String.ofList front) = .ok isReady := by
    apply exists_ready
    intro parsed parses
    obtain ⟨shape, -, remains⟩ := parsedHead_of_parseResponse frames whole parses
    exact extraction.safe parsed rest ⟨shape.contentLength, shape.transferEncoding⟩ remains small
  refine ⟨isReady, known, ?_⟩
  rintro rfl
  obtain ⟨parsed, parses, extracts⟩ := bodyBytes_of_ready known
  obtain ⟨shape, -, remains⟩ := parsedHead_of_parseResponse frames whole parses
  have carries : parsed.Carries framed := ⟨shape.contentLength, shape.transferEncoding⟩
  obtain ⟨bytes, extracted⟩ := extracts shape.status (extraction.complete parsed carries)
  exact (extraction.sound parsed rest bytes carries remains extracted).1

/-- A framed response gives its body exactly if it is accepted, UTF-8 and not too long, and the
connection is closed or the caller waits for nothing else. -/
theorem fetchBody_iff (frames : FramedBy framing fits framed)
    (extraction : Extraction framed payload (encode body.toList) acceptable)
    (framingValid : Utf8.Valid framing.value)
    (delivers : delivered pieces = head.response framing payload) :
    fetchBody parse maxResponseBytes readiness ⟨pieces, ending⟩ = .ok body ↔
      (AcceptedHead head ∧ fits ∧ acceptable ∧ Utf8.Valid payload) ∧
        (head.response framing payload).length ≤ maxResponseBytes.toNat ∧
        (ending = .closed ∨ Awaited parse readiness head body) := by
  unfold fetchBody readResponseUntil
  constructor
  · intro fetched
    rw [bind_eq_ok] at fetched
    obtain ⟨raw, read, extracted⟩ := fetched
    obtain ⟨rest, whole, small, taken⟩ := delivered_of_readLoop (Nat.zero_le _) read
    rw [nil_append, delivers] at whole
    simp only [responseBody, bind_eq_ok] at extracted
    obtain ⟨parsed, parses, ⟨⟩, -, bytes, extracted, -⟩ := extracted
    rw [← ofList_toList (s := raw)] at parses
    obtain ⟨shape, holds, remains⟩ := parsedHead_of_parseResponse frames whole parses
    have carries : parsed.Carries framed := ⟨shape.contentLength, shape.transferEncoding⟩
    obtain ⟨rfl, rfl, isAcceptable⟩ := extraction.sound parsed rest bytes carries remains extracted
    rw [append_nil] at whole remains
    rw [← whole]
    rw [ofList_toList] at parses
    exact ⟨⟨shape.accepted, holds, isAcceptable, _, remains⟩, small, taken.imp_right
      (ready_iff_awaited parses shape (extraction.complete parsed carries) extracted).mp⟩
  · rintro ⟨⟨accepted, holds, isAcceptable, payloadValid⟩, small, taken⟩
    obtain ⟨text, encoded⟩ := valid_response accepted framingValid payloadValid
    have bounded : payload.length < 2 ^ 64 := by
      have machine := maxResponseBytes.toNat_lt
      have parts : payload.length ≤ (head.response framing payload).length := by
        rw [Head.response, List.length_append]
        omega
      omega
    obtain ⟨parsed, parses⟩ :=
      exists_parseResponse frames extraction.checked encoded accepted holds
    have all : encode text ++ [] = head.response framing payload := by
      rw [append_nil, encoded]
    obtain ⟨shape, -, remains⟩ := parsedHead_of_parseResponse frames all parses
    rw [append_nil] at remains
    have carries : parsed.Carries framed := ⟨shape.contentLength, shape.transferEncoding⟩
    have extracted := extraction.extracts parsed carries remains bounded isAcceptable
    have read : readLoop maxResponseBytes (readiness.ready parse) ending pieces [] =
        .ok (String.ofList text) := by
      apply readLoop_eq_ok
      · rw [nil_append, delivers, encoded]
      · right
        rw [delivers]
        exact response_ne_nil head framing payload
      · rw [encoded]
        exact small
      · intro front rest more whole
        obtain ⟨isReady, known, ends⟩ : ∃ isReady,
            readiness.ready parse (String.ofList front) = .ok isReady ∧
              (isReady = true → rest = []) :=
          ready_early frames extraction bounded (whole.trans encoded)
        cases isReady with
        | false => exact known
        | true => exact absurd (ends rfl) more
      · obtain ⟨isReady, known, -⟩ := ready_early frames extraction bounded all
        refine ⟨isReady, known, taken.imp_right fun awaited => ?_⟩
        have isTaken := (ready_iff_awaited parses shape
          (extraction.complete parsed carries) extracted).mpr awaited
        exact Except.ok.inj (known.symm.trans isTaken)
    simp only [bind_eq_ok]
    refine ⟨_, read, ?_⟩
    simp only [responseBody, bind_eq_ok]
    refine ⟨parsed, parses, (), require_eq_ok.mpr shape.status, _, extracted, ?_⟩
    rw [decode_encode]
    exact congrArg Except.ok ofList_toList

end Framed

/-! ### Chunks and lengths -/

theorem extraction_chunked (chunked : ChunkedBody) :
    Extraction (none, "chunked", true) chunked.bytes chunked.data (DecodableBody chunked) := by
  have isChunked : ∀ parsed : HttpResponse, parsed.Carries (none, "chunked", true) →
      parsed.isChunked = true := by
    intro parsed carries
    rw [HttpResponse.isChunked, carries.2]
    decide
  have decodes : ∀ parsed : HttpResponse, parsed.Carries (none, "chunked", true) →
      parsed.bodyBytes = decodeChunkedBody (encode parsed.body.toList) := by
    intro parsed carries
    exact if_pos (isChunked parsed carries)
  constructor
  case checked =>
    intro state framed
    obtain ⟨headers, contentType, contentLength, encoding, seen⟩ := state
    cases framed
    have single : (codings "chunked").map Text.toAsciiLowercase = ["chunked"] := by decide
    rw [checkFraming, require_bind_eq_ok, require_eq_ok]
    exact ⟨.inl rfl, .inr single⟩
  case complete => exact fun parsed carries => .inl (isChunked parsed carries)
  case sound =>
    intro parsed rest bytes carries whole extracted
    rw [decodes parsed carries] at extracted
    exact decodable_of_decodeChunkedBody whole extracted
  case safe =>
    intro parsed rest carries whole small
    rw [decodes parsed carries]
    exact noPanic_decodeChunkedBody whole small
  case extracts =>
    intro parsed carries whole small decodable
    rw [decodes parsed carries, whole]
    exact decodeChunkedBody_eq_ok decodable small

theorem extraction_length (payload : List UInt8) :
    Extraction (some payload.length, "", false) payload payload True := by
  have takes : ∀ parsed : HttpResponse, parsed.Carries (some payload.length, "", false) →
      parsed.bodyBytes = (do
        let bytes := encode parsed.body.toList
        require (payload.length ≤ bytes.length)
          (.error ("HTTP response body is truncated: expected " ++ toString payload.length ++
            " bytes, received " ++ toString bytes.length))
        .ok (bytes.take payload.length)) := by
    intro parsed carries
    have plain : parsed.isChunked = false := by
      rw [HttpResponse.isChunked, carries.2]
      show Text.contains (Text.toAsciiLowercase "") "chunked" = false
      decide
    simp only [HttpResponse.bodyBytes, plain, carries.1]
    rfl
  constructor
  case checked =>
    intro state framed
    obtain ⟨headers, contentType, contentLength, encoding, seen⟩ := state
    cases framed
    rw [checkFraming, require_bind_eq_ok, require_eq_ok]
    exact ⟨.inr rfl, .inl rfl⟩
  case complete =>
    intro parsed carries
    right
    rw [carries.1]
    exact Option.some_ne_none _
  case sound =>
    intro parsed rest bytes carries whole extracted
    rw [takes parsed carries, require_bind_eq_ok] at extracted
    obtain ⟨enough, taken⟩ := extracted
    have lengths := congrArg List.length whole
    rw [List.length_append] at lengths
    obtain rfl : rest = [] := List.length_eq_zero_iff.mp (by omega)
    rw [append_nil] at whole
    rw [whole, take_length] at taken
    exact ⟨rfl, (Except.ok.inj taken).symm, trivial⟩
  case safe =>
    intro parsed rest carries whole small
    rw [takes parsed carries]
    exact (noPanic_require _).bind (fun _ _ => noPanic_ok _)
  case extracts =>
    intro parsed carries whole small _
    rw [takes parsed carries, whole, require_bind_eq_ok]
    exact ⟨Nat.le_refl _, by rw [take_length]⟩

theorem valid_asciiBytes (text : String) : Utf8.Valid (asciiBytes text) := ⟨text.toList, rfl⟩

/-- A body reaches the client alike in chunks and with its length exactly if every chunk is UTF-8
by itself, the other texts of the responses are, the client knows the characters of the field
names, the responses are not too long, and both connections are closed or the client waits for
nothing but this body. -/
theorem chunkedTransfer_transparent_iff (parse : String → Except String Json.JsonValue)
    (maxResponseBytes : UInt64) (readiness : Readiness) (head : Head) (body : String)
    (chunked : ChunkedBody) (splits : chunked.data = encode body.toList)
    (chunkedPieces lengthPieces : List Piece) (chunkedEnding lengthEnding : Ending)
    (deliversChunks : delivered chunkedPieces = chunkedResponse head chunked)
    (deliversLength : delivered lengthPieces = lengthResponse head (encode body.toList)) :
    (fetchBody parse maxResponseBytes readiness ⟨chunkedPieces, chunkedEnding⟩ = .ok body ∧
        fetchBody parse maxResponseBytes readiness ⟨lengthPieces, lengthEnding⟩ = .ok body) ↔
      (∀ chunk ∈ chunked.chunks, Utf8.Valid chunk.data) ∧ DecodableBody chunked ∧
        AcceptedHead head ∧
        (chunkedResponse head chunked).length ≤ maxResponseBytes.toNat ∧
        (lengthResponse head (encode body.toList)).length ≤ maxResponseBytes.toNat ∧
        (chunkedEnding = .closed ∧ lengthEnding = .closed ∨ Awaited parse readiness head body) := by
  have byChunks := extraction_chunked chunked
  rw [splits] at byChunks
  have byLength := extraction_length (encode body.toList)
  rw [fetchBody_iff framedBy_transferEncoding byChunks (valid_asciiBytes _) deliversChunks,
    fetchBody_iff (framedBy_contentLength _) byLength (valid_asciiBytes _) deliversLength,
    valid_bytes_iff]
  constructor
  · rintro ⟨⟨⟨accepted, -, decodable, valid⟩, chunksFit, chunksEnd⟩, -, lengthFits, lengthEnds⟩
    exact ⟨fun chunk member => (valid.1 chunk member).2, decodable, accepted, chunksFit, lengthFits,
      and_or_right.mpr ⟨chunksEnd, lengthEnds⟩⟩
  · rintro ⟨valid, decodable, accepted, chunksFit, lengthFits, ends⟩
    obtain ⟨chunksEnd, lengthEnds⟩ := and_or_right.mp ends
    have bounded : (encode body.toList).length < 2 ^ 64 := by
      have machine := maxResponseBytes.toNat_lt
      have parts := lengthFits
      rw [lengthResponse, Head.response, List.length_append] at parts
      omega
    refine ⟨⟨⟨accepted, trivial, decodable, ?_⟩, chunksFit, chunksEnd⟩,
      ⟨accepted, bounded, trivial, body.toList, rfl⟩, lengthFits, lengthEnds⟩
    exact ⟨fun chunk member => ⟨decodable.chunks chunk member, valid chunk member⟩,
      decodable.last, fun trailer member => (decodable.trailers trailer member).2⟩

/-! ### A chunk that ends inside a character -/

def plainHead : Head where
  reason := asciiBytes "OK"
  before := []
  after := []
  visible := forall_mem_of_all (by decide)
  unframed := forall_mem_of_all (by decide)

def byteChunk (byte : UInt8) : Chunk where
  data := [byte]
  filled := cons_ne_nil _ _
  sizeLine := ⟨['1'], show Text.parseHexDigits ['1'] = some 1 by decide, none⟩

def lastLine : SizeLine 0 := ⟨['0'], by decide, none⟩

/-- The two bytes of `é`. -/
def splitCharacter : ChunkedBody := ⟨[byteChunk 0xc3, byteChunk 0xa9], lastLine, []⟩

def onePiece (bytes : List UInt8) (filled : bytes ≠ []) : List Piece := [⟨bytes, filled⟩]

theorem splitCharacter_refused : splitCharacter.data = encode "é".toList ∧
      fetchBody (fun _ => .error "") 8388608 .response
          ⟨onePiece (chunkedResponse plainHead splitCharacter) (by decide), .closed⟩ =
        .error (.error "HTTP probe returned a non-UTF-8 response") ∧
      fetchBody (fun _ => .error "") 8388608 .response
          ⟨onePiece (lengthResponse plainHead (encode "é".toList)) (by decide), .closed⟩ =
        .ok "é" := by
  refine ⟨by decide, ?_, ?_⟩
  · decide +kernel
  · decide +kernel

theorem chunkedTransfer_transparent_twoChunks : (fetchBody (fun _ => .error "") 8388608 .response
          ⟨onePiece (chunkedResponse plainHead
            ⟨[byteChunk 0x68, byteChunk 0x69], lastLine, []⟩) (by decide), .timedOut⟩ = .ok "hi" ∧
        fetchBody (fun _ => .error "") 8388608 .response
          ⟨onePiece (lengthResponse plainHead (encode "hi".toList)) (by decide), .closed⟩ =
            .ok "hi") := by
  refine (chunkedTransfer_transparent_iff (fun _ => .error "") 8388608 .response plainHead "hi"
    ⟨[byteChunk 0x68, byteChunk 0x69], lastLine, []⟩ (by decide) _ _ .timedOut .closed (by decide)
    (by decide)).mpr ⟨by decide, ⟨by decide, by decide, by decide⟩, ⟨by decide, by decide⟩,
      by decide, by decide, .inr ?_⟩
  have plain : Text.contains (Text.toAsciiLowercase (headContentType plainHead))
      "text/event-stream" = false := by decide
  unfold Awaited
  rw [plain]
  trivial

end Mcpace.HttpProbe

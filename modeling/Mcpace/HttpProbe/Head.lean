import Mcpace.HttpProbe.ChunkDecoding

/-!
Owns what the client's parser makes of the head of a response with status 200, and of the
beginnings of such a response: the head is parsed alike, and the body is what has arrived of it.
-/

namespace Mcpace.HttpProbe

open Library Checks Delimiters HttpMessage List String Text Utf8

/-- The head is UTF-8, and the client knows the characters of its field names. -/
structure AcceptedHead (head : Head) : Prop where
  reason : Utf8.Valid head.reason
  fields : ∀ field ∈ head.before ++ head.after, AcceptedField field

/-! ### Header lines -/

/-- What the headers so far say about the framing. -/
def HeadState.framing (state : HeadState) : Option Nat × String × Bool :=
  (state.contentLength, state.transferEncoding, state.transferEncodingSeen)

def unframed : Option Nat × String × Bool := (none, "", false)

/-- The content type after another field. -/
def fieldContentType (contentType : String) (field : FieldLine) : String :=
  if toAsciiLowercase field.name = "content-type" then
    Text.trim (String.ofList ((Utf8.decode field.value).getD []))
  else contentType

/-- The last content type of a head. -/
def headContentType (head : Head) : String := (head.before ++ head.after).foldl fieldContentType ""

theorem trimChars_subset (chars : List Char) : trimChars chars ⊆ chars :=
  fun _ member => (dropWhile_suffix _).subset ((List.rdropWhile_prefix _ _).subset member)

variable {field : FieldLine}

theorem addHeader_text (state : HeadState) {value : List Char}
    (encoded : encode value = field.value) :
    addHeader state (String.ofList (field.name.toList ++ ':' :: value)) = (do
      require (Sources.validHttpHeaderName field.name = true)
        (.error ("HTTP response contains an invalid header: " ++ field.name))
      let value := Text.trim (String.ofList value)
      let state ← readHeader state field.name value
      .ok { state with headers := state.headers ++ [(field.name, value)] }) := by
  have visible : isFieldText (Text.trim (String.ofList value)) = true := by
    rw [Text.trim, toList_ofList]
    exact isFieldText_of_subset encoded (trimChars_subset value)
  simp only [addHeader, splitOnce_field, trim_name, visible, and_true]

variable {value : String}

theorem readHeader_unframed {state : HeadState} {name : String}
    (other : isFramingName name = false) :
    ∃ after, readHeader state name value = .ok after ∧ after.framing = state.framing ∧
      after.contentType =
        if toAsciiLowercase name = "content-type" then value else state.contentType := by
  have notLength : toAsciiLowercase name ≠ "content-length" := by
    intro same
    rw [isFramingName, same] at other
    exact absurd other (by decide)
  have notTransfer : toAsciiLowercase name ≠ "transfer-encoding" := by
    intro same
    rw [isFramingName, same] at other
    exact absurd other (by decide)
  unfold readHeader
  dsimp only
  rw [if_neg notLength, if_neg notTransfer]
  split_ifs
  · exact ⟨_, rfl, rfl, rfl⟩
  · exact ⟨_, rfl, rfl, rfl⟩

variable {line : List Char}

theorem addHeader_unframed (state : HeadState) (encoded : encode line = field.line)
    (other : isFramingName field.name = false) :
    (AcceptedField field → ∃ after, addHeader state (String.ofList line) = .ok after ∧
          after.framing = state.framing) ∧
      ∀ after, addHeader state (String.ofList line) = .ok after →
        AcceptedField field ∧ after.framing = state.framing ∧
          after.contentType = fieldContentType state.contentType field := by
  obtain ⟨value, ofValue, rfl⟩ := fieldLine_text encoded
  obtain ⟨read, reads, same, typed⟩ : ∃ after, readHeader state field.name
      (Text.trim (String.ofList value)) = .ok after ∧ after.framing = state.framing ∧
        after.contentType = if toAsciiLowercase field.name = "content-type" then
          Text.trim (String.ofList value) else state.contentType :=
    readHeader_unframed other
  rw [addHeader_text state ofValue]
  simp only [reads]
  constructor
  · intro accepted
    rw [require_eq_ok.mpr accepted.1]
    exact ⟨_, rfl, same⟩
  · intro after added
    rw [require_bind_eq_ok] at added
    obtain ⟨known, added⟩ := added
    cases added
    refine ⟨⟨known, value, ofValue⟩, same, ?_⟩
    rw [fieldContentType, ← ofValue, decode_encode]
    exact typed

/-- The loop over such headers, by induction on the fields. -/
theorem foldlM_unframed (state : HeadState) {fields : List FieldLine} {lines : List (List Char)}
    (encoded : lines.map encode = fields.map FieldLine.line)
    (others : ∀ field ∈ fields, isFramingName field.name = false) :
    ((∀ field ∈ fields, AcceptedField field) →
        ∃ after, (lines.map String.ofList).foldlM addHeader state = .ok after ∧
          after.framing = state.framing) ∧
      ∀ after, (lines.map String.ofList).foldlM addHeader state = .ok after →
        (∀ field ∈ fields, AcceptedField field) ∧ after.framing = state.framing ∧
          after.contentType = fields.foldl fieldContentType state.contentType := by
  induction fields generalizing lines state with
  | nil =>
    obtain rfl := map_eq_nil_iff.mp encoded
    refine ⟨fun _ => ⟨state, rfl, rfl⟩, ?_⟩
    intro after done
    cases done
    exact ⟨nofun, rfl, rfl⟩
  | cons field fields ih =>
    obtain ⟨line, lines, rfl, first, later⟩ := map_eq_cons_iff.mp encoded
    rw [forall_mem_cons] at others
    have here := addHeader_unframed state first others.1
    simp only [map_cons, foldlM_cons, bind_eq_ok, forall_mem_cons]
    constructor
    · intro accepted
      obtain ⟨middle, added, same⟩ := here.1 accepted.1
      obtain ⟨after, done, kept⟩ := (ih middle later others.2).1 accepted.2
      exact ⟨after, ⟨middle, added, done⟩, kept.trans same⟩
    · intro after ⟨middle, added, done⟩
      obtain ⟨accepted, same, typed⟩ := here.2 middle added
      obtain ⟨rest, kept, restTyped⟩ := (ih middle later others.2).2 after done
      rw [typed] at restTyped
      exact ⟨⟨accepted, rest⟩, kept.trans same, restTyped⟩

/-! ### Framing fields -/

/-- The field is taken exactly under the condition, and then gives a head its framing. -/
def FramedBy (field : FieldLine) (fits : Prop) (framing : Option Nat × String × Bool) : Prop :=
  ∀ state line, state.framing = unframed → encode line = field.line →
    (fits → ∃ after, addHeader state (String.ofList line) = .ok after) ∧
      ∀ after, addHeader state (String.ofList line) = .ok after →
        fits ∧ after.framing = framing ∧ after.contentType = state.contentType

theorem addHeader_fixed (state : HeadState) (fixed : field.value = asciiBytes value)
    (encoded : encode line = field.line)
    (known : Sources.validHttpHeaderName field.name = true) :
    addHeader state (String.ofList line) = (do
      let state ← readHeader state field.name (Text.trim value)
      .ok { state with headers := state.headers ++ [(field.name, Text.trim value)] }) := by
  obtain ⟨text, ofText, rfl⟩ := fieldLine_text encoded
  obtain rfl : text = value.toList := encode_injective (ofText.trans fixed)
  rw [addHeader_text state ofText, require_eq_ok.mpr known, ofList_toList]
  rfl

theorem framedBy_transferEncoding : FramedBy transferEncoding True (none, "chunked", true) := by
  intro state line before encoded
  obtain ⟨headers, contentType, contentLength, encoding, seen⟩ := state
  cases before
  have fixed : transferEncoding.value = asciiBytes " chunked" := rfl
  rw [addHeader_fixed _ fixed encoded (by decide)]
  refine ⟨fun _ => ⟨_, rfl⟩, ?_⟩
  intro after added
  cases added
  exact ⟨trivial, rfl, rfl⟩

theorem trim_space_toString (number : Nat) :
    Text.trim (" " ++ toString number) = toString number := by
  have solid : ∀ char ∈ (toString number).toList, isWhitespace char = false :=
    fun _ member => isWhitespace_of_isAsciiAlphanumeric (isAsciiAlphanumeric_of_mem_toString member)
  rw [Text.trim, toList_append]
  show String.ofList (trimChars (' ' :: (toString number).toList)) = toString number
  rw [trimChars_cons (by decide), trimChars_eq_self solid, ofList_toList]

theorem framedBy_contentLength (length : Nat) :
    FramedBy (contentLength length) (length < 2 ^ 64) (some length, "", false) := by
  intro state line before encoded
  obtain ⟨headers, contentType, known, encoding, seen⟩ := state
  cases before
  have fixed : (contentLength length).value = asciiBytes (" " ++ toString length) := rfl
  have named : (contentLength length).name = "Content-Length" := rfl
  rw [addHeader_fixed _ fixed encoded (by rw [named]; decide), trim_space_toString]
  have lower : toAsciiLowercase (contentLength length).name = "content-length" := by
    rw [named]
    decide
  simp only [readHeader, lower, Text.parseUnsigned_toString_eq]
  by_cases fits : length < 2 ^ 64
  · rw [if_pos fits]
    refine ⟨fun _ => ⟨_, rfl⟩, ?_⟩
    intro after added
    cases added
    exact ⟨fits, rfl, rfl⟩
  · rw [if_neg fits]
    refine ⟨fun inside => absurd inside fits, ?_⟩
    intro after added
    cases added

/-! ### Heads -/

section Heads

variable {head : Head} {framing : FieldLine} {fits : Prop}
  {framed : Option Nat × String × Bool}

theorem foldlM_head {lines : List (List Char)} (frames : FramedBy framing fits framed)
    (encoded : lines.map encode = (head.before ++ framing :: head.after).map FieldLine.line) :
    ((∀ field ∈ head.before ++ head.after, AcceptedField field) → fits →
        ∃ after, (lines.map String.ofList).foldlM addHeader ⟨[], "", none, "", false⟩ =
          .ok after) ∧
      ∀ after, (lines.map String.ofList).foldlM addHeader ⟨[], "", none, "", false⟩ = .ok after →
        (∀ field ∈ head.before ++ head.after, AcceptedField field) ∧ fits ∧
          after.framing = framed ∧ after.contentType = headContentType head := by
  rw [map_append, map_cons] at encoded
  obtain ⟨beforeLines, others, rfl, early, later⟩ := map_eq_append_iff.mp encoded
  obtain ⟨line, afterLines, rfl, here, late⟩ := map_eq_cons_iff.mp later
  have unframedBefore : ∀ field ∈ head.before, isFramingName field.name = false :=
    (forall_mem_append.mp head.unframed).1
  have unframedAfter : ∀ field ∈ head.after, isFramingName field.name = false :=
    (forall_mem_append.mp head.unframed).2
  simp only [map_append, map_cons, foldlM_append, foldlM_cons, bind_eq_ok, forall_mem_append]
  constructor
  · intro ⟨acceptedBefore, acceptedAfter⟩ holds
    obtain ⟨first, readsFirst, same⟩ :=
      (foldlM_unframed ⟨[], "", none, "", false⟩ early unframedBefore).1 acceptedBefore
    obtain ⟨second, reads⟩ := (frames first line same here).1 holds
    obtain ⟨last, readsLast, -⟩ := (foldlM_unframed second late unframedAfter).1 acceptedAfter
    exact ⟨last, first, readsFirst, second, reads, readsLast⟩
  · intro last ⟨first, readsFirst, second, reads, readsLast⟩
    obtain ⟨acceptedBefore, same, typed⟩ :=
      (foldlM_unframed ⟨[], "", none, "", false⟩ early unframedBefore).2 first readsFirst
    obtain ⟨holds, isFramed, sameType⟩ := (frames first line same here).2 second reads
    obtain ⟨acceptedAfter, kept, lastTyped⟩ :=
      (foldlM_unframed second late unframedAfter).2 last readsLast
    refine ⟨⟨acceptedBefore, acceptedAfter⟩, holds, kept.trans isFramed, ?_⟩
    rw [lastTyped, sameType, typed, headContentType, foldl_append]

variable {text : List Char}

/-- Characters whose bytes are those of a field value are no line ends. -/
theorem plain_of_fieldBytes (visible : ∀ byte ∈ encode text, isFieldByte byte = true) :
    ∀ char ∈ text, char ≠ '\n' ∧ char ≠ '\r' ∧ char.toNat ≠ 0 := by
  intro char member
  have inside : ∀ byte ∈ String.utf8EncodeChar char, isFieldByte byte = true :=
    fun byte encoded => visible byte (mem_flatMap.mpr ⟨char, member, encoded⟩)
  refine ⟨?_, ?_, ?_⟩
  · rintro rfl
    exact absurd (inside 10 (by decide)) (by decide)
  · rintro rfl
    exact absurd (inside 13 (by decide)) (by decide)
  · intro zero
    rw [encodeChar_ascii (by omega), zero] at inside
    exact absurd (inside 0 (by decide)) (by decide)

theorem parseStatus_line {reason : List UInt8} (visible : ∀ byte ∈ reason, isFieldByte byte = true)
    (encoded : encode text = statusLine reason) :
    parseStatus (String.ofList text) = .ok 200 := by
  have plain : (String.ofList text).toList.all (fun char =>
      char ≠ '\n' && char ≠ '\r' && char.toNat ≠ 0) = true := by
    rw [toList_ofList, List.all_eq_true]
    intro char member
    have shown : ∀ byte ∈ encode text, isFieldByte byte = true := by
      rw [encoded]
      exact isFieldByte_statusLine visible
    simpa [and_assoc] using plain_of_fieldBytes shown char member
  have shape : ∃ rest, text = "HTTP/1.1".toList ++ ' ' :: ("200".toList ++ ' ' :: rest) := by
    have cutHere : encode text = [] ++ asciiBytes "HTTP/1.1 200 " ++ reason := encoded
    obtain ⟨front, rest, rfl, empty, -⟩ :=
      encode_eq_append_mark isAscii_opening (by decide) cutHere
    obtain rfl : front = [] := encode_injective empty
    exact ⟨rest, rfl⟩
  obtain ⟨rest, rfl⟩ := shape
  have parts : ∃ others, Dashboard.splitWhitespace
      (String.ofList ("HTTP/1.1".toList ++ ' ' :: ("200".toList ++ ' ' :: rest))) =
        "HTTP/1.1" :: "200" :: others := by
    rw [Dashboard.splitWhitespace, toList_ofList,
      splitOnP_append_cons_of_forall_mem (forall_mem_of_all (by decide)) _ (by decide),
      splitOnP_append_cons_of_forall_mem (forall_mem_of_all (by decide)) _ (by decide)]
    exact ⟨_, rfl⟩
  obtain ⟨others, split⟩ := parts
  unfold parseStatus
  rw [require_eq_ok.mpr plain, split]
  rfl

theorem isFieldByte_lines {line : List UInt8} (member : line ∈ head.lines framing) :
    line ≠ [] ∧ ∀ byte ∈ line, isFieldByte byte = true := by
  rcases mem_cons.mp member with rfl | inFields
  · refine ⟨?_, isFieldByte_statusLine head.visible⟩
    exact append_ne_nil_of_left_ne_nil (by decide) _
  · obtain ⟨field, -, rfl⟩ := List.mem_map.mp inFields
    exact ⟨line_ne_nil field, field.isFieldByte_line⟩

end Heads

/-! ### Responses -/

section Responses

variable {head : Head} {framing : FieldLine} {payload rest : List UInt8} {text : List Char}

theorem cut_response (head : Head) (framing : FieldLine) (payload : List UInt8) :
    cut (crlf ++ crlf) (head.response framing payload) =
      some (crlf.intercalate (head.lines framing), payload) :=
  cut_lines (by decide) (fun _ member => (isFieldByte_lines member).1)
    (fun _ member => cr_not_mem (isFieldByte_lines member).2) payload

theorem isAscii_separator : ∀ byte ∈ crlf ++ crlf, Utf8.IsAscii byte :=
  forall_mem_of_all (by decide)

variable {lines : List (List Char)}

/-- The lines of the text are filled and have no carriage return. -/
theorem plain_lines (encoded : lines.map encode = head.lines framing) :
    ∀ line ∈ lines, line ≠ [] ∧ '\r' ∉ line := by
  intro line member
  have inHead : encode line ∈ head.lines framing := by
    rw [← encoded]
    exact List.mem_map_of_mem member
  obtain ⟨filled, visible⟩ := isFieldByte_lines inHead
  constructor
  · rintro rfl
    exact filled rfl
  · intro found
    exact (plain_of_fieldBytes visible '\r' found).2.1 rfl

/-- The text of a beginning of a response is cut where the response is. -/
theorem cut_text {parts : List Char × List Char}
    (whole : encode text ++ rest = head.response framing payload)
    (found : cut headEnd text = some parts) :
    ∃ lines body, parts = (lineEnd.intercalate lines, body) ∧
      lines.map encode = head.lines framing ∧ encode body ++ rest = payload := by
  have occurs : encode text = encode parts.1 ++ (crlf ++ crlf) ++ encode parts.2 := by
    rw [eq_append_of_cut found, encode_append, encode_append]
    rfl
  obtain ⟨⟨early, late⟩, cutBytes⟩ : ∃ found, cut (crlf ++ crlf) (encode text) = some found :=
    occurs ▸ exists_cut_of_infix (encode parts.1) (encode parts.2)
  obtain ⟨rfl, remains⟩ := cut_of_append cutBytes (whole ▸ cut_response head framing payload)
  obtain ⟨before, after, rfl, first, rfl⟩ :=
    encode_eq_append_mark isAscii_separator (by decide) (eq_append_of_cut cutBytes)
  obtain ⟨lines, encoded, rfl⟩ := encode_eq_intercalate isAscii_crlf (by decide) first
  have plain := plain_lines encoded
  have cutChars : cut headEnd (lineEnd.intercalate lines ++ headEnd ++
      after) = some (lineEnd.intercalate lines, after) :=
    cut_lines (by decide) (fun line member => (plain line member).1)
      (fun line member => (plain line member).2) after
  exact ⟨lines, after, Option.some.inj (found.symm.trans cutChars), encoded, remains⟩

theorem exists_cut_text (whole : encode text = head.response framing payload) :
    ∃ parts, cut headEnd text = some parts := by
  obtain ⟨before, after, rfl, -, -⟩ :=
    encode_eq_append_mark isAscii_separator (by decide) whole
  exact exists_cut_of_infix before after

theorem splitAll_lines (encoded : lines.map encode = head.lines framing) :
    splitAll lineEnd (lineEnd.intercalate lines) = lines := by
  apply splitAll_intercalate
  · rintro rfl
    cases encoded
  · exact fun line member => (plain_lines encoded line member).2

variable {fits : Prop} {framed : Option Nat × String × Bool}

/-- What is known of a beginning of a response that is parsed. -/
structure ParsedHead (head : Head) (framed : Option Nat × String × Bool)
    (parsed : HttpResponse) : Prop where
  accepted : AcceptedHead head
  status : parsed.status = 200
  contentLength : parsed.contentLength = framed.1
  transferEncoding : parsed.transferEncoding = framed.2.1
  contentType : parsed.contentType = headContentType head

theorem parsedHead_of_parseResponse {parsed : HttpResponse} (frames : FramedBy framing fits framed)
    (whole : encode text ++ rest = head.response framing payload)
    (parses : parseResponse (String.ofList text) = .ok parsed) :
    ParsedHead head framed parsed ∧ fits ∧ encode parsed.body.toList ++ rest = payload := by
  unfold parseResponse at parses
  rw [toList_ofList] at parses
  cases found : cut headEnd text with
  | none =>
    rw [found] at parses
    cases parses
  | some parts =>
    obtain ⟨lines, body, rfl, encoded, remains⟩ := cut_text whole found
    obtain ⟨first, fields, rfl, ofStatus, ofFields⟩ := map_eq_cons_iff.mp encoded
    simp only [found, splitAll_lines encoded, map_cons, List.head?_cons, Option.getD_some,
      tail_cons, parseStatus_line head.visible ofStatus, bind_eq_ok] at parses
    obtain ⟨status, isOk, state, added, ⟨⟩, -, built⟩ := parses
    obtain ⟨accepted, holds, same, typed⟩ := (foldlM_head frames ofFields).2 state added
    cases isOk
    cases built
    have reason : Utf8.Valid head.reason :=
      (valid_ascii_append_iff isAscii_opening).mp ⟨first, ofStatus⟩
    refine ⟨⟨⟨reason, accepted⟩, rfl, congrArg Prod.fst same,
      congrArg (fun framing => framing.2.1) same, typed⟩, holds, ?_⟩
    rw [toList_ofList]
    exact remains

theorem exists_parseResponse (frames : FramedBy framing fits framed)
    (checks : ∀ state : HeadState, state.framing = framed → checkFraming state = .ok ())
    (whole : encode text = head.response framing payload) (accepted : AcceptedHead head)
    (holds : fits) : ∃ parsed, parseResponse (String.ofList text) = .ok parsed := by
  obtain ⟨parts, found⟩ := exists_cut_text whole
  have empty : encode text ++ [] = head.response framing payload := by
    rw [append_nil, whole]
  obtain ⟨lines, body, rfl, encoded, -⟩ := cut_text empty found
  obtain ⟨first, fields, rfl, ofStatus, ofFields⟩ := map_eq_cons_iff.mp encoded
  obtain ⟨state, added⟩ := (foldlM_head frames ofFields).1 accepted.fields holds
  have same := ((foldlM_head frames ofFields).2 state added).2.2.1
  unfold parseResponse
  simp only [toList_ofList, found, splitAll_lines encoded, map_cons, List.head?_cons,
    Option.getD_some, tail_cons, parseStatus_line head.visible ofStatus, bind_eq_ok]
  exact ⟨_, _, rfl, state, added, (), checks state same, rfl⟩

theorem valid_response (accepted : AcceptedHead head) (framingValid : Utf8.Valid framing.value)
    (payloadValid : Utf8.Valid payload) : Utf8.Valid (head.response framing payload) := by
  have lines : ∀ line ∈ head.lines framing, Utf8.Valid line := by
    intro line member
    rcases mem_cons.mp member with rfl | inFields
    · exact (valid_ascii_append_iff isAscii_opening).mpr accepted.reason
    · obtain ⟨field, present, rfl⟩ := List.mem_map.mp inFields
      apply (valid_field_iff field).mpr
      rcases mem_append.mp present with before | here
      · exact (accepted.fields field (mem_append_left _ before)).2
      · rcases mem_cons.mp here with rfl | after
        · exact framingValid
        · exact (accepted.fields field (mem_append_right _ after)).2
  exact ((valid_intercalate (valid_of_ascii isAscii_crlf) lines).append
    (valid_of_ascii isAscii_separator)).append payloadValid

end Responses

end Mcpace.HttpProbe

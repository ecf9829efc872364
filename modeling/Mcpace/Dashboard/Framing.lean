import Mcpace.Dashboard.Connection
import Mcpace.Library.HttpMessage

/-!
Contract: which bytes a request that is dispatched was made of.

A `Framing` is a request line, header lines, a blank line and a body of the declared length. It is
read off the bytes: a header line has its name at the front and directly before the colon, and only
spaces and tabs stand around a value. The server takes more for one: a stream that ends within its
head, as if the blank line had come, a length with a plus sign, and names and values with any Unicode
white space around them, so that a folded line can declare a length.
-/

namespace Mcpace.Dashboard

open Library ByteStream Checks Machine List Text

/-! ### Framings -/

def isBlank (line : List UInt8) : Bool := line = [13, 10] || line = [10]

/-- The parts of a request. -/
structure Framing where
  requestLine : List UInt8
  headerLines : List (List UInt8)
  blank : List UInt8
  body : List UInt8

def Framing.bytes (framing : Framing) : List UInt8 :=
  framing.requestLine ++ framing.headerLines.flatten ++ framing.blank ++ framing.body

/-- The line without its end. -/
def lineContent (line : List UInt8) : List UInt8 :=
  if line.dropLast.getLast? = some 13 then line.dropLast.dropLast else line.dropLast

def fieldName (line : List UInt8) : List UInt8 := (lineContent line).takeWhile (· ≠ 0x3a)

def isPadding (byte : UInt8) : Bool := byte = 9 || byte = 0x20

/-- What follows the colon, without the spaces and tabs around it. -/
def fieldValue (line : List UInt8) : List UInt8 :=
  (((lineContent line).dropWhile (· ≠ 0x3a)).tail.dropWhile isPadding).rdropWhile isPadding

def byteText (bytes : List UInt8) : String := String.ofList (bytes.map Utf8.asciiChar)

/-- The line has a colon, and a name directly before it. -/
def isFieldLine (line : List UInt8) : Bool :=
  0x3a ∈ lineContent line && isValidHttpHeaderName (byteText (fieldName line))

def namesLength (line : List UInt8) : Bool :=
  toAsciiLowercase (byteText (fieldName line)) = "content-length"

/-- The decimal number that the line has for its value. -/
def writtenLength (line : List UInt8) : Option Nat :=
  parseDigits ((fieldValue line).map Utf8.asciiChar)

/-- The length that header lines declare: a single decimal number, or zero by default. -/
def DeclaredLength (headerLines : List (List UInt8)) (length : Nat) : Prop :=
  match headerLines.filter namesLength with
  | [] => length = 0
  | [line] => writtenLength line = some length
  | _ => False

/-- A header as the server reads it. -/
def headerField (line : List UInt8) : Option (String × String) :=
  (splitOnce ':' (fromUtf8Lossy line)).map (fun parts =>
    (toAsciiLowercase (trim parts.1), trim parts.2))

/-- The parts are those of the request. -/
structure Framing.Valid (framing : Framing) (request : HttpRequest) : Prop where
  requestLine : IsLine framing.requestLine
  target : ∃ target version,
    splitWhitespace (fromUtf8Lossy framing.requestLine) = [request.method, target, version] ∧
      splitTarget target = (request.path, request.query)
  headerLines : ∀ line ∈ framing.headerLines,
    IsLine line ∧ isBlank line = false ∧ isFieldLine line = true
  fields : framing.headerLines.map headerField = request.headers.map some
  blank : isBlank framing.blank = true
  body : framing.body = request.body
  length : DeclaredLength framing.headerLines framing.body.length

/-- The lines behind the first, up to a blank one. -/
def headLines (bytes : List UInt8) : List (List UInt8) :=
  (lines bytes).tail.takeWhile (fun line => !isBlank line)

def Terminated (bytes : List UInt8) : Prop := ∃ line ∈ (lines bytes).tail, isBlank line = true

/-- Every line of the head is a header line, and its lengths are decimal numbers. -/
def Plain (bytes : List UInt8) : Prop :=
  ∀ line ∈ headLines bytes, isFieldLine line = true ∧
    (namesLength line = true → (writtenLength line).isSome = true)

/-! ### Decoding -/

variable {line : List UInt8} {text : String}

theorem eq_of_fromUtf8Lossy (decoded : fromUtf8Lossy line = text)
    (plain : ∀ char ∈ text.toList, char ≠ Char.ofNat 0 ∧ char.toNat < 0x80) :
    line = text.toList.map (fun char => UInt8.ofNat char.toNat) := by
  have chars := congrArg String.toList decoded
  rw [fromUtf8Lossy, String.toList_ofList] at chars
  have codes := Utf8.decodeLossy_plain (by rw [List.length_map]) chars plain
  have bytes := congrArg (List.map UInt8.ofNat) codes
  rw [List.map_map, List.map_map] at bytes
  rw [← map_id'' (fun byte => UInt8.ofNat_toNat) line]
  exact bytes

theorem isBlank_iff (filled : line ≠ []) : isBlank line = true ↔
      fromUtf8Lossy line = "\r\n" ∨ fromUtf8Lossy line = "\n" ∨ fromUtf8Lossy line = "" := by
  constructor
  · intro blank
    simp only [isBlank, Bool.or_eq_true, decide_eq_true_eq] at blank
    rcases blank with rfl | rfl
    · exact .inl (by decide)
    · exact .inr (.inl (by decide))
  · intro reads
    rcases reads with crlf | lf | empty
    · rw [eq_of_fromUtf8Lossy crlf (forall_mem_of_all (by decide))]
      rfl
    · rw [eq_of_fromUtf8Lossy lf (forall_mem_of_all (by decide))]
      rfl
    · exact absurd (eq_of_fromUtf8Lossy empty (forall_mem_of_all (by decide))) filled

/-! ### Reading -/

/-- Up to the newline: the newline ends what is taken, or there is none in it. -/
theorem take_untilNewline {available : List UInt8} {count : Nat}
    (within : count ≤ untilNewline available) :
    (count = untilNewline available ∧ newline ∈ available.take count →
      ∃ front, available.take count = front ++ [newline] ∧ newline ∉ front) ∧
    (¬(count = untilNewline available ∧ newline ∈ available.take count) →
      newline ∉ available.take count) := by
  have before : ∀ index, index ≤ available.idxOf newline → newline ∉ available.take index := by
    intro index early member
    have late := (mem_take_iff_idxOf_lt (mem_of_mem_take member)).mp member
    omega
  constructor
  · intro ⟨whole, cut⟩
    have member : newline ∈ available := mem_of_mem_take cut
    rw [untilNewline, if_pos member] at whole
    have position := idxOf_lt_length_of_mem member
    refine ⟨available.take (available.idxOf newline), ?_, before _ (Nat.le_refl _)⟩
    rw [whole, take_succ_eq_append_getElem position, getElem_idxOf position]
  · intro partly member
    have inside : newline ∈ available := mem_of_mem_take member
    have early : count ≠ untilNewline available := fun whole => partly ⟨whole, member⟩
    rw [untilNewline, if_pos inside] at within early
    exact before count (by omega) member

variable {reader after : Reader} {patience : Nat}

/-- A line that was read is the first of the lines to come, with what was read of it before. -/
theorem readLineLoop_spec {maxBytes : Nat} {label : String} {read : List UInt8}
    {result : LimitedHttpLine}
    (reads : readLineLoop maxBytes label patience reader read = .ok (result, after))
    (free : newline ∉ read) :
    (result = .empty → lines (read ++ reader.bytes) = [] ∧ after.bytes = []) ∧
      ∀ text, result = .line text → ∃ line, text = fromUtf8Lossy line ∧
        lines (read ++ reader.bytes) = line :: lines after.bytes := by
  induction patience generalizing reader read with
  | zero => cases reads
  | succ patience ih =>
    obtain ⟨filled, fills, reads⟩ := bind_eq_ok.mp reads
    obtain ⟨sameBytes, ended⟩ := Reader.bytes_fillBuf (mapError_eq_ok fills)
    rw [← sameBytes]
    dsimp only at reads
    generalize taken : min (untilNewline filled.buffer)
      (saturatingAdd 64 maxBytes 1 - read.length) = count at reads
    obtain ⟨cut, uncut⟩ := take_untilNewline (taken ▸ Nat.min_le_left _ _ :
      count ≤ untilNewline filled.buffer)
    have apart : filled.bytes = filled.buffer.take count ++
        Reader.bytes { filled with buffer := filled.buffer.drop count, patience := patience } := by
      simp only [Reader.bytes, ← List.append_assoc, take_append_drop]
    split_ifs at reads with empty none tooLong whole stuck
    · -- the end of the stream before a line
      cases reads
      have finished := ended empty
      exact ⟨fun _ => ⟨by rw [none, finished]; rfl, finished⟩, by simp⟩
    · -- the end of the stream within a line
      cases reads
      have finished := ended empty
      have afterOver : Reader.bytes { filled with patience := patience } = [] := finished
      refine ⟨by simp, ?_⟩
      intro text isLine
      cases isLine
      refine ⟨read, rfl, ?_⟩
      rw [finished, afterOver, append_nil, lines_of_free free none]
      rfl
    · cases reads
      exact ⟨by simp, by simp⟩
    · -- a line with its newline
      cases reads
      refine ⟨by simp, ?_⟩
      intro text isLine
      cases isLine
      obtain ⟨front, ends, clean⟩ := cut whole
      refine ⟨_, rfl, ?_⟩
      rw [apart, ← List.append_assoc]
      apply lines_isLine
      refine ⟨read ++ front, by rw [ends, List.append_assoc], ?_⟩
      rw [mem_append, not_or]
      exact ⟨free, clean⟩
    · cases reads
      exact ⟨by simp, by simp⟩
    · -- what was taken belongs to the line
      have clean : newline ∉ read ++ filled.buffer.take count := by
        rw [mem_append, not_or]
        exact ⟨free, uncut whole⟩
      have later := ih reads clean
      rwa [List.append_assoc, ← apart] at later

theorem readBodyLoop_spec {contentLength : Nat} {body whole : List UInt8}
    (reads : readBodyLoop contentLength patience reader body = .ok (whole, after))
    (within : body.length ≤ contentLength) :
    body ++ reader.bytes = whole ++ after.bytes ∧ whole.length = contentLength := by
  induction patience generalizing reader body with
  | zero =>
    unfold readBodyLoop at reads
    split_ifs at reads with more
    cases reads
    exact ⟨rfl, by omega⟩
  | succ patience ih =>
    unfold readBodyLoop at reads
    split_ifs at reads with more
    · obtain ⟨⟨chunk, rest⟩, read, reads⟩ := bind_eq_ok.mp reads
      have ⟨sameBytes, size⟩ := Reader.bytes_readExact (mapError_eq_ok read)
      have later := ih reads (by
        rw [List.length_append]
        omega)
      refine ⟨?_, later.2⟩
      rw [sameBytes, ← later.1, List.append_assoc]
      rfl
    · cases reads
      exact ⟨rfl, by omega⟩

theorem readRequestLine_spec (reads : readRequestLine reader = .ok (text, after)) :
    ∃ line, text = fromUtf8Lossy line ∧ lines reader.bytes = line :: lines after.bytes := by
  unfold readRequestLine at reads
  split at reads
  · cases reads
  · cases reads
  · cases reads
  · rename_i found
    cases reads
    exact (readLineLoop_spec found not_mem_nil).2 text rfl

/-- The next header line is the next line; the head ends at a blank one or with the stream. -/
theorem readHeaderLine_spec {result : Option String}
    (reads : readHeaderLine reader = .ok (result, after)) :
    (lines reader.bytes = [] ∧ result = none ∧ lines after.bytes = []) ∨
      ∃ line, lines reader.bytes = line :: lines after.bytes ∧
        result = if isBlank line then none else some (fromUtf8Lossy line) := by
  unfold readHeaderLine at reads
  split at reads
  · cases reads
  · rename_i found
    cases reads
    have ⟨ended, finished⟩ := (readLineLoop_spec found not_mem_nil).1 rfl
    exact .inl ⟨ended, rfl, by rw [finished]; rfl⟩
  · cases reads
  · rename_i text rest found
    obtain ⟨line, rfl, first⟩ := (readLineLoop_spec found not_mem_nil).2 text rfl
    have filled : line ≠ [] := by
      rintro rfl
      have nonempty := nil_not_mem_lines reader.bytes
      exact nonempty (by rw [show lines reader.bytes = _ from first]; exact mem_cons_self)
    split at reads
    · rename_i blank
      cases reads
      refine .inr ⟨line, first, ?_⟩
      rw [if_pos ((isBlank_iff filled).mpr blank)]
    · rename_i field
      cases reads
      refine .inr ⟨line, first, ?_⟩
      rw [if_neg (fun blank => field ((isBlank_iff filled).mp blank))]

/-! ### Headers -/

def addHeaders (state : HeaderState) (headers : List (List UInt8)) :
    Except Refusal HeaderState :=
  headers.foldlM (fun state line => addHeader state (fromUtf8Lossy line)) state

variable {state result : HeaderState}

/-- The head is made of the lines up to a blank one, which is dropped, or to the end. -/
theorem readHeaders_spec {allowed : Nat}
    (reads : readHeaders allowed state reader = .ok (result, after)) :
    addHeaders state ((lines reader.bytes).takeWhile (fun line => !isBlank line)) = .ok result ∧
      lines after.bytes = ((lines reader.bytes).dropWhile (fun line => !isBlank line)).tail := by
  -- what the end of the head gives, whatever is still allowed
  have ending : ∀ {state reader after}, readHeaderLine reader = .ok (none, after) →
      addHeaders state ((lines reader.bytes).takeWhile (fun line => !isBlank line)) = .ok state ∧
        lines after.bytes = ((lines reader.bytes).dropWhile (fun line => !isBlank line)).tail := by
    intro state reader after read
    rcases readHeaderLine_spec read with ⟨none, _, finished⟩ | ⟨line, first, shown⟩
    · rw [none, finished]
      exact ⟨rfl, rfl⟩
    · have blank : isBlank line = true := by
        by_contra field
        rw [if_neg field] at shown
        cases shown
      rw [first, takeWhile_cons, dropWhile_cons, blank]
      exact ⟨rfl, rfl⟩
  induction allowed generalizing state reader with
  | zero =>
    obtain ⟨⟨line, rest⟩, read, reads⟩ := bind_eq_ok.mp reads
    cases line with
    | none =>
      cases reads
      exact ending read
    | some text => cases reads
  | succ allowed ih =>
    obtain ⟨⟨line, rest⟩, read, reads⟩ := bind_eq_ok.mp reads
    cases line with
    | none =>
      cases reads
      exact ending read
    | some text =>
      obtain ⟨next, added, reads⟩ := bind_eq_ok.mp reads
      have ⟨others, dropped⟩ := ih reads
      rcases readHeaderLine_spec read with ⟨_, impossible, _⟩ | ⟨line, first, shown⟩
      · cases impossible
      · have field : isBlank line = false := by
          by_contra blank
          rw [if_pos (Bool.eq_true_of_not_eq_false blank)] at shown
          cases shown
        rw [field, if_neg Bool.false_ne_true, Option.some.injEq] at shown
        rw [shown] at added
        rw [first, takeWhile_cons, dropWhile_cons, field]
        refine ⟨?_, dropped⟩
        exact bind_eq_ok.mpr ⟨next, added, others⟩

def contentLengths (headers : List (String × String)) : List String :=
  (headers.filter (fun header => header.1 = "content-length")).map Prod.snd

/-- What is known of the length after the headers so far. -/
def LengthKnown (headers : List (String × String)) (known : Option Nat) : Prop :=
  (contentLengths headers = [] ∧ known = none) ∨
    ∃ text length, contentLengths headers = [text] ∧ known = some length ∧
      parseUnsigned 64 text = some length

theorem contentLengths_append (headers : List (String × String)) (header : String × String) :
    contentLengths (headers ++ [header]) =
      contentLengths headers ++ if header.1 = "content-length" then [header.2] else [] := by
  rw [contentLengths, filter_append, map_append, ← contentLengths]
  by_cases same : header.1 = "content-length"
  · simp [same]
  · simp [same]

variable {header : String × String}

theorem headerField_of_parseHeader (parsed : parseHeader (fromUtf8Lossy line) = .ok header) :
    headerField line = some header := by
  unfold parseHeader at parsed
  split at parsed
  · cases parsed
  · rename_i name value parts
    have ⟨_, parsed⟩ := require_bind_eq_ok.mp parsed
    have ⟨_, parsed⟩ := require_bind_eq_ok.mp parsed
    rw [headerField, parts, Option.map_some, Except.ok.inj parsed]

theorem nextContentLength_spec {headers : List (String × String)} {known result : Option Nat}
    (next : nextContentLength known header = .ok result) (before : LengthKnown headers known) :
    LengthKnown (headers ++ [header]) result := by
  unfold LengthKnown
  rw [contentLengths_append]
  unfold nextContentLength at next
  split_ifs at next with isLength
  · rw [if_pos isLength]
    split at next
    · cases next
    · rename_i length parsed
      have ⟨fresh, next⟩ := require_bind_eq_ok.mp next
      cases next
      rcases before with ⟨none, _⟩ | ⟨text, other, _, isKnown, _⟩
      · exact .inr ⟨header.2, length, by rw [none]; rfl, rfl, parsed⟩
      · rw [fresh] at isKnown
        cases isKnown
  · cases next
    rw [if_neg isLength, append_nil]
    exact before

theorem addHeaders_spec {headers : List (List UInt8)}
    (added : addHeaders state headers = .ok result)
    (before : LengthKnown state.headers state.contentLength) :
    ∃ fields, result.headers = state.headers ++ fields ∧ headers.map headerField = fields.map some ∧
      LengthKnown result.headers result.contentLength := by
  induction headers generalizing state with
  | nil =>
    cases added
    exact ⟨[], (append_nil _).symm, rfl, before⟩
  | cons line others ih =>
    obtain ⟨next, first, added⟩ := bind_eq_ok.mp added
    have ⟨_, first⟩ := require_bind_eq_ok.mp first
    obtain ⟨header, parsed, first⟩ := bind_eq_ok.mp first
    have ⟨_, first⟩ := require_bind_eq_ok.mp first
    obtain ⟨length, known, first⟩ := bind_eq_ok.mp first
    cases first
    have ⟨fields, headers_eq, fields_eq, after⟩ :=
      ih added (nextContentLength_spec known before)
    refine ⟨header :: fields, ?_, ?_, after⟩
    · rw [headers_eq, List.append_assoc]
      rfl
    · rw [map_cons, map_cons, headerField_of_parseHeader parsed, fields_eq]

/-! ### Requests -/

/-- What was read for a request that is dispatched. -/
structure Dispatched (request : HttpRequest) (reader rest : Reader) (line : List UInt8)
    (head : Reader) : Prop where
  first : lines reader.bytes = line :: lines head.bytes
  target : ∃ target version,
    splitWhitespace (fromUtf8Lossy line) = [request.method, target, version] ∧
      splitTarget target = (request.path, request.query)
  fields : ((lines head.bytes).takeWhile (fun line => !isBlank line)).map headerField =
    request.headers.map some
  dropped : ((lines head.bytes).dropWhile (fun line => !isBlank line)).tail.flatten =
    request.body ++ rest.bytes
  length : LengthKnown request.headers (some request.body.length) ∨
    (contentLengths request.headers = [] ∧ request.body = [])

theorem parseRequestLine_spec {method target : String}
    (parsed : parseRequestLine text = .ok (method, target)) :
    ∃ version, splitWhitespace text = [method, target, version] := by
  have ⟨_, parsed⟩ := require_bind_eq_ok.mp parsed
  split at parsed
  · rename_i split
    have ⟨_, parsed⟩ := require_bind_eq_ok.mp parsed
    have ⟨_, parsed⟩ := require_bind_eq_ok.mp parsed
    cases parsed
    exact ⟨_, split⟩
  · cases parsed

theorem dispatched_of_handleConnection {limits : ConnectionLimits}
    {gate : HttpRequest → Option Refusal} {rest : Reader} {request : HttpRequest}
    (handled : handleConnection limits gate reader = .ok (request, rest)) :
    ∃ line head, Dispatched request reader rest line head := by
  obtain ⟨⟨text, head⟩, readLine, handled⟩ := bind_eq_ok.mp handled
  obtain ⟨⟨method, target⟩, parsed, handled⟩ := bind_eq_ok.mp handled
  obtain ⟨⟨state, after⟩, readHead, handled⟩ := bind_eq_ok.mp handled
  obtain ⟨_, _, handled⟩ := bind_eq_ok.mp handled
  have ⟨_, handled⟩ := require_bind_eq_ok.mp handled
  obtain ⟨_, _, handled⟩ := bind_eq_ok.mp handled
  obtain ⟨_, _, handled⟩ := bind_eq_ok.mp handled
  obtain ⟨⟨body, final⟩, readBody, handled⟩ := bind_eq_ok.mp handled
  cases handled
  obtain ⟨line, rfl, first⟩ := readRequestLine_spec readLine
  have ⟨version, split⟩ := parseRequestLine_spec parsed
  have ⟨added, dropped⟩ := readHeaders_spec readHead
  have ⟨fields, headers_eq, fields_eq, known⟩ := addHeaders_spec added (.inl ⟨rfl, rfl⟩)
  have ⟨bytes, size⟩ := readBodyLoop_spec (mapError_eq_ok readBody) (Nat.zero_le _)
  rw [nil_append] at headers_eq bytes
  refine ⟨line, head, first, ⟨target, version, split, rfl⟩, ?_, ?_, ?_⟩
  · rw [fields_eq, headers_eq]
  · rw [← dropped, flatten_lines, bytes]
  · rcases known with ⟨none, unknown⟩ | ⟨value, length, single, isKnown, parsedLength⟩
    · rw [unknown] at size
      exact .inr ⟨none, List.length_eq_zero_iff.mp size⟩
    · rw [isKnown] at size
      exact .inl (.inr ⟨value, length, single, congrArg some size, parsedLength⟩)

variable {length : Nat}

theorem parseDigits_of_unsigned (parsed : parseUnsigned 64 text = some length)
    (plain : text.toList.head? ≠ some '+') : parseDigits text.toList = some length := by
  unfold parseUnsigned at parsed
  obtain ⟨digits, _⟩ := Option.filter_eq_some_iff.mp parsed
  split at digits
  · rename_i rest isSigned
    rw [isSigned] at plain
    exact absurd rfl plain
  · exact digits

theorem head?_of_parseDigits {chars : List Char} (parsed : parseDigits chars = some length) :
    chars.head? ≠ some '+' := by
  intro isSigned
  unfold parseDigits at parsed
  split_ifs at parsed with digits
  have plus := List.all_eq_true.mp digits.2 '+' (List.mem_of_mem_head? isSigned)
  exact absurd plus (by decide)

/-! ### Header lines -/

theorem exists_lineEnd (isLine : IsLine line) :
    ∃ ending, line = lineContent line ++ ending ∧ ∀ byte ∈ ending, byte = 13 ∨ byte = 10 := by
  obtain ⟨front, rfl, -⟩ := isLine
  unfold lineContent
  rw [dropLast_concat]
  split_ifs with cr
  · refine ⟨[13, newline], ?_, by simp [newline]⟩
    have ends := dropLast_append_getLast? 13 cr
    nth_rewrite 1 [← ends]
    simp
  · exact ⟨[newline], rfl, by simp [newline]⟩

theorem isWhitespace_asciiChar {byte : UInt8}
    (blank : byte = 9 ∨ byte = 10 ∨ byte = 13 ∨ byte = 0x20) :
    Utf8.IsAscii byte ∧ isWhitespace (Utf8.asciiChar byte) = true := by
  rcases blank with rfl | rfl | rfl | rfl <;> decide

/-- A header line is its name, a colon, and its value between blanks. -/
theorem exists_padding (isLine : IsLine line) (isField : isFieldLine line = true) :
    ∃ before after, line = fieldName line ++ 0x3a :: (before ++ fieldValue line ++ after) ∧
      ∀ byte ∈ before ++ after, Utf8.IsAscii byte ∧ isWhitespace (Utf8.asciiChar byte) = true := by
  obtain ⟨ending, whole, isEnd⟩ := exists_lineEnd isLine
  have colon : 0x3a ∈ lineContent line := of_decide_eq_true (Bool.and_eq_true_iff.mp isField).1
  have cut := takeWhile_append_dropWhile (p := (· ≠ (0x3a : UInt8))) (l := lineContent line)
  cases found : (lineContent line).dropWhile (· ≠ 0x3a) with
  | nil => exact absurd (dropWhile_eq_nil_iff.mp found _ colon) (by decide)
  | cons first value =>
    have isColon : first = 0x3a := by
      have stops := List.head?_dropWhile_not (· ≠ (0x3a : UInt8)) (lineContent line)
      rw [found] at stops
      simpa using stops
    rw [found, isColon] at cut
    have padded : (value.dropWhile isPadding).rdropWhile isPadding ++
        (value.dropWhile isPadding).rtakeWhile isPadding = value.dropWhile isPadding := by
      rw [List.rdropWhile, List.rtakeWhile, ← reverse_append, takeWhile_append_dropWhile,
        reverse_reverse]
    have inner : value = value.takeWhile isPadding ++ (fieldValue line ++
        (value.dropWhile isPadding).rtakeWhile isPadding) := by
      rw [fieldValue, found, tail_cons, padded, takeWhile_append_dropWhile]
    refine ⟨value.takeWhile isPadding,
      (value.dropWhile isPadding).rtakeWhile isPadding ++ ending, ?_, ?_⟩
    · nth_rewrite 1 [whole, ← cut, inner]
      simp [fieldName]
    · have isBlankByte : ∀ byte, isPadding byte = true → byte = 9 ∨ byte = 0x20 := by
        simp [isPadding]
      intro byte member
      apply isWhitespace_asciiChar
      simp only [mem_append] at member
      rcases member with front | back | atEnd
      · exact (isBlankByte byte (mem_takeWhile_imp front)).imp_right (.inr ∘ .inr)
      · exact (isBlankByte byte (mem_rtakeWhile_imp back)).imp_right (.inr ∘ .inr)
      · rcases isEnd byte atEnd with cr | lf
        · exact .inr (.inr (.inl cr))
        · exact .inr (.inl lf)

theorem toNat_of_mem_fieldName (isField : isFieldLine line = true) {byte : UInt8}
    (member : byte ∈ fieldName line) :
    0x21 ≤ byte.toNat ∧ byte.toNat < 0x7f ∧ byte.toNat ≠ 0x3a := by
  have valid := (Bool.and_eq_true_iff.mp (Bool.and_eq_true_iff.mp isField).2).2
  rw [byteText, String.toList_ofList, List.all_eq_true] at valid
  have token : HttpMessage.isTokenChar (Utf8.asciiChar byte) = true :=
    valid _ (List.mem_map_of_mem member)
  rw [← Utf8.toNat_asciiChar byte]
  exact HttpMessage.toNat_of_isTokenChar token

/-- The server reads the name of a header line, and a decimal value, as they are written. -/
theorem headerField_of_isFieldLine (isLine : IsLine line) (isField : isFieldLine line = true) :
    ∃ value, headerField line = some (toAsciiLowercase (byteText (fieldName line)), value) ∧
      ∀ length, writtenLength line = some length →
        value.toList = (fieldValue line).map Utf8.asciiChar := by
  obtain ⟨before, after, whole, padding⟩ := exists_padding isLine isField
  have codes : ∀ byte ∈ fieldName line, _ := fun _ => toNat_of_mem_fieldName isField
  have ascii : ∀ byte ∈ fieldName line ++ [0x3a], Utf8.IsAscii byte := by
    intro byte member
    rcases mem_append.mp member with named | colon
    · exact (codes byte named).2.1.trans (by decide)
    · rw [mem_singleton.mp colon]
      decide
  have solid : ∀ char ∈ (byteText (fieldName line)).toList,
      char ≠ ':' ∧ isWhitespace char = false := by
    intro char member
    rw [byteText, String.toList_ofList] at member
    obtain ⟨byte, named, rfl⟩ := List.mem_map.mp member
    have code := codes byte named
    rw [← Utf8.toNat_asciiChar byte] at code
    refine ⟨fun colon => code.2.2 (by rw [colon]; rfl), ?_⟩
    simp only [isWhitespace, Bool.or_eq_false_iff, Bool.and_eq_false_iff, decide_eq_false_iff_not,
      beq_eq_false_iff_ne]
    omega
  let rest := before ++ fieldValue line ++ after
  let decoded := Utf8.decodeLossy rest.length (rest.map UInt8.toNat)
  have text : fromUtf8Lossy line =
      byteText (fieldName line) ++ String.singleton ':' ++ String.ofList decoded := by
    have parts : line = (fieldName line ++ [0x3a]) ++ rest := by
      rw [List.append_assoc]
      exact whole
    nth_rewrite 1 [parts]
    rw [fromUtf8Lossy, Utf8.decodeLossy_append ascii, ← String.toList_inj]
    simp [byteText, decoded]
    decide
  have split := splitOnce_append (fun member => (solid ':' member).1 rfl) (String.ofList decoded)
  have name : trim (byteText (fieldName line)) = byteText (fieldName line) := by
    rw [trim, trimChars_eq_self (fun char member => (solid char member).2), String.ofList_toList]
  refine ⟨trim (String.ofList decoded), by rw [headerField, text, split, Option.map_some, name], ?_⟩
  intro length written
  have digits : ∀ byte ∈ fieldValue line, (Utf8.asciiChar byte).isDigit = true := by
    intro byte member
    unfold writtenLength parseDigits at written
    split_ifs at written with isNumber
    exact List.all_eq_true.mp isNumber.2 _ (List.mem_map_of_mem member)
  have plain : ∀ byte ∈ rest, Utf8.IsAscii byte := by
    intro byte member
    simp only [rest, mem_append] at member
    rcases member with (front | inValue) | back
    · exact (padding byte (mem_append_left _ front)).1
    · have code := toNat_of_isAsciiAlphanumeric (by
        rw [isAsciiAlphanumeric, digits byte inValue, Bool.true_or, Bool.true_or])
      rw [Utf8.toNat_asciiChar] at code
      show byte.toNat < 0x80
      omega
    · exact (padding byte (mem_append_right _ back)).1
  have chars : decoded = before.map Utf8.asciiChar ++ ((fieldValue line).map Utf8.asciiChar ++
      after.map Utf8.asciiChar) := by
    have whole := Utf8.decodeLossy_append plain []
    rw [append_nil, map_nil, Utf8.decodeLossy, append_nil] at whole
    simp only [decoded, whole, rest, map_append, List.append_assoc]
  have blank : ∀ bytes ⊆ before ++ after, ∀ char ∈ bytes.map Utf8.asciiChar,
      isWhitespace char = true := by
    intro bytes inside char member
    obtain ⟨byte, present, rfl⟩ := List.mem_map.mp member
    exact (padding byte (inside present)).2
  have solidValue : ∀ char ∈ (fieldValue line).map Utf8.asciiChar, isWhitespace char = false := by
    intro char member
    obtain ⟨byte, present, rfl⟩ := List.mem_map.mp member
    apply isWhitespace_of_isAsciiAlphanumeric
    rw [isAsciiAlphanumeric, digits byte present, Bool.true_or, Bool.true_or]
  rw [trim, String.toList_ofList, String.toList_ofList, chars,
    trimChars_blank_append (blank before (subset_append_left _ _)),
    trimChars_append_blank solidValue (blank after (subset_append_right _ _))]

/-- The lengths the server reads are the values of the lines that name one. -/
theorem contentLengths_eq {headers : List (String × String)} {headerLines : List (List UInt8)}
    (fields : headerLines.map headerField = headers.map some)
    (plain : ∀ line ∈ headerLines, IsLine line ∧ isFieldLine line = true) :
    contentLengths headers = (headerLines.filter namesLength).map
      (fun line => ((headerField line).map Prod.snd).getD "") := by
  induction headerLines generalizing headers with
  | nil =>
    rw [map_nil, eq_comm, map_eq_nil_iff] at fields
    rw [fields]
    rfl
  | cons line others ih =>
    obtain ⟨header, later, rfl, first, rest⟩ := map_eq_cons_iff.mp fields.symm
    rw [forall_mem_cons] at plain
    obtain ⟨value, read, -⟩ := headerField_of_isFieldLine plain.1.1 plain.1.2
    rw [← first] at read
    have name : header.1 = toAsciiLowercase (byteText (fieldName line)) :=
      congrArg Prod.fst (Option.some.inj read)
    have before := ih rest.symm plain.2
    rw [contentLengths] at before ⊢
    rw [filter_cons, filter_cons, name, namesLength]
    split_ifs
    · rw [map_cons, map_cons, before, ← first]
      rfl
    · exact before

section Framed

variable {request : HttpRequest} {reader rest head : Reader} {line : List UInt8}

section

variable (dispatched : Dispatched request reader rest line head)

include dispatched

theorem Dispatched.headLines_eq :
    headLines reader.bytes = (lines head.bytes).takeWhile (fun line => !isBlank line) := by
  rw [headLines, dispatched.first, tail_cons]

theorem Dispatched.declaredLength
    (plain : ∀ line ∈ headLines reader.bytes, IsLine line ∧ isFieldLine line = true)
    (decimal : Plain reader.bytes) :
    DeclaredLength (headLines reader.bytes) request.body.length := by
  have fields := dispatched.fields
  rw [← dispatched.headLines_eq] at fields
  have lengths := contentLengths_eq fields plain
  unfold DeclaredLength
  rcases dispatched.length with (⟨_, none⟩ | ⟨text, length, single, isLength, parsed⟩) |
      ⟨none, empty⟩
  · cases none
  · cases isLength
    rw [single, eq_comm, map_eq_singleton_iff] at lengths
    obtain ⟨declaring, isSingle, value⟩ := lengths
    rw [isSingle]
    obtain ⟨inHead, named⟩ : declaring ∈ headLines reader.bytes ∧ namesLength declaring = true := by
      rw [← mem_filter, isSingle]
      exact mem_singleton_self _
    obtain ⟨number, written⟩ := Option.isSome_iff_exists.mp ((decimal declaring inHead).2 named)
    obtain ⟨read, isRead, chars⟩ :=
      headerField_of_isFieldLine (plain declaring inHead).1 (plain declaring inHead).2
    rw [isRead] at value
    obtain rfl : read = text := value
    dsimp only
    rw [writtenLength, ← chars number written]
    refine parseDigits_of_unsigned parsed ?_
    rw [chars number written]
    exact head?_of_parseDigits written
  · rw [none, eq_comm, map_eq_nil_iff] at lengths
    rw [lengths, empty]
    rfl

/-- A terminated head of header lines with decimal lengths makes a framing. -/
theorem Dispatched.framed (terminated : Terminated reader.bytes) (decimal : Plain reader.bytes) :
    ∃ framing : Framing, framing.Valid request ∧ reader.bytes = framing.bytes ++ rest.bytes := by
  have ⟨blank, member, isBlankLine⟩ := terminated
  rw [dispatched.first, tail_cons] at member
  -- the lines behind the first: header lines, a blank one, and the lines of the body
  have cut := List.takeWhile_append_dropWhile (p := fun line => !isBlank line)
    (l := lines head.bytes)
  have dropped := dispatched.dropped
  cases found : (lines head.bytes).dropWhile (fun line => !isBlank line) with
  | nil =>
    have field := dropWhile_eq_nil_iff.mp found blank member
    rw [isBlankLine] at field
    cases field
  | cons last others =>
    rw [found] at cut dropped
    have isLast : isBlank last = true := by
      have stops := List.head?_dropWhile_not (fun line => !isBlank line) (lines head.bytes)
      rw [found] at stops
      simpa using stops
    have whole : lines reader.bytes =
        (line :: (lines head.bytes).takeWhile (fun line => !isBlank line)) ++ last :: others := by
      rw [dispatched.first, cons_append, cut]
    have areLines := isLine_of_lines whole (cons_ne_nil _ _)
    have plain : ∀ header ∈ headLines reader.bytes,
        IsLine header ∧ isFieldLine header = true := by
      intro header member
      refine ⟨areLines header (mem_cons_of_mem _ ?_), (decimal header member).1⟩
      rw [← dispatched.headLines_eq]
      exact member
    refine ⟨⟨line, (lines head.bytes).takeWhile (fun line => !isBlank line), last,
      request.body⟩, ?_, ?_⟩
    · exact {
        requestLine := areLines line mem_cons_self
        target := dispatched.target
        headerLines := by
          intro header member
          have field := mem_takeWhile_imp member
          rw [← dispatched.headLines_eq] at member
          exact ⟨(plain header member).1, by simpa using field, (plain header member).2⟩
        fields := dispatched.fields
        blank := isLast
        body := rfl
        length := dispatched.headLines_eq ▸ dispatched.declaredLength plain decimal }
    · have bytes := flatten_lines reader.bytes
      rw [whole, flatten_append, flatten_cons, flatten_cons] at bytes
      rw [tail_cons] at dropped
      rw [← bytes, dropped, Framing.bytes]
      simp only [List.append_assoc]

end

variable {framing : Framing}

theorem Framing.Valid.lines (valid : framing.Valid request) (more : List UInt8) :
    lines (framing.bytes ++ more) = framing.requestLine :: (framing.headerLines ++
      framing.blank :: ByteStream.lines (framing.body ++ more)) := by
  have blankLine : IsLine framing.blank := by
    have blank := valid.blank
    simp only [isBlank, Bool.or_eq_true, decide_eq_true_eq] at blank
    rcases blank with crlf | lf
    · exact ⟨[13], crlf, by decide⟩
    · exact ⟨[], lf, not_mem_nil⟩
  simp only [Framing.bytes, List.append_assoc]
  rw [lines_isLine valid.requestLine,
    lines_flatten_append (fun line member => (valid.headerLines line member).1),
    lines_isLine blankLine]

theorem Framing.Valid.plain (valid : framing.Valid request) (more : List UInt8) :
    Terminated (framing.bytes ++ more) ∧ Plain (framing.bytes ++ more) := by
  have whole := valid.lines more
  have head : headLines (framing.bytes ++ more) = framing.headerLines := by
    rw [headLines, whole, tail_cons, takeWhile_append_of_pos, takeWhile_cons_of_neg, append_nil]
    · rw [valid.blank]
      decide
    · intro line member
      rw [(valid.headerLines line member).2.1]
      rfl
  constructor
  · refine ⟨framing.blank, ?_, valid.blank⟩
    rw [whole, tail_cons]
    exact mem_append_right _ mem_cons_self
  · rw [Plain, head]
    intro line member
    refine ⟨(valid.headerLines line member).2.2, fun named => ?_⟩
    have listed : line ∈ framing.headerLines.filter namesLength := mem_filter.mpr ⟨member, named⟩
    have declared := valid.length
    unfold DeclaredLength at declared
    split at declared
    · rename_i none
      rw [none] at listed
      exact absurd listed not_mem_nil
    · rename_i single isSingle
      rw [isSingle, mem_singleton] at listed
      rw [listed, declared]
      rfl
    · exact declared.elim

end Framed

/-- The bytes consumed for a request that is dispatched are a framing of it exactly if the stream
has the blank line behind the head, and the head only header lines with decimal lengths. -/
theorem dispatched_framed_iff (limits : ConnectionLimits) (gate : HttpRequest → Option Refusal)
    (reader rest : Reader) (request : HttpRequest)
    (handled : handleConnection limits gate reader = .ok (request, rest)) :
    (∃ framing : Framing, framing.Valid request ∧ reader.bytes = framing.bytes ++ rest.bytes) ↔
      Terminated reader.bytes ∧ Plain reader.bytes := by
  constructor
  · rintro ⟨framing, valid, bytes⟩
    rw [bytes]
    exact valid.plain rest.bytes
  · rintro ⟨terminated, plain⟩
    obtain ⟨line, head, dispatched⟩ := dispatched_of_handleConnection handled
    exact dispatched.framed terminated plain

/-! ### Concrete streams -/

/-- A stream that arrives at once and then ends. -/
def readerOf (text : String) : Reader where
  buffer := Utf8.encode text.toList
  pieces := []
  failure := none
  patience := 20

def openGate : HttpRequest → Option Refusal := fun _ => none

def localLimits : ConnectionLimits := ⟨1024, (· = "127.0.0.1")⟩

def lengthTwo : String :=
  "POST /x HTTP/1.1\r\nHost: 127.0.0.1\r\nContent-Length: 2\r\n\r\nok..."

instance (bytes : List UInt8) : Decidable (Terminated bytes) :=
  inferInstanceAs (Decidable (∃ line ∈ (lines bytes).tail, _))

instance (bytes : List UInt8) : Decidable (Plain bytes) :=
  inferInstanceAs (Decidable (∀ line ∈ headLines bytes, _))

theorem dispatched_framed_iff_lengthTwo :
    ∃ request rest, handleConnection localLimits openGate (readerOf lengthTwo) =
        .ok (request, rest) ∧ request.body = [111, 107] ∧
      ∃ framing : Framing, framing.Valid request ∧
        (readerOf lengthTwo).bytes = framing.bytes ++ rest.bytes := by
  have ran : (handleConnection localLimits openGate (readerOf lengthTwo)).toOption.map
      (fun handled => handled.1.body) = some [111, 107] := by decide +kernel
  obtain ⟨⟨request, rest⟩, handled, body⟩ := exists_ok_of_map ran
  exact ⟨request, rest, handled, body,
    (dispatched_framed_iff _ _ _ _ _ handled).mpr ⟨by decide +kernel, by decide +kernel⟩⟩

/-- The head has no blank line: the stream ends. -/
def cutOff : String := "GET / HTTP/1.1\r\nHost: 127.0.0.1"

/-- A request with the given line for its length. -/
def withLength (line : String) : String :=
  "POST /x HTTP/1.1\r\nHost: 127.0.0.1\r\n" ++ line ++ "\r\n\r\nok"

/-- The stream is dispatched and is not a framing of what was dispatched. -/
def DispatchedUnframed (text : String) : Prop :=
  ∃ request rest, handleConnection localLimits openGate (readerOf text) = .ok (request, rest) ∧
    ¬∃ framing : Framing, framing.Valid request ∧
      (readerOf text).bytes = framing.bytes ++ rest.bytes

theorem dispatchedUnframed_of_run
    (ran : ((handleConnection localLimits openGate (readerOf text)).toOption.map (fun _ => true)) =
      some true)
    (unmet : ¬(Terminated (readerOf text).bytes ∧ Plain (readerOf text).bytes)) :
    DispatchedUnframed text := by
  obtain ⟨⟨request, rest⟩, handled, _⟩ := exists_ok_of_map ran
  refine ⟨request, rest, handled, ?_⟩
  rintro ⟨framing, valid, bytes⟩
  rw [bytes] at unmet
  exact unmet (valid.plain rest.bytes)

/-- A head without its blank line, a length with a sign, a no-break space before a length, and a
length in a folded line. -/
theorem unframed_dispatched : DispatchedUnframed cutOff ∧
    DispatchedUnframed (withLength "Content-Length: +2") ∧
    DispatchedUnframed (withLength "Content-Length:\u00a02") ∧
    DispatchedUnframed (withLength "X-Note: a\r\n Content-Length: 2") := by
  refine ⟨?_, ?_, ?_, ?_⟩
  all_goals
    apply dispatchedUnframed_of_run
    · decide +kernel
    · decide +kernel

end Mcpace.Dashboard

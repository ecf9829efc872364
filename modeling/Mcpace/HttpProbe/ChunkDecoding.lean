import Mcpace.HttpProbe.Response

/-!
Owns what the chunk decoder makes of a chunked body and of its beginnings: it accepts the whole
body if the lines in it are readable, and no part of it before the end.
-/

namespace Mcpace.HttpProbe

open Library Checks Delimiters HttpMessage List String Text Utf8 ChunkedBody

/-! ### Size lines -/

/-- The extension is UTF-8. -/
def ReadableSize {size : Nat} (sizeLine : SizeLine size) : Prop :=
  ∀ extension ∈ sizeLine.extension, Utf8.Valid extension.text

/-- The field is UTF-8, and its name has only the characters the client knows. -/
def AcceptedField (field : FieldLine) : Prop :=
  Sources.validHttpHeaderName field.name = true ∧ Utf8.Valid field.value

instance {size : Nat} (sizeLine : SizeLine size) : Decidable (ReadableSize sizeLine) :=
  inferInstanceAs (Decidable (∀ _ ∈ _, _))

instance (field : FieldLine) : Decidable (AcceptedField field) :=
  inferInstanceAs (Decidable (_ ∧ _))

section SizeLines

variable {size : Nat} (sizeLine : SizeLine size)

theorem semicolon_not_mem_digits : ';' ∉ sizeLine.digits := by
  intro member
  exact absurd (sizeLine.isHex ';' member) (by decide)

theorem sizeLine_text (readable : ReadableSize sizeLine) :
    ∃ blanks tail, decode sizeLine.line = some (sizeLine.digits ++ blanks ++ tail) ∧
      (∀ char ∈ blanks, isWhitespace char = true ∧ char ≠ ';') ∧
      (tail = [] ∨ tail.head? = some ';') := by
  rw [SizeLine.line]
  cases present : sizeLine.extension with
  | none => exact ⟨[], [], by simp [decode_encode], by simp, .inl rfl⟩
  | some extension =>
    obtain ⟨text, encoded⟩ := readable extension present
    have ascii : ∀ byte ∈ extension.blank, Utf8.IsAscii byte := by
      intro byte member
      rcases extension.isBlank byte member with rfl | rfl
      · decide
      · decide
    refine ⟨extension.blank.map asciiChar, ';' :: text, ?_, ?_, .inr rfl⟩
    · rw [decode_eq_some_iff, encode_append, encode_append,
        encode_map_asciiChar ascii, encode_cons, encoded, Option.elim_some,
        ChunkExtension.bytes, List.append_assoc]
      rfl
    · intro char member
      obtain ⟨byte, blank, rfl⟩ := List.mem_map.mp member
      rcases extension.isBlank byte blank with rfl | rfl
      · decide
      · decide

theorem valid_sizeLine_iff : Utf8.Valid sizeLine.line ↔ ReadableSize sizeLine := by
  rw [SizeLine.line, valid_ascii_append_iff sizeLine.isAscii_digits, ReadableSize]
  cases sizeLine.extension with
  | none => exact iff_of_true ⟨[], rfl⟩ nofun
  | some extension =>
    have ascii : ∀ byte ∈ extension.blank ++ [0x3b], Utf8.IsAscii byte := by
      intro byte member
      rcases mem_append.mp member with blank | semicolon
      · rcases extension.isBlank byte blank with rfl | rfl
        · decide
        · decide
      · rw [mem_singleton.mp semicolon]
        decide
    have shape : extension.bytes = extension.blank ++ [0x3b] ++ extension.text := by
      simp [ChunkExtension.bytes]
    rw [Option.elim_some, shape, valid_ascii_append_iff ascii]
    simp

/-- The size is read off the line if it is UTF-8 and fits a machine word. -/
theorem chunkSize_line : chunkSize sizeLine.line =
      if ReadableSize sizeLine then
        if size < 2 ^ 64 then .ok size
        else .error (.error "chunked HTTP body has an invalid chunk size")
      else .error (.error "chunked HTTP body has a non-UTF-8 size line") := by
  by_cases readable : ReadableSize sizeLine
  · obtain ⟨blanks, tail, decoded, blank, ends⟩ := sizeLine_text sizeLine readable
    have front : (sizeLine.digits ++ blanks ++ tail).takeWhile (· ≠ ';') =
        sizeLine.digits ++ blanks := by
      have plain : ∀ char ∈ sizeLine.digits ++ blanks, decide (char ≠ ';') = true := by
        intro char member
        rw [decide_eq_true_eq]
        rcases mem_append.mp member with digit | inBlanks
        · exact fun same => semicolon_not_mem_digits sizeLine (same ▸ digit)
        · exact (blank char inBlanks).2
      rw [takeWhile_append_of_pos plain]
      cases tail with
      | nil => simp
      | cons first rest =>
        have semicolon : first = ';' := by simpa using ends
        simp [semicolon]
    have trimmed : Text.trim (String.ofList (sizeLine.digits ++ blanks)) =
        String.ofList sizeLine.digits := by
      rw [Text.trim, toList_ofList, Text.trimChars_append_blank]
      · exact fun char member =>
          isWhitespace_of_isAsciiAlphanumeric (sizeLine.isHex char member)
      · exact fun char member => (blank char member).1
    simp only [chunkSize, decoded, front, trimmed, Text.parseHexUnsigned_eq sizeLine.reads,
      if_pos readable]
    split_ifs
    · rfl
    · rfl
  · have undecoded : decode sizeLine.line = none := by
      rw [← Option.not_isSome_iff_eq_none, ← valid_iff_isSome, valid_sizeLine_iff]
      exact readable
    simp only [chunkSize, undecoded, if_neg readable]

theorem size_of_chunkSize {read : Nat} (sized : chunkSize sizeLine.line = .ok read) :
    read = size := by
  rw [chunkSize_line] at sized
  split_ifs at sized
  exact (Except.ok.inj sized).symm

end SizeLines

/-! ### Trailers -/

theorem valid_field_iff (field : FieldLine) : Utf8.Valid field.line ↔ Utf8.Valid field.value := by
  have ascii : ∀ byte ∈ encode field.name.toList ++ [0x3a], Utf8.IsAscii byte := by
    intro byte member
    rcases mem_append.mp member with named | colon
    · exact field.isAscii_name byte named
    · rw [mem_singleton.mp colon]
      decide
  have shape : field.line = encode field.name.toList ++ [0x3a] ++ field.value := by
    simp [FieldLine.line]
  rw [shape, valid_ascii_append_iff ascii]

variable {field : FieldLine}

theorem fieldLine_text {line : List Char} (encoded : encode line = field.line) :
    ∃ value, encode value = field.value ∧ line = field.name.toList ++ ':' :: value := by
  have valid : Utf8.Valid field.value := (valid_field_iff field).mp ⟨line, encoded⟩
  obtain ⟨value, same⟩ := valid
  refine ⟨value, same, encode_injective ?_⟩
  rw [encoded, encode_append, encode_cons, same]
  rfl

theorem splitOnce_field (field : FieldLine) (value : List Char) :
    splitOnce ':' (String.ofList (field.name.toList ++ ':' :: value)) =
      some (field.name, String.ofList value) := by
  have absent : ':' ∉ field.name.toList := by
    intro member
    exact (toNat_of_isTokenChar (field.isToken ':' member)).2.2 rfl
  rw [← splitOnce_append absent]
  congr 1
  rw [← toList_inj]
  simp

theorem trim_name (field : FieldLine) : Text.trim field.name = field.name := by
  rw [Text.trim, trimChars_eq_self, ofList_toList]
  intro char member
  have code := toNat_of_isTokenChar (field.isToken char member)
  simp only [isWhitespace, Bool.or_eq_false_iff, Bool.and_eq_false_iff,
    decide_eq_false_iff_not, beq_eq_false_iff_ne]
  omega

theorem isFieldText_of_subset {value part : List Char} (encoded : encode value = field.value)
    (inside : part ⊆ value) : isFieldText (String.ofList part) = true := by
  rw [isFieldText, toList_ofList, List.all_eq_true]
  intro byte member
  apply field.isFieldValue
  rw [← encoded]
  exact encode_subset inside member

theorem checkTrailer_line (field : FieldLine) :
    checkTrailer field.line = .ok () ↔ AcceptedField field := by
  unfold checkTrailer AcceptedField
  rw [← valid_field_iff]
  cases decoded : decode field.line with
  | none =>
    have invalid : ¬Utf8.Valid field.line := by
      rw [valid_iff_isSome, decoded]
      exact Bool.false_ne_true
    exact iff_of_false nofun (fun both => invalid both.2)
  | some line =>
    have encoded := Utf8.decode_eq_some_iff.mp decoded
    obtain ⟨value, ofValue, rfl⟩ := fieldLine_text encoded
    simp only [splitOnce_field, trim_name, require_eq_ok,
      isFieldText_of_subset ofValue (List.Subset.refl value), and_true]
    exact (and_iff_left ⟨_, encoded⟩).symm

theorem cut_fieldBytes {line : List UInt8} (visible : ∀ byte ∈ line, isFieldByte byte = true)
    (rest : List UInt8) : cut crlf (line ++ crlf ++ rest) = some (line, rest) :=
  cut_free (cr_not_mem visible) rest

theorem trailerBytes_cons (trailer : FieldLine) (trailers : List FieldLine) :
    trailerBytes (trailer :: trailers) = trailer.line ++ crlf ++ trailerBytes trailers := by
  simp [trailerBytes]

theorem line_ne_nil (field : FieldLine) : field.line ≠ [] := by
  simp [FieldLine.line]

theorem cut_trailerBytes (trailers : List FieldLine) :
    cut crlf (trailerBytes trailers) = some (match trailers with
      | [] => ([], [])
      | trailer :: trailers => (trailer.line, trailerBytes trailers)) := by
  cases trailers with
  | nil => rfl
  | cons trailer trailers =>
    rw [trailerBytes_cons, cut_fieldBytes trailer.isFieldByte_line]

variable {front : List UInt8} {trailers : List FieldLine}

/-- The trailers are accepted only as a whole, and only if each is. -/
theorem accepted_of_decodeTrailers {fuel : Nat} {rest : List UInt8}
    (whole : front ++ rest = trailerBytes trailers)
    (decoded : decodeTrailers fuel front = .ok ()) :
    rest = [] ∧ ∀ trailer ∈ trailers, AcceptedField trailer := by
  induction fuel generalizing front trailers with
  | zero => cases decoded
  | succ fuel ih =>
    rw [decodeTrailers] at decoded
    cases found : cut crlf front with
    | none =>
      rw [found] at decoded
      cases decoded
    | some parts =>
      obtain ⟨first, later⟩ := cut_of_append found (whole ▸ cut_trailerBytes trailers)
      cases trailers with
      | nil => exact ⟨(append_eq_nil_iff.mp later).2, nofun⟩
      | cons trailer trailers =>
        simp only [found, first, line_ne_nil, if_false, bind_eq_ok] at decoded
        obtain ⟨⟨⟩, checked, decoded⟩ := decoded
        obtain ⟨ends, others⟩ := ih later decoded
        exact ⟨ends, forall_mem_cons.mpr ⟨(checkTrailer_line trailer).mp checked, others⟩⟩

theorem decodeTrailers_eq_ok {fuel : Nat} (accepted : ∀ trailer ∈ trailers, AcceptedField trailer)
    (enough : trailers.length < fuel) :
    decodeTrailers fuel (trailerBytes trailers) = .ok () := by
  induction trailers generalizing fuel with
  | nil =>
    obtain ⟨fuel, rfl⟩ := Nat.exists_eq_succ_of_ne_zero (Nat.ne_zero_of_lt enough)
    rfl
  | cons trailer trailers ih =>
    obtain ⟨fuel, rfl⟩ := Nat.exists_eq_succ_of_ne_zero (Nat.ne_zero_of_lt enough)
    rw [forall_mem_cons] at accepted
    rw [decodeTrailers, cut_trailerBytes]
    simp only [line_ne_nil, if_false, (checkTrailer_line trailer).mpr accepted.1]
    apply ih accepted.2
    rw [length_cons] at enough
    omega

theorem length_le_trailerBytes (trailers : List FieldLine) :
    trailers.length ≤ (trailerBytes trailers).length := by
  induction trailers with
  | nil => exact Nat.zero_le _
  | cons trailer trailers ih =>
    have two : crlf.length = 2 := rfl
    rw [trailerBytes_cons, List.length_append, List.length_append, length_cons]
    omega

/-! ### Panics -/

def NoPanic {α : Type} (result : Except Fault α) : Prop := result ≠ .error .panic

variable {α : Type}

theorem noPanic_ok (value : α) : NoPanic (.ok value) := nofun

theorem noPanic_error (message : String) :
    NoPanic (.error (.error message) : Except Fault α) := nofun

theorem NoPanic.bind {β : Type} {first : Except Fault α} {next : α → Except Fault β}
    (safe : NoPanic first) (later : ∀ value, first = .ok value → NoPanic (next value)) :
    NoPanic (first >>= next) := by
  cases first with
  | error fault => exact fun panics => safe (congrArg Except.error (Except.error.inj panics))
  | ok value => exact later value rfl

theorem noPanic_require {condition : Prop} [Decidable condition] (message : String) :
    NoPanic (require condition (.error message)) := by
  unfold require
  split_ifs
  · exact noPanic_ok ()
  · exact noPanic_error message

theorem noPanic_checkTrailer (line : List UInt8) : NoPanic (checkTrailer line) := by
  unfold checkTrailer
  split
  · exact noPanic_error _
  · split
    · exact noPanic_error _
    · exact noPanic_require _

theorem noPanic_chunkSize (line : List UInt8) : NoPanic (chunkSize line) := by
  unfold chunkSize
  split
  · exact noPanic_error _
  · dsimp only
    split
    · exact noPanic_error _
    · exact noPanic_ok _

theorem noPanic_decodeTrailers (fuel : Nat) (rest : List UInt8) :
    NoPanic (decodeTrailers fuel rest) := by
  induction fuel generalizing rest with
  | zero => exact noPanic_error _
  | succ fuel ih =>
    rw [decodeTrailers]
    split
    · exact noPanic_error _
    · split_ifs
      · exact noPanic_require _
      · exact (noPanic_checkTrailer _).bind (fun _ _ => ih _)

/-! ### Chunks -/

section Chunks

variable {total : Nat} {after rest tail data decoded : List UInt8}

/-- The data of a chunk is taken whole; what is left goes on behind it or is empty. -/
theorem takeChunk_of_append {left more : List UInt8}
    (whole : after ++ rest = data ++ (crlf ++ tail))
    (took : takeChunk total data.length after decoded = .ok (left, more)) :
    more = decoded ++ data ∧ (left ++ rest = tail ∨ left = []) := by
  unfold takeChunk at took
  rw [require_bind_eq_ok, require_bind_eq_ok] at took
  obtain ⟨-, enough, took⟩ := took
  have front : after.take data.length = data := by
    have cutBoth := congrArg (List.take data.length) whole
    rwa [take_append_of_le_length enough, take_left] at cutBoth
  have back : after.drop data.length ++ rest = crlf ++ tail := by
    have cutBoth := congrArg (List.drop data.length) whole
    rwa [drop_append_of_le_length enough, drop_left] at cutBoth
  rw [front] at took
  dsimp only at took
  split at took
  · rename_i terminated
    cases took
    refine ⟨rfl, .inl ?_⟩
    have two : 2 ≤ (after.drop data.length).length :=
      (List.isPrefixOf_iff_prefix.mp terminated).length_le
    have cutBoth := congrArg (List.drop 2) back
    rwa [drop_append_of_le_length two] at cutBoth
  · rw [require_bind_eq_ok] at took
    obtain ⟨empty, took⟩ := took
    cases took
    exact ⟨rfl, .inr empty⟩

theorem takeChunk_eq_ok (fits : total - (data ++ (crlf ++ tail)).length + data.length < 2 ^ 64) :
    takeChunk total data.length (data ++ (crlf ++ tail)) decoded = .ok (tail, decoded ++ data) := by
  have terminated : crlf.isPrefixOf (crlf ++ tail) = true :=
    List.isPrefixOf_iff_prefix.mpr (prefix_append crlf tail)
  unfold takeChunk
  rw [require_bind_eq_ok, require_bind_eq_ok]
  refine ⟨fits, by rw [List.length_append]; omega, ?_⟩
  rw [take_left, drop_left]
  exact if_pos terminated

theorem noPanic_takeChunk {size : Nat} (fits : total - after.length + size < 2 ^ 64) :
    NoPanic (takeChunk total size after decoded) := by
  unfold takeChunk
  refine NoPanic.bind ?_ (fun _ _ => (noPanic_require _).bind (fun _ _ => ?_))
  · rw [require_eq_ok.mpr fits]
    exact noPanic_ok ()
  · dsimp only
    split
    · exact noPanic_ok _
    · exact (noPanic_require _).bind (fun _ _ => noPanic_ok _)

end Chunks

/-! ### Bodies -/

/-- Every line of the body is readable. -/
structure DecodableBody (body : ChunkedBody) : Prop where
  chunks : ∀ chunk ∈ body.chunks, ReadableSize chunk.sizeLine
  last : ReadableSize body.last
  trailers : ∀ trailer ∈ body.trailers, AcceptedField trailer

section Bodies

variable {total fuel : Nat} {front rest decoded result : List UInt8} {chunks : List Chunk}
  {last : SizeLine 0} {trailers : List FieldLine}

theorem bytes_nil : (mk [] last trailers).bytes = last.line ++ crlf ++ trailerBytes trailers := rfl

theorem bytes_cons (chunk : Chunk) : (mk (chunk :: chunks) last trailers).bytes =
    chunk.sizeLine.line ++ crlf ++
      (chunk.data ++ (crlf ++ (ChunkedBody.mk chunks last trailers).bytes)) := by
  simp [ChunkedBody.bytes, Chunk.bytes]

theorem length_pos_of_chunk (chunk : Chunk) : chunk.data.length ≠ 0 :=
  fun empty => chunk.filled (List.length_eq_zero_iff.mp empty)

/-- A turn of the loop reads the size line at the front. -/
theorem decodeChunks_step {size : Nat} {sizeLine : SizeLine size} {tail : List UInt8}
    (whole : front ++ rest = sizeLine.line ++ crlf ++ tail)
    (done : decodeChunks total fuel front decoded = .ok result) :
    ∃ after less, fuel = less + 1 ∧ after ++ rest = tail ∧ ReadableSize sizeLine ∧
      if size = 0 then decodeTrailers (after.length + 1) after = .ok () ∧ decoded = result
      else ∃ left more, takeChunk total size after decoded = .ok (left, more) ∧
        decodeChunks total less left more = .ok result := by
  cases fuel with
  | zero => cases done
  | succ fuel =>
    rw [decodeChunks] at done
    cases found : cut crlf front with
    | none =>
      rw [found] at done
      cases done
    | some parts =>
      obtain ⟨line, after⟩ := parts
      obtain ⟨rfl, later⟩ :=
        cut_of_append found (whole ▸ cut_fieldBytes sizeLine.isFieldByte_line tail)
      simp only [found, bind_eq_ok] at done
      obtain ⟨read, sized, done⟩ := done
      rw [chunkSize_line] at sized
      split_ifs at sized with readable fits
      cases sized
      refine ⟨after, fuel, rfl, later, readable, ?_⟩
      split_ifs at done ⊢ with zero
      · rw [bind_eq_ok] at done
        obtain ⟨⟨⟩, ended, done⟩ := done
        exact ⟨ended, Except.ok.inj done⟩
      · rw [bind_eq_ok] at done
        obtain ⟨⟨left, more⟩, took, done⟩ := done
        exact ⟨left, more, took, done⟩

theorem decodeChunks_nil : decodeChunks total fuel [] decoded = .error incomplete := by
  cases fuel with
  | zero => rfl
  | succ fuel => rfl

/-- A beginning of a chunked body that is accepted is all of it, and its lines are readable. -/
theorem decodable_of_decodeChunks (whole : front ++ rest = (mk chunks last trailers).bytes)
    (done : decodeChunks total fuel front decoded = .ok result) :
    rest = [] ∧ result = decoded ++ (mk chunks last trailers).data ∧
      DecodableBody ⟨chunks, last, trailers⟩ := by
  induction chunks generalizing fuel front decoded with
  | nil =>
    rw [bytes_nil] at whole
    obtain ⟨after, less, -, later, readable, finished⟩ := decodeChunks_step whole done
    rw [if_pos rfl] at finished
    obtain ⟨ended, rfl⟩ := finished
    obtain ⟨empty, accepted⟩ := accepted_of_decodeTrailers later ended
    refine ⟨empty, (append_nil decoded).symm, ⟨?_, readable, accepted⟩⟩
    exact nofun
  | cons chunk chunks ih =>
    rw [bytes_cons] at whole
    obtain ⟨after, less, -, later, readable, continued⟩ := decodeChunks_step whole done
    rw [if_neg (length_pos_of_chunk chunk)] at continued
    obtain ⟨left, more, took, done⟩ := continued
    obtain ⟨rfl, next | empty⟩ := takeChunk_of_append later took
    · obtain ⟨ends, same, others⟩ := ih next done
      refine ⟨ends, ?_, ⟨?_, others.last, others.trailers⟩⟩
      · rw [same, List.append_assoc]
        rfl
      · exact forall_mem_cons.mpr ⟨readable, others.chunks⟩
    · rw [empty, decodeChunks_nil] at done
      cases done

/-- A body with readable lines is decoded to the data of its chunks. -/
theorem decodeChunks_eq_ok (decodable : DecodableBody ⟨chunks, last, trailers⟩)
    (inside : (mk chunks last trailers).bytes.length ≤ total) (fits : total < 2 ^ 64)
    (enough : chunks.length < fuel) :
    decodeChunks total fuel (mk chunks last trailers).bytes decoded =
      .ok (decoded ++ (mk chunks last trailers).data) := by
  induction chunks generalizing fuel decoded with
  | nil =>
    obtain ⟨fuel, rfl⟩ := Nat.exists_eq_succ_of_ne_zero (Nat.ne_zero_of_lt enough)
    have ended := decodeTrailers_eq_ok decodable.trailers
      (Nat.lt_succ_of_le (length_le_trailerBytes trailers))
    rw [bytes_nil, decodeChunks, cut_fieldBytes last.isFieldByte_line]
    simp only [chunkSize_line, if_pos decodable.last, Nat.two_pow_pos, if_true, bind_eq_ok]
    refine ⟨0, rfl, ?_⟩
    rw [if_pos rfl, ended]
    exact congrArg Except.ok (append_nil decoded).symm
  | cons chunk chunks ih =>
    obtain ⟨fuel, rfl⟩ := Nat.exists_eq_succ_of_ne_zero (Nat.ne_zero_of_lt enough)
    have others : DecodableBody ⟨chunks, last, trailers⟩ :=
      ⟨fun other member => decodable.chunks other (mem_cons_of_mem _ member),
        decodable.last, decodable.trailers⟩
    have here : ReadableSize chunk.sizeLine := decodable.chunks chunk mem_cons_self
    rw [bytes_cons] at inside ⊢
    have lengths := inside
    simp only [List.length_append] at lengths
    have took : takeChunk total chunk.data.length
        (chunk.data ++ (crlf ++ (ChunkedBody.mk chunks last trailers).bytes)) decoded =
          .ok ((mk chunks last trailers).bytes, decoded ++ chunk.data) := by
      apply takeChunk_eq_ok
      simp only [List.length_append]
      omega
    have later := @ih fuel (decoded ++ chunk.data) others
      (by omega) (by rw [length_cons] at enough; omega)
    rw [decodeChunks, cut_fieldBytes chunk.sizeLine.isFieldByte_line]
    simp only [chunkSize_line, if_pos here, bind_eq_ok]
    refine ⟨chunk.data.length, if_pos (by omega), ?_⟩
    rw [if_neg (length_pos_of_chunk chunk), took]
    simp only [bind_eq_ok]
    refine ⟨_, rfl, ?_⟩
    rw [later]
    simp [ChunkedBody.data]

/-- No beginning of a chunked body that fits a machine word makes the decoder panic. -/
theorem noPanic_decodeChunks (whole : front ++ rest = (mk chunks last trailers).bytes)
    (inside : front.length ≤ total)
    (fits : total - front.length + (mk chunks last trailers).bytes.length < 2 ^ 64) :
    NoPanic (decodeChunks total fuel front decoded) := by
  induction fuel generalizing chunks front decoded with
  | zero => exact noPanic_error _
  | succ fuel ih =>
    rw [decodeChunks]
    cases found : cut crlf front with
    | none => exact noPanic_error _
    | some parts =>
      obtain ⟨line, after⟩ := parts
      cases chunks with
      | nil =>
        rw [bytes_nil] at whole
        obtain ⟨rfl, -⟩ :=
          cut_of_append found (whole ▸ cut_fieldBytes last.isFieldByte_line _)
        refine (noPanic_chunkSize _).bind (fun size sized => ?_)
        obtain rfl := size_of_chunkSize _ sized
        exact (noPanic_decodeTrailers _ _).bind (fun _ _ => noPanic_ok _)
      | cons chunk chunks =>
        rw [bytes_cons] at whole fits
        obtain ⟨rfl, later⟩ := cut_of_append found
          (whole ▸ cut_fieldBytes chunk.sizeLine.isFieldByte_line _)
        have shape := congrArg List.length (eq_append_of_cut found)
        simp only [List.length_append] at shape fits
        refine (noPanic_chunkSize _).bind (fun size sized => ?_)
        obtain rfl := size_of_chunkSize _ sized
        rw [if_neg (length_pos_of_chunk chunk)]
        refine (noPanic_takeChunk (by omega)).bind (fun taken took => ?_)
        obtain ⟨left, more⟩ := taken
        show NoPanic (decodeChunks total fuel left more)
        obtain ⟨-, next | empty⟩ := takeChunk_of_append later took
        · have remaining := congrArg List.length next
          have consumed := congrArg List.length later
          simp only [List.length_append] at remaining consumed
          exact ih next (by omega) (by omega)
        · rw [empty, decodeChunks_nil]
          exact noPanic_error _

end Bodies

section Decoder

variable {body : ChunkedBody} {front rest : List UInt8}

theorem decodable_of_decodeChunkedBody {result : List UInt8} (whole : front ++ rest = body.bytes)
    (done : decodeChunkedBody front = .ok result) :
    rest = [] ∧ result = body.data ∧ DecodableBody body :=
  decodable_of_decodeChunks whole done

theorem noPanic_decodeChunkedBody (whole : front ++ rest = body.bytes)
    (fits : body.bytes.length < 2 ^ 64) : NoPanic (decodeChunkedBody front) := by
  apply noPanic_decodeChunks whole (Nat.le_refl _)
  rwa [Nat.sub_self, Nat.zero_add]

theorem length_le_bytes (body : ChunkedBody) : body.chunks.length ≤ body.bytes.length := by
  obtain ⟨chunks, last, trailers⟩ := body
  induction chunks with
  | nil => exact Nat.zero_le _
  | cons chunk chunks ih =>
    have two : crlf.length = 2 := rfl
    rw [bytes_cons]
    simp only [List.length_append, length_cons] at ih ⊢
    omega

theorem decodeChunkedBody_eq_ok (decodable : DecodableBody body)
    (fits : body.bytes.length < 2 ^ 64) : decodeChunkedBody body.bytes = .ok body.data :=
  decodeChunks_eq_ok decodable (Nat.le_refl _) fits (Nat.lt_succ_of_le (length_le_bytes body))

end Decoder

/-! ### Bodies as text -/

theorem isAscii_crlf : ∀ byte ∈ crlf, Utf8.IsAscii byte := forall_mem_of_all (by decide)

theorem valid_crlf_iff {back : List UInt8} :
    Utf8.Valid (front ++ crlf ++ back) ↔ Utf8.Valid front ∧ Utf8.Valid back :=
  valid_append_mark_iff isAscii_crlf (by decide)

theorem valid_trailerBytes_iff (trailers : List FieldLine) : Utf8.Valid (trailerBytes trailers) ↔
      ∀ trailer ∈ trailers, Utf8.Valid trailer.value := by
  induction trailers with
  | nil => exact iff_of_true (valid_of_ascii isAscii_crlf) (by simp)
  | cons trailer trailers ih =>
    rw [trailerBytes_cons, valid_crlf_iff, valid_field_iff, ih, forall_mem_cons]

/-- A chunked body is UTF-8 only if every chunk is by itself. -/
theorem valid_bytes_iff (body : ChunkedBody) : Utf8.Valid body.bytes ↔
      (∀ chunk ∈ body.chunks, ReadableSize chunk.sizeLine ∧ Utf8.Valid chunk.data) ∧
        ReadableSize body.last ∧ ∀ trailer ∈ body.trailers, Utf8.Valid trailer.value := by
  obtain ⟨chunks, last, trailers⟩ := body
  induction chunks with
  | nil =>
    rw [bytes_nil, valid_crlf_iff, valid_sizeLine_iff, valid_trailerBytes_iff]
    exact (and_iff_right (by simp)).symm
  | cons chunk chunks ih =>
    rw [bytes_cons, valid_crlf_iff, ← List.append_assoc, valid_crlf_iff, ih,
      valid_sizeLine_iff, forall_mem_cons]
    simp only [and_assoc]

end Mcpace.HttpProbe

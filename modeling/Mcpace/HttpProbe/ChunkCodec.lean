import Mcpace.HttpProbe.Transparency

/-!
Owns what the chunk decoder does with arbitrary bytes: the bytes are turns enough for its loops, no
body it accepts begins another one, and it panics exactly on a chunk that would end beyond the
machine word.
-/

namespace Mcpace.HttpProbe

open Library Checks Delimiters HttpMessage List

variable {total other fuel more size : Nat} {front rest line after left decoded before : List UInt8}

/-! ### One turn -/

theorem length_lt_of_cut (found : cut crlf rest = some (line, after)) :
    after.length < rest.length := by
  have shape := congrArg List.length (eq_append_of_cut found)
  simp only [List.length_append, show crlf.length = 2 from rfl] at shape
  omega

/-- A chunk is taken whole, with its terminator or at the end of the bytes. -/
theorem takeChunk_cases (took : takeChunk total size after before = .ok (left, decoded)) :
    size ≤ after.length ∧ (after.drop size = crlf ++ left ∨ after.drop size = [] ∧ left = []) := by
  unfold takeChunk at took
  rw [require_bind_eq_ok, require_bind_eq_ok] at took
  obtain ⟨-, enough, took⟩ := took
  refine ⟨enough, ?_⟩
  dsimp only at took
  split at took
  · rename_i terminated
    cases took
    obtain ⟨tail, shape⟩ := List.isPrefixOf_iff_prefix.mp terminated
    left
    rw [← shape]
    rfl
  · rw [require_bind_eq_ok] at took
    obtain ⟨empty, took⟩ := took
    cases took
    exact .inr ⟨empty, empty⟩

theorem length_le_of_takeChunk (took : takeChunk total size after before = .ok (left, decoded)) :
    left.length ≤ after.length := by
  obtain ⟨-, terminated | ⟨-, rfl⟩⟩ := takeChunk_cases took
  · have shape := congrArg List.length terminated
    simp only [length_drop, List.length_append] at shape
    omega
  · exact Nat.zero_le _

/-! ### Turns -/

/-- More turns than bytes make no difference. -/
theorem decodeTrailers_turns (enough : rest.length < fuel) (extra : Nat) :
    decodeTrailers (fuel + extra) rest = decodeTrailers fuel rest := by
  induction fuel generalizing rest with
  | zero => omega
  | succ fuel ih =>
    rw [Nat.add_right_comm, decodeTrailers, decodeTrailers]
    cases found : cut crlf rest with
    | none => rfl
    | some parts =>
      have shorter := length_lt_of_cut found
      dsimp only
      rw [ih (by omega)]

theorem decodeChunks_turns (enough : rest.length < fuel) (extra : Nat) :
    decodeChunks total (fuel + extra) rest decoded = decodeChunks total fuel rest decoded := by
  induction fuel generalizing rest decoded with
  | zero => omega
  | succ fuel ih =>
    rw [Nat.add_right_comm, decodeChunks, decodeChunks]
    cases found : cut crlf rest with
    | none => rfl
    | some parts =>
      have shorter := length_lt_of_cut found
      dsimp only
      cases chunkSize parts.1 with
      | error fault => rfl
      | ok size =>
        show (if size = 0 then _ else _) = ite _ _ _
        split_ifs
        · rfl
        · cases took : takeChunk total size parts.2 decoded with
          | error fault => rfl
          | ok taken => exact ih (Nat.lt_of_le_of_lt (length_le_of_takeChunk took) (by omega))

/-! ### Accepted bodies -/

theorem eq_nil_of_decodeTrailers (first : decodeTrailers fuel front = .ok ())
    (second : decodeTrailers more (front ++ rest) = .ok ()) : rest = [] := by
  induction fuel generalizing front more with
  | zero => cases first
  | succ fuel ih =>
    cases more with
    | zero => cases second
    | succ more =>
      rw [decodeTrailers] at first second
      cases found : cut crlf front with
      | none =>
        rw [found] at first
        cases first
      | some parts =>
        rw [found] at first
        rw [cut_append found] at second
        dsimp only at first second
        split_ifs at first second
        · exact (append_eq_nil_iff.mp (require_eq_ok.mp second)).2
        · rw [bind_eq_ok] at first second
          obtain ⟨-, -, first⟩ := first
          obtain ⟨-, -, second⟩ := second
          exact ih first second

/-- Bytes that are accepted are not accepted with more bytes behind them. -/
theorem eq_nil_of_decodeChunks {result longer : List UInt8}
    (first : decodeChunks total fuel front before = .ok result)
    (second : decodeChunks other more (front ++ rest) decoded = .ok longer) : rest = [] := by
  induction fuel generalizing front more before decoded with
  | zero => cases first
  | succ fuel ih =>
    cases more with
    | zero => cases second
    | succ more =>
      rw [decodeChunks] at first second
      cases found : cut crlf front with
      | none =>
        rw [found] at first
        cases first
      | some parts =>
        obtain ⟨line, after⟩ := parts
        simp only [found, bind_eq_ok] at first
        simp only [cut_append found, bind_eq_ok] at second
        obtain ⟨size, sized, first⟩ := first
        obtain ⟨again, sizedAgain, second⟩ := second
        obtain rfl : size = again := Except.ok.inj (sized.symm.trans sizedAgain)
        split_ifs at first second
        · rw [bind_eq_ok] at first second
          obtain ⟨⟨⟩, ended, -⟩ := first
          obtain ⟨⟨⟩, endedAgain, -⟩ := second
          exact eq_nil_of_decodeTrailers ended endedAgain
        · rw [bind_eq_ok] at first second
          obtain ⟨⟨left, _⟩, took, first⟩ := first
          obtain ⟨⟨leftAgain, _⟩, tookAgain, second⟩ := second
          obtain ⟨enough, terminated | ⟨-, rfl⟩⟩ := takeChunk_cases took
          · have behind := (takeChunk_cases tookAgain).2
            rw [drop_append_of_le_length enough, terminated, List.append_assoc] at behind
            rcases behind with same | ⟨empty, -⟩
            · rw [← append_cancel_left same] at second
              exact ih first second
            · cases empty
          · rw [decodeChunks_nil] at first
            cases first

/-- The encoding of a body is decoded to its data, and of two byte strings that are accepted none
begins the other. -/
def DecodesCodec (body : ChunkedBody) : Prop :=
  decodeChunkedBody body.bytes = .ok body.data ∧
    ∀ front rest first second, decodeChunkedBody front = .ok first →
      decodeChunkedBody (front ++ rest) = .ok second → rest = []

/-- The decoder inverts the chunked coding exactly on the bodies with readable lines. -/
theorem chunkCodec_iff (body : ChunkedBody) (fits : body.bytes.length < 2 ^ 64) :
    DecodesCodec body ↔ DecodableBody body := by
  constructor
  · intro decodes
    exact (decodable_of_decodeChunkedBody (append_nil _) decodes.1).2.2
  · intro decodable
    exact ⟨decodeChunkedBody_eq_ok decodable fits,
      fun front rest first second => eq_nil_of_decodeChunks⟩

def extendedChunk : Chunk where
  data := [0x68]
  filled := cons_ne_nil _ _
  sizeLine := ⟨['0', '1'], show Text.parseHexDigits ['0', '1'] = some 1 by decide,
    some ⟨[0x20], asciiBytes "name=value", by simp, forall_mem_of_all (by decide)⟩⟩

def plainTrailer : FieldLine :=
  ⟨"Expires", asciiBytes " 0", by decide, forall_mem_of_all (by decide),
    forall_mem_of_all (by decide)⟩

theorem chunkCodec_twoChunks :
    DecodesCodec ⟨[extendedChunk, byteChunk 0x69], lastLine, [plainTrailer]⟩ := by
  refine (chunkCodec_iff _ (by decide)).mpr ⟨?_, by decide, ?_⟩
  · decide
  · decide

/-- A trailer whose name is a token with a character the client does not know. -/
def markedTrailer : FieldLine :=
  ⟨"a!", [], by decide, forall_mem_of_all (by decide), forall_mem_of_all (by decide)⟩

theorem markedTrailer_refused :
    decodeChunkedBody (ChunkedBody.mk [byteChunk 0x68] lastLine [markedTrailer]).bytes =
      .error (.error "chunked HTTP body has an invalid trailer") := by
  decide +kernel

/-! ### Panics -/

/-- Where the chunks end, each by its size line behind chunks that are complete. -/
def chunkEndsFrom (total : Nat) : Nat → List UInt8 → List Nat
  | 0, _ => []
  | fuel + 1, rest =>
    match cut crlf rest with
    | none => []
    | some (line, after) =>
      match chunkSize line with
      | .error _ => []
      | .ok size =>
        if size = 0 then []
        else (total - after.length + size) ::
          if crlf.isPrefixOf (after.drop size) then
            chunkEndsFrom total fuel ((after.drop size).drop 2)
          else []

/-- No chunk ends beyond the machine word. -/
def ChunksFit (body : List UInt8) : Prop :=
  ∀ stop ∈ chunkEndsFrom body.length (body.length + 1) body, stop < 2 ^ 64

/-- A chunk that does not end beyond the machine word leaves what stands behind its terminator. -/
theorem noPanic_takeChunk_iff {next : List UInt8 → List UInt8 → Except Fault (List UInt8)}
    (refuses : ∀ decoded, NoPanic (next [] decoded)) :
    NoPanic (takeChunk total size after decoded >>= fun taken => next taken.1 taken.2) ↔
      total - after.length + size < 2 ^ 64 ∧ (crlf.isPrefixOf (after.drop size) = true →
        NoPanic (next ((after.drop size).drop 2) (decoded ++ after.take size))) := by
  by_cases fits : total - after.length + size < 2 ^ 64
  · rw [and_iff_right fits]
    by_cases terminated : crlf.isPrefixOf (after.drop size) = true
    · obtain ⟨tail, shape⟩ := List.isPrefixOf_iff_prefix.mp terminated
      have enough : size ≤ after.length := by
        by_contra short
        rw [drop_of_length_le (by omega)] at shape
        cases shape
      have whole : after = after.take size ++ (crlf ++ tail) := by
        rw [shape, take_append_drop]
      have exact : (after.take size).length = size := length_take_of_le enough
      have took := @takeChunk_eq_ok total tail (after.take size) decoded (by rwa [← whole, exact])
      rw [← whole, exact] at took
      rw [took, imp_iff_right terminated, ← shape]
      rfl
    · rw [iff_true_right (fun opens => absurd opens terminated)]
      refine (noPanic_takeChunk fits).bind (fun taken took => ?_)
      obtain ⟨-, closed | ⟨-, empty⟩⟩ := takeChunk_cases took
      · exact absurd (List.isPrefixOf_iff_prefix.mpr ⟨_, closed.symm⟩) terminated
      · rw [empty]
        exact refuses _
  · have panics : takeChunk total size after decoded = .error .panic := by
      rw [takeChunk, require, if_neg fits]
      rfl
    rw [panics]
    exact iff_of_false (fun safe => safe rfl) (fun both => fits both.1)

theorem noPanic_decodeChunks_iff : NoPanic (decodeChunks total fuel rest decoded) ↔
    ∀ stop ∈ chunkEndsFrom total fuel rest, stop < 2 ^ 64 := by
  induction fuel generalizing rest decoded with
  | zero => exact iff_of_true (noPanic_error _) (by simp [chunkEndsFrom])
  | succ fuel ih =>
    rw [decodeChunks, chunkEndsFrom]
    cases cut crlf rest with
    | none => exact iff_of_true (noPanic_error _) (by simp)
    | some parts =>
      obtain ⟨line, after⟩ := parts
      dsimp only
      cases sized : chunkSize line with
      | error fault =>
        have safe := noPanic_chunkSize line
        rw [sized] at safe
        exact iff_of_true (fun panics => safe (congrArg Except.error (Except.error.inj panics)))
          (by simp)
      | ok size =>
        show NoPanic (if size = 0 then _ else _) ↔ _
        dsimp only
        split_ifs with zero terminated
        · exact iff_of_true ((noPanic_decodeTrailers _ _).bind (fun _ _ => noPanic_ok _)) (by simp)
        · rw [noPanic_takeChunk_iff (fun _ => decodeChunks_nil ▸ noPanic_error _),
            forall_mem_cons, imp_iff_right terminated, ih]
        · rw [noPanic_takeChunk_iff (fun _ => decodeChunks_nil ▸ noPanic_error _)]
          simp [terminated]

/-- The bytes are decoded or refused, by themselves and as the body of a response. -/
def DecodesSafely (parse : String → Except String Json.JsonValue) (body : List UInt8) : Prop :=
  NoPanic (decodeChunkedBody body) ∧
    ∀ parsed : HttpResponse, Utf8.encode parsed.body.toList = body →
      NoPanic (genericHttpBodyReady parse parsed)

theorem noPanic_bodyBytes {parsed : HttpResponse}
    (fits : ChunksFit (Utf8.encode parsed.body.toList)) : NoPanic parsed.bodyBytes := by
  unfold HttpResponse.bodyBytes
  dsimp only
  split_ifs
  · exact noPanic_decodeChunks_iff.mpr fits
  · split
    · exact (noPanic_require _).bind (fun _ _ => noPanic_ok _)
    · exact noPanic_ok _

/-- The decoder never needs more turns than there are bytes, and bytes are decoded or refused
exactly if none of their chunks ends beyond the machine word. -/
theorem decodesSafely_iff (parse : String → Except String Json.JsonValue) (body : List UInt8)
    (extra : Nat) :
    decodeChunks body.length (body.length + 1 + extra) body [] = decodeChunkedBody body ∧
      decodeTrailers (body.length + 1 + extra) body = decodeTrailers (body.length + 1) body ∧
      (DecodesSafely parse body ↔ ChunksFit body) := by
  refine ⟨decodeChunks_turns (Nat.lt_succ_self _) extra,
    decodeTrailers_turns (Nat.lt_succ_self _) extra,
    fun safe => noPanic_decodeChunks_iff.mp safe.1,
    fun fits => ⟨noPanic_decodeChunks_iff.mpr fits, ?_⟩⟩
  rintro parsed rfl
  obtain ⟨isReady, ready⟩ : ∃ isReady, genericHttpBodyReady parse parsed = .ok isReady :=
    exists_genericReady (noPanic_bodyBytes fits)
  rw [ready]
  exact noPanic_ok isReady

theorem hugeChunk_panics :
    decodeChunkedBody (asciiBytes "ffffffffffffffff\r\n") = .error .panic := by
  decide +kernel

end Mcpace.HttpProbe

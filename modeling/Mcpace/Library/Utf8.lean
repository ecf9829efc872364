import Mathlib

/-!
Owns UTF-8 on lists of bytes: encoding, strict and lossy decoding, and how an encoded text is cut at
bytes that stand for a character of their own.
-/

namespace Mcpace.Library.Utf8

open List

variable {text : List Char} {bytes front back : List UInt8} {byte : UInt8}

def encode (text : List Char) : List UInt8 := text.flatMap String.utf8EncodeChar

/-- The text of the bytes, if they are valid UTF-8. -/
def decode (bytes : List UInt8) : Option (List Char) :=
  bytes.toByteArray.utf8Decode?.map Array.toList

def Valid (bytes : List UInt8) : Prop := ∃ text, encode text = bytes

theorem encode_append (first second : List Char) :
    encode (first ++ second) = encode first ++ encode second := flatMap_append

theorem encode_cons (char : Char) (text : List Char) :
    encode (char :: text) = String.utf8EncodeChar char ++ encode text := rfl

theorem decode_encode (text : List Char) : decode (encode text) = some text := by
  have decoded : (encode text).toByteArray.utf8Decode? = some text.toArray :=
    List.utf8Decode?_utf8Encode
  rw [decode, decoded]
  rfl

theorem decode_eq_some_iff : decode bytes = some text ↔ encode text = bytes := by
  constructor
  · intro decoded
    rw [decode, Option.map_eq_some_iff] at decoded
    obtain ⟨chars, decoded, rfl⟩ := decoded
    have valid : bytes.toByteArray.IsValidUTF8 := by
      rw [← ByteArray.isSome_utf8Decode?_iff, decoded]
      rfl
    obtain ⟨source, same⟩ := valid
    rw [same, List.utf8Decode?_utf8Encode] at decoded
    cases decoded
    have lists := congrArg (fun array => array.data.toList) same
    simpa [encode, List.utf8Encode] using lists.symm
  · rintro rfl
    exact decode_encode text

theorem encode_injective : Function.Injective encode := by
  intro first second same
  have decoded := congrArg decode same
  rw [decode_encode, decode_encode] at decoded
  exact Option.some.inj decoded

theorem valid_iff_isSome : Valid bytes ↔ (decode bytes).isSome = true := by
  rw [Option.isSome_iff_exists]
  exact exists_congr (fun _ => decode_eq_some_iff.symm)

instance : Decidable (Valid bytes) := decidable_of_iff _ valid_iff_isSome.symm

/-! ### Bytes of one character -/

/-- The byte stands for a character of its own. -/
def IsAscii (byte : UInt8) : Prop := byte.toNat < 0x80

instance : Decidable (IsAscii byte) := inferInstanceAs (Decidable (byte.toNat < 0x80))

def asciiChar (byte : UInt8) : Char := Char.ofNat byte.toNat

theorem toNat_asciiChar (byte : UInt8) : (asciiChar byte).toNat = byte.toNat := by
  have small := byte.toNat_lt
  rw [asciiChar, Char.ofNat, dif_pos (Or.inl (by omega))]
  rfl

theorem encodeChar_asciiChar (ascii : IsAscii byte) :
    String.utf8EncodeChar (asciiChar byte) = [byte] := by
  have small : byte.toNat < 0x80 := ascii
  have code : (asciiChar byte).val.toNat = byte.toNat := toNat_asciiChar byte
  rw [String.utf8EncodeChar]
  simp only [code]
  rw [if_pos (by omega), UInt8.ofNat_toNat]

variable {char : Char}

theorem encodeChar_ascii (small : char.toNat < 0x80) :
    String.utf8EncodeChar char = [UInt8.ofNat char.toNat] := by
  rw [String.utf8EncodeChar]
  exact if_pos (Nat.le_of_lt_succ small)

theorem isAscii_of_mem_encode (small : ∀ char ∈ text, char.toNat < 0x80) :
    ∀ byte ∈ encode text, IsAscii byte := by
  intro byte member
  obtain ⟨char, present, encoded⟩ := mem_flatMap.mp member
  have code := small char present
  rw [encodeChar_ascii code, mem_singleton] at encoded
  rw [encoded, IsAscii, UInt8.toNat_ofNat']
  omega

theorem encode_map_asciiChar (ascii : ∀ byte ∈ bytes, IsAscii byte) :
    encode (bytes.map asciiChar) = bytes := by
  induction bytes with
  | nil => rfl
  | cons byte bytes ih =>
    rw [map_cons, encode_cons, encodeChar_asciiChar (ascii byte mem_cons_self),
      ih (forall_mem_cons.mp ascii).2]
    rfl

/-- An ASCII byte of a character's encoding is the whole encoding. -/
theorem encodeChar_of_mem (ascii : IsAscii byte) (member : byte ∈ String.utf8EncodeChar char) :
    String.utf8EncodeChar char = [byte] := by
  have small : byte.toNat < 0x80 := ascii
  unfold String.utf8EncodeChar at member ⊢
  extract_lets at member ⊢
  split_ifs at member ⊢
  · rw [mem_singleton.mp member]
  -- The bytes of a longer encoding have their high bit.
  · exfalso
    simp only [mem_cons, not_mem_nil, or_false] at member
    rcases member with rfl | rfl
    all_goals
      rw [UInt8.toNat_ofNat'] at small
      omega
  · exfalso
    simp only [mem_cons, not_mem_nil, or_false] at member
    rcases member with rfl | rfl | rfl
    all_goals
      rw [UInt8.toNat_ofNat'] at small
      omega
  · exfalso
    simp only [mem_cons, not_mem_nil, or_false] at member
    rcases member with rfl | rfl | rfl | rfl
    all_goals
      rw [UInt8.toNat_ofNat'] at small
      omega

/-! ### Cuts -/

/-- An encoded text is cut at an ASCII byte where the text has its character. -/
theorem encode_eq_append_cons (ascii : IsAscii byte) (whole : encode text = front ++ byte :: back) :
    ∃ before after, text = before ++ asciiChar byte :: after ∧ encode before = front ∧
      encode after = back := by
  induction text generalizing front with
  | nil => exact absurd whole.symm (by simp [encode])
  | cons char text ih =>
    have later {rest : List UInt8} (shape : front = String.utf8EncodeChar char ++ rest)
        (tail : encode text = rest ++ byte :: back) :
        ∃ before after, char :: text = before ++ asciiChar byte :: after ∧
          encode before = front ∧ encode after = back := by
      obtain ⟨before, after, rfl, first, second⟩ := ih tail
      refine ⟨char :: before, after, rfl, ?_, second⟩
      rw [encode_cons, first, shape]
    rw [encode_cons] at whole
    rcases append_eq_append_iff.mp whole with ⟨rest, shape, tail⟩ | ⟨rest, shape, tail⟩
    · exact later shape tail
    · cases rest with
      | nil =>
        rw [append_nil] at shape
        exact @later [] (by rw [shape, append_nil]) tail.symm
      | cons first rest =>
        -- The byte is one of the character, so it is all of it.
        obtain ⟨rfl, remains⟩ := List.cons.inj tail
        have single : String.utf8EncodeChar char = [byte] :=
          encodeChar_of_mem ascii (by simp [shape])
        rw [single] at shape
        obtain ⟨rfl, ends⟩ : front = [] ∧ rest = [] := by
          have short := congrArg List.length shape
          simp only [List.length_append, length_cons, length_nil] at short
          exact ⟨List.length_eq_zero_iff.mp (by omega), List.length_eq_zero_iff.mp (by omega)⟩
        have same : [char] = [asciiChar byte] := by
          apply encode_injective
          rw [encode_cons, encode_cons, single, encodeChar_asciiChar ascii]
        refine ⟨[], text, ?_, rfl, ?_⟩
        · rw [nil_append, (List.cons.inj same).1]
        · rw [remains, ends]
          rfl

variable {mark : List UInt8}

theorem encode_eq_append_mark (ascii : ∀ byte ∈ mark, IsAscii byte) (filled : mark ≠ [])
    (whole : encode text = front ++ mark ++ back) :
    ∃ before after, text = before ++ mark.map asciiChar ++ after ∧ encode before = front ∧
      encode after = back := by
  obtain ⟨byte, mark, rfl⟩ := exists_cons_of_ne_nil filled
  rw [List.append_assoc, cons_append] at whole
  obtain ⟨before, rest, rfl, first, tail⟩ :=
    encode_eq_append_cons (ascii byte mem_cons_self) whole
  clear whole filled
  have others := (forall_mem_cons.mp ascii).2
  have second : ∃ after, rest = mark.map asciiChar ++ after ∧ encode after = back := by
    clear ascii
    induction mark generalizing rest with
    | nil => exact ⟨rest, rfl, tail⟩
    | cons next mark ih =>
      have opens : encode rest = [] ++ next :: (mark ++ back) := tail
      obtain ⟨empty, rest, rfl, none, tail⟩ :=
        encode_eq_append_cons (others next mem_cons_self) opens
      obtain ⟨after, rfl, last⟩ := ih rest tail
        (forall_mem_cons.mp others).2
      obtain rfl : empty = [] := encode_injective none
      exact ⟨after, rfl, last⟩
  obtain ⟨after, rfl, last⟩ := second
  exact ⟨before, after, by simp, first, last⟩

theorem Valid.append (first : Valid front) (second : Valid back) : Valid (front ++ back) := by
  obtain ⟨before, rfl⟩ := first
  obtain ⟨after, rfl⟩ := second
  exact ⟨before ++ after, encode_append before after⟩

theorem valid_of_ascii (ascii : ∀ byte ∈ bytes, IsAscii byte) : Valid bytes :=
  ⟨bytes.map asciiChar, encode_map_asciiChar ascii⟩

theorem valid_append_mark_iff (ascii : ∀ byte ∈ mark, IsAscii byte) (filled : mark ≠ []) :
    Valid (front ++ mark ++ back) ↔ Valid front ∧ Valid back := by
  constructor
  · intro ⟨text, whole⟩
    obtain ⟨before, after, -, first, second⟩ := encode_eq_append_mark ascii filled whole
    exact ⟨⟨before, first⟩, ⟨after, second⟩⟩
  · intro ⟨first, second⟩
    exact (first.append (valid_of_ascii ascii)).append second

theorem valid_ascii_append_iff (ascii : ∀ byte ∈ front, IsAscii byte) :
    Valid (front ++ back) ↔ Valid back := by
  by_cases filled : front = []
  · rw [filled, nil_append]
  · have cut : Valid ([] ++ front ++ back) ↔ Valid [] ∧ Valid back :=
      valid_append_mark_iff ascii filled
    rw [nil_append] at cut
    exact cut.trans (and_iff_right ⟨[], rfl⟩)

variable {lines : List (List UInt8)}

/-- An encoded text with ASCII marks is the text of the encoded parts. -/
theorem encode_eq_intercalate (ascii : ∀ byte ∈ mark, IsAscii byte) (filled : mark ≠ [])
    (whole : encode text = mark.intercalate lines) :
    ∃ parts, parts.map encode = lines ∧ text = (mark.map asciiChar).intercalate parts := by
  induction lines generalizing text with
  | nil => exact ⟨[], rfl, encode_injective whole⟩
  | cons line lines ih =>
    cases lines with
    | nil => exact ⟨[text], by simpa using whole, by simp⟩
    | cons next lines =>
      rw [List.intercalate_cons_cons] at whole
      obtain ⟨part, rest, rfl, first, tail⟩ := encode_eq_append_mark ascii filled whole
      obtain ⟨parts, encoded, rfl⟩ := ih tail
      cases parts with
      | nil => cases encoded
      | cons second parts =>
        refine ⟨part :: second :: parts, by rw [map_cons, first, encoded], ?_⟩
        rw [List.intercalate_cons_cons]

theorem valid_intercalate (marks : Valid mark) (valid : ∀ line ∈ lines, Valid line) :
    Valid (mark.intercalate lines) := by
  induction lines with
  | nil => exact ⟨[], rfl⟩
  | cons line lines ih =>
    rw [forall_mem_cons] at valid
    cases lines with
    | nil =>
      rw [List.intercalate_singleton]
      exact valid.1
    | cons next lines =>
      rw [List.intercalate_cons_cons]
      exact (valid.1.append marks).append (ih valid.2)

theorem encode_subset {part : List Char} (inside : part ⊆ text) : encode part ⊆ encode text := by
  intro byte member
  obtain ⟨char, present, encoded⟩ := mem_flatMap.mp member
  exact mem_flatMap.mpr ⟨char, inside present, encoded⟩

/-! ### Lossy decoding -/

/-- The character at the front of a byte sequence, and how many bytes behind the first it
takes. A malformed sequence gives one replacement character for its longest valid part. -/
def decodeFront (first : Nat) (rest : List Nat) : Char × Nat :=
  let replacement := Char.ofNat 0xFFFD
  let continues := fun (byte : Nat) => 0x80 ≤ byte && byte ≤ 0xBF
  if first < 0x80 then (Char.ofNat first, 0)
  else if 0xC2 ≤ first ∧ first ≤ 0xDF then
    match rest with
    | second :: _ =>
      if continues second then (Char.ofNat ((first - 0xC0) * 64 + (second - 0x80)), 1)
      else (replacement, 0)
    | [] => (replacement, 0)
  else if 0xE0 ≤ first ∧ first ≤ 0xEF then
    let low := if first = 0xE0 then 0xA0 else 0x80
    let high := if first = 0xED then 0x9F else 0xBF
    match rest with
    | second :: others =>
      if low ≤ second ∧ second ≤ high then
        match others with
        | third :: _ =>
          if continues third then
            (Char.ofNat ((first - 0xE0) * 4096 + (second - 0x80) * 64 + (third - 0x80)), 2)
          else (replacement, 1)
        | [] => (replacement, 1)
      else (replacement, 0)
    | [] => (replacement, 0)
  else if 0xF0 ≤ first ∧ first ≤ 0xF4 then
    let low := if first = 0xF0 then 0x90 else 0x80
    let high := if first = 0xF4 then 0x8F else 0xBF
    match rest with
    | second :: others =>
      if low ≤ second ∧ second ≤ high then
        match others with
        | third :: others =>
          if continues third then
            match others with
            | fourth :: _ =>
              if continues fourth then
                (Char.ofNat ((first - 0xF0) * 262144 + (second - 0x80) * 4096 +
                  (third - 0x80) * 64 + (fourth - 0x80)), 3)
              else (replacement, 2)
            | [] => (replacement, 2)
          else (replacement, 1)
        | [] => (replacement, 1)
      else (replacement, 0)
    | [] => (replacement, 0)
  else (replacement, 0)

/-- `String::from_utf8_lossy`; the fuel is the number of bytes. -/
def decodeLossy : Nat → List Nat → List Char
  | _, [] | 0, _ => []
  | fuel + 1, first :: rest =>
    let front := decodeFront first rest
    front.1 :: decodeLossy fuel (rest.drop front.2)

/-- The `Display` of the error of `str::from_utf8`: where the first bad sequence starts, and its
length unless the bytes end in it. The fuel is the number of bytes. -/
def errorText : Nat → Nat → List Nat → String
  | _, _, [] | 0, _, _ => ""
  | fuel + 1, index, first :: rest =>
    let front := decodeFront first rest
    if front.1 = Char.ofNat 0xFFFD ∧ ¬(first = 0xEF ∧ front.2 = 2) then
      if rest.length = front.2 ∧ 0xC2 ≤ first ∧ first ≤ 0xF4 then
        "incomplete utf-8 byte sequence from index " ++ toString index
      else "invalid utf-8 sequence of " ++ toString (front.2 + 1) ++ " bytes from index " ++
        toString index
    else errorText fuel (index + front.2 + 1) (rest.drop front.2)

/-- `str::from_utf8`. -/
def fromUtf8 (bytes : List UInt8) : Except String String :=
  match decode bytes with
  | some text => .ok (String.ofList text)
  | none => .error (errorText bytes.length 0 (bytes.map UInt8.toNat))

theorem eq_of_ofNat {code : Nat} (same : Char.ofNat code = char) (visible : char ≠ Char.ofNat 0) :
    code = char.toNat := by
  by_cases valid : code.isValidChar
  · rw [← same, Char.ofNat, dif_pos valid]
    exact UInt32.toNat_ofNatLT.symm
  · rw [← same] at visible
    refine absurd ?_ visible
    rw [Char.ofNat, dif_neg valid]
    rfl

/-- A byte outside ASCII never begins an ASCII character. -/
theorem decodeFront_wide {first : Nat} (wide : ¬first < 0x80) (rest : List Nat) :
    ∃ code, 0x80 ≤ code ∧ (decodeFront first rest).1 = Char.ofNat code := by
  have replaced : ∃ code, 0x80 ≤ code ∧ Char.ofNat 0xFFFD = Char.ofNat code :=
    ⟨0xFFFD, by decide, rfl⟩
  unfold decodeFront
  dsimp only
  rw [if_neg wide]
  generalize Char.ofNat 0xFFFD = replacement at replaced
  split_ifs with two three four
  all_goals repeat' split
  all_goals first
    | with_reducible exact replaced
    | refine ⟨_, ?_, by with_reducible rfl⟩
      simp only [Bool.and_eq_true, decide_eq_true_eq] at *
      omega

variable {codes : List Nat}

/-- An ASCII character at the front of decoded bytes is the first byte. -/
theorem decodeLossy_ascii {fuel : Nat} {text : List Char}
    (decoded : decodeLossy fuel codes = char :: text) (visible : char ≠ Char.ofNat 0)
    (ascii : char.toNat < 0x80) :
    ∃ rest, codes = char.toNat :: rest ∧ decodeLossy (fuel - 1) rest = text := by
  cases fuel with
  | zero => cases codes <;> cases decoded
  | succ fuel =>
    cases codes with
    | nil => cases decoded
    | cons first rest =>
      rw [decodeLossy, List.cons.injEq] at decoded
      by_cases small : first < 0x80
      · have front : decodeFront first rest = (Char.ofNat first, 0) := by
          unfold decodeFront
          exact if_pos small
        rw [front] at decoded
        have code := eq_of_ofNat decoded.1 visible
        exact ⟨rest, by rw [← code], decoded.2⟩
      · obtain ⟨code, large, isCode⟩ := decodeFront_wide small rest
        have same := eq_of_ofNat (isCode.symm.trans decoded.1) visible
        omega

theorem decodeLossy_plain {text : List Char} {fuel : Nat} (enough : codes.length ≤ fuel)
    (decoded : decodeLossy fuel codes = text)
    (plain : ∀ char ∈ text, char ≠ Char.ofNat 0 ∧ char.toNat < 0x80) :
    codes = text.map Char.toNat := by
  induction text generalizing fuel codes with
  | nil =>
    cases codes with
    | nil => rfl
    | cons first rest =>
      cases fuel with
      | zero => exact absurd enough (Nat.not_succ_le_zero _)
      | succ fuel => cases decoded
  | cons char others ih =>
    have ⟨visible, ascii⟩ := plain char mem_cons_self
    obtain ⟨rest, rfl, later⟩ := decodeLossy_ascii decoded visible ascii
    rw [length_cons] at enough
    have tail := ih (by omega) later (forall_mem_cons.mp plain).2
    rw [tail, map_cons]

/-- ASCII bytes decode to their characters, whatever follows. -/
theorem decodeLossy_append {front : List UInt8} (ascii : ∀ byte ∈ front, IsAscii byte)
    (rest : List UInt8) :
    decodeLossy (front ++ rest).length ((front ++ rest).map UInt8.toNat) =
      front.map asciiChar ++ decodeLossy rest.length (rest.map UInt8.toNat) := by
  induction front with
  | nil => rfl
  | cons byte front ih =>
    rw [forall_mem_cons] at ascii
    have first : decodeFront byte.toNat ((front ++ rest).map UInt8.toNat) = (asciiChar byte, 0) := by
      unfold decodeFront
      exact if_pos ascii.1
    rw [cons_append, length_cons, map_cons, decodeLossy, first, map_cons, cons_append, ← ih ascii.2]
    rfl

end Mcpace.Library.Utf8

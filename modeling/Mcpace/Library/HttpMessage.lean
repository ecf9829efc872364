import Mcpace.Library.Checks
import Mcpace.Library.Text
import Mcpace.Library.Utf8

/-!
Owns the wire form of HTTP/1.1 response messages: field lines, the chunked transfer coding with
extensions and trailers, and a response framed by its content length or by chunks.

Bytes of a value that are not ASCII are opaque here: a field value, an extension or the data of a
chunk need not be valid UTF-8. What stands behind the semicolon of an extension is any visible
text, of which the grammar of extensions is a part.

Does not own: any reader of such messages.
-/

namespace Mcpace.Library.HttpMessage

open Library Checks List Text

def crlf : List UInt8 := [13, 10]

/-- Tab, space, a visible character or a byte beyond ASCII. -/
def isFieldByte (byte : UInt8) : Bool :=
  byte = 9 || byte = 0x20 || (0x21 ≤ byte && byte ≤ 0x7e) || 0x80 ≤ byte

def isTokenChar (char : Char) : Bool :=
  isAsciiAlphanumeric char || char ∈ "!#$%&'*+-.^_`|~".toList

/-! ### Field lines -/

structure FieldLine where
  name : String
  value : List UInt8
  named : name ≠ ""
  isToken : ∀ char ∈ name.toList, isTokenChar char = true
  isFieldValue : ∀ byte ∈ value, isFieldByte byte = true

def FieldLine.line (field : FieldLine) : List UInt8 :=
  Utf8.encode field.name.toList ++ 0x3a :: field.value

/-! ### Chunks -/

/-- Blanks before the semicolon, and what stands behind it. -/
structure ChunkExtension where
  blank : List UInt8
  text : List UInt8
  isBlank : ∀ byte ∈ blank, byte = 9 ∨ byte = 0x20
  visible : ∀ byte ∈ text, isFieldByte byte = true

def ChunkExtension.bytes (extension : ChunkExtension) : List UInt8 :=
  extension.blank ++ 0x3b :: extension.text

/-- A size in hexadecimal digits of either case, leading zeros allowed. -/
structure SizeLine (size : Nat) where
  digits : List Char
  reads : parseHexDigits digits = some size
  extension : Option ChunkExtension

def SizeLine.line {size : Nat} (sizeLine : SizeLine size) : List UInt8 :=
  Utf8.encode sizeLine.digits ++ sizeLine.extension.elim [] ChunkExtension.bytes

structure Chunk where
  data : List UInt8
  filled : data ≠ []
  sizeLine : SizeLine data.length

def Chunk.bytes (chunk : Chunk) : List UInt8 :=
  chunk.sizeLine.line ++ crlf ++ (chunk.data ++ crlf)

structure ChunkedBody where
  chunks : List Chunk
  last : SizeLine 0
  trailers : List FieldLine

namespace ChunkedBody

/-- The trailers with the empty line behind them. -/
def trailerBytes (trailers : List FieldLine) : List UInt8 :=
  trailers.flatMap (fun trailer => trailer.line ++ crlf) ++ crlf

def bytes (body : ChunkedBody) : List UInt8 :=
  body.chunks.flatMap Chunk.bytes ++ (body.last.line ++ crlf ++ trailerBytes body.trailers)

def data (body : ChunkedBody) : List UInt8 := body.chunks.flatMap Chunk.data

end ChunkedBody

/-! ### Responses -/

/-- The fields that say where a message ends. -/
def isFramingName (name : String) : Bool :=
  ["content-length", "transfer-encoding"].contains (toAsciiLowercase name)

/-- A response with status 200: its reason phrase and the fields around the one that frames it. -/
structure Head where
  reason : List UInt8
  before : List FieldLine
  after : List FieldLine
  visible : ∀ byte ∈ reason, isFieldByte byte = true
  unframed : ∀ field ∈ before ++ after, isFramingName field.name = false

def asciiBytes (text : String) : List UInt8 := Utf8.encode text.toList

def statusLine (reason : List UInt8) : List UInt8 := asciiBytes "HTTP/1.1 200 " ++ reason

def Head.lines (head : Head) (framing : FieldLine) : List (List UInt8) :=
  statusLine head.reason :: (head.before ++ framing :: head.after).map FieldLine.line

def Head.response (head : Head) (framing : FieldLine) (payload : List UInt8) : List UInt8 :=
  crlf.intercalate (head.lines framing) ++ (crlf ++ crlf) ++ payload

def transferEncoding : FieldLine where
  name := "Transfer-Encoding"
  value := asciiBytes " chunked"
  named := by decide
  isToken := forall_mem_of_all (by decide)
  isFieldValue := forall_mem_of_all (by decide)

theorem isFieldByte_of_visible {text : List Char}
    (visible : ∀ char ∈ text, 0x20 ≤ char.toNat ∧ char.toNat < 0x7f) :
    ∀ byte ∈ Utf8.encode text, isFieldByte byte = true := by
  intro byte member
  obtain ⟨char, present, encoded⟩ := mem_flatMap.mp member
  have code := visible char present
  rw [Utf8.encodeChar_ascii (by omega), mem_singleton] at encoded
  have number : byte.toNat = char.toNat := by
    rw [encoded, UInt8.toNat_ofNat']
    omega
  simp only [isFieldByte, Bool.or_eq_true, Bool.and_eq_true, decide_eq_true_eq,
    UInt8.le_iff_toNat_le, ← UInt8.toNat_inj, number]
  have low : (0x21 : UInt8).toNat = 0x21 := rfl
  have high : (0x7e : UInt8).toNat = 0x7e := rfl
  have space : (0x20 : UInt8).toNat = 0x20 := rfl
  omega

theorem toString_visible (number : Nat) : ∀ char ∈ (" " ++ toString number).toList,
      0x20 ≤ char.toNat ∧ char.toNat < 0x7f := by
  intro char member
  rw [String.toList_append, mem_append] at member
  rcases member with blank | digit
  · rw [mem_singleton.mp blank]
    decide
  · have code := toNat_of_isAsciiAlphanumeric (isAsciiAlphanumeric_of_mem_toString digit)
    omega

def contentLength (length : Nat) : FieldLine where
  name := "Content-Length"
  value := asciiBytes (" " ++ toString length)
  named := by decide
  isToken := forall_mem_of_all (by decide)
  isFieldValue := isFieldByte_of_visible (toString_visible length)

def chunkedResponse (head : Head) (body : ChunkedBody) : List UInt8 :=
  head.response transferEncoding body.bytes

def lengthResponse (head : Head) (body : List UInt8) : List UInt8 :=
  head.response (contentLength body.length) body

/-! ### Line ends -/

/-- A token has visible characters only, and no colon. -/
theorem toNat_of_isTokenChar {char : Char} (token : isTokenChar char = true) :
    0x21 ≤ char.toNat ∧ char.toNat < 0x7f ∧ char.toNat ≠ 0x3a := by
  rw [isTokenChar, Bool.or_eq_true] at token
  rcases token with alphanumeric | mark
  · have code := toNat_of_isAsciiAlphanumeric alphanumeric
    omega
  · have marks : ∀ char ∈ "!#$%&'*+-.^_`|~".toList,
        0x21 ≤ char.toNat ∧ char.toNat < 0x7f ∧ char.toNat ≠ 0x3a :=
      forall_mem_of_all (by decide)
    exact marks char (of_decide_eq_true mark)

theorem not_isFieldByte_cr : isFieldByte 13 = false := by decide

theorem FieldLine.isAscii_name (field : FieldLine) :
    ∀ byte ∈ Utf8.encode field.name.toList, Utf8.IsAscii byte := by
  apply Utf8.isAscii_of_mem_encode
  intro char member
  have code := toNat_of_isTokenChar (field.isToken char member)
  omega

/-- All bytes of a field line are those of a field value. -/
theorem FieldLine.isFieldByte_line (field : FieldLine) :
    ∀ byte ∈ field.line, isFieldByte byte = true := by
  intro byte member
  rcases mem_append.mp member with named | later
  · apply isFieldByte_of_visible _ byte named
    intro char present
    have code := toNat_of_isTokenChar (field.isToken char present)
    omega
  · rcases mem_cons.mp later with rfl | inValue
    · rfl
    · exact field.isFieldValue byte inValue

section

variable {size : Nat} (sizeLine : SizeLine size)

include sizeLine

theorem SizeLine.isHex : ∀ char ∈ sizeLine.digits, isAsciiAlphanumeric char = true :=
  fun char member => Text.isAsciiAlphanumeric_of_hexDigit
    (Text.hexDigit_of_parseHexDigits sizeLine.reads char member)

theorem SizeLine.isAscii_digits : ∀ byte ∈ Utf8.encode sizeLine.digits, Utf8.IsAscii byte := by
  apply Utf8.isAscii_of_mem_encode
  intro char member
  have code := toNat_of_isAsciiAlphanumeric (sizeLine.isHex char member)
  omega

theorem SizeLine.isFieldByte_line : ∀ byte ∈ sizeLine.line, isFieldByte byte = true := by
  intro byte member
  rcases mem_append.mp member with digit | later
  · apply isFieldByte_of_visible _ byte digit
    intro char present
    have code := toNat_of_isAsciiAlphanumeric (sizeLine.isHex char present)
    omega
  · cases present : sizeLine.extension with
    | none =>
      rw [present] at later
      cases later
    | some extension =>
      rw [present] at later
      rcases mem_append.mp later with blank | text
      · rcases extension.isBlank byte blank with rfl | rfl
        · rfl
        · rfl
      · rcases mem_cons.mp text with rfl | inText
        · rfl
        · exact extension.visible byte inText

end

theorem isFieldByte_statusLine {reason : List UInt8}
    (visible : ∀ byte ∈ reason, isFieldByte byte = true) :
    ∀ byte ∈ statusLine reason, isFieldByte byte = true := by
  intro byte member
  rcases mem_append.mp member with fixed | inReason
  · have opening : ∀ byte ∈ asciiBytes "HTTP/1.1 200 ", isFieldByte byte = true :=
      forall_mem_of_all (by decide)
    exact opening byte fixed
  · exact visible byte inReason

theorem isAscii_opening : ∀ byte ∈ asciiBytes "HTTP/1.1 200 ", Utf8.IsAscii byte :=
  forall_mem_of_all (by decide)

theorem cr_not_mem {line : List UInt8} (visible : ∀ byte ∈ line, isFieldByte byte = true) :
    13 ∉ line := by
  intro member
  have found := visible 13 member
  rw [not_isFieldByte_cr] at found
  exact Bool.noConfusion found

end Mcpace.Library.HttpMessage

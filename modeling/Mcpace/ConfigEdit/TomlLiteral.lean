import Mcpace.ConfigEdit.TomlBlock
import Mcpace.Json.Text

/-!
Owns the string literals of TOML client configurations: `parse_toml_string_literal` of
`src/config_edit.rs` against `toml_basic_string`.

The literal between double quotes is handed to the JSON reader, which knows the escapes that the
writer uses. The writer leaves other control characters as they are.
-/

namespace Mcpace.ConfigEdit

open Library Json List

/-- The loop over the characters; `escaped` says that the last one was a backslash. -/
def quotedEndFrom (quote : Char) : (escaped : Bool) → Nat → List Char → Option Nat
  | _, _, [] => none
  | true, index, _ :: rest => quotedEndFrom quote false (index + 1) rest
  | false, index, char :: rest =>
    if char = '\\' then quotedEndFrom quote true (index + 1) rest
    else if char = quote then some index
    else quotedEndFrom quote false (index + 1) rest

def tomlQuotedStringEnd (value : List Char) (quote : Char) : Option Nat :=
  quotedEndFrom quote false 1 value.tail

/-- `serde_json::from_str::<String>`, which reads the strings of the JSON grammar. -/
structure StringReader where
  fromStr : List Char → Option (List Char)
  grammar : ∀ text value, fromStr text = some value ↔
    readText text = some (.string (String.ofList value))

/-- The reader that computes by the grammar. -/
def jsonString : StringReader where
  fromStr text :=
    match readText text with
    | some (.string value) => some value.toList
    | _ => none
  grammar := by
    intro text value
    cases readText text with
    | none => simp
    | some document => cases document <;> simp [String.ext_iff]

def parseTomlStringLiteral (reader : StringReader) (value : List Char) : Option (List Char) :=
  if value.head? = some '"' then
    (tomlQuotedStringEnd value '"').bind (fun stop => reader.fromStr (value.take (stop + 1)))
  else if value.head? = some '\'' then
    if '\'' ∈ value.tail then some (value.tail.takeWhile (· ≠ '\'')) else none
  else none

def isControl (char : Char) : Bool := char.toNat < 0x20 || char.toNat = 0x7f

/-- A basic string with nothing behind it: it has only the escapes of TOML, and no control
character but tabs. -/
def IsBasicString (text : List Char) : Prop :=
  (∃ inner value, text = '"' :: inner ∧ Toml.basicKey .none inner = some (value, [])) ∧
    ∀ char ∈ text, isControl char → char = '\t'

/-- The control characters that the writer escapes. -/
def escapedControls : List Char := ['\n', '\r', '\t']

variable {value : List Char}

theorem quotedEndFrom_escaped (index : Nat) :
    quotedEndFrom '"' false index (value.flatMap escapeChar ++ ['"']) =
      some (index + (value.flatMap escapeChar).length) := by
  induction value generalizing index with
  | nil => rfl
  | cons written rest ih =>
    rw [flatMap_cons, List.append_assoc]
    rcases escapeChar_read written with ⟨plain, unquoted, unescaped⟩ | ⟨letter, escaped, _⟩
    · rw [plain, singleton_append, quotedEndFrom, if_neg unescaped, if_neg unquoted, ih]
      simp only [singleton_append, length_cons, Option.some.injEq]
      omega
    · rw [escaped, cons_append, singleton_append, quotedEndFrom, if_pos rfl, quotedEndFrom, ih]
      simp only [cons_append, nil_append, length_cons, Option.some.injEq]
      omega

theorem basicKey_escaped (value rest : List Char) :
    Toml.basicKey .none (value.flatMap escapeChar ++ '"' :: rest) = some (value, rest) := by
  induction value with
  | nil =>
    rw [flatMap_nil, nil_append, Toml.basicKey, if_pos rfl]
  | cons written value ih =>
    rw [flatMap_cons, List.append_assoc]
    rcases escapeChar_read written with ⟨plain, unquoted, unescaped⟩ | ⟨letter, escaped, isValue⟩
    · rw [plain, singleton_append, Toml.basicKey, if_neg unquoted, if_neg unescaped, ih]
      rfl
    · rw [escaped, cons_append, singleton_append, Toml.basicKey, if_neg (by decide),
        if_pos rfl, Toml.basicKey, isValue]
      dsimp only
      rw [ih]
      rfl

theorem stringBody_escapeChar {char : Char} (known : isControl char → char ∈ escapedControls)
    (rest : List Char) :
    stringBody .plain (escapeChar char ++ rest) = (stringBody .plain rest).map (readMore char) := by
  rw [escapeChar]
  split_ifs with back quote line carriage tab
  · rw [back]
    rfl
  · rw [quote]
    rfl
  · rw [line]
    rfl
  · rw [carriage]
    rfl
  · rw [tab]
    rfl
  · have solid : ¬char.toNat < 0x20 := by
      intro control
      have escaped := known (by simp [isControl, control])
      simp [escapedControls, line, carriage, tab] at escaped
    rw [singleton_append, stringBody, if_neg quote, if_neg back, if_neg solid]

section Known

variable (known : ∀ char ∈ value, isControl char → char ∈ escapedControls)

include known

theorem stringBody_tomlBasicString :
    stringBody .plain (value.flatMap escapeChar ++ ['"']) = some (value, []) := by
  induction value with
  | nil => rfl
  | cons char rest ih =>
    rw [flatMap_cons, List.append_assoc, stringBody_escapeChar (known char mem_cons_self),
      ih (forall_mem_cons.mp known).2]
    rfl

theorem parse_tomlBasicString (reader : StringReader) :
    parseTomlStringLiteral reader (tomlBasicString value) = some value := by
  have stop : tomlQuotedStringEnd (tomlBasicString value) '"' =
      some (1 + (value.flatMap escapeChar).length) := quotedEndFrom_escaped 1
  have whole : (tomlBasicString value).take (1 + (value.flatMap escapeChar).length + 1) =
      tomlBasicString value := by
    apply take_of_length_le
    simp only [tomlBasicString, cons_append, length_cons, length_append, length_nil]
    omega
  have opens : (tomlBasicString value).head? = some '"' := rfl
  rw [parseTomlStringLiteral, if_pos opens, stop, Option.bind_some, whole, reader.grammar, readText,
    readValue, tomlBasicString, cons_append, skipBlanks_cons (by decide)]
  simp [stringBody_tomlBasicString known, skipBlanks]

end Known

theorem mem_escapeChar_self (char : Char) : char ∈ escapeChar char ∨ char ∈ escapedControls := by
  rw [escapeChar]
  split_ifs with back quote line carriage tab
  all_goals simp [escapedControls, *]

/-- A control character is written only as itself. -/
theorem mem_escapeChar_control {char written : Char} (member : char ∈ escapeChar written)
    (control : isControl char) : char = written ∧ written ∉ escapedControls := by
  rw [escapeChar] at member
  split_ifs at member with back quote line carriage tab
  rotate_right
  · exact ⟨mem_singleton.mp member, by simp [escapedControls, line, carriage, tab]⟩
  all_goals
    rcases mem_pair.mp member with rfl | rfl
    all_goals exact absurd control (by decide)

/-- A literal is read back and is a basic string exactly where the text has no control characters
but line ends and tabs. -/
theorem tomlLiteral_roundTrips_iff (reader : StringReader) (value : List Char) :
    (parseTomlStringLiteral reader (tomlBasicString value) = some value ∧
        IsBasicString (tomlBasicString value)) ↔
      ∀ char ∈ value, isControl char → char ∈ escapedControls := by
  constructor
  · rintro ⟨_, _, clean⟩ char member control
    rcases mem_escapeChar_self char with raw | escaped
    · have written : char ∈ tomlBasicString value := mem_cons_of_mem _
        (mem_append_left _ (mem_flatMap.mpr ⟨char, member, raw⟩))
      rw [clean char written control]
      decide
    · exact escaped
  · intro known
    refine ⟨parse_tomlBasicString known reader, ⟨_, value, rfl, basicKey_escaped value []⟩, ?_⟩
    intro char member control
    simp only [tomlBasicString, cons_append, mem_cons, mem_append, mem_flatMap,
      not_mem_nil, or_false] at member
    rcases member with rfl | ⟨written, member, raw⟩ | rfl
    · exact absurd control (by decide)
    · obtain ⟨rfl, unknown⟩ := mem_escapeChar_control raw control
      exact absurd (known char member control) unknown
    · exact absurd control (by decide)

theorem tomlLiteral_rejected :
    parseTomlStringLiteral jsonString (tomlBasicString ['\x01']) = none ∧
      ¬IsBasicString (tomlBasicString ['\x01']) := by
  refine ⟨by decide, ?_⟩
  intro basic
  exact absurd (basic.2 '\x01' (by decide) (by decide)) (by decide)

end Mcpace.ConfigEdit

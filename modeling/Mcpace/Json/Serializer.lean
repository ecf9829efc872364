import Mcpace.Json.Print

/-!
Owns reading and writing of documents by way of the external serializer: `parse_str` and
`to_pretty_string` of `src/json.rs`.

The serializer is a parameter with two laws: it reads the grammar of `Json.Text` up to a nesting
limit and keeps the last of several members with one key, and it writes the layout of `Json.Print`.
Its number type is a parameter too: what a literal becomes when it is read into that type and printed
again.

Does not own: what a literal is worth.
-/

namespace Mcpace.Json

open Library List Option JsonValue OrderedMap

/-- The number type of the external serializer. -/
structure NumberType where
  /-- A literal, read into the type and printed again. -/
  renumber : String → Option String
  literal : ∀ {text printed}, renumber text = some printed → IsNumber printed.toList

/-- The number of arrays and objects in each other at which reading stops. -/
def nestingLimit : Nat := 128

namespace NumberType

variable (type : NumberType)

mutual

/-- `from_serde_value` of what the serializer makes of a document. -/
def load : JsonValue → Option JsonValue
  | .null => some .null
  | .bool value => some (.bool value)
  | .number text => (type.renumber text).map .number
  | .string text => some (.string text)
  | .array items => (loadItems items).map .array
  | .object entries => (loadEntries entries).map .ofEntries

def loadItems : List JsonValue → Option (List JsonValue)
  | [] => some []
  | item :: rest => (load item).bind (fun first => (loadItems rest).map (first :: ·))

def loadEntries : List (String × JsonValue) → Option (List (String × JsonValue))
  | [] => some []
  | (key, value) :: rest =>
    (load value).bind (fun first => (loadEntries rest).map ((key, first) :: ·))

end

/-- The document of a text of the grammar. -/
def document (input : String) : Option JsonValue :=
  ((readText input.toList).filter (fun value => nesting value < nestingLimit)).bind type.load

/-- The text of a document; a number that the type does not take is printed as a string. -/
def prettyText (value : JsonValue) : String :=
  String.ofList (render Layout.pretty 0 (value.reload type.renumber))

/-! ### Reading -/

section Load

variable {type}

theorem loadItems_cons {item : JsonValue} {rest loaded : List JsonValue}
    (found : type.loadItems (item :: rest) = some loaded) :
    ∃ first others, type.load item = some first ∧
      type.loadItems rest = some others ∧ loaded = first :: others := by
  rw [loadItems, bind_eq_some_iff] at found
  obtain ⟨first, isFirst, more⟩ := found
  obtain ⟨others, isOthers, same⟩ := map_eq_some_iff.mp more
  exact ⟨first, others, isFirst, isOthers, same.symm⟩

variable {loaded : List (String × JsonValue)}

theorem loadEntries_cons {entry : String × JsonValue} {rest : List (String × JsonValue)}
    (found : type.loadEntries (entry :: rest) = some loaded) :
    ∃ first others, type.load entry.2 = some first ∧
      type.loadEntries rest = some others ∧ loaded = (entry.1, first) :: others := by
  rw [loadEntries, bind_eq_some_iff] at found
  obtain ⟨first, isFirst, more⟩ := found
  obtain ⟨others, isOthers, same⟩ := map_eq_some_iff.mp more
  exact ⟨first, others, isFirst, isOthers, same.symm⟩

variable {entries : List (String × JsonValue)}

section

variable (found : type.loadEntries entries = some loaded)

include found

theorem keys_loadEntries : OrderedMap.keys loaded = OrderedMap.keys entries := by
  induction entries generalizing loaded with
  | nil =>
    rw [loadEntries, some_inj] at found
    rw [← found]
  | cons entry rest ih =>
    obtain ⟨first, others, -, isOthers, rfl⟩ := loadEntries_cons found
    have same := ih isOthers
    simp only [OrderedMap.keys, map_cons] at same ⊢
    rw [same]

/-- A member of what was read is a member of the text, read. -/
theorem get_loadEntries (key : String) :
    get key loaded = (get key entries).bind type.load := by
  induction entries generalizing loaded with
  | nil =>
    rw [loadEntries, some_inj] at found
    rw [← found]
    rfl
  | cons entry rest ih =>
    obtain ⟨first, others, isFirst, isOthers, rfl⟩ := loadEntries_cons found
    rw [OrderedMap.get_cons, OrderedMap.get_cons, ih isOthers]
    split
    · rw [bind_some, isFirst]
    · rfl

theorem exists_load_of_mem {entry : String × JsonValue} (member : entry ∈ entries) :
    ∃ value, type.load entry.2 = some value := by
  induction entries generalizing loaded with
  | nil => cases member
  | cons head rest ih =>
    obtain ⟨first, others, isFirst, isOthers, -⟩ := loadEntries_cons found
    rcases mem_cons.mp member with rfl | later
    · exact ⟨first, isFirst⟩
    · exact ih isOthers later

end

theorem load_object {value : JsonValue} (found : type.load (.object entries) = some value) :
    ∃ loaded, type.loadEntries entries = some loaded ∧ value = .object (ofList loaded) := by
  rw [load] at found
  obtain ⟨loaded, isLoaded, same⟩ := map_eq_some_iff.mp found
  exact ⟨loaded, isLoaded, same.symm⟩

theorem object_of_load {original : JsonValue}
    (found : type.load original = some (.object entries)) :
    ∃ written loaded, original = .object written ∧ type.loadEntries written = some loaded ∧
      entries = ofList loaded := by
  cases original with
  | object written =>
    obtain ⟨loaded, isLoaded, same⟩ := load_object found
    exact ⟨written, loaded, rfl, isLoaded, JsonValue.object.inj same⟩
  | array items | number text =>
    rw [load] at found
    obtain ⟨_, -, same⟩ := map_eq_some_iff.mp found
    cases same
  | null | bool value | string text =>
    rw [load, some_inj] at found
    cases found

end Load

/-! ### Writing -/

mutual

theorem isNumber_reload : ∀ (value : JsonValue) {text : String},
    text ∈ numbers (value.reload type.renumber) → IsNumber text.toList
  | .null, _, member => by
      rw [reload, numbers] at member
      cases member
  | .bool _, _, member => by
      rw [reload, numbers] at member
      cases member
  | .string _, _, member => by
      rw [reload, numbers] at member
      cases member
  | .number text, _, member => by
      rw [reload, reloadNumber] at member
      split at member
      · next printed isPrinted =>
          rw [numbers, mem_singleton] at member
          exact member ▸ type.literal isPrinted
      · rw [numbers] at member
        cases member
  | .array items, _, member => by
      rw [reload, numbers] at member
      exact isNumber_reloadItems items member
  | .object entries, _, member => by
      rw [reload, numbers] at member
      exact isNumber_reloadEntries entries member

theorem isNumber_reloadItems : ∀ (items : List JsonValue) {text : String},
    text ∈ numbersOfItems (reloadItems type.renumber items) → IsNumber text.toList
  | [], _, member => by
      rw [reloadItems, numbersOfItems] at member
      cases member
  | item :: rest, _, member => by
      rw [reloadItems, numbersOfItems] at member
      rcases mem_append.mp member with first | later
      · exact isNumber_reload item first
      · exact isNumber_reloadItems rest later

theorem isNumber_reloadEntries : ∀ (entries : List (String × JsonValue)) {text : String},
    text ∈ numbersOfEntries (reloadEntries type.renumber entries) → IsNumber text.toList
  | [], _, member => by
      rw [reloadEntries, numbersOfEntries] at member
      cases member
  | (key, value) :: rest, _, member => by
      rw [reloadEntries, numbersOfEntries] at member
      rcases mem_append.mp member with first | later
      · exact isNumber_reload value first
      · exact isNumber_reloadEntries rest later

end

theorem printable_reload (value : JsonValue) : Printable (value.reload type.renumber) :=
  fun _ member => isNumber_reload type value member

end NumberType

/-- The external serializer on `JsonValue`: `from_str`, with the text of its error, and
`to_string_pretty`. -/
structure Serializer extends NumberType where
  fromStr : String → Except String JsonValue
  toStringPretty : JsonValue → String
  grammar : ∀ input value, fromStr input = .ok value ↔ toNumberType.document input = some value
  layout : ∀ value, toStringPretty value = toNumberType.prettyText value

namespace Serializer

variable (serializer : Serializer)

def parseStr (input : String) : Except String JsonValue := serializer.fromStr input

def toPrettyString (value : JsonValue) : String := serializer.toStringPretty value

theorem parseStr_eq_ok {input : String} {value : JsonValue}
    (read : serializer.parseStr input = .ok value) :
    ∃ original, readText input.toList = some original ∧ serializer.load original = some value := by
  obtain ⟨original, isOriginal, isLoaded⟩ :=
    bind_eq_some_iff.mp ((serializer.grammar input value).mp read)
  exact ⟨original, (filter_eq_some_iff.mp isOriginal).1, isLoaded⟩

theorem toList_toPrettyString (value : JsonValue) : (serializer.toPrettyString value).toList =
    render Layout.pretty 0 (value.reload serializer.renumber) := by
  rw [toPrettyString, layout, NumberType.prettyText, String.toList_ofList]

/-- What is written is read as the document, with its numbers printed again. -/
theorem readText_toPrettyString (value : JsonValue) :
    readText (serializer.toPrettyString value).toList =
      some (value.reload serializer.renumber) := by
  rw [toList_toPrettyString]
  exact readText_render blank_pretty (serializer.printable_reload value) 0

end Serializer

/-- The serializer that computes by the grammar and the layout. -/
def NumberType.serializer (type : NumberType) : Serializer where
  toNumberType := type
  fromStr input :=
    match type.document input with
    | some value => .ok value
    | none => .error "expected value at line 1 column 1"
  toStringPretty := type.prettyText
  grammar := by
    intro input value
    cases type.document input <;> simp
  layout _ := rfl

/-- The number type on two kinds of literals: one integer above 64 bits, which is read as the nearest
double, and literals that are printed as they stand. -/
def roundingNumbers : NumberType where
  renumber text :=
    if text = "18446744073709551617" then some "1.8446744073709552e+19"
    else if IsNumber text.toList then some text
    else none
  literal := by
    intro text printed found
    split_ifs at found with large isNumber
    · cases found
      decide +kernel
    · cases found
      exact isNumber

def roundingSerializer : Serializer := roundingNumbers.serializer

end Mcpace.Json

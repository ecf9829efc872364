import Mcpace.Library.OrderedMap
import Mcpace.Library.Text

/-!
Owns the JSON document type of the runtime and its path accessors, and what a
document becomes when it is written to a file and read back.

Numbers carry their text. Writing and reading go through the external
serializer, which keeps every part of a document except that a number is
re-printed by its own number type; that one step is the parameter `renumber`.

Does not own: the text syntax of JSON.
-/

namespace Mcpace.Json

open Library OrderedMap List

inductive JsonValue where
  | null
  | bool (value : Bool)
  | number (text : String)
  | string (text : String)
  | array (items : List JsonValue)
  | object (entries : List (String × JsonValue))
deriving Repr, Inhabited

/-- A string-keyed map of documents, by its entries in key order. -/
abbrev JsonMap := List (String × JsonValue)

namespace JsonValue

mutual

def decEq : (left right : JsonValue) → Decidable (left = right)
  | .null, .null => isTrue rfl
  | .bool left, .bool right =>
    if same : left = right then isTrue (same ▸ rfl)
    else isFalse (fun equal => same (JsonValue.bool.inj equal))
  | .number left, .number right =>
    if same : left = right then isTrue (same ▸ rfl)
    else isFalse (fun equal => same (JsonValue.number.inj equal))
  | .string left, .string right =>
    if same : left = right then isTrue (same ▸ rfl)
    else isFalse (fun equal => same (JsonValue.string.inj equal))
  | .array left, .array right =>
    match decEqItems left right with
    | isTrue same => isTrue (same ▸ rfl)
    | isFalse different => isFalse (fun equal => different (JsonValue.array.inj equal))
  | .object left, .object right =>
    match decEqEntries left right with
    | isTrue same => isTrue (same ▸ rfl)
    | isFalse different => isFalse (fun equal => different (JsonValue.object.inj equal))
  | .null, .bool _ | .null, .number _ | .null, .string _ | .null, .array _ | .null, .object _
  | .bool _, .null | .bool _, .number _ | .bool _, .string _ | .bool _, .array _
  | .bool _, .object _ | .number _, .null | .number _, .bool _ | .number _, .string _
  | .number _, .array _ | .number _, .object _ | .string _, .null | .string _, .bool _
  | .string _, .number _ | .string _, .array _ | .string _, .object _ | .array _, .null
  | .array _, .bool _ | .array _, .number _ | .array _, .string _ | .array _, .object _
  | .object _, .null | .object _, .bool _ | .object _, .number _ | .object _, .string _
  | .object _, .array _ => isFalse nofun

def decEqItems : (left right : List JsonValue) → Decidable (left = right)
  | [], [] => isTrue rfl
  | [], _ :: _ | _ :: _, [] => isFalse nofun
  | left :: lefts, right :: rights =>
    match decEq left right, decEqItems lefts rights with
    | isTrue same, isTrue sameRest => isTrue (same ▸ sameRest ▸ rfl)
    | isFalse different, _ => isFalse (fun equal => different (List.cons.inj equal).1)
    | _, isFalse different => isFalse (fun equal => different (List.cons.inj equal).2)

def decEqEntries : (left right : List (String × JsonValue)) → Decidable (left = right)
  | [], [] => isTrue rfl
  | [], _ :: _ | _ :: _, [] => isFalse nofun
  | (leftKey, left) :: lefts, (rightKey, right) :: rights =>
    match decEq left right, decEqEntries lefts rights with
    | isTrue same, isTrue sameRest =>
      if sameKey : leftKey = rightKey then
        isTrue (same ▸ sameRest ▸ sameKey ▸ rfl)
      else isFalse (fun equal => sameKey (Prod.mk.inj (List.cons.inj equal).1).1)
    | isFalse different, _ =>
      isFalse (fun equal => different (Prod.mk.inj (List.cons.inj equal).1).2)
    | _, isFalse different => isFalse (fun equal => different (List.cons.inj equal).2)

end

instance : DecidableEq JsonValue := decEq

/-! ### Construction -/

/-- `JsonValue::object`: later entries overwrite earlier ones with the same key. -/
def ofEntries (entries : List (String × JsonValue)) : JsonValue :=
  .object (OrderedMap.ofList entries)

/-- `JsonValue::number` of an unsigned integer. -/
def ofNat (value : Nat) : JsonValue := .number (toString value)

/-- `json_helpers::json_string_or_null`. -/
def stringOrNull : Option String → JsonValue
  | some text => .string text
  | none => .null

/-! ### Access -/

def get (key : String) : JsonValue → Option JsonValue
  | .object entries => OrderedMap.get key entries
  | _ => none

def asObject : JsonValue → Option JsonMap
  | .object entries => some entries
  | _ => none

def asArray : JsonValue → Option (List JsonValue)
  | .array items => some items
  | _ => none

def asStr : JsonValue → Option String
  | .string text => some text
  | _ => none

def asBool : JsonValue → Option Bool
  | .bool value => some value
  | _ => none

def asI64 : JsonValue → Option Int
  | .number text => Text.parseSigned 64 text
  | _ => none

/-- `text.parse::<u128>()` on a number, as the lease store reads its times. -/
def asU128 : JsonValue → Option Nat
  | .number text => Text.parseUnsigned 128 text
  | _ => none

def valueAtPath : JsonValue → List String → Option JsonValue
  | value, [] => some value
  | value, key :: rest => (value.get key).bind (fun child => valueAtPath child rest)

def stringAtPath (value : JsonValue) (path : List String) : Option String :=
  (value.valueAtPath path).bind asStr

def boolAtPath (value : JsonValue) (path : List String) : Option Bool :=
  (value.valueAtPath path).bind asBool

def arrayAtPath (value : JsonValue) (path : List String) : Option (List JsonValue) :=
  (value.valueAtPath path).bind asArray

def objectAtPath (value : JsonValue) (path : List String) : Option JsonMap :=
  (value.valueAtPath path).bind asObject

/-- `json_helpers::strings_from_array`: the trimmed non-empty string items. -/
def stringsFromArray (items : Option (List JsonValue)) : List String :=
  (items.getD []).filterMap (fun item => item.asStr.bind Text.trimNonEmpty)

@[simp] theorem get_object (key : String) (entries : JsonMap) :
    get key (.object entries) = OrderedMap.get key entries := rfl

theorem get_ofEntries (key : String) (entries : List (String × JsonValue)) :
    get key (ofEntries entries) = OrderedMap.get key entries.reverse :=
  get_ofList key entries

theorem get_ofEntries_eq_some {key : String} {entries : List (String × JsonValue)}
    {value : JsonValue} (found : OrderedMap.get key entries.reverse = some value) :
    get key (ofEntries entries) = some value :=
  (get_ofEntries key entries).trans found

@[simp] theorem valueAtPath_nil (value : JsonValue) : value.valueAtPath [] = some value := rfl

theorem valueAtPath_cons (value : JsonValue) (key : String) (rest : List String) :
    value.valueAtPath (key :: rest) =
      (value.get key).bind (fun child => child.valueAtPath rest) := rfl

theorem valueAtPath_append (value : JsonValue) (front back : List String) :
    value.valueAtPath (front ++ back) = (value.valueAtPath front).bind (·.valueAtPath back) := by
  induction front generalizing value with
  | nil => rfl
  | cons key front ih =>
    rw [List.cons_append, valueAtPath_cons, valueAtPath_cons, Option.bind_assoc]
    simp only [ih]

theorem valueAtPath_singleton (value : JsonValue) (key : String) :
    value.valueAtPath [key] = value.get key := by
  show (value.get key).bind some = value.get key
  exact Option.bind_fun_some _

@[simp] theorem asI64_ofNat {value : Nat} (fits : value < 2 ^ 63) :
    (ofNat value).asI64 = some (value : Int) :=
  Text.parseSigned_toString fits

/-! ### Writing and reading back -/

section Reload

variable (renumber : String → Option String)

/-- What a number becomes: its re-printed text, or a string when the serializer
does not accept the text as a number. -/
def reloadNumber (text : String) : JsonValue :=
  match renumber text with
  | some printed => .number printed
  | none => .string text

mutual

/-- `to_pretty_string` followed by `parse_str`. -/
def reload : JsonValue → JsonValue
  | .null => .null
  | .bool value => .bool value
  | .number text => reloadNumber renumber text
  | .string text => .string text
  | .array items => .array (reloadItems items)
  | .object entries => .object (reloadEntries entries)

def reloadItems : List JsonValue → List JsonValue
  | [] => []
  | item :: rest => reload item :: reloadItems rest

def reloadEntries : List (String × JsonValue) → List (String × JsonValue)
  | [] => []
  | (key, value) :: rest => (key, reload value) :: reloadEntries rest

end

theorem reloadEntries_eq_map (entries : JsonMap) : reloadEntries renumber entries =
      entries.map (fun entry => (entry.1, reload renumber entry.2)) := by
  induction entries with
  | nil => rfl
  | cons entry rest ih =>
    simp only [reloadEntries, map_cons, ih]

theorem get_reloadEntries (key : String) (entries : JsonMap) :
    OrderedMap.get key (reloadEntries renumber entries) =
      (OrderedMap.get key entries).map (reload renumber) := by
  induction entries with
  | nil => rfl
  | cons entry rest ih =>
    obtain ⟨entryKey, value⟩ := entry
    simp only [reloadEntries, get_cons, ih]
    split <;> rfl

theorem keys_reloadEntries (entries : JsonMap) :
    OrderedMap.keys (reloadEntries renumber entries) = OrderedMap.keys entries := by
  rw [reloadEntries_eq_map]
  simp [OrderedMap.keys]

theorem sorted_reloadEntries {entries : JsonMap} (sorted : Sorted entries) :
    Sorted (reloadEntries renumber entries) :=
  sorted_of_keys_eq (keys_reloadEntries renumber entries).symm sorted

theorem reloadNumber_not_object (text : String) (key : String) :
    get key (reloadNumber renumber text) = none := by
  unfold reloadNumber
  split <;> rfl

theorem get_reload (key : String) (value : JsonValue) :
    get key (reload renumber value) = (get key value).map (reload renumber) := by
  cases value with
  | object entries => exact get_reloadEntries renumber key entries
  | number text => exact reloadNumber_not_object renumber text key
  | null | bool _ | string _ | array _ => simp [reload, get]

theorem valueAtPath_reload (value : JsonValue) (path : List String) :
    (reload renumber value).valueAtPath path = (value.valueAtPath path).map (reload renumber) := by
  induction path generalizing value with
  | nil => rfl
  | cons key rest ih =>
    rw [valueAtPath_cons, valueAtPath_cons, get_reload]
    cases value.get key with
    | none => rfl
    | some child => simp [ih]

/-- A document that reading back leaves as it is. -/
def ReadsBack (value : JsonValue) : Prop := reload renumber value = value

variable {renumber}

section

variable {entries : JsonMap} (stable : ∀ entry ∈ entries, ReadsBack renumber entry.2)

include stable

theorem reloadEntries_of_readsBack : reloadEntries renumber entries = entries := by
  induction entries with
  | nil => rfl
  | cons entry rest ih =>
    obtain ⟨key, value⟩ := entry
    have first : reload renumber value = value := stable (key, value) mem_cons_self
    have others := ih (forall_mem_cons.mp stable).2
    rw [reloadEntries, first, others]

theorem readsBack_object : ReadsBack renumber (.object entries) := by
  rw [ReadsBack, reload, reloadEntries_of_readsBack stable]

theorem readsBack_ofEntries : ReadsBack renumber (ofEntries entries) :=
  readsBack_object (fun entry member => stable entry (mem_ofList member))

/-- Writing a member that reads back keeps an object that does. -/
theorem readsBack_insert {key : String} {value : JsonValue} (member : ReadsBack renumber value) :
    ∀ entry ∈ OrderedMap.insert key value entries, ReadsBack renumber entry.2 :=
  forall_mem_insert member stable

end

theorem ReadsBack.entries {entries : JsonMap} (stable : ReadsBack renumber (.object entries)) :
    ∀ entry ∈ entries, ReadsBack renumber entry.2 := by
  rw [ReadsBack, reload, object.injEq, reloadEntries_eq_map] at stable
  have pointwise : entries.map (fun entry => (entry.1, reload renumber entry.2)) =
      entries.map id := by rw [stable, List.map_id]
  intro entry member
  exact congrArg Prod.snd (map_inj_left.mp pointwise entry member)

theorem readsBack_string (text : String) : ReadsBack renumber (.string text) := by
  rw [ReadsBack, reload]

theorem readsBack_stringOrNull (text : Option String) :
    ReadsBack renumber (stringOrNull text) := by
  cases text <;> rw [ReadsBack, stringOrNull, reload]

theorem readsBack_bool (value : Bool) : ReadsBack renumber (.bool value) := by
  rw [ReadsBack, reload]

theorem readsBack_strings (texts : List String) :
    ReadsBack renumber (.array (texts.map .string)) := by
  have items : reloadItems renumber (texts.map .string) = texts.map .string := by
    induction texts with
    | nil => rfl
    | cons text rest ih =>
      rw [map_cons, reloadItems, reload, ih]
  rw [ReadsBack, reload, items]

/-- The serializer prints and reads every `u64` exactly. -/
def ExactU64 (renumber : String → Option String) : Prop :=
  ∀ value < 2 ^ 64, renumber (toString value) = some (toString value)

theorem readsBack_ofNat (exactU64 : ExactU64 renumber) {value : Nat} (fits : value < 2 ^ 64) :
    ReadsBack renumber (ofNat value) := by
  rw [ReadsBack, ofNat, reload, reloadNumber, exactU64 value fits]

end Reload

end JsonValue

end Mcpace.Json

import Mcpace.Json.Serializer

/-!
Owns what a document says: numbers by their exact decimal value and objects by what they hold under
each key, and when reading a document and writing it again keeps that.

Does not own: the text of documents.
-/

namespace Mcpace.Json

open Library OrderedMap List Option JsonValue

/-! ### Decimal values -/

def Decimal.value (decimal : Decimal) : ℚ :=
  (if decimal.negative then -1 else 1) *
    (Nat.ofDigitChars 10 (decimal.whole ++ decimal.fraction) 0 : ℚ) *
    (10 : ℚ) ^ (decimal.exponent - decimal.fraction.length)

/-- The exact value of a number literal. -/
def decimalValue (text : String) : Option ℚ := (readDecimal text.toList).map Decimal.value

/-! ### Meanings -/

/-- A document up to the order of members and the spelling of numbers. A number that is no literal
has no value. -/
inductive Meaning where
  | null
  | bool (value : Bool)
  | number (value : Option ℚ)
  | string (text : String)
  | array (items : List Meaning)
  | object (members : String → Option Meaning)

mutual

def meaning : JsonValue → Meaning
  | .null => .null
  | .bool value => .bool value
  | .number text => .number (decimalValue text)
  | .string text => .string text
  | .array items => .array (meaningOfItems items)
  | .object entries => .object (members entries)

def meaningOfItems : List JsonValue → List Meaning
  | [] => []
  | item :: rest => meaning item :: meaningOfItems rest

/-- The last member with a key is the one that counts. -/
def members : List (String × JsonValue) → String → Option Meaning
  | [], _ => none
  | (key, value) :: rest, wanted =>
    (members rest wanted).or (if wanted = key then some (meaning value) else none)

end

theorem members_eq (entries : List (String × JsonValue)) (key : String) :
    members entries key = (get key (ofList entries)).map meaning := by
  rw [get_ofList]
  induction entries with
  | nil =>
    rw [members]
    rfl
  | cons entry rest ih =>
    obtain ⟨entryKey, value⟩ := entry
    rw [members, ih, reverse_cons, get_append, get_cons]
    cases get key rest.reverse with
    | some found => rfl
    | none =>
      split
      · rfl
      · rfl

variable {entries : List (String × JsonValue)}

theorem members_of_nodup (distinct : (OrderedMap.keys entries).Nodup) (key : String) :
    members entries key = (get key entries).map meaning := by
  rw [members_eq, get_ofList_of_nodup key distinct]

theorem members_of_sorted (sorted : Sorted entries) (key : String) :
    members entries key = (get key entries).map meaning := by
  rw [members_eq, ofList_of_sorted sorted]

mutual

/-- No object has two members with one key. -/
def UniqueKeys : JsonValue → Prop
  | .null => True
  | .bool _ => True
  | .number _ => True
  | .string _ => True
  | .array items => UniqueKeysOfItems items
  | .object entries => (OrderedMap.keys entries).Nodup ∧ UniqueKeysOfEntries entries

def UniqueKeysOfItems : List JsonValue → Prop
  | [] => True
  | item :: rest => UniqueKeys item ∧ UniqueKeysOfItems rest

def UniqueKeysOfEntries : List (String × JsonValue) → Prop
  | [] => True
  | (_, value) :: rest => UniqueKeys value ∧ UniqueKeysOfEntries rest

end

theorem uniqueKeysOfEntries_iff :
    UniqueKeysOfEntries entries ↔ ∀ entry ∈ entries, UniqueKeys entry.2 := by
  induction entries with
  | nil =>
    rw [UniqueKeysOfEntries]
    simp
  | cons entry rest ih =>
    rw [UniqueKeysOfEntries, ih, forall_mem_cons]

theorem mem_numbersOfEntries {text : String} :
    text ∈ numbersOfEntries entries ↔ ∃ entry ∈ entries, text ∈ numbers entry.2 := by
  induction entries with
  | nil =>
    rw [numbersOfEntries]
    simp
  | cons entry rest ih =>
    rw [numbersOfEntries, mem_append, ih]
    simp

/-! ### Numbers that are printed again -/

namespace Serializer

open NumberType

variable (serializer : Serializer)

/-- Printing a number again keeps its value. -/
def Keeps (text : String) : Prop :=
  ∃ printed, serializer.renumber text = some printed ∧ decimalValue printed = decimalValue text

/-- Reading a number and writing it again keeps its value. -/
def KeepsTwice (text : String) : Prop :=
  ∃ read printed, serializer.renumber text = some read ∧ serializer.renumber read = some printed ∧
    decimalValue printed = decimalValue text

/-- What is written of a document that was read means the same exactly when its numbers do. -/
def Rewrites (original : JsonValue) : Prop :=
  ∀ value, serializer.load original = some value →
    (meaning (value.reload serializer.renumber) = meaning original ↔
      ∀ text ∈ numbers original, serializer.KeepsTwice text)

variable {serializer}

theorem meaning_reloadNumber (text value : String) :
    meaning (reloadNumber serializer.renumber text) = .number (decimalValue value) ↔
      ∃ printed, serializer.renumber text = some printed ∧
        decimalValue printed = decimalValue value := by
  rw [reloadNumber]
  cases printed : serializer.renumber text with
  | none =>
    dsimp only
    rw [meaning]
    simp
  | some printed =>
    dsimp only
    rw [meaning]
    simp

theorem rewrites_number (text : String) : serializer.Rewrites (.number text) := by
  intro value loaded
  rw [load] at loaded
  obtain ⟨read, isRead, rfl⟩ := map_eq_some_iff.mp loaded
  rw [reload, meaning, meaning_reloadNumber, numbers]
  simp only [mem_singleton, forall_eq, KeepsTwice, isRead, Option.some.injEq,
    exists_and_left, exists_eq_left']

variable {entries : List (String × JsonValue)}

/-- What became of the members whose keys are chosen means the same exactly when each of them
does. -/
theorem members_iff (after : JsonValue → Option Meaning)
    (distinct : (OrderedMap.keys entries).Nodup) (chosen : String → Prop) :
    (∀ key, chosen key → (get key entries).bind after = members entries key) ↔
      ∀ entry ∈ entries, chosen entry.1 → after entry.2 = some (meaning entry.2) := by
  constructor
  · intro same entry member isChosen
    have under := same entry.1 isChosen
    rw [members_of_nodup distinct, (get_eq_some_iff_of_nodup distinct).mpr member] at under
    exact under
  · intro same key isChosen
    rw [members_of_nodup distinct]
    cases found : get key entries with
    | none => rfl
    | some original => exact same _ (mem_of_get found) isChosen

variable {loaded : List (String × JsonValue)}

/-- What is written under a key of an object that was read. -/
theorem get_ofList_loaded (distinct : (OrderedMap.keys entries).Nodup)
    (isLoaded : serializer.loadEntries entries = some loaded) (key : String) :
    get key (ofList loaded) = (get key entries).bind serializer.load := by
  have distinctLoaded : (OrderedMap.keys loaded).Nodup := by
    rw [keys_loadEntries isLoaded]
    exact distinct
  rw [get_ofList_of_nodup key distinctLoaded, get_loadEntries isLoaded]

/-- The members of an object that was read whose keys are chosen mean the same exactly when their
numbers do. -/
theorem members_kept_iff (distinct : (OrderedMap.keys entries).Nodup)
    (isLoaded : serializer.loadEntries entries = some loaded) (chosen : String → Prop)
    (each : ∀ entry ∈ entries, serializer.Rewrites entry.2) :
    (∀ key, chosen key → (get key (ofList loaded)).map
          (fun value => meaning (value.reload serializer.renumber)) = members entries key) ↔
      ∀ entry ∈ entries, chosen entry.1 → ∀ text ∈ numbers entry.2, serializer.KeepsTwice text := by
  have under : ∀ key, (get key (ofList loaded)).map
      (fun value => meaning (value.reload serializer.renumber)) =
        (get key entries).bind (fun original => (serializer.load original).map
          (fun value => meaning (value.reload serializer.renumber))) := by
    intro key
    rw [get_ofList_loaded distinct isLoaded, Option.map_bind]
    rfl
  simp only [under]
  rw [members_iff _ distinct]
  apply forall₃_congr
  intro entry member _
  obtain ⟨value, isValue⟩ := exists_load_of_mem isLoaded member
  rw [isValue, map_some, some_inj]
  exact each entry member value isValue

/-- What an object that is kept in order means once it is written. -/
theorem meaning_reload_object {entries : JsonMap} (sorted : Sorted entries) :
    meaning ((JsonValue.object entries).reload serializer.renumber) =
      .object (fun key => (get key entries).map
        (fun value => meaning (value.reload serializer.renumber))) := by
  rw [reload, meaning, Meaning.object.injEq]
  funext key
  rw [members_of_sorted (sorted_reloadEntries serializer.renumber sorted),
    get_reloadEntries, Option.map_map]
  rfl

theorem rewrites_object (distinct : (OrderedMap.keys entries).Nodup)
    (each : ∀ entry ∈ entries, serializer.Rewrites entry.2) :
    serializer.Rewrites (.object entries) := by
  intro value found
  obtain ⟨loaded, isLoaded, rfl⟩ := load_object found
  have kept := members_kept_iff distinct isLoaded (fun _ => True) each
  rw [meaning_reload_object (sorted_ofList loaded), meaning, Meaning.object.injEq,
    funext_iff, numbers]
  simp only [true_implies] at kept
  rw [kept]
  simp only [mem_numbersOfEntries]
  constructor
  · rintro numbersKept text ⟨entry, member, inEntry⟩
    exact numbersKept entry member text inEntry
  · intro numbersKept entry member text inEntry
    exact numbersKept text ⟨entry, member, inEntry⟩

mutual

theorem rewrites_value : ∀ (original : JsonValue), UniqueKeys original →
    serializer.Rewrites original
  | .null, _ => by
      intro value found
      rw [load, some_inj] at found
      rw [← found, reload, numbers]
      simp
  | .bool _, _ => by
      intro value found
      rw [load, some_inj] at found
      rw [← found, reload, numbers]
      simp
  | .string _, _ => by
      intro value found
      rw [load, some_inj] at found
      rw [← found, reload, numbers]
      simp
  | .number text, _ => rewrites_number text
  | .array items, unique => by
      intro value found
      rw [load] at found
      obtain ⟨loaded, isLoaded, rfl⟩ := map_eq_some_iff.mp found
      rw [UniqueKeys] at unique
      rw [reload, meaning, meaning, numbers, Meaning.array.injEq]
      exact rewrites_items items unique loaded isLoaded
  | .object entries, unique => by
      rw [UniqueKeys] at unique
      exact rewrites_object unique.1 (rewrites_entries entries unique.2)

theorem rewrites_items : ∀ (items : List JsonValue), UniqueKeysOfItems items →
    ∀ loaded, serializer.loadItems items = some loaded →
      (meaningOfItems (reloadItems serializer.renumber loaded) = meaningOfItems items ↔
        ∀ text ∈ numbersOfItems items, serializer.KeepsTwice text)
  | [], _ => by
      intro loaded found
      rw [loadItems, some_inj] at found
      rw [← found, reloadItems, numbersOfItems]
      simp
  | item :: rest, unique => by
      intro loaded found
      rw [UniqueKeysOfItems] at unique
      obtain ⟨first, others, isFirst, isOthers, rfl⟩ := loadItems_cons found
      rw [reloadItems, meaningOfItems, meaningOfItems, numbersOfItems, List.cons.injEq,
        rewrites_value item unique.1 first isFirst, rewrites_items rest unique.2 others isOthers,
        forall_mem_append]

theorem rewrites_entries : ∀ (entries : List (String × JsonValue)), UniqueKeysOfEntries entries →
    ∀ entry ∈ entries, serializer.Rewrites entry.2
  | [], _ => by
      intro entry member
      cases member
  | (key, value) :: rest, unique => by
      intro entry member
      rw [UniqueKeysOfEntries] at unique
      rcases mem_cons.mp member with rfl | later
      · exact rewrites_value value unique.1
      · exact rewrites_entries rest unique.2 entry later

end

/-! ### Documents that are only written -/

/-- What is written of a document means the same exactly when its numbers do. -/
def Prints (serializer : Serializer) (value : JsonValue) : Prop :=
  meaning (value.reload serializer.renumber) = meaning value ↔
    ∀ text ∈ numbers value, serializer.Keeps text

theorem prints_object (distinct : (OrderedMap.keys entries).Nodup)
    (each : ∀ entry ∈ entries, serializer.Prints entry.2) :
    serializer.Prints (.object entries) := by
  have distinctWritten : (OrderedMap.keys (reloadEntries serializer.renumber entries)).Nodup := by
    rw [keys_reloadEntries]
    exact distinct
  have under : ∀ key, members (reloadEntries serializer.renumber entries) key =
      (get key entries).bind (fun value =>
        some (meaning (value.reload serializer.renumber))) := by
    intro key
    rw [members_of_nodup distinctWritten, get_reloadEntries, Option.map_map]
    exact map_eq_bind
  have kept := members_iff (fun value => some (meaning (value.reload serializer.renumber)))
    distinct (fun _ => True)
  simp only [true_implies, some_inj] at kept
  rw [Prints, reload, meaning, meaning, Meaning.object.injEq, funext_iff, numbers]
  simp only [under]
  rw [kept]
  simp only [mem_numbersOfEntries]
  constructor
  · rintro same text ⟨entry, member, inEntry⟩
    exact (each entry member).mp (same entry member) text inEntry
  · intro numbersKept entry member
    exact (each entry member).mpr (fun text inEntry =>
      numbersKept text ⟨entry, member, inEntry⟩)

mutual

theorem prints_value : ∀ (value : JsonValue), UniqueKeys value → serializer.Prints value
  | .null, _ => by
      rw [Prints, reload, numbers]
      simp
  | .bool _, _ => by
      rw [Prints, reload, numbers]
      simp
  | .string _, _ => by
      rw [Prints, reload, numbers]
      simp
  | .number text, _ => by
      rw [Prints, reload, meaning, meaning_reloadNumber, numbers]
      simp [Keeps]
  | .array items, unique => by
      rw [UniqueKeys] at unique
      rw [Prints, reload, meaning, meaning, numbers, Meaning.array.injEq]
      exact prints_items items unique
  | .object entries, unique => by
      rw [UniqueKeys] at unique
      exact prints_object unique.1 (prints_entries entries unique.2)

theorem prints_items : ∀ (items : List JsonValue), UniqueKeysOfItems items →
    (meaningOfItems (reloadItems serializer.renumber items) = meaningOfItems items ↔
      ∀ text ∈ numbersOfItems items, serializer.Keeps text)
  | [], _ => by
      rw [reloadItems, numbersOfItems]
      simp
  | item :: rest, unique => by
      rw [UniqueKeysOfItems] at unique
      have first := prints_value item unique.1
      rw [Prints] at first
      rw [reloadItems, meaningOfItems, meaningOfItems, numbersOfItems, List.cons.injEq,
        first, prints_items rest unique.2, forall_mem_append]

theorem prints_entries : ∀ (entries : List (String × JsonValue)), UniqueKeysOfEntries entries →
    ∀ entry ∈ entries, serializer.Prints entry.2
  | [], _ => by
      intro entry member
      cases member
  | (key, value) :: rest, unique => by
      intro entry member
      rw [UniqueKeysOfEntries] at unique
      rcases mem_cons.mp member with rfl | later
      · exact prints_value value unique.1
      · exact prints_entries rest unique.2 entry later

end

end Serializer

end Mcpace.Json

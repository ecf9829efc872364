import Mcpace.ConfigEdit.JsonEdit
import Mcpace.Library.Checks

/-!
Owns what a JSON edit does to the document: the written text holds the document with one entry
changed exactly when every other number keeps its value.

Does not own: the editor itself.
-/

namespace Mcpace.ConfigEdit

open Json Library OrderedMap Option Function Text Serializer NumberType

/-- The document the editor starts from. A blank text, which is no JSON text, counts as an empty
object. -/
def configDocument (existing : String) : Option JsonValue :=
  if trim existing = "" then some (.object []) else readText existing.toList

/-! ### What an edit writes -/

section Written

variable {serializer : Serializer} {edit : JsonEdit} {original : JsonValue}
  {existing adapterKeyName serversObjectKey configPath : String} {update : ClientConfigUpdate}

theorem parseConfig_eq_ok {root : JsonValue} (solid : ¬trim existing = "")
    (read : parseConfig serializer existing configPath = .ok root)
    (isOriginal : configDocument existing = some original) :
    serializer.load original = some root := by
  rw [configDocument, if_neg solid] at isOriginal
  obtain ⟨document, isDocument, loaded⟩ := parseStr_eq_ok serializer (Checks.mapError_eq_ok read)
  rw [isOriginal, some_inj] at isDocument
  rw [isDocument]
  exact loaded

/-- An edit that writes found an object with a servers object, or none to be added to. -/
theorem JsonEdit.run_eq_ok
    (done : edit.run serializer existing adapterKeyName serversObjectKey configPath = .ok update)
    (writes : edit.Writes update) (isOriginal : configDocument existing = some original) :
    ∃ root servers, serializer.load original = some (.object root) ∧
      (get (serversKeyName serversObjectKey) root).getD (.object []) = .object servers ∧
      update.contents = serializer.toPrettyString
        (.object (edit.rootAfter adapterKeyName (serversKeyName serversObjectKey) servers root)) := by
  cases edit with
  | set serverConfig =>
    rw [run, applyJsonMcpServerEntry] at done
    have starts : ∀ root, (if trim existing = "" then .ok (.object []) else
        parseConfig serializer existing configPath) = Except.ok root →
        serializer.load original = some root := by
      intro root read
      by_cases blank : trim existing = ""
      · rw [if_pos blank] at read
        rw [configDocument, if_pos blank, some_inj] at isOriginal
        rw [← isOriginal, ← Except.ok.inj read]
        rfl
      · rw [if_neg blank] at read
        exact parseConfig_eq_ok blank read isOriginal
    generalize (if trim existing = "" then .ok (.object []) else
      parseConfig serializer existing configPath) = start at done starts
    cases start with
    | error error => cases done
    | ok root =>
      dsimp only [bind, Except.bind] at done
      split at done
      · next rootObject =>
          split at done
          · next serversObject isServers =>
              cases done
              exact ⟨rootObject, serversObject, starts _ rfl, isServers, rfl⟩
          · cases done
      · cases done
  | remove expectedServerUrl =>
    rw [run, removeJsonMcpServerEntry] at done
    split at done
    · cases done
      cases writes
    · next solid =>
        cases read : parseConfig serializer existing configPath with
        | error error =>
          rw [read] at done
          cases done
        | ok root =>
          rw [read] at done
          dsimp only [bind, Except.bind] at done
          split at done
          · next rootObject =>
              split at done
              · cases done
                cases writes
              · next serversObject isServers =>
                  split at done
                  · cases done
                    refine ⟨rootObject, serversObject,
                      parseConfig_eq_ok solid read isOriginal, ?_, rfl⟩
                    rw [isServers]
                    rfl
                  · cases done
                    cases writes
              · cases done
          · cases done

end Written

/-! ### The rest of the document -/

def serversMembers : Option Meaning → String → Option Meaning
  | some (.object members) => members
  | _ => fun _ => none

/-- A document with one entry of its servers object changed. -/
def withEntry (serversKey adapterKeyName : String) (entry : Option Meaning) : Meaning → Meaning
  | .object members =>
    .object (Function.update members serversKey (some (.object
      (Function.update (serversMembers (members serversKey)) adapterKeyName entry))))
  | other => other

def withoutMember (adapterKeyName : String) : JsonValue → JsonValue
  | .object servers => .object (remove adapterKeyName servers)
  | other => other

def withoutEntry (serversKey adapterKeyName : String) : JsonValue → JsonValue
  | .object entries => .object (modify serversKey (withoutMember adapterKeyName) entries)
  | other => other

/-- The numbers that survive the edit keep their values: those of the rest of the document when it
is read and written, those of the new entry when it is written. -/
def JsonEdit.KeepsNumbers (edit : JsonEdit) (serializer : Serializer)
    (serversKey adapterKeyName : String) (original : JsonValue) : Prop :=
  (∀ text ∈ numbers (withoutEntry serversKey adapterKeyName original), serializer.KeepsTwice text) ∧
    ∀ config, edit.entry = some config → ∀ text ∈ numbers config, serializer.Keeps text

/-- The text holds the original document with exactly the adapter's entry changed. -/
def JsonEdit.ChangesOneEntry (edit : JsonEdit) (serversKey adapterKeyName : String)
    (original : JsonValue) (contents : String) : Prop :=
  ∃ value, readText contents.toList = some value ∧
    meaning value = withEntry serversKey adapterKeyName (edit.entry.map meaning) (meaning original)

theorem update_iff {members : String → Option Meaning} {before : String → Option JsonValue}
    {key : String} {entry : Option JsonValue} {expected : Option Meaning}
    (after : JsonValue → Meaning) :
    (∀ other, (Function.update before key entry other).map after =
        Function.update members key expected other) ↔
      (∀ other, other ≠ key → (before other).map after = members other) ∧
        entry.map after = expected := by
  constructor
  · intro same
    constructor
    · intro other different
      have here := same other
      rw [update_of_ne different, update_of_ne different] at here
      exact here
    · have here := same key
      rw [update_self, update_self] at here
      exact here
  · rintro ⟨others, same⟩ other
    by_cases here : other = key
    · rw [here, update_self, update_self]
      exact same
    · rw [update_of_ne here, update_of_ne here]
      exact others other here

variable {adapterKeyName : String} {holds : String → Prop}

theorem forall_numbers_withoutMember {servers : JsonMap} :
    (∀ text ∈ numbers (withoutMember adapterKeyName (.object servers)), holds text) ↔
      ∀ entry ∈ servers, entry.1 ≠ adapterKeyName → ∀ text ∈ numbers entry.2, holds text := by
  simp only [withoutMember, numbers, mem_numbersOfEntries, remove, List.mem_filter,
    decide_eq_true_eq]
  constructor
  · intro kept entry member different text inEntry
    exact kept text ⟨entry, ⟨member, different⟩, inEntry⟩
  · rintro kept text ⟨entry, ⟨member, different⟩, inEntry⟩
    exact kept entry member different text inEntry

theorem forall_numbers_withoutEntry {serversKey : String} {entries : JsonMap} :
    (∀ text ∈ numbers (withoutEntry serversKey adapterKeyName (.object entries)), holds text) ↔
      (∀ entry ∈ entries, entry.1 ≠ serversKey → ∀ text ∈ numbers entry.2, holds text) ∧
        ∀ value, (serversKey, value) ∈ entries →
          ∀ text ∈ numbers (withoutMember adapterKeyName value), holds text := by
  simp only [withoutEntry, numbers, mem_numbersOfEntries, OrderedMap.modify, List.mem_map]
  constructor
  · intro kept
    constructor
    · intro entry member different text inEntry
      exact kept text ⟨entry, ⟨entry, member, if_neg different⟩, inEntry⟩
    · intro value member text inEntry
      exact kept text ⟨_, ⟨_, member, if_pos rfl⟩, inEntry⟩
  · rintro ⟨others, servers⟩ text ⟨changed, ⟨entry, member, rfl⟩, inEntry⟩
    by_cases same : entry.1 = serversKey
    · rw [if_pos same] at inEntry
      exact servers entry.2 (same ▸ member) text inEntry
    · rw [if_neg same] at inEntry
      exact others entry member same text inEntry

section Frame

variable {serializer : Serializer} {serversKey adapterKeyName : String}
  {entries loaded servers : JsonMap}
  (distinct : (keys entries).Nodup) (unique : UniqueKeysOfEntries entries)
  (isLoaded : serializer.loadEntries entries = some loaded)
  (isServers : (get serversKey (ofList loaded)).getD (.object []) = .object servers)

include distinct unique isLoaded isServers

/-- The servers object that is edited is kept in order, and its other entries mean what they meant
exactly when their numbers do. -/
theorem servers_kept_iff : Sorted servers ∧ ((∀ key, key ≠ adapterKeyName →
        (get key servers).map (fun value => meaning (value.reload serializer.renumber)) =
          serversMembers (members entries serversKey) key) ↔
        ∀ value, (serversKey, value) ∈ entries →
          ∀ text ∈ numbers (withoutMember adapterKeyName value), serializer.KeepsTwice text) := by
  rw [get_ofList_loaded distinct isLoaded] at isServers
  cases found : get serversKey entries with
  | none =>
    have isEmpty : servers = [] := by
      rw [found] at isServers
      exact (JsonValue.object.inj isServers).symm
    have absent : members entries serversKey = none := by
      rw [members_of_nodup distinct, found]
      rfl
    refine ⟨isEmpty ▸ sorted_nil, ?_⟩
    rw [absent, isEmpty]
    constructor
    · intro _ value member
      rw [(get_eq_some_iff_of_nodup distinct).mpr member] at found
      cases found
    · intro _ key _
      rfl
  | some value =>
    have member := mem_of_get found
    obtain ⟨read, isRead⟩ := exists_load_of_mem isLoaded member
    have isObject : read = .object servers := by
      rw [found, bind_some, isRead] at isServers
      exact isServers
    obtain ⟨written, loadedServers, rfl, serversLoaded, rfl⟩ :=
      object_of_load (isObject ▸ isRead)
    have within := uniqueKeysOfEntries_iff.mp unique _ member
    rw [UniqueKeys] at within
    have isMembers : serversMembers (members entries serversKey) = members written := by
      rw [members_of_nodup distinct, found, map_some, meaning]
      rfl
    refine ⟨sorted_ofList loadedServers, ?_⟩
    rw [isMembers, members_kept_iff within.1 serversLoaded (· ≠ adapterKeyName)
      (rewrites_entries written within.2), ← forall_numbers_withoutMember]
    constructor
    · intro kept other isOther
      have same : other = .object written := by
        have here := (get_eq_some_iff_of_nodup distinct).mpr isOther
        rw [found, some_inj] at here
        exact here.symm
      rw [same]
      exact kept
    · intro kept
      exact kept _ member

/-- The written document means the original one with the entry changed exactly when the numbers
that survive the edit keep their values. -/
theorem meaning_rootAfter_iff (edit : JsonEdit)
    (uniqueEntry : ∀ config, edit.entry = some config → UniqueKeys config) :
    meaning ((JsonValue.object (edit.rootAfter adapterKeyName serversKey servers
        (ofList loaded))).reload serializer.renumber) =
        withEntry serversKey adapterKeyName (edit.entry.map meaning) (meaning (.object entries)) ↔
      edit.KeepsNumbers serializer serversKey adapterKeyName (.object entries) := by
  obtain ⟨sorted, serversKept⟩ := @servers_kept_iff serializer serversKey adapterKeyName entries
    loaded servers distinct unique isLoaded isServers
  have entryKept : edit.entry.map (fun value => meaning (value.reload serializer.renumber)) =
      edit.entry.map meaning ↔
        ∀ config, edit.entry = some config → ∀ text ∈ numbers config, serializer.Keeps text := by
    cases isEntry : edit.entry with
    | none => simp
    | some config =>
      simp only [map_some, some_inj, forall_eq']
      exact prints_value config (uniqueEntry config isEntry)
  have written := members_kept_iff distinct isLoaded (· ≠ serversKey)
    (rewrites_entries entries unique)
  rw [JsonEdit.KeepsNumbers, forall_numbers_withoutEntry, ← entryKept, ← written, ← serversKept,
    JsonEdit.rootAfter,
    meaning_reload_object (sorted_insert (sorted_ofList loaded)),
    meaning, withEntry, Meaning.object.injEq, funext_iff]
  have inserted : ∀ key, get key (OrderedMap.insert serversKey
      (JsonValue.object (edit.serversAfter adapterKeyName servers)) (ofList loaded)) =
        Function.update (fun key => get key (ofList loaded)) serversKey
          (some (.object (edit.serversAfter adapterKeyName servers))) key := by
    intro key
    rw [get_insert, update_apply]
  simp only [inserted]
  rw [update_iff, and_assoc, map_some, some_inj,
    meaning_reload_object (edit.sorted_serversAfter adapterKeyName sorted),
    Meaning.object.injEq, funext_iff]
  simp only [edit.get_serversAfter]
  rw [update_iff]

theorem changesOneEntry_toPrettyString (edit : JsonEdit)
    (uniqueEntry : ∀ config, edit.entry = some config → UniqueKeys config) :
    edit.ChangesOneEntry serversKey adapterKeyName (.object entries)
        (serializer.toPrettyString (.object (edit.rootAfter adapterKeyName serversKey servers
          (ofList loaded)))) ↔
      edit.KeepsNumbers serializer serversKey adapterKeyName (.object entries) := by
  rw [← meaning_rootAfter_iff distinct unique isLoaded isServers edit uniqueEntry,
    JsonEdit.ChangesOneEntry]
  have written := serializer.readText_toPrettyString (.object (edit.rootAfter adapterKeyName
    serversKey servers (ofList loaded)))
  constructor
  · rintro ⟨value, isValue, same⟩
    rw [written, some_inj] at isValue
    rw [isValue]
    exact same
  · intro same
    exact ⟨_, written, same⟩

end Frame

/-- A JSON edit changes one entry only, exactly when every number outside that entry, and every
number of the new entry, keeps its decimal value in the serializer's number type. -/
theorem jsonEdit_changesOneEntry_iff {serializer : Serializer} {edit : JsonEdit}
    {original : JsonValue} {existing adapterKeyName serversObjectKey configPath : String}
    {update : ClientConfigUpdate} (isOriginal : configDocument existing = some original)
    (unique : UniqueKeys original)
    (uniqueEntry : ∀ config, edit.entry = some config → UniqueKeys config)
    (done : edit.run serializer existing adapterKeyName serversObjectKey configPath = .ok update)
    (writes : edit.Writes update) :
    edit.ChangesOneEntry (serversKeyName serversObjectKey) adapterKeyName original update.contents ↔
      edit.KeepsNumbers serializer (serversKeyName serversObjectKey) adapterKeyName original := by
  obtain ⟨root, servers, read, isServers, isContents⟩ := JsonEdit.run_eq_ok done writes isOriginal
  obtain ⟨entries, loaded, rfl, isLoaded, rfl⟩ := object_of_load read
  rw [UniqueKeys] at unique
  rw [isContents]
  exact changesOneEntry_toPrettyString unique.1 unique.2 isLoaded isServers edit uniqueEntry

/-! ### Two runs -/

/-- An object with one number, beside which an entry is added. -/
def limitDocument (limit : String) : JsonValue := .object [("limit", .number limit)]

def addedEntry : JsonEdit := .set (.object [("url", .string "http://127.0.0.1:39022/mcp")])

variable {text limit : String}

theorem run_limitDocument (isText : readText text.toList = some (limitDocument limit))
    {printed : String} (isPrinted : roundingSerializer.renumber limit = some printed)
    (solid : trim text ≠ "") :
    addedEntry.run roundingSerializer text "mcpace" "mcpServers" "mcp.json" =
      .ok ⟨roundingSerializer.toPrettyString (.object (addedEntry.rootAfter "mcpace" "mcpServers" []
        (ofList [("limit", .number printed)]))), false⟩ := by
  have loaded : roundingSerializer.load (limitDocument limit) =
      some (.object [("limit", .number printed)]) := by
    simp only [limitDocument, load, loadEntries, isPrinted, map_some, bind_some]
    rfl
  have document : roundingSerializer.document text =
      some (.object [("limit", .number printed)]) := by
    rw [NumberType.document, isText,
      filter_some_pos (by simp [limitDocument, nesting, nestingOfEntries, nestingLimit]),
      bind_some, loaded]
  rw [addedEntry, JsonEdit.run, applyJsonMcpServerEntry, if_neg solid, parseConfig,
    parseStr, (roundingSerializer.grammar _ _).mpr document]
  rfl

theorem configDocument_limit (isText : readText text.toList = some (limitDocument limit))
    (solid : trim text ≠ "") : configDocument text = some (limitDocument limit) := by
  rw [configDocument, if_neg solid, isText]

theorem limitDocument_unique (limit : String) : UniqueKeys (limitDocument limit) := by
  simp [limitDocument, UniqueKeys, UniqueKeysOfEntries, keys]

theorem addedEntry_unique : ∀ config, addedEntry.entry = some config → UniqueKeys config := by
  intro config isConfig
  rw [addedEntry, JsonEdit.entry, some_inj] at isConfig
  rw [← isConfig]
  simp [UniqueKeys, UniqueKeysOfEntries, keys]

theorem serversKeyName_mcpServers : serversKeyName "mcpServers" = "mcpServers" := by
  decide +kernel

theorem addedEntry_keepsNumbers_iff (limit : String) :
    addedEntry.KeepsNumbers roundingSerializer "mcpServers" "mcpace" (limitDocument limit) ↔
      roundingSerializer.KeepsTwice limit := by
  have others : withoutEntry "mcpServers" "mcpace" (limitDocument limit) = limitDocument limit := by
    have different : "limit" ≠ "mcpServers" := by decide
    rw [limitDocument, withoutEntry, OrderedMap.modify, List.map_singleton, if_neg different]
  rw [JsonEdit.KeepsNumbers, others]
  simp [limitDocument, numbers, numbersOfEntries, addedEntry, JsonEdit.entry]

theorem limit_kept :
    ∃ update, addedEntry.run roundingSerializer "\x7b\"limit\": 8080\x7d" "mcpace" "mcpServers"
        "mcp.json" = .ok update ∧
      addedEntry.ChangesOneEntry "mcpServers" "mcpace" (limitDocument "8080") update.contents := by
  have isText : readText "\x7b\"limit\": 8080\x7d".toList = some (limitDocument "8080") := by
    decide +kernel
  have isPrinted : roundingSerializer.renumber "8080" = some "8080" := by decide +kernel
  have solid : trim "\x7b\"limit\": 8080\x7d" ≠ "" := by decide +kernel
  have done := run_limitDocument isText isPrinted solid
  have same := jsonEdit_changesOneEntry_iff (configDocument_limit isText solid)
    (limitDocument_unique "8080") addedEntry_unique done trivial
  rw [serversKeyName_mcpServers] at same
  refine ⟨_, done, same.mpr ?_⟩
  rw [addedEntry_keepsNumbers_iff]
  exact ⟨"8080", "8080", isPrinted, isPrinted, rfl⟩

/-- An edit of a text without duplicate keys that succeeds and changes more than its entry. -/
def JsonEdit.Damages (edit : JsonEdit) (serializer : Serializer)
    (existing adapterKeyName serversObjectKey configPath : String) (original : JsonValue) : Prop :=
  readText existing.toList = some original ∧ UniqueKeys original ∧
    ∃ update, edit.run serializer existing adapterKeyName serversObjectKey configPath = .ok update ∧
      edit.Writes update ∧
      ¬ edit.ChangesOneEntry (serversKeyName serversObjectKey) adapterKeyName original update.contents

theorem largeInteger_damaged :
    addedEntry.Damages roundingSerializer "\x7b\"limit\": 18446744073709551617\x7d" "mcpace" "mcpServers"
      "mcp.json" (limitDocument "18446744073709551617") := by
  have isText : readText "\x7b\"limit\": 18446744073709551617\x7d".toList =
      some (limitDocument "18446744073709551617") := by decide +kernel
  have isPrinted : roundingSerializer.renumber "18446744073709551617" =
      some "1.8446744073709552e+19" := by decide +kernel
  have stays : roundingSerializer.renumber "1.8446744073709552e+19" =
      some "1.8446744073709552e+19" := by decide +kernel
  have done := run_limitDocument isText isPrinted (by decide +kernel)
  refine ⟨isText, limitDocument_unique _, _, done, trivial, ?_⟩
  have unique := limitDocument_unique "18446744073709551617"
  rw [limitDocument, UniqueKeys] at unique
  have loaded : roundingSerializer.loadEntries [("limit", .number "18446744073709551617")] =
      some [("limit", .number "1.8446744073709552e+19")] := by
    simp [loadEntries, load, isPrinted]
  rw [serversKeyName_mcpServers]
  intro changed
  have kept := (changesOneEntry_toPrettyString unique.1 unique.2 loaded rfl addedEntry
    addedEntry_unique).mp changed
  obtain ⟨read, printed, isRead, isAgain, same⟩ := (addedEntry_keepsNumbers_iff _).mp kept
  rw [isPrinted, some_inj] at isRead
  rw [← isRead, stays, some_inj] at isAgain
  rw [← isAgain] at same
  revert same
  decide +kernel

end Mcpace.ConfigEdit

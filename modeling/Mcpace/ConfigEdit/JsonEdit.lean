import Mcpace.ConfigEdit.Model
import Mcpace.Json.Meaning

/-!
Owns the editing of JSON client configurations: `apply_json_mcp_server_entry` of
`src/config_edit.rs` and `remove_json_mcp_server_entry` of `src/config_edit/removal.rs`, and what an
edit does to the rest of the document.

The text is read, one entry of the servers object is changed, and the document is written again by
the external serializer. Everything but numbers survives that; a number survives it when its
re-printed literal has the same value.

Does not own: reading and writing of the file.
-/

namespace Mcpace.ConfigEdit

open Json Library OrderedMap Text

def serversKeyName (serversObjectKey : String) : String :=
  if trim serversObjectKey = "" then "mcpServers" else trim serversObjectKey

mutual

def jsonValueContainsExactString (expected : String) : JsonValue → Bool
  | .string value => value = expected
  | .array items => itemsContainExactString expected items
  | .object entries => entriesContainExactString expected entries
  | .null => false
  | .bool _ => false
  | .number _ => false

def itemsContainExactString (expected : String) : List JsonValue → Bool
  | [] => false
  | item :: rest => jsonValueContainsExactString expected item || itemsContainExactString expected rest

def entriesContainExactString (expected : String) : List (String × JsonValue) → Bool
  | [] => false
  | (_, value) :: rest =>
    jsonValueContainsExactString expected value || entriesContainExactString expected rest

end

section Editor

variable (serializer : Serializer)

def parseConfig (existing configPath : String) : Except ConfigEditError JsonValue :=
  (serializer.parseStr existing).mapError (.jsonParse configPath)

def applyJsonMcpServerEntry (existing adapterKeyName serversObjectKey : String)
    (serverConfig : JsonValue) (configPath : String) :
    Except ConfigEditError ClientConfigUpdate := do
  let root ← (if trim existing = "" then .ok (.object [])
    else parseConfig serializer existing configPath)
  match root with
  | .object rootObject =>
    let serversKey := serversKeyName serversObjectKey
    match (get serversKey rootObject).getD (.object []) with
    | .object serversObject =>
      let edited := OrderedMap.insert adapterKeyName serverConfig serversObject
      let root := JsonValue.object (OrderedMap.insert serversKey (.object edited) rootObject)
      .ok ⟨serializer.toPrettyString root, (get adapterKeyName serversObject).isSome⟩
    | _ => .error (.jsonServersObject configPath serversKey)
  | _ => .error (.jsonTopLevelObject configPath)

def removeJsonMcpServerEntry (existing adapterKeyName serversObjectKey expectedServerUrl : String)
    (configPath : String) : Except ConfigEditError ClientConfigUpdate := do
  if trim existing = "" then .ok ⟨existing, false⟩
  else
    match ← parseConfig serializer existing configPath with
    | .object rootObject =>
      let serversKey := serversKeyName serversObjectKey
      match get serversKey rootObject with
      | none => .ok ⟨existing, false⟩
      | some (.object serversObject) =>
        let owned := (get adapterKeyName serversObject).any
          (jsonValueContainsExactString expectedServerUrl)
        if owned then
          let edited := remove adapterKeyName serversObject
          -- the servers object is changed in place
          let root := JsonValue.object (OrderedMap.insert serversKey (.object edited) rootObject)
          .ok ⟨serializer.toPrettyString root, true⟩
        else .ok ⟨existing, false⟩
      | some _ => .error (.jsonServersObject configPath serversKey)
    | _ => .error (.jsonTopLevelObject configPath)

end Editor

/-! ### Edits -/

inductive JsonEdit where
  | set (serverConfig : JsonValue)
  | remove (expectedServerUrl : String)

namespace JsonEdit

def run (serializer : Serializer) (edit : JsonEdit)
    (existing adapterKeyName serversObjectKey configPath : String) :
    Except ConfigEditError ClientConfigUpdate :=
  match edit with
  | set serverConfig =>
    applyJsonMcpServerEntry serializer existing adapterKeyName serversObjectKey serverConfig
      configPath
  | remove expectedServerUrl =>
    removeJsonMcpServerEntry serializer existing adapterKeyName serversObjectKey expectedServerUrl
      configPath

/-- A removal that finds no entry of its own hands the text back. -/
def Writes (edit : JsonEdit) (update : ClientConfigUpdate) : Prop :=
  match edit with
  | set _ => True
  | remove _ => update.replacedExistingBlock = true

/-- What stands under the adapter's key afterwards. -/
def entry : JsonEdit → Option JsonValue
  | set serverConfig => some serverConfig
  | remove _ => none

def serversAfter (adapterKeyName : String) (servers : JsonMap) : JsonEdit → JsonMap
  | set serverConfig => OrderedMap.insert adapterKeyName serverConfig servers
  | remove _ => OrderedMap.remove adapterKeyName servers

theorem get_serversAfter (edit : JsonEdit) (adapterKeyName : String) (servers : JsonMap)
    (key : String) :
    OrderedMap.get key (edit.serversAfter adapterKeyName servers) =
      Function.update (fun key => OrderedMap.get key servers) adapterKeyName edit.entry key := by
  rw [Function.update_apply]
  cases edit with
  | set serverConfig => exact get_insert adapterKeyName key serverConfig servers
  | remove _ =>
    by_cases same : key = adapterKeyName
    · rw [if_pos same, same]
      exact get_remove_self adapterKeyName servers
    · rw [if_neg same]
      exact get_remove_of_ne same servers

theorem sorted_serversAfter (edit : JsonEdit) (adapterKeyName : String) {servers : JsonMap}
    (sorted : Sorted servers) :
    Sorted (edit.serversAfter adapterKeyName servers) := by
  cases edit with
  | set _ => exact sorted_insert sorted
  | remove _ => exact sorted_remove sorted

/-- The document with the edit made. -/
def rootAfter (edit : JsonEdit) (adapterKeyName serversKey : String) (servers root : JsonMap) :
    JsonMap :=
  OrderedMap.insert serversKey (.object (edit.serversAfter adapterKeyName servers)) root

end JsonEdit

end Mcpace.ConfigEdit

import Mcpace.Json.Value

/-!
Owns the registry of configured MCP servers: how the settings sources are merged under
normalized server names, and the source type of an entry.

Mirrors `load_mcp_server_registry` and `normalize_server_name` of `src/mcp_sources.rs`, and
`src/source_type.rs`. What the file system says about each source is an input.

Does not own: which paths are sources, and the commands that edit them.
-/

namespace Mcpace.Sources

open Library Json Text

/-! ### Server names -/

def normalizeServerName (value : String) : String :=
  let mapped := (trim value).toList.map (fun char =>
    if isAsciiAlphanumeric char || char = '-' || char = '_' || char = '.' then char else '-')
  toAsciiLowercase (trimMatches (· = '-') (String.ofList mapped))

theorem normalizeServerName_trim (value : String) :
    normalizeServerName (trim value) = normalizeServerName value := by
  rw [normalizeServerName, trim_trim, ← normalizeServerName]

/-! ### Source types -/

def normalizePublicSourceType (value : String) : String :=
  match toAsciiLowercase (trim value) with
  | "" => ""
  | "streamablehttp" | "streamable-http" | "streamable_http" | "http-stream" | "remote-http"
  | "remote" | "http" | "url" => "streamable-http"
  | "legacy-sse" | "sse-legacy" | "http+sse" | "http-sse" | "remote-sse" | "sse" => "sse-legacy"
  | "stdio" | "local" | "local-stdio" | "local-command" | "command" => "stdio"
  | other => other

def inferSourceTypeWithRemoteDefault (rawSourceType command url remoteDefault : String)
    (normalize : String → String) : String :=
  if normalize rawSourceType ≠ "" then normalize rawSourceType
  else if trim command ≠ "" then "stdio"
  else if trim url ≠ "" then remoteDefault
  else "stdio"

def inferPublicSourceType (rawSourceType command url : String) : String :=
  inferSourceTypeWithRemoteDefault rawSourceType command url "streamable-http"
    normalizePublicSourceType

/-! ### Entries and sources -/

/-- Whether a settings entry is switched on. -/
def sourceEnabled (value : JsonValue) : Bool :=
  if ((value.get "disabled").bind JsonValue.asBool).getD false then false
  else ((value.get "enabled").bind JsonValue.asBool).getD true

/-- An entry knows that it is filed under its own normalized, non-empty name. -/
structure McpServerEntry where
  name : String
  normalizedName : String
  value : JsonValue
  source : String
  normalized : normalizedName = normalizeServerName name
  named : normalizedName ≠ ""
deriving DecidableEq

structure McpServerRegistry where
  servers : List (String × McpServerEntry)
  sources : List String
  warnings : List String

/-- What the file system gives for one settings path. -/
inductive SettingsFile where
  | missing
  | symlink
  | notRegular
  | uninspectable (reason : String)
  | unreadable (error : String)
  | parsed (value : JsonValue)

structure SettingsSource where
  path : String
  file : SettingsFile

/-- `json_helpers::mcp_servers_object`. -/
def mcpServersObject (value : JsonValue) : Option JsonMap :=
  (value.objectAtPath ["mcpServers"]).or (value.objectAtPath ["servers"])

namespace McpServerRegistry

def warn (registry : McpServerRegistry) (warning : String) : McpServerRegistry :=
  { registry with warnings := registry.warnings ++ [warning] }

/-- The body of the loop over one source's servers. -/
def insertServer (path : String) (registry : McpServerRegistry) (server : String × JsonValue) :
    McpServerRegistry :=
  if unnamed : normalizeServerName server.1 = "" then
    registry.warn ("MCP settings source '" ++ path ++
      "' contains an empty server name; skipping")
  else
    let entry : McpServerEntry :=
      { name := server.1, normalizedName := normalizeServerName server.1, value := server.2,
        source := path, normalized := rfl, named := unnamed }
    let inserted := { registry with
      servers := OrderedMap.insert entry.normalizedName entry registry.servers }
    match OrderedMap.get entry.normalizedName registry.servers with
    | none => inserted
    | some previous =>
      inserted.warn ("duplicate MCP server '" ++ server.1 ++ "' from '" ++ path ++
        "' overrides earlier source '" ++ previous.source ++ "'")

/-- The body of the loop over the sources. -/
def mergeSource (registry : McpServerRegistry) (source : SettingsSource) : McpServerRegistry :=
  let quoted := "MCP settings source '" ++ source.path ++ "'"
  match source.file with
  | .missing => registry.warn (quoted ++ " does not exist; skipping")
  | .symlink => registry.warn (quoted ++ " is a symlink; skipping")
  | .notRegular => registry.warn (quoted ++ " is not a regular file; skipping")
  | .uninspectable reason =>
    registry.warn ("failed to inspect " ++ quoted ++ ": " ++ reason ++ "; skipping")
  | .unreadable error =>
    registry.warn ("failed to read " ++ quoted ++ ": " ++ error ++ "; skipping")
  | .parsed value =>
    let registry := { registry with sources := registry.sources ++ [source.path] }
    match mcpServersObject value with
    | none => registry.warn (quoted ++ " has no mcpServers or servers object; skipping")
    | some servers => servers.foldl (insertServer source.path) registry

/-- Merge the sources in order; `warnings` is what finding them has reported. -/
def load (warnings : List String) (sources : List SettingsSource) : McpServerRegistry :=
  let registry := sources.foldl mergeSource ⟨[], [], warnings⟩
  { registry with
    sources := sortedUnique registry.sources
    warnings := sortedUnique registry.warnings }

/-! ### Every entry is filed under its normalized name -/

structure WellFormed (registry : McpServerRegistry) : Prop where
  sorted : OrderedMap.Sorted registry.servers
  keyed : ∀ {key entry}, (key, entry) ∈ registry.servers → key = entry.normalizedName

section

variable {registry : McpServerRegistry} (wellFormed : registry.WellFormed)

include wellFormed

theorem WellFormed.warn (warning : String) : (registry.warn warning).WellFormed :=
  ⟨wellFormed.sorted, wellFormed.keyed⟩

theorem WellFormed.insertServer (path : String) (server : String × JsonValue) :
    (registry.insertServer path server).WellFormed := by
  rw [McpServerRegistry.insertServer]
  split
  · exact wellFormed.warn _
  · rename_i unnamed
    -- the new entry brings its own key; the others keep theirs
    have inserted : WellFormed { registry with
        servers := OrderedMap.insert (normalizeServerName server.1)
          ⟨server.1, normalizeServerName server.1, server.2, path, rfl, unnamed⟩
          registry.servers } :=
      { sorted := OrderedMap.sorted_insert wellFormed.sorted
        keyed := by
          intro key entry member
          rcases OrderedMap.mem_insert member with new | old
          · rw [Prod.mk.injEq] at new
            rw [new.1, new.2]
          · exact wellFormed.keyed old }
    dsimp only
    split
    · exact inserted
    · exact inserted.warn _

theorem WellFormed.mergeSource (source : SettingsSource) :
    (registry.mergeSource source).WellFormed := by
  rw [McpServerRegistry.mergeSource]
  dsimp only
  split
  case h_6 value _ =>
    have listed : WellFormed { registry with sources := registry.sources ++ [source.path] } :=
      ⟨wellFormed.sorted, wellFormed.keyed⟩
    split
    · exact listed.warn _
    · rename_i servers _
      exact List.foldlRecOn servers _ listed
        (fun merged kept server _ => kept.insertServer source.path server)
  all_goals exact wellFormed.warn _

end

/-- Whatever the sources hold, each server of the registry is found under the normalized form
of its own name. -/
theorem load_wellFormed (warnings : List String) (sources : List SettingsSource) :
    (load warnings sources).WellFormed := by
  have merged : (sources.foldl McpServerRegistry.mergeSource ⟨[], [], warnings⟩).WellFormed :=
    List.foldlRecOn sources _ ⟨List.Pairwise.nil, fun member => absurd member List.not_mem_nil⟩
      (fun registry kept source _ => kept.mergeSource source)
  exact ⟨merged.sorted, merged.keyed⟩

end McpServerRegistry

end Mcpace.Sources

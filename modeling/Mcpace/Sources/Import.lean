import Mcpace.Sources.AtomicWrite

/-!
Owns `import_mcp_server_entries` of `src/mcp_sources/import.rs`: the servers of another client's
file are checked and normalized, and then written to one settings file each, or all to one.

An import writes its files one after another and stops at the first write that fails.

Does not own: which paths are sources, the JSON text, the address of the local endpoint, and the
JSON form of the result.
-/

namespace Mcpace.Sources

open Library Json Checks Text OrderedMap

structure McpServerImportOptions where
  sourcePath : String
  settingsPath : Option String
  dryRun : Bool
  force : Bool
  disabled : Bool

structure McpServerImportEntry where
  name : String
  normalizedName : String
  path : String
  action : String
  dryRun : Bool
  existedBefore : Bool

structure McpServerImportResult where
  sourcePath : String
  dryRun : Bool
  force : Bool
  importedCount : Nat
  targetFileCount : Nat
  entries : List McpServerImportEntry
  warnings : List String

structure ImportPlanEntry where
  name : String
  normalizedName : String
  targetPath : String
  value : JsonValue

/-- The host of an import: the reader and the printer of JSON texts, the address of the local
endpoint, why a lock fails, and what happens in the write to each path. -/
structure ImportHost where
  parse : String → Except String JsonValue
  toPrettyString : JsonValue → String
  configuredMcpUrl : String
  namespaceLock : Option String
  settingsLock : String → Option String
  steps : String → WriteSteps

/-! ### Entries of the source -/

def trimmedStringField (object : JsonMap) (key : String) : Option String :=
  ((get key object).bind JsonValue.asStr).bind trimNonEmpty

def firstServerUrlField (object : JsonMap) : Option String :=
  ["url", "serverUrl", "httpUrl", "endpoint"].findSome? (trimmedStringField object)

def inferImportServerType (rawType : String) (hasCommand hasUrl : Bool) : String :=
  inferPublicSourceType rawType (if hasCommand then "command" else "")
    (if hasUrl then "https://example.invalid/mcp" else "")

/-- `str::trim_end_matches` of a character. -/
def trimEndChar (stripped : Char) (text : String) : String :=
  String.ofList (text.toList.rdropWhile (· = stripped))

/-- `str::trim_end_matches` of a text, which is removed as often as it stands at the end. -/
def trimEndText (stripped : List Char) : (attempts : Nat) → List Char → List Char
  | 0, text => text
  | attempts + 1, text =>
    if stripped.isSuffixOf text then
      trimEndText stripped attempts (text.take (text.length - stripped.length))
    else text

def matchesEndpointUrl (value endpoint : String) : Bool :=
  let value := trimEndChar '/' (trim value)
  let endpoint := trimEndChar '/' (trim endpoint)
  value = endpoint ||
    match Text.stripPrefix endpoint value with
    | none => false
    | some suffix => suffix.toList.head?.any (['/', '?', '#'].contains ·)

/-- The last part of a command's path, without `.exe`, in lower case. -/
def commandName (command : String) : String :=
  let fileName := (trim command).toList.rtakeWhile
    (fun char => char ≠ '/' && char ≠ '\\')
  toAsciiLowercase (String.ofList (trimEndText ".exe".toList fileName.length fileName))

def looksLikeMcpaceSelfEntry (configuredMcpUrl name : String) (object : JsonMap) : Bool :=
  let normalizedName := normalizeServerName name
  let configuredUrl := toAsciiLowercase configuredMcpUrl
  let url := toAsciiLowercase
    (trim (((get "url" object).bind JsonValue.asStr).getD ""))
  let command := commandName (((get "command" object).bind JsonValue.asStr).getD "")
  if normalizedName = "mcpace" ∨ normalizedName = "mcp-pace" then true
  else if url ≠ "" ∧ (matchesEndpointUrl url configuredUrl ∨
      matchesEndpointUrl url "http://127.0.0.1:39022/mcp" ∨
      matchesEndpointUrl url "http://localhost:39022/mcp") then true
  else if command ≠ "mcpace" then false
  else
    (JsonValue.stringsFromArray ((get "args" object).bind JsonValue.asArray)).any
      (["mcp-server", "stdio", "stdio-shim"].contains ·)

/-- The members that an imported entry gets besides its own. -/
def normalizedServerObject (object : JsonMap) (forceDisabled : Bool) : JsonMap :=
  let command := (trimmedStringField object "command").getD ""
  let url := (firstServerUrlField object).getD ""
  let normalized :=
    if url ≠ "" ∧ (trimmedStringField object "url").getD "" = "" then
      OrderedMap.insert "url" (.string url) object
    else object
  let normalized :=
    if forceDisabled then
      OrderedMap.insert "disabled" (.bool true)
        (OrderedMap.insert "enabled" (.bool false) normalized)
    else if (get "enabled" normalized).isNone then
      OrderedMap.insert "enabled"
        (.bool !(((get "disabled" normalized).bind JsonValue.asBool).getD false))
        normalized
    else normalized
  let rawType := (((get "type" normalized).or
    (get "transport" normalized)).bind JsonValue.asStr).getD ""
  OrderedMap.insert "type" (.string (inferImportServerType rawType (command ≠ "") (url ≠ "")))
    normalized

/-- The value to write, or the warning about a server that is skipped. -/
def normalizeImportServerValue (configuredMcpUrl name : String) (serverValue : JsonValue)
    (sourcePath : String) (forceDisabled : Bool) : Except String JsonValue :=
  let quoted := "MCP settings import source '" ++ sourcePath ++ "'"
  match serverValue with
  | .object object => do
      require (¬looksLikeMcpaceSelfEntry configuredMcpUrl name object)
        (quoted ++ " contains MCPace's own client entry '" ++ name ++
          "'; skipping to avoid a self-loop")
      require (trimmedStringField object "command" ≠ none ∨ firstServerUrlField object ≠ none)
        (quoted ++ " server '" ++ name ++
          "' has neither command nor url/serverUrl/httpUrl/endpoint; skipping")
      return .object (normalizedServerObject object forceDisabled)
  | _ => .error (quoted ++ " has non-object server '" ++ name ++ "'; skipping")

structure PlanState where
  warnings : List String
  seenInputNames : List (String × String)
  planEntries : List ImportPlanEntry

/-- The body of the loop over the servers of the source. -/
def planServer (host : ImportHost) (tree : SettingsTree) (options : McpServerImportOptions)
    (sourcePath : String) (state : PlanState) (server : String × JsonValue) :
    Except String PlanState :=
  let normalizedName := normalizeServerName server.1
  if normalizedName = "" then
    .ok { state with warnings := state.warnings ++ ["MCP settings import source '" ++ sourcePath ++
      "' contains an unusable server name; skipping"] }
  else
    match get normalizedName state.seenInputNames with
    | some previous => .error ("MCP settings import source '" ++ sourcePath ++
        "' contains duplicate normalized server names '" ++ previous ++ "' and '" ++
        server.1 ++ "'")
    | none =>
      let seen := { state with
        seenInputNames := OrderedMap.insert normalizedName server.1 state.seenInputNames }
      match normalizeImportServerValue host.configuredMcpUrl server.1 server.2 sourcePath
          options.disabled with
      | .error warning => .ok { seen with warnings := seen.warnings ++ [warning] }
      | .ok value =>
        let targetPath := (options.settingsPath.map tree.resolveUnderRoot).getD
          (tree.defaultFragmentPath normalizedName)
        .ok { seen with planEntries := seen.planEntries ++
          [⟨server.1, normalizedName, targetPath, value⟩] }

/-! ### Targets -/

/-- What reading a settings file gives, with the messages of one reader. -/
def readQuoted (quoted : String) (absent : Except String JsonValue) :
    SettingsFile → Except String JsonValue
  | .missing => absent
  | .symlink => .error (quoted ++ " must be a regular file, not a symlink")
  | .notRegular => .error (quoted ++ " must be a regular file")
  | .uninspectable reason => .error ("failed to inspect " ++ quoted ++ ": " ++ reason)
  | .unreadable error => .error error
  | .parsed value => .ok value

def readImportSource (tree : SettingsTree) (path : String) : Except String JsonValue :=
  let quoted := "MCP settings import source '" ++ path ++ "'"
  readQuoted quoted (.error (quoted ++ " does not exist")) (tree.node path)

def readOrNewSettings (tree : SettingsTree) (path : String) : Except String JsonValue :=
  readQuoted ("MCP settings target '" ++ path ++ "'") (.ok (.object [("mcpServers", .object [])]))
    (tree.node path)

/-- The documents of the targets, each read once. -/
def readTargets (tree : SettingsTree) (planEntries : List ImportPlanEntry) :
    Except String (List (String × JsonValue)) :=
  planEntries.foldlM (fun targets plan =>
    if (get plan.targetPath targets).isSome then .ok targets
    else do
      let value ← readOrNewSettings tree plan.targetPath
      return OrderedMap.insert plan.targetPath value targets) []

def hasNormalizedServer (value : JsonValue) (normalizedName : String) : Except String Bool :=
  match mcpServersObject value with
  | some servers => .ok ((keys servers).any (Names normalizedName ·))
  | none =>
    match value with
    | .object _ => .ok false
    | _ => .error "MCP settings target must contain a JSON object"

def lookupTarget (targets : List (String × JsonValue)) (path : String) : Except String JsonValue :=
  match get path targets with
  | some value => .ok value
  | none => .error ("missing import target '" ++ path ++ "'")

/-- The conflicts of one planned entry, and what the result says of it. -/
def inspectPlan (tree : SettingsTree) (options : McpServerImportOptions)
    (targets : List (String × JsonValue)) (plan : ImportPlanEntry) :
    Except String (List String × McpServerImportEntry) := do
  let targetValue ← lookupTarget targets plan.targetPath
  let existedBefore ← hasNormalizedServer targetValue plan.normalizedName
  let replaced :=
    if existedBefore ∧ ¬options.force then [plan.name ++ " in " ++ plan.targetPath] else []
  let shadowing := (tree.sourcePathsForNormalizedServer plan.normalizedName).filter (fun path =>
    tree.locate path ≠ tree.locate plan.targetPath)
  let shadowed :=
    if shadowing ≠ [] then [plan.name ++ " already exists in another source (" ++
      ", ".intercalate shadowing ++ ")"] else []
  let action := if existedBefore then "replace" else "add"
  return (replaced ++ shadowed,
    { name := plan.name
      normalizedName := plan.normalizedName
      path := plan.targetPath
      action := if options.dryRun then "dry-run-" ++ action else action
      dryRun := options.dryRun
      existedBefore := existedBefore })

/-- The servers object of a target and its key; an empty one is added when there is none. -/
def ensureImportServersObject (root : JsonMap) (targetPath : String) :
    Except String (String × JsonMap) :=
  let key :=
    if (get "mcpServers" root).isSome then "mcpServers"
    else if (get "servers" root).isSome then "servers"
    else "mcpServers"
  match get key root with
  | some (.object servers) => .ok (key, servers)
  | some _ => .error ("MCP settings target '" ++ targetPath ++ "' has non-object " ++ key)
  | none => .ok (key, [])

def insertServerValue (value : JsonValue) (name : String) (serverValue : JsonValue)
    (targetPath : String) : Except String JsonValue := do
  let root ← asRoot ("MCP settings target '" ++ targetPath ++ "' must contain a JSON object") value
  let (key, servers) ← ensureImportServersObject root targetPath
  let servers :=
    match firstEntry (normalizeServerName name) servers with
    | some (existingKey, _) => remove existingKey servers
    | none => servers
  return withServers root key (OrderedMap.insert name serverValue servers)

/-- The documents with the planned entries in them. -/
def updateTargets (planEntries : List ImportPlanEntry) (targets : List (String × JsonValue)) :
    Except String (List (String × JsonValue)) :=
  planEntries.foldlM (fun targets plan => do
    let targetValue ← lookupTarget targets plan.targetPath
    let updated ← insertServerValue targetValue plan.name plan.value plan.targetPath
    return OrderedMap.insert plan.targetPath updated targets) targets

/-! ### The import -/

/-- Everything before the first write: the documents to write in the order of their paths, and the
result to return. -/
def prepareImport (host : ImportHost) (tree : SettingsTree) (options : McpServerImportOptions) :
    Except String (List (String × JsonValue) × McpServerImportResult) := do
  let sourcePath := tree.resolveUnderRoot options.sourcePath
  let quoted := "MCP settings import source '" ++ sourcePath ++ "'"
  let sourceValue ← readImportSource tree sourcePath
  match mcpServersObject sourceValue with
  | none => throw (quoted ++ " must contain an mcpServers or servers object")
  | some sourceServers =>
    require (sourceServers ≠ []) (quoted ++ " contains no servers")
    let plan ← sourceServers.foldlM (planServer host tree options sourcePath) ⟨[], [], []⟩
    require (¬plan.planEntries.isEmpty) (quoted ++ " contains no usable servers")
    Host.lock host.namespaceLock options.dryRun
    (sortedUnique (plan.planEntries.map ImportPlanEntry.targetPath)).forM
      (fun path => Host.lock (host.settingsLock path) options.dryRun)
    let targets ← readTargets tree plan.planEntries
    let inspected ← plan.planEntries.mapM (inspectPlan tree options targets)
    let conflicts := inspected.flatMap Prod.fst
    let entries := inspected.map Prod.snd
    require (conflicts = [])
      ("MCP settings import would overwrite or shadow existing server entries: " ++
        ", ".intercalate conflicts ++ "; rerun with --force only for same-file replacements, " ++
        "or pass --settings <existing path>/remove the old entry first")
    let updated ← if options.dryRun then pure [] else updateTargets plan.planEntries targets
    return (updated,
      { sourcePath := sourcePath
        dryRun := options.dryRun
        force := options.force
        importedCount := entries.length
        targetFileCount := (sortedUnique (entries.map McpServerImportEntry.path)).length
        entries := entries
        warnings := sortedUnique plan.warnings })

def fileText (host : ImportHost) (document : JsonValue) : String :=
  host.toPrettyString document ++ "\n"

/-- The loop over the targets, which stops at the first write that fails. -/
def writeTargets (host : ImportHost) (disk : SettingsDisk) :
    List (String × JsonValue) → SettingsDisk × Except String Unit
  | [] => (disk, .ok ())
  | (path, document) :: rest =>
    match (host.steps path).writePrivateTextAtomic disk path (fileText host document) with
    | (written, .error error) => (written, .error ("failed to write MCP settings source '" ++
        path ++ "': " ++ error.display))
    | (written, .ok ()) => writeTargets host written rest

/-- The disk after the call, and what it returns. -/
def importMcpServerEntries (host : ImportHost) (disk : SettingsDisk)
    (options : McpServerImportOptions) : SettingsDisk × Except String McpServerImportResult :=
  match prepareImport host (disk.tree host.parse) options with
  | .error error => (disk, .error error)
  | .ok (targets, result) =>
    match writeTargets host disk targets with
    | (written, .error error) => (written, .error error)
    | (written, .ok ()) => (written, .ok result)

end Mcpace.Sources

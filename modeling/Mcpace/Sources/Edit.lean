import Mcpace.Library.Checks
import Mcpace.Sources.Merge
import Mcpace.Sources.ServerEntry

/-!
Owns the commands that edit the settings sources: `write_mcp_server_entry`,
`remove_mcp_server_entry` and `set_mcp_server_enabled` of `src/mcp_sources/write.rs`, with their
search for the file and the key to edit.

The settings files are a tree: which paths are read as sources and in which order, and what each
path leads to. Locks, writing to disk and the JSON serializer are the host's.

Does not own: the order in which source paths are collected.
-/

namespace Mcpace.Sources

open Library Json Checks Text OrderedMap

/-! ### Settings trees -/

/-- `candidates` are the paths that are sources, in reading order; one found by listing a
directory is a source only while a regular file is there. `locate` follows a path to its node. -/
structure SettingsTree where
  rootPath : String
  candidates : List String
  listed : String → Bool
  locate : String → String
  file : String → SettingsFile
  warnings : List String
  nodup : candidates.Nodup
  located : ∀ path ∈ candidates, locate path = path

/-- The host: why a lock or a write fails, if it does, what the serializer makes of numbers and
how long its text is, and which texts are loopback addresses. -/
structure Host where
  namespaceLock : Option String
  settingsLock : String → Option String
  writeFailure : String → Option String
  renumber : String → Option String
  printedBytes : JsonValue → Nat
  isLoopbackAddress : String → Bool

def plainHost : Host where
  namespaceLock := none
  settingsLock := fun _ => none
  writeFailure := fun _ => none
  renumber := some
  printedBytes := fun _ => 0
  isLoopbackAddress := fun _ => false

def maxJsonFileBytes : Nat := 64 * 1024 * 1024

def SettingsFile.isRegular : SettingsFile → Bool
  | .unreadable _ => true
  | .parsed _ => true
  | _ => false

namespace SettingsTree

/-- `collect_source_paths`, with what is found at each path. -/
def sources (tree : SettingsTree) : List SettingsSource :=
  (tree.candidates.filter (fun path => !tree.listed path || (tree.file path).isRegular)).map
    (fun path => ⟨path, tree.file path⟩)

def registry (tree : SettingsTree) : McpServerRegistry :=
  McpServerRegistry.load tree.warnings tree.sources

def node (tree : SettingsTree) (path : String) : SettingsFile := tree.file (tree.locate path)

/-- The tree with another file at a node. -/
def put (tree : SettingsTree) (path : String) (file : SettingsFile) : SettingsTree :=
  { tree with file := Function.update tree.file path file }

theorem file_put_self (tree : SettingsTree) (path : String) (file : SettingsFile) :
    (tree.put path file).file path = file :=
  Function.update_self ..

theorem file_put_of_ne {tree : SettingsTree} {path other : String} (different : other ≠ path)
    (file : SettingsFile) : (tree.put path file).file other = tree.file other :=
  Function.update_of_ne different ..

def resolveUnderRoot (tree : SettingsTree) (path : String) : String :=
  if Text.startsWith path "/" then path else tree.rootPath ++ "/" ++ path

def defaultFragmentPath (tree : SettingsTree) (serverName : String) : String :=
  tree.rootPath ++ "/mcp_settings.d/" ++ normalizeServerName serverName ++ ".json"

end SettingsTree

namespace Host

/-- `Some(acquire(..)?)` unless the command is a dry run. -/
def lock (failure : Option String) (dryRun : Bool) : Except String Unit :=
  match failure with
  | some reason => require dryRun reason
  | none => .ok ()

/-- What `read_json_file` gives for a document that was written. -/
def readBack (host : Host) (path : String) (document : JsonValue) : SettingsFile :=
  if host.printedBytes document > maxJsonFileBytes then
    .unreadable ("failed to read " ++ path ++ ": JSON file exceeds the " ++
      toString maxJsonFileBytes ++ "-byte safety limit")
  else .parsed (document.reload host.renumber)

/-- `write_private_text_atomic` of the pretty text. -/
def write (host : Host) (tree : SettingsTree) (path : String) (document : JsonValue) :
    Except String SettingsTree :=
  match host.writeFailure path with
  | some reason => .error reason
  | none =>
    let node := tree.locate path
    .ok (tree.put node (host.readBack node document))

/-- A dry run leaves the files alone. -/
def commit (host : Host) (dryRun : Bool) (tree : SettingsTree) (path : String)
    (document : JsonValue) : Except String SettingsTree :=
  if dryRun then .ok tree else host.write tree path document

end Host

/-! ### Finding the file and the key -/

namespace SettingsTree

def sourcePathsForNormalizedServer (tree : SettingsTree) (normalizedName : String) :
    List String :=
  sortedUnique ((tree.sources.filter (fun source =>
    (keys source.servers).any (Names normalizedName ·))).map SettingsSource.path)

def findSourcePathForServer (tree : SettingsTree) (normalizedName : String) :
    Except String (Option String) :=
  match tree.sourcePathsForNormalizedServer normalizedName with
  | [] => .ok none
  | [path] => .ok (some path)
  | found => .error ("MCP server '" ++ normalizedName ++
      "' exists in multiple settings sources (" ++ ", ".intercalate found ++
      "); pass --settings <path> to choose the exact source")

def rejectCrossSourceShadowing (tree : SettingsTree) (normalizedName targetPath : String) :
    Except String Unit :=
  let shadowing := (tree.sourcePathsForNormalizedServer normalizedName).filter (fun path =>
    tree.locate path ≠ tree.locate targetPath)
  require (shadowing = []) ("MCP server '" ++ normalizedName ++
    "' already exists in another settings source (" ++ ", ".intercalate shadowing ++
    "); pass --settings <existing path> with --force, remove the old entry first, or choose " ++
    "a different server name")

/-- What both readers of a settings file say about one they cannot use. -/
def readNode (tree : SettingsTree) (path : String) (missing : Except String JsonValue) :
    Except String JsonValue :=
  let quoted := "MCP settings source '" ++ path ++ "'"
  match tree.node path with
  | .missing => missing
  | .symlink => .error (quoted ++ " must be a regular file, not a symlink")
  | .notRegular => .error (quoted ++ " must be a regular file")
  | .uninspectable reason => .error ("failed to inspect " ++ quoted ++ ": " ++ reason)
  | .unreadable error => .error error
  | .parsed value => .ok value

def readSettingsOrEmpty (tree : SettingsTree) (path : String) : Except String JsonValue :=
  tree.readNode path (.ok (.object [("mcpServers", .object [])]))

def readExistingSettings (tree : SettingsTree) (path : String) : Except String JsonValue :=
  tree.readNode path (.error ("MCP settings source '" ++ path ++ "' does not exist"))

/-- The file of a command that edits an entry. -/
def editedPath (tree : SettingsTree) (displayName normalizedName : String)
    (settingsPath : Option String) : Except String String :=
  match settingsPath with
  | some path => .ok (tree.resolveUnderRoot path)
  | none => do
      match ← tree.findSourcePathForServer normalizedName with
      | some path => return path
      | none => .error ("MCP server '" ++ displayName ++ "' was not found in known sources; run " ++
          "'mcpace advanced server sources' or pass --settings <path>")

end SettingsTree

def serversObject (root : JsonMap) (key targetPath : String) : Except String (String × JsonMap) :=
  match get key root with
  | some (.object servers) => .ok (key, servers)
  | some _ => .error ("MCP settings source '" ++ targetPath ++ "' has a non-object " ++ key ++
      " value")
  | none => .error ("MCP settings source '" ++ targetPath ++ "' has no " ++ key ++ " object")

/-- The servers object to edit and its key; `absent` says what to do when there is none. -/
def selectServers (root : JsonMap) (targetPath : String)
    (absent : Except String (String × JsonMap)) : Except String (String × JsonMap) :=
  if (get "mcpServers" root).isSome then serversObject root "mcpServers" targetPath
  else if (get "servers" root).isSome then serversObject root "servers" targetPath
  else absent

/-- An empty object is added when there is none. -/
def ensureServersObject (root : JsonMap) (targetPath : String) : Except String (String × JsonMap) :=
  selectServers root targetPath (.ok ("mcpServers", []))

def existingServersObject (root : JsonMap) (targetPath : String) :
    Except String (String × JsonMap) :=
  selectServers root targetPath (.error ("MCP settings source '" ++ targetPath ++
    "' has no mcpServers or servers object"))

/-- The entry that the commands edit: the first whose key stands for the server. -/
def firstEntry (normalizedName : String) (servers : JsonMap) : Option (String × JsonValue) :=
  servers.find? (fun entry => Names normalizedName entry.1)

def withServers (root : JsonMap) (key : String) (servers : JsonMap) : JsonValue :=
  .object (OrderedMap.insert key (.object servers) root)

def asRoot (message : String) : JsonValue → Except String JsonMap
  | .object root => .ok root
  | _ => .error message

/-- The trimmed name and its normal form. -/
def checkedName (command name : String) : Except String (String × String) := do
  let displayName := trim name
  require (displayName ≠ "") (command ++ " requires a non-empty server name")
  let normalizedName := normalizeServerName displayName
  require (normalizedName ≠ "")
    ("server name '" ++ displayName ++ "' does not contain a usable ASCII token")
  return (displayName, normalizedName)

/-! ### Commands -/

structure McpServerWriteResult where
  name : String
  normalizedName : String
  path : String
  action : String
  dryRun : Bool
  existedBefore : Bool
  serverType : String
  command : Option String
  url : Option String
  argsCount : Nat
  envCount : Nat
  headerCount : Nat

structure McpServerRemoveOptions where
  name : String
  settingsPath : Option String
  dryRun : Bool

structure McpServerRemoveResult where
  name : String
  normalizedName : String
  path : String
  action : String
  dryRun : Bool
  existedBefore : Bool
  remainingServerCount : Nat

structure McpServerToggleOptions where
  name : String
  settingsPath : Option String
  enabled : Bool
  dryRun : Bool

structure McpServerToggleResult where
  name : String
  normalizedName : String
  path : String
  action : String
  dryRun : Bool
  existedBefore : Bool
  enabled : Bool
  previousEnabled : Option Bool
  serverCount : Nat

/-- The options that give the new entry its endpoint, type, variables and headers. -/
def checkedEntry (host : Host) (options : McpServerWriteOptions) :
    Except String (String × List (String × String) × List (String × String)) := do
  let hasCommand := (options.command.bind trimNonEmpty).isSome
  let hasUrl := (options.url.bind trimNonEmpty).isSome
  require (¬ (hasCommand ∧ hasUrl)) "server add accepts either --command or --url, not both"
  require (hasCommand ∨ hasUrl)
    "server add requires --command <cmd> for stdio or --url <url> for HTTP"
  let serverType ← normalizeServerType options.serverType hasCommand hasUrl
  if hasUrl then validateRemoteMcpUrl host.isLoopbackAddress (options.url.getD "")
  require (serverType = "stdio" → hasCommand) "server type stdio requires --command <cmd>"
  require (serverType ≠ "stdio" → hasUrl)
    ("server type " ++ serverType ++ " requires --url <url>")
  let env ← parseKeyValuePairs options.env "--env" validateEnvName
  let headers ← parseKeyValuePairs options.headers "--header" validateHttpHeaderName
  return (serverType, env, headers)

/-- The entry that `server add` writes for its options. -/
def requestedEntry (host : Host) (options : McpServerWriteOptions) : Except String JsonValue := do
  let (serverType, env, headers) ← checkedEntry host options
  return buildServerEntry serverType options env headers

/-- The servers with the entry in place of the first one of its name. -/
def putEntry (displayName normalizedName : String) (entry : JsonValue) (servers : JsonMap) :
    JsonMap :=
  let servers :=
    match firstEntry normalizedName servers with
    | some (existingKey, _) =>
      if existingKey ≠ displayName then remove existingKey servers else servers
    | none => servers
  OrderedMap.insert displayName entry servers

def writeMcpServerEntry (host : Host) (tree : SettingsTree) (options : McpServerWriteOptions) :
    Except String (McpServerWriteResult × SettingsTree) := do
  let (displayName, normalizedName) ← checkedName "server add" options.name
  let (serverType, env, headers) ← checkedEntry host options
  let targetPath := (options.settingsPath.map tree.resolveUnderRoot).getD
    (tree.defaultFragmentPath normalizedName)
  Host.lock host.namespaceLock options.dryRun
  tree.rejectCrossSourceShadowing normalizedName targetPath
  Host.lock (host.settingsLock targetPath) options.dryRun
  let document ← tree.readSettingsOrEmpty targetPath
  let root ← asRoot ("MCP settings source '" ++ targetPath ++ "' must contain a JSON object")
    document
  let (key, servers) ← ensureServersObject root targetPath
  let existedBefore := (firstEntry normalizedName servers).isSome
  require (existedBefore → options.force) ("server '" ++ displayName ++ "' already exists in " ++
    targetPath ++ "; rerun with --force to replace it")
  let entry := buildServerEntry serverType options env headers
  let action := if existedBefore then "replace" else "add"
  let result : McpServerWriteResult :=
    { name := displayName
      normalizedName := normalizedName
      path := targetPath
      action := if options.dryRun then "dry-run-" ++ action else action
      dryRun := options.dryRun
      existedBefore := existedBefore
      serverType := serverType
      command := options.command
      url := options.url
      argsCount := options.args.length
      envCount := env.length
      headerCount := headers.length }
  let after ← host.commit options.dryRun tree targetPath
    (withServers root key (putEntry displayName normalizedName entry servers))
  return (result, after)

def removeMcpServerEntry (host : Host) (tree : SettingsTree) (options : McpServerRemoveOptions) :
    Except String (McpServerRemoveResult × SettingsTree) := do
  let (displayName, normalizedName) ← checkedName "server remove" options.name
  Host.lock host.namespaceLock options.dryRun
  let targetPath ← tree.editedPath displayName normalizedName options.settingsPath
  Host.lock (host.settingsLock targetPath) options.dryRun
  let document ← tree.readExistingSettings targetPath
  let root ← asRoot ("MCP settings source '" ++ targetPath ++ "' must be a JSON object") document
  let (key, servers) ← existingServersObject root targetPath
  match firstEntry normalizedName servers with
  | none => throw ("MCP server '" ++ displayName ++ "' was not found in '" ++ targetPath ++ "'")
  | some (existingKey, _) =>
    let remaining := remove existingKey servers
    let after ← host.commit options.dryRun tree targetPath (withServers root key remaining)
    return (
      { name := displayName
        normalizedName := normalizedName
        path := targetPath
        action := "remove"
        dryRun := options.dryRun
        existedBefore := true
        remainingServerCount :=
          if options.dryRun then
            (servers.filter (fun entry => ¬ Names normalizedName entry.1)).length
          else remaining.length }, after)

/-- The members of an entry that is turned on or off. -/
def toggled (enabled : Bool) (server : JsonMap) : JsonMap :=
  let server := OrderedMap.insert "enabled" (.bool enabled) server
  if enabled then remove "disabled" server
  else OrderedMap.insert "disabled" (.bool true) server

def setMcpServerEnabled (host : Host) (tree : SettingsTree) (options : McpServerToggleOptions) :
    Except String (McpServerToggleResult × SettingsTree) := do
  let (displayName, normalizedName) ← checkedName "server enable/disable" options.name
  Host.lock host.namespaceLock options.dryRun
  let targetPath ← tree.editedPath displayName normalizedName options.settingsPath
  Host.lock (host.settingsLock targetPath) options.dryRun
  let document ← tree.readExistingSettings targetPath
  let root ← asRoot ("MCP settings source '" ++ targetPath ++ "' must be a JSON object") document
  let (key, servers) ← existingServersObject root targetPath
  match firstEntry normalizedName servers with
  | none => throw ("MCP server '" ++ displayName ++ "' was not found in '" ++ targetPath ++ "'")
  | some (existingKey, value) =>
    let server ← asRoot ("MCP server '" ++ displayName ++ "' in '" ++ targetPath ++
      "' must be a JSON object to enable/disable it") value
    let rawEnabled := (get "enabled" server).bind JsonValue.asBool
    let rawDisabled := (get "disabled" server).bind JsonValue.asBool
    let after ← host.commit options.dryRun tree targetPath (withServers root key
      (OrderedMap.insert existingKey (.object (toggled options.enabled server)) servers))
    return (
      { name := displayName
        normalizedName := normalizedName
        path := targetPath
        action := if options.enabled then "enable" else "disable"
        dryRun := options.dryRun
        existedBefore := true
        enabled := options.enabled
        previousEnabled := rawEnabled.or (rawDisabled.map (!·))
        serverCount := servers.length }, after)

end Mcpace.Sources

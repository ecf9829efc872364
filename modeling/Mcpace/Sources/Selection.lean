import Mcpace.Sources.Registry

/-!
Owns what selects a declared server besides its own block: the runtime profile with its
per-server overrides (`src/profile.rs`) and the current platform (`src/platform_utils.rs`), and
the state of the workspace that the policy loader starts from.

Does not own: the descriptions and counts the profile report prints.
-/

namespace Mcpace.Sources

open Library Json JsonValue Text

/-! ### Platforms -/

def normalizePlatform (value : String) : String :=
  match toAsciiLowercase (trim value) with
  | "darwin" | "mac" | "osx" | "macos" => "macos"
  | "win" | "win32" | "windows" | "windows_nt" => "windows"
  | "linux" => "linux"
  | other => other

/-- `current` is `current_platform_alias`, a constant of the build. -/
def supportsCurrentPlatform (current : String) (platforms : List String) : Bool :=
  platforms.isEmpty || platforms.any (fun platform =>
    [current, "any", "all", "*"].contains (normalizePlatform platform))

/-! ### Runtime profiles -/

structure RuntimeProfileSelection where
  activeProfile : String
  defaultProfile : String
  selectionSource : String
  serverOverrides : List (String × Bool)

def builtinProfiles : List String := ["safe", "extended", "full"]

/-- How a profile is named: trimmed and in lower case. -/
def profileName (value : String) : String := toAsciiLowercase (trim value)

/-- The names of `build_profile_catalog_from_config`. -/
def catalogProfiles (config : JsonValue) : List String :=
  let configured := ((config.objectAtPath ["profiles", "runtime"]).bind (fun runtime =>
    (OrderedMap.get "profiles" runtime).bind asObject)).getD []
  builtinProfiles ++ ((OrderedMap.keys configured).map profileName).filter (· ≠ "")

def catalogDefault (config : JsonValue) : String :=
  let configured := profileName (((config.objectAtPath ["profiles", "runtime"]).bind
    (fun runtime => (OrderedMap.get "default" runtime).bind asStr)).getD "safe")
  if configured = "" ∨ configured ∉ catalogProfiles config then "safe" else configured

def resolveActiveProfile (env : String → Option String) (config : JsonValue) : String × String :=
  match (env "MCPACE_RUNTIME_PROFILE").bind trimNonEmpty with
  | some value =>
    let normalized := toAsciiLowercase value
    if normalized ∈ catalogProfiles config then (normalized, "environment")
    else ("safe", "fallback-safe")
  | none =>
    if catalogDefault config ∈ catalogProfiles config then
      (catalogDefault config, "config-default")
    else ("safe", "fallback-safe")

/-- An override is a flag, an object with an optional flag, or anything else for `true`. -/
def overrideEnabled : JsonValue → Bool
  | .bool value => value
  | .object entries => ((OrderedMap.get "enabled" entries).bind asBool).getD true
  | _ => true

/-- Only the first profile with the active name is read. -/
def readServerOverrides (config : JsonValue) (activeProfile : String) : List (String × Bool) :=
  let profiles := (config.objectAtPath ["profiles", "runtime", "profiles"]).getD []
  match profiles.find? (fun profile => profileName profile.1 = activeProfile) with
  | none => []
  | some profile =>
    let entries := ((profile.2.get "serverOverrides").bind asObject).getD []
    OrderedMap.ofList ((entries.map (fun entry =>
      (normalizeServerName entry.1, overrideEnabled entry.2))).filter (·.1 ≠ ""))

def loadRuntimeProfileSelection (env : String → Option String) (config : JsonValue) :
    RuntimeProfileSelection :=
  let active := resolveActiveProfile env config
  { activeProfile := active.1
    defaultProfile := catalogDefault config
    selectionSource := active.2
    serverOverrides := readServerOverrides config active.1 }

/-- The selection only reads the `profiles` member of a config. -/
theorem loadRuntimeProfileSelection_congr (env : String → Option String)
    {config other : JsonValue} (same : other.get "profiles" = config.get "profiles") :
    loadRuntimeProfileSelection env other = loadRuntimeProfileSelection env config := by
  have objects : ∀ rest, other.objectAtPath ("profiles" :: rest) =
      config.objectAtPath ("profiles" :: rest) := by
    intro rest
    rw [objectAtPath, objectAtPath, valueAtPath_cons, valueAtPath_cons, same]
  have profiles : catalogProfiles other = catalogProfiles config := by
    rw [catalogProfiles, catalogProfiles, objects]
  have default : catalogDefault other = catalogDefault config := by
    rw [catalogDefault, catalogDefault, profiles, objects]
  have active : resolveActiveProfile env other = resolveActiveProfile env config := by
    rw [resolveActiveProfile, resolveActiveProfile, profiles, default]
  have overrides : readServerOverrides other = readServerOverrides config := by
    funext activeProfile
    rw [readServerOverrides, readServerOverrides, objects]
  rw [loadRuntimeProfileSelection, loadRuntimeProfileSelection, active, default, overrides]

/-! ### The workspace -/

/-- What reading `mcpace.config.json` gives; a path that is not a file is told apart. -/
inductive ConfigFile where
  | absent (reason : String)
  | unreadable (reason : String)
  | parsed (value : JsonValue)

/-- What the policy loader reads outside the program. -/
structure Workspace where
  configPath : String
  configFile : ConfigFile
  env : String → Option String
  platform : String

/-- The entries of the `servers` object of a config. -/
def declaredServers (config : JsonValue) : JsonMap :=
  (config.objectAtPath ["servers"]).getD []

/-- The flags of a block that make the profile include it. -/
def profileEnabled (block : JsonValue) (overrideFlag : Option Bool) : Bool :=
  if (block.boolAtPath ["required"]).getD false then true
  else overrideFlag.getD ((block.boolAtPath ["defaultEnabled"]).getD false)

def platformSupported (platform : String) (block : JsonValue) : Bool :=
  supportsCurrentPlatform platform
    (stringsFromArray (block.arrayAtPath ["platforms"]))

end Mcpace.Sources

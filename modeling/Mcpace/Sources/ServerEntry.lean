import Mcpace.Sources.Registry

/-!
Owns the entry of a settings source that `server add` writes, and the checks of the options it
is built from.

Mirrors `src/mcp_sources/write_helpers.rs` and the header checks of `src/text_utils.rs`. Whether
a text is the address of a loopback interface is decided by the standard library's address
parser and is an input.

Does not own: the file the entry is written to.
-/

namespace Mcpace.Sources

open Library Json List JsonValue Text

structure McpServerWriteOptions where
  name : String
  serverType : Option String
  command : Option String
  args : List String
  url : Option String
  env : List String
  headers : List String
  settingsPath : Option String
  enabled : Bool
  dryRun : Bool
  force : Bool
  profileHints : List String

/-! ### Server types -/

/-- `requested` stands for the type option; the other two say which endpoint was given. -/
def normalizeServerType (requested : Option String) (hasCommand hasUrl : Bool) :
    Except String String :=
  let normalized := inferPublicSourceType (requested.getD "") (if hasCommand then "command" else "")
    (if hasUrl then "https://example.invalid/mcp" else "")
  if normalized = "stdio" ∨ normalized = "streamable-http" then .ok normalized
  else .error ("unsupported MCP server type '" ++ normalized ++
    "'; use stdio or streamable-http")

/-! ### URLs -/

/-- `byte.is_ascii_control() || byte.is_ascii_whitespace()`. -/
def isControlOrBlank (char : Char) : Bool :=
  char.toNat ≤ 32 || char.toNat = 127

def validateRemoteMcpHost (host : String) : Except String Unit :=
  if trim host = "" ∨ host.toList.any isControlOrBlank then
    .error "server add --url has an invalid host"
  else .ok ()

def validateRemoteMcpPort (port : String) : Except String Unit :=
  if ((parseUnsigned 16 port).filter (0 < ·)).isSome then .ok ()
  else .error "server add --url has an invalid port"

def validateRemoteMcpPortSuffix (value : String) : Except String Unit :=
  if value = "" then .ok ()
  else
    match Text.stripPrefix ":" value with
    | none => .error "server add --url has an invalid bracketed authority suffix"
    | some port => validateRemoteMcpPort port

/-- A single colon at most is left when the authority is split. -/
def validateRemoteMcpAuthority (authority : String) : Except String Unit := do
  if authority = "" ∨ '/' ∈ authority.toList ∨ '@' ∈ authority.toList ∨
      authority.toList.any isControlOrBlank then
    throw "server add --url has an invalid authority"
  match Text.stripPrefix "[" authority with
  | some bracketed =>
    match splitOnce ']' bracketed with
    | none => throw "server add --url has an invalid bracketed IPv6 authority"
    | some (host, suffix) =>
      if trim host = "" ∨ host.toList.any isControlOrBlank then
        throw "server add --url has an invalid IPv6 host"
      validateRemoteMcpPortSuffix suffix
  | none =>
    if authority.toList.count ':' > 1 then
      throw "server add --url IPv6 authorities must be bracketed"
    match splitOnce ':' authority with
    | some (host, port) =>
      if host = "" then throw "server add --url has an invalid host or port"
      validateRemoteMcpHost host
      validateRemoteMcpPort port
    | none => validateRemoteMcpHost authority

def remoteMcpAuthorityIsLoopback (isLoopbackAddress : String → Bool) (authority : String) :
    Bool :=
  let host :=
    match Text.stripPrefix "[" authority with
    | some bracketed => String.ofList (bracketed.toList.takeWhile (· ≠ ']'))
    | none => String.ofList (authority.toList.takeWhile (· ≠ ':'))
  let normalized := trimMatches (fun char => char = '[' || char = ']')
    (trim host)
  toAsciiLowercase normalized = "localhost" || isLoopbackAddress normalized

def validateRemoteMcpUrl (isLoopbackAddress : String → Bool) (value : String) :
    Except String Unit := do
  let trimmed := trim value
  if trimmed = "" then throw "server add --url requires a non-empty URL"
  if trimmed.toList.any isControlOrBlank then
    throw "server add --url cannot contain whitespace or control characters"
  if '#' ∈ trimmed.toList ∨ '\\' ∈ trimmed.toList then
    throw "server add --url must not contain a URL fragment or backslash"
  let normalized := toAsciiLowercase trimmed
  let (plainHttp, rest) ←
    if Text.startsWith normalized "http://" then pure (true, trimmed.toList.drop 7)
    else if Text.startsWith normalized "https://" then pure (false, trimmed.toList.drop 8)
    else throw "server add --url currently accepts only http:// or https:// MCP endpoints"
  let authority := String.ofList
    (rest.takeWhile (fun char => char ≠ '/' && char ≠ '?'))
  validateRemoteMcpAuthority authority
  if plainHttp ∧ ¬ remoteMcpAuthorityIsLoopback isLoopbackAddress authority then
    throw ("server add --url permits plain http:// only for loopback MCP endpoints; " ++
      "use https:// or a local gateway")

/-! ### Environment variables and headers -/

def validateEnvName (value : String) : Bool :=
  match value.toList with
  | [] => false
  | first :: rest =>
    (first.isAlpha || first = '_') && rest.all (fun char => isAsciiAlphanumeric char || char = '_')

def validHttpHeaderName (value : String) : Bool :=
  value ≠ "" && value.toList.all (fun char =>
    isAsciiAlphanumeric char || ['-', '_', '.', '~'].contains char)

def reservedMcpHttpHeaderName (value : String) : Bool :=
  ["host", "content-length", "transfer-encoding", "connection", "accept", "content-type",
    "mcp-protocol-version", "mcp-session-id"].contains (toAsciiLowercase (trim value))

def validateHttpHeaderName (value : String) : Bool :=
  validHttpHeaderName value && !reservedMcpHttpHeaderName value

/-- `valid_http_field_value`. -/
def validateHttpHeaderValue (value : String) : Bool :=
  value ≠ "" && value.toList.all (fun char =>
    char = ' ' || (0x21 ≤ char.toNat && char.toNat ≤ 0x7e))

/-- The body of the loop of `parse_key_value_pairs`. -/
def parseKeyValuePair (flagName : String) (validateKey : String → Bool)
    (parsed : List (String × String)) (raw : String) : Except String (List (String × String)) := do
  let some (rawKey, value) := splitOnce '=' raw
    | throw (flagName ++ " expects KEY=VALUE, got '" ++ raw ++ "'")
  let key := trim rawKey
  if key = "" ∨ ¬ validateKey key then
    throw (flagName ++ " contains an invalid key '" ++ key ++ "'")
  if (OrderedMap.keys parsed).any (fun existing =>
      toAsciiLowercase existing = toAsciiLowercase key) then
    throw (flagName ++ " contains duplicate key '" ++ key ++ "' with ambiguous casing")
  if ['\x00', '\r', '\n'].any (· ∈ value.toList) then
    throw (flagName ++ " value for '" ++ key ++ "' contains a disallowed control character")
  if flagName = "--header" ∧ ¬ validateHttpHeaderValue value then
    throw (flagName ++ " value for '" ++ key ++ "' is not a safe HTTP header value")
  return OrderedMap.insert key value parsed

def parseKeyValuePairs (values : List String) (flagName : String) (validateKey : String → Bool) :
    Except String (List (String × String)) :=
  values.foldlM (parseKeyValuePair flagName validateKey) []

/-! ### The entry -/

def stringArray (values : List String) : JsonValue := .array (values.map JsonValue.string)

def stringObject (values : List (String × String)) : JsonValue :=
  ofEntries (values.map (fun entry => (entry.1, JsonValue.string entry.2)))

def memberIf (present : Bool) (key : String) (value : JsonValue) : List (String × JsonValue) :=
  if present then [(key, value)] else []

def buildServerEntry (serverType : String) (options : McpServerWriteOptions)
    (env headers : List (String × String)) : JsonValue :=
  let command := options.command.bind trimNonEmpty
  let url := options.url.bind trimNonEmpty
  let profileHints := sortedUnique (options.profileHints.filterMap trimNonEmpty)
  ofEntries ([("enabled", .bool options.enabled), ("type", .string serverType)] ++
    (command.map (fun text => ("command", JsonValue.string text))).toList ++
    memberIf (!options.args.isEmpty) "args" (stringArray options.args) ++
    (url.map (fun text => ("url", JsonValue.string text))).toList ++
    memberIf (!profileHints.isEmpty) "mcpaceProfileHints" (stringArray profileHints) ++
    memberIf (!env.isEmpty) "env" (stringObject env) ++
    memberIf (!headers.isEmpty) "headers" (stringObject headers))

/-! ### Reading an entry back -/

section ReadsBack

variable {renumber : String → Option String}

theorem readsBack_stringArray (values : List String) : (stringArray values).ReadsBack renumber := by
  have items : reloadItems renumber (values.map JsonValue.string) =
      values.map JsonValue.string := by
    induction values with
    | nil => rfl
    | cons value rest ih =>
      rw [map_cons, reloadItems, ih, reload]
  rw [ReadsBack, stringArray, reload, items]

theorem readsBack_stringObject (values : List (String × String)) :
    (stringObject values).ReadsBack renumber := by
  apply readsBack_ofEntries
  intro entry member
  obtain ⟨pair, -, rfl⟩ := List.mem_map.mp member
  exact readsBack_string pair.2

theorem eq_of_mem_memberIf {present : Bool} {key : String} {value : JsonValue}
    {entry : String × JsonValue} (member : entry ∈ memberIf present key value) :
    entry = (key, value) := by
  cases present with
  | false => cases member
  | true => exact mem_singleton.mp member

/-- An entry has no numbers, so that every serializer keeps it. -/
theorem readsBack_buildServerEntry (serverType : String) (options : McpServerWriteOptions)
    (env headers : List (String × String)) :
    (buildServerEntry serverType options env headers).ReadsBack renumber := by
  apply readsBack_ofEntries
  intro entry member
  simp only [mem_append] at member
  rcases member with ((((((fixed | command) | args) | url) | hints) | env) | headers)
  · rcases mem_cons.mp fixed with rfl | rest
    · rfl
    · rw [mem_singleton.mp rest]
      exact readsBack_string serverType
  · obtain ⟨text, -, rfl⟩ := Option.map_eq_some_iff.mp (Option.mem_toList.mp command)
    exact readsBack_string text
  · rw [eq_of_mem_memberIf args]
    exact readsBack_stringArray _
  · obtain ⟨text, -, rfl⟩ := Option.map_eq_some_iff.mp (Option.mem_toList.mp url)
    exact readsBack_string text
  · rw [eq_of_mem_memberIf hints]
    exact readsBack_stringArray _
  · rw [eq_of_mem_memberIf env]
    exact readsBack_stringObject _
  · rw [eq_of_mem_memberIf headers]
    exact readsBack_stringObject _

end ReadsBack

end Mcpace.Sources

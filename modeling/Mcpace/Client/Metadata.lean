import Mcpace.Client.Pathing
import Mcpace.Json.Value

/-!
Owns what the client planner reads from the metadata document of a request:
`src/client/metadata.rs`.

The document is searched at four places, and each of them for a context hint under its
`_meta` member. The parser and the environment are parameters.
-/

namespace Mcpace.Client

open Library Json

/-- The command line of a planner call. -/
structure ParsedArgs where
  clientId : Option String
  sessionId : Option String
  projectRoot : Option String
  transport : Option String
  metadataJson : Option String

structure MetadataEnvelope where
  clientId : Option String
  sessionId : Option String
  conversationId : Option String
  clientInstanceId : Option String
  transportSessionId : Option String
  credentialProfileId : Option String
  workspaceRoots : List String
  cwd : Option String
  transport : Option String
deriving DecidableEq, Repr

def MetadataEnvelope.empty : MetadataEnvelope :=
  { clientId := none, sessionId := none, conversationId := none, clientInstanceId := none,
    transportSessionId := none, credentialProfileId := none, workspaceRoots := [], cwd := none,
    transport := none }

inductive ClientMetadataError where
  | invalidJson (reason : String)
deriving DecidableEq, Repr

def ClientMetadataError.message : ClientMetadataError → String
  | .invalidJson reason => "failed to parse client metadata JSON: " ++ reason

def metadataDocuments (json : JsonValue) : List JsonValue :=
  [json] ++ (json.get "params").toList ++
    (match json.get "payload" with
    | none => []
    | some payload => payload :: (payload.get "params").toList)

def contextHint (document : JsonValue) : Option JsonValue :=
  (document.get "_meta").bind (fun envelope =>
    ((envelope.get "com.mcpace/context").or (envelope.get "com.mcpace.context")).or
      (envelope.get "mcpaceContext"))

def metadataContextHints (documents : List JsonValue) : List JsonValue :=
  documents.filterMap contextHint

/-- The first text that is not blank, document by document and path by path. -/
def firstStringAtAnyPath (documents : List JsonValue) (paths : List (List String)) :
    Option String :=
  documents.findSome? (fun document =>
    paths.findSome? (fun path => (document.stringAtPath path).bind Text.trimNonEmpty))

def rootString : JsonValue → Option String
  | .string text => some text
  | .object entries =>
    let text := fun key => (JsonValue.get key (.object entries)).bind JsonValue.asStr
    ((text "uri").or (text "path")).or (text "root")
  | _ => none

def rootStringsFromEntries (items : Option (List JsonValue)) : List String :=
  (((items.getD []).filterMap rootString).map normalizePath).filter (· ≠ "")

def metadataWorkspaceRoots (documents contextHints : List JsonValue) : List String :=
  let roots := fun (value : JsonValue) path => rootStringsFromEntries (value.arrayAtPath path)
  Text.sortedUnique
    (documents.flatMap (fun document =>
        roots document ["workspaceRoots"] ++ roots document ["workspace", "roots"] ++
          roots document ["workspaces"] ++ roots document ["roots"] ++
          roots document ["result", "roots"]) ++
      contextHints.flatMap (fun hint =>
        roots hint ["workspaceRoots"] ++ roots hint ["workspaceRootsFallback"]))

/-- The envelope of a parsed document. -/
def metadataEnvelope (json : JsonValue) : MetadataEnvelope :=
  let documents := metadataDocuments json
  let contextHints := metadataContextHints documents
  let lookup := fun paths hintPaths =>
    (firstStringAtAnyPath documents paths).or (firstStringAtAnyPath contextHints hintPaths)
  { clientId := lookup [["client", "id"], ["clientId"], ["clientInfo", "name"]]
      [["clientProfileId"], ["clientId"]]
    sessionId := lookup [["session", "id"], ["sessionId"], ["externalSessionId"]]
      [["sessionId"], ["externalSessionId"]]
    conversationId := lookup [["conversation", "id"], ["conversationId"], ["chatId"]]
      [["conversationId"]]
    clientInstanceId := lookup [["clientInstanceId"], ["workspace", "id"], ["windowId"]]
      [["clientInstanceId"]]
    transportSessionId := lookup
      [["transportSessionId"], ["mcpSessionId"], ["headers", "Mcp-Session-Id"],
        ["headers", "mcp-session-id"]] [["transportSessionId"], ["mcpSessionId"]]
    credentialProfileId := lookup
      [["credentialProfileId"], ["credential", "profileId"], ["auth", "profileId"]]
      [["credentialProfileId"], ["credential", "profileId"]]
    workspaceRoots := metadataWorkspaceRoots documents contextHints
    cwd := (lookup [["cwd"], ["workingDirectory"]] [["cwd"]]).map normalizePath
    transport := (lookup [["transport"], ["ingress"], ["transportPreference"]]
      [["transport"], ["ingress"]]).map normalizeTransport }

def loadMetadata (parse : String → Except String JsonValue) (env : String → Option String)
    (args : ParsedArgs) : Except ClientMetadataError MetadataEnvelope :=
  let raw := (args.metadataJson.or (env "MCPACE_CLIENT_METADATA_JSON")).getD ""
  if Text.trim raw = "" then .ok .empty
  else
    match parse raw with
    | .error reason => .error (.invalidJson reason)
    | .ok json => .ok (metadataEnvelope json)

end Mcpace.Client

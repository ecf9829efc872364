import Mathlib.Data.List.MinMax
import Mcpace.Client.Plan
import Mcpace.Library.Checks
import Mcpace.Upstream.ToolPolicy

/-!
Contract: when the planner's worker pools and the runtime's workers divide the requests for a
server in the same way.

The runtime side is `execution_affinity_key` of `src/upstream/lease_runtime.rs`, on the
context of the request as it is. The planner side is `load_metadata`, `resolve_context` and
`resolve_scope`. Both end in the same affinity key, so each side separates requests exactly
by the identities it reads, and the two sides read different ones.
-/

namespace Mcpace.Client

open Library Json Execution Upstream List Option String JsonValue Text

/-- `execution_affinity_key`, on the policy and the source type of the server. -/
def executionAffinityKey (printer : Printer) (execution : ExecutionPolicy) (sourceType : String)
    (context : Option UpstreamLeaseContext) : Except String ExecutionAffinityKey :=
  (execution.affinityKey printer {
    clientId := context.bind UpstreamLeaseContext.clientId
    sessionId := context.bind UpstreamLeaseContext.sessionId
    projectRoot := context.bind UpstreamLeaseContext.projectRoot
    transport := (context.bind UpstreamLeaseContext.transport).or (some sourceType)
    metadata := context.bind UpstreamLeaseContext.metadata }).mapError
      ExecutionPolicyError.message

/-- A request as both sides receive it: the runtime gets the metadata document, the planner
its text, which is not blank. -/
structure Request (parse : String → Except String JsonValue) where
  clientId : Option String
  sessionId : Option String
  projectRoot : Option String
  metadata : Option JsonValue
  metadataText : Option String
  reads : metadataText.map parse = metadata.map Except.ok
  written : ∀ text ∈ metadataText, Text.trim text ≠ ""

namespace Request

variable {parse : String → Except String JsonValue}

def leaseContext (request : Request parse) : UpstreamLeaseContext :=
  { clientId := request.clientId, sessionId := request.sessionId,
    projectRoot := request.projectRoot, transport := none, metadata := request.metadata,
    ttlMs := none, allowArguments := [], allowedToolRiskClasses := [] }

def parsedArgs (request : Request parse) : ParsedArgs :=
  { clientId := request.clientId, sessionId := request.sessionId,
    projectRoot := request.projectRoot, transport := none,
    metadataJson := request.metadataText }

def plannedContext (env : String → Option String) (request : Request parse) :
    Except ClientMetadataError ResolvedContext :=
  (loadMetadata parse env request.parsedArgs).map (resolveContext env request.parsedArgs)

end Request

/-! ### The texts of a request

What stands in a request, told by its fields and by the paths of its metadata, without the
readers of either side. -/

/-- The first text that is not blank at one of the paths. -/
def textAt (document : JsonValue) (paths : List (List String)) : Option String :=
  (paths.filterMap (fun path => (document.stringAtPath path).bind trimNonEmpty)).head?

def below (places paths : List (List String)) : List (List String) :=
  places.flatMap (fun place => paths.map (place ++ ·))

/-- The places of a metadata document that the planner reads as documents. -/
def documentPlaces : List (List String) := [[], ["params"], ["payload"], ["payload", "params"]]

/-- The first context hint of each of them. -/
def hintPlaces (document : JsonValue) : List (List String) :=
  documentPlaces.filterMap (fun place =>
    (["com.mcpace/context", "com.mcpace.context", "mcpaceContext"].map
      (place ++ ["_meta", ·])).find? (fun path => (document.valueAtPath path).isSome))

def plannedPaths (paths hinted : List (List String)) (document : JsonValue) :
    List (List String) :=
  below documentPlaces paths ++ below (hintPlaces document) hinted

/-- The workspace roots of a metadata document, as normalized paths in order. -/
def rootsAt (document : JsonValue) : List String :=
  sortedUnique ((plannedPaths [["workspaceRoots"], ["workspace", "roots"], ["workspaces"],
    ["roots"], ["result", "roots"]] [["workspaceRoots"], ["workspaceRootsFallback"]]
    document).flatMap (fun path => ((((document.arrayAtPath path).getD []).filterMap
      (fun entry => ([[], ["uri"], ["path"], ["root"]].filterMap entry.stringAtPath).head?)).map
        normalizePath).filter (· ≠ "")))

namespace Request

variable {parse : String → Except String JsonValue} (printer : Printer)
  (env : String → Option String) (request : Request parse)

/-- The metadata of a planner call: that of the request, or else that of the environment. -/
def plannedMetadata : Option JsonValue :=
  request.metadata.or (((env "MCPACE_CLIENT_METADATA_JSON").filter (Text.trim · ≠ "")).bind
    (fun text => (parse text).toOption))

/-- A text of the environment, or else of the metadata. -/
def ambient (name : String) (paths hinted : List (List String)) : Option String :=
  ((env name).bind trimNonEmpty).or ((request.plannedMetadata env).bind (fun document =>
    textAt document (plannedPaths paths hinted document)))

def plannedClient : String :=
  ((request.clientId.bind trimNonEmpty).or (request.ambient env "MCPACE_CLIENT_ID"
    [["client", "id"], ["clientId"], ["clientInfo", "name"]]
    [["clientProfileId"], ["clientId"]])).getD "unknown-client"

def plannedConversation : Option String :=
  (request.ambient env "MCPACE_CONVERSATION_ID"
    [["conversation", "id"], ["conversationId"], ["chatId"]] [["conversationId"]]).or
    ((request.sessionId.bind trimNonEmpty).or (request.ambient env "MCPACE_SESSION_ID"
      [["session", "id"], ["sessionId"], ["externalSessionId"]]
      [["sessionId"], ["externalSessionId"]]))

def plannedInstance : Option String :=
  request.ambient env "MCPACE_CLIENT_INSTANCE_ID"
    [["clientInstanceId"], ["workspace", "id"], ["windowId"]] [["clientInstanceId"]]

def plannedTransportSession : Option String :=
  request.ambient env "MCPACE_TRANSPORT_SESSION_ID" [["transportSessionId"], ["mcpSessionId"],
    ["headers", "Mcp-Session-Id"], ["headers", "mcp-session-id"]]
    [["transportSessionId"], ["mcpSessionId"]]

def plannedCredential : Option String :=
  request.ambient env "MCPACE_CREDENTIAL_PROFILE_ID"
    [["credentialProfileId"], ["credential", "profileId"], ["auth", "profileId"]]
    [["credentialProfileId"], ["credential", "profileId"]]

/-- The root that is given, or else the only workspace root, the working directory when there
is no workspace root, the longest root around it when there are several. -/
def plannedRoot : Option String :=
  let normalized := fun path : Option String => (path.map normalizePath).bind trimNonEmpty
  let metadata := request.plannedMetadata env
  let roots := (metadata.map rootsAt).getD []
  let cwd := (normalized (env "MCPACE_CWD")).or (normalized (metadata.bind (fun document =>
    textAt document (plannedPaths [["cwd"], ["workingDirectory"]] [["cwd"]] document))))
  ((normalized request.projectRoot).or (normalized (env "MCPACE_PROJECT_ROOT"))).or
    (if roots.length ≤ 1 then roots.head?.or cwd
    else cwd.bind (fun cwd => (roots.filter (pathIsWithin cwd)).argmax byteLength))

/-- What a pool is told apart by, for a dimension of the policy. The transport is that of the
server. -/
def pooledBy : String → Option String
  | "client" => some (request.plannedClient env)
  | "project" => (request.plannedRoot env).bind trimNonEmpty
  | "chat" | "session" | "application" => request.plannedConversation env
  | "credential" => request.plannedCredential env
  | "metadata" => some (printer.compact (.ofEntries [("mcpace", .ofEntries [
      ("applicationSessionId", .stringOrNull (request.plannedConversation env)),
      ("chatId", .stringOrNull (request.plannedConversation env)),
      ("clientInstanceId", .stringOrNull (request.plannedInstance env)),
      ("transportSessionId", .stringOrNull (request.plannedTransportSession env)),
      ("credentialId", .stringOrNull (request.plannedCredential env))])]))
  | "transport-session" =>
    (request.plannedTransportSession env).or (request.plannedConversation env)
  | "client-instance" =>
    some ((request.plannedInstance env).getD (request.plannedClient env))
  | _ => none

/-- What a worker is told apart by. -/
def workedBy : String → Option String
  | "client" => some ((request.clientId.bind trimNonEmpty).getD "mcpace-upstream-bridge")
  | "project" => request.projectRoot.bind trimNonEmpty
  | "chat" | "session" | "application" =>
    (request.metadata.bind (textAt · [["mcpace", "applicationSessionId"], ["mcpace", "chatId"],
      ["applicationSessionId"], ["chatId"], ["conversationId"]])).or
      (request.sessionId.bind trimNonEmpty)
  | "credential" => request.metadata.bind (textAt · [["mcpace", "credentialId"],
      ["mcpace", "credential"], ["credentialId"], ["credential"]])
  | "metadata" => request.metadata.map printer.compact
  | "transport-session" =>
    (request.metadata.bind (textAt · [["mcpace", "transportSessionId"],
      ["transportSessionId"]])).or (request.sessionId.bind trimNonEmpty)
  | "client-instance" =>
    some ((request.metadata.bind (textAt · [["mcpace", "clientInstanceId"],
      ["clientInstanceId"]])).getD
        ((request.clientId.bind trimNonEmpty).getD "mcpace-upstream-bridge"))
  | _ => none

end Request

/-! ### The planner's identities -/

def ResolvedContext.plannerIdentity (printer : Printer) (record : ServerRecord)
    (context : ResolvedContext) : String → Option String
  | "client" => some context.clientId
  | "project" => context.projectRoot.bind trimNonEmpty
  | "chat" | "session" | "application" => context.conversation
  | "credential" => context.credentialProfileId
  | "metadata" => some (printer.fingerprintText (printer.compact context.affinityMetadata))
  | "transport" => some record.resolveUpstreamTransport
  | "transport-session" => context.transportSessionId.or context.conversation
  | "client-instance" => some (context.clientInstanceId.getD context.clientId)
  | _ => none

/-! ### The planner's document -/

section Document

variable (context : ResolvedContext)

theorem asStr_stringOrNull (value : Option String) : (stringOrNull value).asStr = value := by
  cases value <;> rfl

/-- The members of the document, as a lookup. -/
theorem stringAtPath_affinityMetadata (key : String) :
    context.affinityMetadata.stringAtPath ["mcpace", key] =
      if key = "credentialId" then context.credentialProfileId
      else if key = "transportSessionId" then context.transportSessionId
      else if key = "clientInstanceId" then context.clientInstanceId
      else if key = "chatId" ∨ key = "applicationSessionId" then context.conversation
      else none := by
  simp only [stringAtPath, valueAtPath_cons, ResolvedContext.affinityMetadata, get_ofEntries,
    reverse_cons, reverse_nil, nil_append, cons_append, OrderedMap.get_cons, OrderedMap.get_nil,
    if_true, bind_some]
  split_ifs <;> simp_all [asStr_stringOrNull]

/-- Nothing stands outside the one member of the document. -/
theorem stringAtPath_affinityMetadata_of_ne {key : String} (other : key ≠ "mcpace")
    (path : List String) : context.affinityMetadata.stringAtPath (key :: path) = none := by
  have outer : context.affinityMetadata.get key = none := by
    rw [ResolvedContext.affinityMetadata, get_ofEntries]
    simp [OrderedMap.get_cons, OrderedMap.get_nil, other]
  rw [stringAtPath, valueAtPath_cons, outer]
  rfl

/-- A search of the document finds the first of the members it has. -/
theorem metadataString_search {members others : List String} (outside : "mcpace" ∉ others) :
    metadataString (some context.affinityMetadata)
        (members.map (["mcpace", ·]) ++ others.map ([·])) =
      members.foldr (fun key rest => ((context.affinityMetadata.stringAtPath
        ["mcpace", key]).bind trimNonEmpty).or rest) none := by
  rw [metadataString, bind_some]
  induction members with
  | nil =>
    rw [map_nil, nil_append, foldr_nil, List.findSome?_eq_none_iff]
    intro path member
    obtain ⟨key, isKey, rfl⟩ := List.mem_map.mp member
    rw [stringAtPath_affinityMetadata_of_ne context (fun same => outside (same ▸ isKey)), bind_none]
  | cons key members ih =>
    rw [map_cons, cons_append, List.findSome?_cons, ih, foldr_cons]
    cases (context.affinityMetadata.stringAtPath ["mcpace", key]).bind trimNonEmpty <;> rfl

end Document

theorem resolveUpstreamTransport_clean (record : ServerRecord) :
    trimNonEmpty record.resolveUpstreamTransport = some record.resolveUpstreamTransport := by
  unfold ServerRecord.resolveUpstreamTransport
  simp only
  split_ifs <;> decide

variable {printer : Printer} {context : ResolvedContext} {dimension : String}

theorem mem_supported_of_plannerIdentity {record : ServerRecord} {value : String}
    (found : context.plannerIdentity printer record dimension = some value) :
    dimension ∈ supportedAffinities := by
  unfold ResolvedContext.plannerIdentity at found
  split at found <;> first | decide | cases found

/-- The affinity values of the planner's context are the planner's identities. -/
theorem value_affinityContext (settled : context.Settled) (printer : Printer)
    (record : ServerRecord) (dimension : String) :
    (context.affinityContext record).value printer dimension =
      context.plannerIdentity printer record dimension := by
  have conversation : context.conversation.bind trimNonEmpty = context.conversation :=
    settled.conversationId.or settled.sessionId
  have client := clean_some.mp settled.clientId
  have credential := settled.credentialProfileId
  have transportSession := settled.transportSessionId
  have clientInstance := settled.clientInstanceId
  unfold Clean at credential transportSession clientInstance
  set affinity := context.affinityContext record
  have document : affinity.metadata = some context.affinityMetadata := rfl
  have sessionId : affinity.sessionId = context.conversation := rfl
  have session : affinity.defaultSession = context.conversation := by
    have searched : affinity.applicationSessionId = context.conversation := by
      have found := @metadataString_search context ["applicationSessionId", "chatId"]
        ["applicationSessionId", "chatId", "conversationId"] (by decide)
      rw [ExecutionAffinityContext.applicationSessionId, document]
      simpa [stringAtPath_affinityMetadata, conversation] using found
    rw [ExecutionAffinityContext.defaultSession, searched, sessionId, conversation, Option.or_self]
  have trimmedClient : affinity.trimmedClient = context.clientId := by
    have given : affinity.clientId = some context.clientId := rfl
    rw [ExecutionAffinityContext.trimmedClient, given, bind_some, client, getD_some]
  have credentialSearch : metadataString (some context.affinityMetadata)
      [["mcpace", "credentialId"], ["mcpace", "credential"], ["credentialId"], ["credential"]] =
        context.credentialProfileId := by
    have found := @metadataString_search context ["credentialId", "credential"]
      ["credentialId", "credential"] (by decide)
    simpa [stringAtPath_affinityMetadata, credential] using found
  have transportSearch : metadataString (some context.affinityMetadata)
      [["mcpace", "transportSessionId"], ["transportSessionId"]] = context.transportSessionId := by
    have found := @metadataString_search context ["transportSessionId"] ["transportSessionId"] (by decide)
    simpa [stringAtPath_affinityMetadata, transportSession] using found
  have instanceSearch : metadataString (some context.affinityMetadata)
      [["mcpace", "clientInstanceId"], ["clientInstanceId"]] = context.clientInstanceId := by
    have found := @metadataString_search context ["clientInstanceId"] ["clientInstanceId"] (by decide)
    simpa [stringAtPath_affinityMetadata, clientInstance] using found
  have transport : affinity.defaultTransport = record.resolveUpstreamTransport := by
    have given : affinity.transport = some record.resolveUpstreamTransport := rfl
    rw [ExecutionAffinityContext.defaultTransport, given, bind_some,
      resolveUpstreamTransport_clean, getD_some]
  by_cases supported : dimension ∈ supportedAffinities
  · simp only [supportedAffinities, mem_cons, not_mem_nil, or_false] at supported
    rcases supported with
      rfl | rfl | rfl | rfl | rfl | rfl | rfl | rfl | rfl | rfl
    · exact congrArg some trimmedClient
    · rfl
    · exact session
    · exact session
    · exact credentialSearch
    · exact session
    · rfl
    · exact congrArg some transport
    · have read : affinity.value printer "transport-session" =
          (metadataString affinity.metadata [["mcpace", "transportSessionId"],
            ["transportSessionId"]]).or (affinity.sessionId.bind trimNonEmpty) := rfl
      rw [read, document, transportSearch, sessionId, conversation]
      rfl
    · have read : affinity.value printer "client-instance" =
          (metadataString affinity.metadata [["mcpace", "clientInstanceId"],
            ["clientInstanceId"]]).or (some affinity.trimmedClient) := rfl
      rw [read, document, instanceSearch, trimmedClient]
      show _ = some (context.clientInstanceId.getD context.clientId)
      cases context.clientInstanceId <;> rfl
  · have runtimeNone : affinity.value printer dimension = none := by
      rw [eq_none_iff_forall_ne_some]
      exact fun value found => supported (mem_supported_of_value found)
    have plannerNone : context.plannerIdentity printer record dimension = none := by
      rw [eq_none_iff_forall_ne_some]
      exact fun value found => supported (mem_supported_of_plannerIdentity found)
    rw [runtimeNone, plannerNone]

/-! ### What the planner finds -/

section Found

variable (document : JsonValue)

theorem textAt_eq (paths : List (List String)) : textAt document paths =
    paths.findSome? (fun path => (document.stringAtPath path).bind trimNonEmpty) :=
  head?_filterMap ..

theorem textAt_append (front back : List (List String)) :
    textAt document (front ++ back) = (textAt document front).or (textAt document back) := by
  rw [textAt, filterMap_append, List.head?_append]
  rfl

theorem below_cons (place : List String) (places paths : List (List String)) :
    below (place :: places) paths = paths.map (place ++ ·) ++ below places paths := rfl

theorem stringAtPath_append (front back : List String) : document.stringAtPath (front ++ back) =
    (document.valueAtPath front).bind (·.stringAtPath back) := by
  rw [stringAtPath, valueAtPath_append, Option.bind_assoc]
  rfl

theorem textAt_map (place : List String) (paths : List (List String)) :
    textAt document (paths.map (place ++ ·)) =
      (document.valueAtPath place).bind (textAt · paths) := by
  rw [textAt_eq, findSome?_map]
  cases found : document.valueAtPath place with
  | none =>
    rw [bind_none, findSome?_eq_none_iff]
    intro path _
    rw [Function.comp_apply, stringAtPath_append, found]
    rfl
  | some inner =>
    rw [bind_some, textAt_eq]
    congr 1
    funext path
    rw [Function.comp_apply, stringAtPath_append, found]
    rfl

theorem firstStringAtAnyPath_places (places paths : List (List String)) :
    firstStringAtAnyPath (places.filterMap document.valueAtPath) paths =
      textAt document (below places paths) := by
  induction places with
  | nil => rfl
  | cons place places ih =>
    rw [below_cons, textAt_append, textAt_map, ← ih]
    cases found : document.valueAtPath place with
    | none =>
      rw [filterMap_cons_none found]
      rfl
    | some inner =>
      rw [filterMap_cons_some found, bind_some, textAt_eq, firstStringAtAnyPath, findSome?_cons]
      cases paths.findSome? (fun path => (inner.stringAtPath path).bind trimNonEmpty) <;> rfl

theorem metadataDocuments_places :
    metadataDocuments document = documentPlaces.filterMap document.valueAtPath := by
  simp only [metadataDocuments, documentPlaces, filterMap_cons, filterMap_nil, valueAtPath_nil,
    valueAtPath_cons, singleton_append]
  cases document.get "payload" with
  | none => cases document.get "params" <;> rfl
  | some payload =>
    simp only [bind_some]
    cases document.get "params" <;> cases payload.get "params" <;> rfl

theorem find?_isSome_bind {α β : Type} (read : α → Option β) (items : List α) :
    (items.find? (fun item => (read item).isSome)).bind read = items.findSome? read := by
  induction items with
  | nil => rfl
  | cons item items ih =>
    rw [find?_cons, findSome?_cons, ← ih]
    cases found : read item with
    | none => rfl
    | some value => exact found

theorem contextHint_place (place : List String) :
    (document.valueAtPath place).bind contextHint =
      ((["com.mcpace/context", "com.mcpace.context", "mcpaceContext"].map
        (place ++ ["_meta", ·])).find? (fun path => (document.valueAtPath path).isSome)).bind
          document.valueAtPath := by
  have member (name : String) : document.valueAtPath (place ++ ["_meta", name]) =
      ((document.valueAtPath place).bind (·.get "_meta")).bind (·.get name) := by
    rw [valueAtPath_append, Option.bind_assoc]
    simp [valueAtPath_cons]
  have hint : (document.valueAtPath place).bind contextHint =
      ((document.valueAtPath place).bind (·.get "_meta")).bind (fun envelope =>
        ((envelope.get "com.mcpace/context").or (envelope.get "com.mcpace.context")).or
          (envelope.get "mcpaceContext")) := (Option.bind_assoc ..).symm
  rw [find?_isSome_bind, hint]
  simp only [map_cons, map_nil, findSome?_cons, findSome?_nil, member]
  cases (document.valueAtPath place).bind (·.get "_meta") with
  | none => rfl
  | some envelope =>
    simp only [bind_some]
    cases envelope.get "com.mcpace/context" <;> cases envelope.get "com.mcpace.context" <;>
      cases envelope.get "mcpaceContext" <;> rfl

theorem metadataContextHints_places :
    metadataContextHints (metadataDocuments document) =
      (hintPlaces document).filterMap document.valueAtPath := by
  rw [metadataContextHints, metadataDocuments_places, filterMap_filterMap, hintPlaces,
    filterMap_filterMap]
  congr 1
  funext place
  exact contextHint_place document place

/-- The two searches of the planner, as one search of the document. -/
theorem lookup_planned (paths hinted : List (List String)) :
    (firstStringAtAnyPath (metadataDocuments document) paths).or
        (firstStringAtAnyPath (metadataContextHints (metadataDocuments document)) hinted) =
      textAt document (plannedPaths paths hinted document) := by
  rw [metadataContextHints_places, metadataDocuments_places, firstStringAtAnyPath_places,
    firstStringAtAnyPath_places, ← textAt_append]
  rfl

theorem rootString_paths (entry : JsonValue) :
    rootString entry = ([[], ["uri"], ["path"], ["root"]].filterMap entry.stringAtPath).head? := by
  rw [head?_filterMap]
  cases entry with
  | object entries =>
    simp only [rootString, findSome?_cons, findSome?_nil, stringAtPath, valueAtPath_nil,
      valueAtPath_singleton, bind_some]
    cases (JsonValue.get "uri" (.object entries)).bind asStr <;>
      cases (JsonValue.get "path" (.object entries)).bind asStr <;>
        cases (JsonValue.get "root" (.object entries)).bind asStr <;> rfl
  | _ => rfl

theorem flatMap_places {β : Type} (read : JsonValue → List String → List β)
    (carried : ∀ front back, read document (front ++ back) =
      ((document.valueAtPath front).map (read · back)).getD [])
    (places paths : List (List String)) :
    (places.filterMap document.valueAtPath).flatMap (fun inner => paths.flatMap (read inner)) =
      (below places paths).flatMap (read document) := by
  induction places with
  | nil => rfl
  | cons place places ih =>
    rw [below_cons, flatMap_append, ← ih, flatMap_map]
    simp only [carried]
    cases found : document.valueAtPath place with
    | none => simp [filterMap_cons_none found]
    | some inner => simp [filterMap_cons_some found]

theorem metadataWorkspaceRoots_rootsAt :
    metadataWorkspaceRoots (metadataDocuments document)
      (metadataContextHints (metadataDocuments document)) = rootsAt document := by
  have carried (front back : List String) :
      rootStringsFromEntries (document.arrayAtPath (front ++ back)) =
        ((document.valueAtPath front).map
          (fun inner => rootStringsFromEntries (inner.arrayAtPath back))).getD [] := by
    rw [arrayAtPath, valueAtPath_append, Option.bind_assoc]
    cases document.valueAtPath front <;> rfl
  have places := flatMap_places document
    (fun inner path => rootStringsFromEntries (inner.arrayAtPath path)) carried
  have entries : rootString = fun entry =>
      ([[], ["uri"], ["path"], ["root"]].filterMap entry.stringAtPath).head? :=
    funext rootString_paths
  rw [metadataContextHints_places, metadataDocuments_places]
  unfold metadataWorkspaceRoots rootsAt plannedPaths
  rw [flatMap_append, ← entries]
  simp only [rootStringsFromEntries] at places
  rw [← places, ← places]
  simp [rootStringsFromEntries]

end Found

theorem bestMatchingRoot_argmax (cwd : String) (roots : List String) :
    bestMatchingRoot cwd none roots = (roots.filter (pathIsWithin cwd)).argmax byteLength := by
  rw [argmax]
  generalize none = best
  induction roots generalizing best with
  | nil => rfl
  | cons root roots ih =>
    unfold bestMatchingRoot
    cases inside : pathIsWithin cwd root with
    | false => simp [inside, ih]
    | true =>
      cases best with
      | none => simp [inside, ih, argAux]
      | some current =>
        by_cases longer : byteLength current ≥ byteLength root
        · simp [inside, ih, argAux, longer, Nat.not_lt.mpr longer]
        · simp [inside, ih, argAux, longer, Nat.lt_of_not_ge longer]

section Planned

variable {parse : String → Except String JsonValue} {env : String → Option String}
  {request : Request parse}

theorem loadMetadata_planned {envelope : MetadataEnvelope}
    (loaded : loadMetadata parse env request.parsedArgs = .ok envelope) :
    envelope = ((request.plannedMetadata env).map metadataEnvelope).getD .empty := by
  unfold loadMetadata Request.parsedArgs at loaded
  unfold Request.plannedMetadata
  have reads := request.reads
  have written := request.written
  cases given : request.metadataText with
  | some text =>
    rw [given, Option.map_some] at reads
    obtain ⟨document, isDocument, parsed⟩ := Option.map_eq_some_iff.mp reads.symm
    simp only [given, Option.some_or, getD_some, if_neg (written text given), ← parsed] at loaded
    cases loaded
    rw [isDocument]
    rfl
  | none =>
    rw [given, Option.map_none] at reads
    rw [Option.map_eq_none_iff.mp reads.symm, Option.none_or]
    simp only [given, Option.none_or] at loaded
    cases ambient : env "MCPACE_CLIENT_METADATA_JSON" with
    | none =>
      rw [ambient, getD_none, if_pos (by decide)] at loaded
      cases loaded
      rfl
    | some text =>
      rw [ambient, getD_some] at loaded
      by_cases blank : Text.trim text = ""
      · rw [if_pos blank] at loaded
        cases loaded
        simp [Option.filter, blank]
      · rw [if_neg blank] at loaded
        cases parsed : parse text with
        | error reason =>
          rw [parsed] at loaded
          cases loaded
        | ok document =>
          rw [parsed] at loaded
          cases loaded
          simp [Option.filter, blank, parsed, Except.toOption]

theorem resolveString_cons (candidate : Option String × String)
    (candidates : List (Option String × String)) (fallback : String) :
    (resolveString (candidate :: candidates) fallback).1 =
      (candidate.1.bind trimNonEmpty).or (resolveString candidates fallback).1 := by
  unfold resolveString
  rw [findSome?_cons, cleanOptionalString]
  cases candidate.1.bind trimNonEmpty <;> rfl

theorem resolveString_nil (fallback : String) : (resolveString [] fallback).1 = none := rfl

theorem clean_textAt (document : JsonValue) (paths : List (List String)) :
    (textAt document paths).bind trimNonEmpty = textAt document paths := by
  cases found : textAt document paths with
  | none => rfl
  | some text =>
    rw [textAt_eq] at found
    obtain ⟨path, -, found⟩ := exists_of_findSome?_eq_some found
    obtain ⟨raw, -, trimmed⟩ := Option.bind_eq_some_iff.mp found
    exact trimNonEmpty_idem trimmed

/-- What the envelope has for an identity, by the places of the metadata. -/
theorem envelope_text {field : MetadataEnvelope → Option String} {paths hinted : List (List String)}
    (empty : field .empty = none)
    (read : ∀ document, field (metadataEnvelope document) =
      (firstStringAtAnyPath (metadataDocuments document) paths).or
        (firstStringAtAnyPath (metadataContextHints (metadataDocuments document)) hinted))
    (metadata : Option JsonValue) :
    (field ((metadata.map metadataEnvelope).getD .empty)).bind trimNonEmpty =
      metadata.bind (fun document => textAt document (plannedPaths paths hinted document)) := by
  cases metadata with
  | none =>
    rw [Option.map_none, getD_none, empty]
    rfl
  | some document =>
    rw [Option.map_some, getD_some, read, lookup_planned, clean_textAt]
    rfl

theorem resolveProjectRoot_planned (args : ParsedArgs) (metadata : MetadataEnvelope)
    (cwd : Option String) :
    (resolveProjectRoot env args metadata cwd).1 =
      (((args.projectRoot.map normalizePath).bind trimNonEmpty).or
        (((env "MCPACE_PROJECT_ROOT").map normalizePath).bind trimNonEmpty)).or
        (if metadata.workspaceRoots.length ≤ 1 then metadata.workspaceRoots.head?.or cwd
        else cwd.bind (fun cwd =>
          (metadata.workspaceRoots.filter (pathIsWithin cwd)).argmax byteLength)) := by
  unfold resolveProjectRoot cleanOptionalString
  cases (args.projectRoot.map normalizePath).bind trimNonEmpty with
  | some root => rfl
  | none =>
    cases ((env "MCPACE_PROJECT_ROOT").map normalizePath).bind trimNonEmpty with
    | some root => rfl
    | none =>
      rcases metadata.workspaceRoots with _ | ⟨first, _ | ⟨second, roots⟩⟩ <;>
        rcases cwd with _ | cwd
      · rfl
      · rfl
      · rfl
      · rfl
      · rfl
      · have found := bestMatchingRoot_argmax cwd (first :: second :: roots)
        simp only [Option.none_or, bind_some, ← found, length_cons]
        rw [if_neg (by omega)]
        cases bestMatchingRoot cwd none (first :: second :: roots) <;> rfl

/-- The identities of a context are the texts that stand in the request. -/
structure Request.Planned (env : String → Option String) (request : Request parse)
    (context : ResolvedContext) : Prop where
  settled : context.Settled
  clientId : context.clientId = request.plannedClient env
  conversation : context.conversation = request.plannedConversation env
  clientInstanceId : context.clientInstanceId = request.plannedInstance env
  transportSessionId : context.transportSessionId = request.plannedTransportSession env
  credentialProfileId : context.credentialProfileId = request.plannedCredential env
  projectRoot : context.projectRoot = request.plannedRoot env

theorem planned_of_plannedContext {context : ResolvedContext}
    (planned : request.plannedContext env = .ok context) : request.Planned env context := by
  unfold Request.plannedContext at planned
  cases loaded : loadMetadata parse env request.parsedArgs with
  | error error =>
    rw [loaded] at planned
    cases planned
  | ok envelope =>
    rw [loaded] at planned
    cases planned
    rw [loadMetadata_planned loaded]
    have ambient {field : MetadataEnvelope → Option String} {paths hinted : List (List String)}
        (name : String) (empty : field .empty = none)
        (read : ∀ document, field (metadataEnvelope document) =
          (firstStringAtAnyPath (metadataDocuments document) paths).or
            (firstStringAtAnyPath (metadataContextHints (metadataDocuments document)) hinted)) :
        ((env name).bind trimNonEmpty).or
            ((field (((request.plannedMetadata env).map metadataEnvelope).getD .empty)).bind
              trimNonEmpty) = request.ambient env name paths hinted := by
      rw [envelope_text empty read]
      rfl
    have client := @ambient (·.clientId) _ _ "MCPACE_CLIENT_ID" rfl (fun _ => rfl)
    have session := @ambient (·.sessionId) _ _ "MCPACE_SESSION_ID" rfl (fun _ => rfl)
    have conversation := @ambient (·.conversationId) _ _ "MCPACE_CONVERSATION_ID" rfl
      (fun _ => rfl)
    have clientInstance := @ambient (·.clientInstanceId) _ _ "MCPACE_CLIENT_INSTANCE_ID" rfl
      (fun _ => rfl)
    have transportSession := @ambient (·.transportSessionId) _ _ "MCPACE_TRANSPORT_SESSION_ID" rfl
      (fun _ => rfl)
    have credential := @ambient (·.credentialProfileId) _ _ "MCPACE_CREDENTIAL_PROFILE_ID" rfl
      (fun _ => rfl)
    constructor
    · exact resolveContext_settled env request.parsedArgs _
    · rw [Request.plannedClient, ← client]
      simp only [resolveContext, resolveString_cons, resolveString_nil, Option.or_none]
      have fallback : (some "unknown-client").bind trimNonEmpty = some "unknown-client" := by decide
      rw [fallback, ← Option.or_assoc, ← Option.or_assoc, ← Option.or_assoc]
      exact getD_or ..
    · rw [Request.plannedConversation, ← conversation, ← session]
      simp only [ResolvedContext.conversation, resolveContext, resolveString_cons,
        resolveString_nil, Option.or_none]
      rfl
    · rw [Request.plannedInstance, ← clientInstance]
      simp only [resolveContext, resolveString_cons, resolveString_nil, Option.or_none]
    · rw [Request.plannedTransportSession, ← transportSession]
      simp only [resolveContext, resolveString_cons, resolveString_nil, Option.or_none]
    · rw [Request.plannedCredential, ← credential]
      simp only [resolveContext, resolveString_cons, resolveString_nil, Option.or_none]
    · have cwd : (((request.plannedMetadata env).map metadataEnvelope).getD .empty).cwd =
          ((request.plannedMetadata env).bind (fun document => textAt document
            (plannedPaths [["cwd"], ["workingDirectory"]] [["cwd"]] document))).map
              normalizePath := by
        cases request.plannedMetadata env with
        | none => rfl
        | some document => exact congrArg (Option.map normalizePath) (lookup_planned document _ _)
      have roots : (((request.plannedMetadata env).map metadataEnvelope).getD
          .empty).workspaceRoots = ((request.plannedMetadata env).map rootsAt).getD [] := by
        cases request.plannedMetadata env with
        | none => rfl
        | some document => exact metadataWorkspaceRoots_rootsAt document
      simp only [resolveContext, resolveProjectRoot_planned, resolveString_cons, resolveString_nil,
        Option.or_none, cwd, roots]
      rfl

end Planned

/-! ### The values of each side -/

/-- The value of a dimension, by the text that the request has for it. -/
def told (printer : Printer) (transport dimension : String) (text : Option String) :
    Option String :=
  if dimension = "transport" then some transport
  else if dimension = "metadata" then text.map printer.fingerprintText
  else text

theorem told_eq_iff {printer : Printer} (faithful : printer.Faithful) {transport dimension : String}
    {left right : Option String} (constant : dimension = "transport" → left = right) :
    told printer transport dimension left = told printer transport dimension right ↔
      left = right := by
  unfold told
  split_ifs with isTransport
  · simp [constant isTransport]
  · exact (Option.map_injective faithful.injective).eq_iff
  · rfl

section Values

variable {parse : String → Except String JsonValue} {env : String → Option String}
  {request : Request parse}

theorem plannerIdentity_told (planned : request.Planned env context) (printer : Printer)
    (record : ServerRecord) (dimension : String) :
    context.plannerIdentity printer record dimension =
      told printer record.resolveUpstreamTransport dimension
        (request.pooledBy printer env dimension) := by
  have document : printer.compact context.affinityMetadata =
      (request.pooledBy printer env "metadata").getD "" := by
    rw [ResolvedContext.affinityMetadata, planned.conversation, planned.clientInstanceId,
      planned.transportSessionId, planned.credentialProfileId]
    rfl
  unfold ResolvedContext.plannerIdentity
  split
  · exact congrArg some planned.clientId
  · exact congrArg (·.bind trimNonEmpty) planned.projectRoot
  · exact planned.conversation
  · exact planned.conversation
  · exact planned.conversation
  · exact planned.credentialProfileId
  · exact congrArg (fun text => some (printer.fingerprintText text)) document
  · rfl
  · rw [planned.transportSessionId, planned.conversation]
    rfl
  · rw [planned.clientInstanceId, planned.clientId]
    rfl
  · rename_i notClient notProject notChat notSession notApplication notCredential notMetadata
      notTransport notTransportSession notInstance
    rw [told, if_neg notTransport, if_neg notMetadata]
    unfold Request.pooledBy
    split <;> first | rfl | contradiction

theorem metadataString_textAt (metadata : Option JsonValue) (paths : List (List String)) :
    metadataString metadata paths = metadata.bind (textAt · paths) := by
  simp only [metadataString, textAt_eq]

/-- The affinity values of the runtime's context. -/
theorem value_leaseContext (request : Request parse) (printer : Printer)
    (sourceType dimension : String) :
    ExecutionAffinityContext.value printer {
      clientId := request.clientId, sessionId := request.sessionId,
      projectRoot := request.projectRoot, transport := some sourceType,
      metadata := request.metadata } dimension =
      told printer ((trimNonEmpty sourceType).getD "stdio") dimension
        (request.workedBy printer dimension) := by
  unfold ExecutionAffinityContext.value ExecutionAffinityContext.defaultSession
    ExecutionAffinityContext.applicationSessionId
  simp only [metadataString_textAt]
  split
  · rfl
  · rfl
  · rfl
  · rfl
  · rfl
  · rfl
  · exact (Option.map_map ..).symm
  · rfl
  · rfl
  · exact or_some ..
  · rename_i notClient notProject notChat notSession notApplication notCredential notMetadata
      notTransport notTransportSession notInstance
    rw [told, if_neg notTransport, if_neg notMetadata]
    unfold Request.workedBy
    split <;> first | rfl | contradiction

end Values

/-! ### Keys -/

/-- The characters of a fingerprint: nothing that a path normalization changes. -/
def solidCharacter (char : Char) : Bool :=
  isAsciiAlphanumeric char || ['-', '=', '|'].contains char

variable {char : Char}

theorem solid_plain (solid : solidCharacter char = true) :
    isWhitespace char = false ∧ char ≠ '\\' := by
  simp only [solidCharacter, Bool.or_eq_true, contains_eq_mem, decide_eq_true_eq,
    mem_cons, not_mem_nil, or_false] at solid
  rcases solid with alphanumeric | rfl | rfl | rfl
  · refine ⟨isWhitespace_of_isAsciiAlphanumeric alphanumeric, ?_⟩
    rintro rfl
    cases alphanumeric
  · decide
  · decide
  · decide

theorem mode_solid (mode : ExecutionMode) :
    ("mode=" ++ mode.asStr ++ "|affinity=global").toList.all solidCharacter = true ∧
      ("mode=" ++ mode.asStr ++ "|").toList.all solidCharacter = true := by
  cases mode <;> decide

theorem supported_solid (supported : dimension ∈ supportedAffinities) :
    (dimension ++ "=").toList.all solidCharacter = true := by
  revert dimension
  decide

variable {policy : ExecutionPolicy} {key : ExecutionAffinityKey}

theorem fingerprint_solid (faithful : printer.Faithful) {context : ExecutionAffinityContext}
    (resolved : policy.affinityKey printer context = .ok key) :
    ∀ char ∈ key.fingerprint.toList, solidCharacter char = true := by
  obtain ⟨complete, shape⟩ := fingerprint_of_affinityKey resolved
  have modes := mode_solid policy.mode
  simp only [List.all_eq_true] at modes
  intro char member
  rw [shape] at member
  split at member
  · exact modes.1 char member
  · rw [toList_append, mem_append] at member
    rcases member with member | member
    · exact modes.2 char member
    · rw [toList_intercalate] at member
      rcases Text.mem_of_mem_intercalate member with separator | ⟨part, inParts, member⟩
      · rw [mem_singleton.mp separator]
        decide
      · rw [List.map_map] at inParts
        obtain ⟨dimension, inAffinity, rfl⟩ := List.mem_map.mp inParts
        obtain ⟨value, found⟩ := isSome_iff_exists.mp (complete dimension inAffinity)
        have field := supported_solid (mem_supported_of_value found)
        rw [List.all_eq_true] at field
        rw [Function.comp_apply, toList_append, mem_append] at member
        rcases member with member | member
        · exact field char member
        · rcases faithful.plain member with alphanumeric | rfl
          · rw [solidCharacter, alphanumeric, Bool.true_or]
          · decide

/-- A fingerprint is no path: its key only has its separators replaced. -/
theorem sanitizeKey_fingerprint (faithful : printer.Faithful) {context : ExecutionAffinityContext}
    (resolved : policy.affinityKey printer context = .ok key) :
    (sanitizeKey key.fingerprint).toList = key.fingerprint.toList.map sanitizeChar := by
  have opens : ∃ rest, key.fingerprint.toList = 'm' :: rest := by
    rw [(fingerprint_of_affinityKey resolved).2]
    split
    · exact ⟨_, by simp only [toList_append]; rfl⟩
    · exact ⟨_, by simp only [toList_append]; rfl⟩
  obtain ⟨rest, begins⟩ := opens
  have path : normalizePath key.fingerprint = key.fingerprint := by
    apply normalizePath_eq_self
    · intro char member
      exact solid_plain (fingerprint_solid faithful resolved char member)
    · rw [begins]
      exact decodeFileUri_of_head (by decide)
  rw [sanitizeKey, path, toList_ofList]

/-! ### The two partitions -/

section Partition

variable {parse : String → Except String JsonValue} {printer : Printer} {record : ServerRecord}
  {env : String → Option String} {left right : Request parse}

/-- The runtime separates requests by the texts of `workedBy`. -/
theorem runtime_fingerprint_iff (faithful : printer.Faithful)
    {leftKey rightKey : ExecutionAffinityKey}
    (leftAccepted : executionAffinityKey printer record.execution record.sourceType
      (some left.leaseContext) = .ok leftKey)
    (rightAccepted : executionAffinityKey printer record.execution record.sourceType
      (some right.leaseContext) = .ok rightKey) :
    leftKey.fingerprint = rightKey.fingerprint ↔ ∀ dimension ∈ record.execution.affinity,
      left.workedBy printer dimension = right.workedBy printer dimension := by
  unfold executionAffinityKey at leftAccepted rightAccepted
  have keys := fingerprint_eq_iff faithful id (fun _ _ => rfl) (by decide)
    (Checks.mapError_eq_ok leftAccepted) (Checks.mapError_eq_ok rightAccepted)
  rw [List.map_id, List.map_id, toList_inj] at keys
  rw [keys]
  refine forall₂_congr fun dimension _ => ?_
  have leftValue := value_leaseContext left printer record.sourceType dimension
  have rightValue := value_leaseContext right printer record.sourceType dimension
  refine (iff_of_eq (congrArg₂ Eq leftValue rightValue)).trans (told_eq_iff faithful ?_)
  rintro rfl
  rfl

theorem affinityKey_of_affinityResolved {context : ResolvedContext}
    (accepted : (resolveScope printer record context).affinityResolved = true) :
    ∃ key, record.execution.affinityKey printer (context.affinityContext record) = .ok key ∧
      (resolveScope printer record context).workerPoolKey =
        workerPoolKey record key.fingerprint := by
  cases resolved : record.execution.affinityKey printer (context.affinityContext record) with
  | error error =>
    simp only [resolveScope, resolved] at accepted
    cases accepted
  | ok key =>
    refine ⟨key, rfl, ?_⟩
    simp only [resolveScope, resolved]

/-- The planner separates requests by the texts of `pooledBy`. -/
theorem planner_workerPoolKey_iff (faithful : printer.Faithful)
    {leftContext rightContext : ResolvedContext} (leftPlanned : left.Planned env leftContext)
    (rightPlanned : right.Planned env rightContext)
    (leftAccepted : (resolveScope printer record leftContext).affinityResolved = true)
    (rightAccepted : (resolveScope printer record rightContext).affinityResolved = true) :
    (resolveScope printer record leftContext).workerPoolKey =
        (resolveScope printer record rightContext).workerPoolKey ↔
      ∀ dimension ∈ record.execution.affinity,
        left.pooledBy printer env dimension = right.pooledBy printer env dimension := by
  obtain ⟨leftKey, leftResolved, leftPool⟩ := affinityKey_of_affinityResolved leftAccepted
  obtain ⟨rightKey, rightResolved, rightPool⟩ := affinityKey_of_affinityResolved rightAccepted
  have keeps : ∀ char, isAsciiAlphanumeric char = true ∨ char = '-' → sanitizeChar char = char := by
    intro char plain
    rcases plain with alphanumeric | rfl
    · rw [sanitizeChar, alphanumeric, Bool.true_or, if_pos rfl]
    · decide
  have keys := fingerprint_eq_iff faithful sanitizeChar keeps (by decide) leftResolved rightResolved
  rw [← sanitizeKey_fingerprint faithful leftResolved,
    ← sanitizeKey_fingerprint faithful rightResolved, toList_inj] at keys
  simp only [value_affinityContext leftPlanned.settled, value_affinityContext rightPlanned.settled,
    plannerIdentity_told leftPlanned, plannerIdentity_told rightPlanned] at keys
  -- Rewriting would compare the two scopes by unfolding them, so the steps are chained.
  calc
    _ ↔ workerPoolKey record leftKey.fingerprint = workerPoolKey record rightKey.fingerprint :=
      iff_of_eq (congrArg₂ Eq leftPool rightPool)
    _ ↔ sanitizeKey leftKey.fingerprint = sanitizeKey rightKey.fingerprint :=
      String.append_right_inj _
    _ ↔ _ := keys
    _ ↔ _ := forall₂_congr fun dimension _ => told_eq_iff faithful (by rintro rfl; rfl)

/-- Planner and runtime divide two requests in the same way exactly when the texts that tell
their workers apart and the texts that tell their pools apart agree alike, over the dimensions
of the policy. -/
theorem partition_iff (faithful : printer.Faithful) {leftKey rightKey : ExecutionAffinityKey}
    {leftContext rightContext : ResolvedContext}
    (leftAdmitted : executionAffinityKey printer record.execution record.sourceType
      (some left.leaseContext) = .ok leftKey)
    (rightAdmitted : executionAffinityKey printer record.execution record.sourceType
      (some right.leaseContext) = .ok rightKey)
    (leftPlanned : left.plannedContext env = .ok leftContext)
    (rightPlanned : right.plannedContext env = .ok rightContext)
    (leftRouted : (resolveScope printer record leftContext).affinityResolved = true)
    (rightRouted : (resolveScope printer record rightContext).affinityResolved = true) :
    (leftKey.fingerprint = rightKey.fingerprint ↔
        (resolveScope printer record leftContext).workerPoolKey =
          (resolveScope printer record rightContext).workerPoolKey) ↔
      ((∀ dimension ∈ record.execution.affinity,
          left.workedBy printer dimension = right.workedBy printer dimension) ↔
        ∀ dimension ∈ record.execution.affinity,
          left.pooledBy printer env dimension = right.pooledBy printer env dimension) := by
  rw [runtime_fingerprint_iff faithful leftAdmitted rightAdmitted,
    planner_workerPoolKey_iff faithful (planned_of_plannedContext leftPlanned)
      (planned_of_plannedContext rightPlanned) leftRouted rightRouted]

end Partition

/-! ### Runs -/

/-- Every character by its decimal code, with dashes behind them. -/
def digitCode : List Char → List Char
  | [] => []
  | char :: rest => Nat.toDigits 10 char.toNat ++ '-' :: digitCode rest

def digitPrinter : Printer :=
  { fingerprintText := fun text => String.ofList (digitCode text.toList)
    compact := fun _ => "" }

theorem dash_notMem_toDigits (code : Nat) : '-' ∉ Nat.toDigits 10 code := by
  intro member
  have digit := Nat.isDigit_of_mem_toDigits (by decide) (by decide) member
  cases digit

theorem digitCode_injective : Function.Injective digitCode := by
  intro left right same
  induction left generalizing right with
  | nil =>
    cases right with
    | nil => rfl
    | cons char rest => simp [digitCode] at same
  | cons char rest ih =>
    cases right with
    | nil => simp [digitCode] at same
    | cons other others =>
      obtain ⟨digits, later⟩ := (append_separator_inj
        (dash_notMem_toDigits _) (dash_notMem_toDigits _)).mp same
      have codes : char.toNat = other.toNat := by
        rw [← Nat.ofDigitChars_ten_toDigits (n := char.toNat), digits,
          Nat.ofDigitChars_ten_toDigits]
      rw [Char.toNat_inj.mp codes, ih later]

theorem digitCode_plain {text : List Char} (member : char ∈ digitCode text) :
    isAsciiAlphanumeric char = true ∨ char = '-' := by
  induction text with
  | nil => cases member
  | cons first rest ih =>
    rw [digitCode, mem_append, mem_cons] at member
    rcases member with digit | rfl | later
    · have isDigit := Nat.isDigit_of_mem_toDigits (by decide) (by decide) digit
      exact .inl (by simp [isAsciiAlphanumeric, isDigit])
    · exact .inr rfl
    · exact ih later

theorem digitPrinter_faithful : digitPrinter.Faithful where
  injective := by
    intro left right same
    have codes := ofList_injective same
    exact toList_inj.mp (digitCode_injective codes)
  plain := by
    intro text char member
    have inCode : char ∈ (String.ofList (digitCode text.toList)).toList := member
    rw [toList_ofList] at inCode
    exact digitCode_plain inCode

/-- A server with one worker per client and chat. -/
def chatServer : ServerRecord :=
  { name := "files", kind := "source-stdio", sourceType := "stdio",
    transportPreference := "stdio", supportedTransports := ["stdio"], scopeClass := "",
    concurrencyPolicy := "single-session", stateBinding := "", conflictDomain := "",
    projectRootMode := "", worktreeBinding := "", stateProfileMode := "", hostLock := "",
    routingGroup := "", execution := ExecutionPolicy.forMode .sessionIsolated }

def conversationText (id : String) : String :=
  "\x7b\"conversation\":\x7b\"id\":\"" ++ id ++ "\"\x7d\x7d"

def conversationDocument (id : String) : JsonValue :=
  .object [("conversation", .object [("id", .string id)])]

def conversationParse (text : String) : Except String JsonValue :=
  if text = conversationText "a" then .ok (conversationDocument "a")
  else if text = conversationText "b" then .ok (conversationDocument "b")
  else .error "expected value"

def plainRequest (session : String) : Request conversationParse :=
  { clientId := some "editor", sessionId := some session, projectRoot := none,
    metadata := none, metadataText := none, reads := rfl, written := by nofun }

/-- Two conversations of one session of one client. -/
def conversationRequest (id : String)
    (read : conversationParse (conversationText id) = .ok (conversationDocument id) ∧
      Text.trim (conversationText id) ≠ "") :
    Request conversationParse :=
  { clientId := some "editor", sessionId := some "s1", projectRoot := none,
    metadata := some (conversationDocument id), metadataText := some (conversationText id),
    reads := congrArg some read.1, written := fun _ isText => Option.some.inj isText ▸ read.2 }

def chatKey (request : Request conversationParse) : Except String ExecutionAffinityKey :=
  executionAffinityKey digitPrinter chatServer.execution "stdio" (some request.leaseContext)

def chatScope (request : Request conversationParse) :
    Except ClientMetadataError ScopeResolution :=
  (request.plannedContext (fun _ => none)).map (resolveScope digitPrinter chatServer)

theorem exists_ok {ε α : Type} {result : Except ε α} (accepted : result.toOption.isSome = true) :
    ∃ value, result = .ok value := by
  cases result with
  | error error => cases accepted
  | ok value => exact ⟨value, rfl⟩

def plainContext (session : String) : ResolvedContext :=
  resolveContext (fun _ => none) (plainRequest session).parsedArgs .empty

theorem plannedContext_plainRequest (session : String) :
    (plainRequest session).plannedContext (fun _ => none) = .ok (plainContext session) := rfl

/-- Without metadata both sides tell two sessions apart. -/
theorem partition_plainRequests : ∃ leftKey rightKey,
      chatKey (plainRequest "s1") = .ok leftKey ∧ chatKey (plainRequest "s2") = .ok rightKey ∧
      (leftKey.fingerprint = rightKey.fingerprint ↔
        (resolveScope digitPrinter chatServer (plainContext "s1")).workerPoolKey =
          (resolveScope digitPrinter chatServer (plainContext "s2")).workerPoolKey) := by
  obtain ⟨leftKey, leftAdmitted⟩ : ∃ key, chatKey (plainRequest "s1") = .ok key :=
    exists_ok (by decide)
  obtain ⟨rightKey, rightAdmitted⟩ : ∃ key, chatKey (plainRequest "s2") = .ok key :=
    exists_ok (by decide)
  refine ⟨leftKey, rightKey, leftAdmitted, rightAdmitted, ?_⟩
  exact (partition_iff digitPrinter_faithful leftAdmitted rightAdmitted
    (plannedContext_plainRequest "s1") (plannedContext_plainRequest "s2")
    (by decide) (by decide)).mpr (by decide)

/-- The planner reads `conversation.id`, the runtime does not: the two conversations share a
worker, and are planned into different pools. -/
theorem partition_conversations : digitPrinter.Faithful ∧
      ((chatKey (conversationRequest "a" (by decide))).map (·.fingerprint) =
        (chatKey (conversationRequest "b" (by decide))).map (·.fingerprint)) ∧
      (chatKey (conversationRequest "a" (by decide))).toOption.isSome = true ∧
      ((chatScope (conversationRequest "a" (by decide))).map (·.affinityResolved)) =
        .ok true ∧
      ((chatScope (conversationRequest "b" (by decide))).map (·.affinityResolved)) =
        .ok true ∧
      ((chatScope (conversationRequest "a" (by decide))).map (·.workerPoolKey)) ≠
        ((chatScope (conversationRequest "b" (by decide))).map (·.workerPoolKey)) :=
  ⟨digitPrinter_faithful, by decide, by decide, by decide, by decide +kernel, by decide +kernel⟩

end Mcpace.Client

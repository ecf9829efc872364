import Mcpace.Client.Metadata

/-!
Owns the context of a planner call: `src/client/context.rs`.

Every identity is the first candidate that is not blank, in the order command line,
environment, metadata. A session lease is named after an explicit session id, or after a
hash of everything else that is known.
-/

namespace Mcpace.Client

open Library Text

structure ResolvedContext where
  clientId : String
  clientIdSource : String
  sessionId : Option String
  sessionIdSource : String
  sessionLeaseId : String
  sessionLeaseSource : String
  conversationId : Option String
  conversationIdSource : String
  clientInstanceId : Option String
  clientInstanceIdSource : String
  transportSessionId : Option String
  transportSessionIdSource : String
  credentialProfileId : Option String
  credentialProfileIdSource : String
  projectRoot : Option String
  projectRootSource : String
  workspaceRoots : List String
  cwd : Option String
  cwdSource : String
  preferredIngress : String
  preferredIngressSource : String
  warnings : List String

def cleanOptionalString (value : Option String) : Option String := value.bind trimNonEmpty

/-- The first candidate that is not blank, with the name of its source. -/
def resolveString (candidates : List (Option String × String)) (fallbackSource : String) :
    Option String × String :=
  match candidates.findSome? (fun candidate =>
      (cleanOptionalString candidate.1).map (fun value => (value, candidate.2))) with
  | some (value, source) => (some value, source)
  | none => (none, fallbackSource)

/-! ### Project roots -/

def byteLength (text : String) : Nat := (text.toList.map Char.utf8Size).sum

/-- The longest root that contains the path, the first of them among equals. -/
def bestMatchingRoot (cwd : String) : Option String → List String → Option String
  | best, [] => best
  | best, root :: roots =>
    if pathIsWithin cwd root then
      match best with
      | some current =>
        if byteLength current ≥ byteLength root then bestMatchingRoot cwd best roots
        else bestMatchingRoot cwd (some root) roots
      | none => bestMatchingRoot cwd (some root) roots
    else bestMatchingRoot cwd best roots

/-- The root, its source, and the warning about roots that do not match. -/
def resolveProjectRoot (env : String → Option String) (args : ParsedArgs)
    (metadata : MetadataEnvelope) (cwd : Option String) : Option String × String × List String :=
  match cleanOptionalString (args.projectRoot.map normalizePath) with
  | some value => (some value, "flag", [])
  | none =>
    match cleanOptionalString ((env "MCPACE_PROJECT_ROOT").map normalizePath) with
    | some value => (some value, "env", [])
    | none =>
      match metadata.workspaceRoots with
      | [root] => (some root, "metadata-single-root", [])
      | [] =>
        match cwd with
        | some cwd => (some cwd, "metadata-cwd", [])
        | none => (none, "unresolved", [])
      | roots =>
        match cwd with
        | none => (none, "ambiguous-workspace-roots", [])
        | some cwd =>
          match bestMatchingRoot cwd none roots with
          | some best => (some best, "metadata-roots+cwd", [])
          | none =>
            (none, "ambiguous-workspace-roots",
              [toString roots.length ++ " workspace roots were provided, but cwd '" ++
                cwd ++ "' did not match any of them."])

/-! ### Session leases -/

structure SessionLeaseInput where
  clientId : String
  sessionId : Option String
  conversationId : Option String
  clientInstanceId : Option String
  transportSessionId : Option String
  projectRoot : Option String
  cwd : Option String
  preferredIngress : String

def seedEntry (key : String) (value : Option String) : List String :=
  ((cleanOptionalString value).map (fun value => key ++ ":" ++ sanitizeKey value)).toList

def resolveSessionLease (input : SessionLeaseInput) : String × String :=
  match cleanOptionalString input.sessionId with
  | some externalSessionId =>
    ("external:" ++ sanitizeKey externalSessionId, "external-session-id")
  | none =>
    let seed := seedEntry "client" (some input.clientId) ++
      seedEntry "conversation" input.conversationId ++
      seedEntry "client-instance" input.clientInstanceId ++
      seedEntry "transport-session" input.transportSessionId ++
      seedEntry "project-root" input.projectRoot ++ seedEntry "cwd" input.cwd ++
      seedEntry "ingress" (some input.preferredIngress)
    let seed := if seed = [] then ["anonymous"] else seed
    ("planned:" ++ stableHashHex ("|".intercalate seed), "planned-fallback")

/-! ### Resolution -/

def resolveContext (env : String → Option String) (args : ParsedArgs)
    (metadata : MetadataEnvelope) : ResolvedContext :=
  let clientId := resolveString [(args.clientId, "flag"), (env "MCPACE_CLIENT_ID", "env"),
    (metadata.clientId, "metadata"), (some "unknown-client", "fallback")] "fallback"
  let sessionId := resolveString [(args.sessionId, "flag"), (env "MCPACE_SESSION_ID", "env"),
    (metadata.sessionId, "metadata")] "none"
  let ambient := fun (name : String) (value : Option String) =>
    resolveString [(env name, "env"), (value, "metadata")] "none"
  let conversationId := ambient "MCPACE_CONVERSATION_ID" metadata.conversationId
  let clientInstanceId := ambient "MCPACE_CLIENT_INSTANCE_ID" metadata.clientInstanceId
  let transportSessionId := ambient "MCPACE_TRANSPORT_SESSION_ID" metadata.transportSessionId
  let credentialProfileId := ambient "MCPACE_CREDENTIAL_PROFILE_ID" metadata.credentialProfileId
  let cwd := resolveString [((env "MCPACE_CWD").map normalizePath, "env"),
    (metadata.cwd, "metadata")] "none"
  let projectRoot := resolveProjectRoot env args metadata cwd.1
  let preferredIngress := resolveString [(args.transport.map normalizeTransport, "flag"),
    (((env "MCPACE_CLIENT_TRANSPORT").or (env "MCPACE_CLIENT_INGRESS")).map normalizeTransport,
      "env"),
    (metadata.transport.map normalizeTransport, "metadata"), (some "stdio", "default-local")]
    "default-local"
  let client := clientId.1.getD "unknown-client"
  let ingress := preferredIngress.1.getD "stdio"
  let sessionLease := resolveSessionLease {
    clientId := client, sessionId := sessionId.1, conversationId := conversationId.1,
    clientInstanceId := clientInstanceId.1, transportSessionId := transportSessionId.1,
    projectRoot := projectRoot.1, cwd := cwd.1, preferredIngress := ingress }
  let derivedWarning := if sessionId.1.isNone then
    ["No external session id was resolved; the plan derived an internal session lease '" ++
      sessionLease.1 ++ "' from " ++ sessionLease.2 ++
      " and the future hub must keep that lease sticky for the life of the connection."] else []
  let sharedWarning := if sessionId.1.isNone ∧ conversationId.1.isNone ∧
      clientInstanceId.1.isNone ∧ transportSessionId.1.isNone then
    ["No external session, conversation, client-instance, or transport-session id was resolved; multiple live instances of the same client in the same project can share the derived planned lease. Pass --session-id, MCPACE_SESSION_ID, MCPACE_CLIENT_INSTANCE_ID, or _meta.com.mcpace/context metadata for strict multi-client isolation."]
    else []
  let rootsWarning := if metadata.workspaceRoots.length > 1 ∧ projectRoot.1.isNone then
    ["Multiple workspace roots were provided but no explicit project root or cwd selected a single project; project-local routing stays unresolved."]
    else []
  { clientId := client, clientIdSource := clientId.2
    sessionId := sessionId.1, sessionIdSource := sessionId.2
    sessionLeaseId := sessionLease.1, sessionLeaseSource := sessionLease.2
    conversationId := conversationId.1, conversationIdSource := conversationId.2
    clientInstanceId := clientInstanceId.1, clientInstanceIdSource := clientInstanceId.2
    transportSessionId := transportSessionId.1
    transportSessionIdSource := transportSessionId.2
    credentialProfileId := credentialProfileId.1
    credentialProfileIdSource := credentialProfileId.2
    projectRoot := projectRoot.1, projectRootSource := projectRoot.2.1
    workspaceRoots := metadata.workspaceRoots
    cwd := cwd.1, cwdSource := cwd.2
    preferredIngress := ingress, preferredIngressSource := preferredIngress.2
    warnings := sortedUnique
      (projectRoot.2.2 ++ derivedWarning ++ sharedWarning ++ rootsWarning) }

/-! ### Clean identities -/

/-- A text that is not blank and has no white space around it. -/
def Clean (value : Option String) : Prop := value.bind trimNonEmpty = value

/-- The identities of a resolved context are clean; its project root need not be. -/
structure ResolvedContext.Settled (context : ResolvedContext) : Prop where
  clientId : Clean (some context.clientId)
  sessionId : Clean context.sessionId
  conversationId : Clean context.conversationId
  clientInstanceId : Clean context.clientInstanceId
  transportSessionId : Clean context.transportSessionId
  credentialProfileId : Clean context.credentialProfileId

theorem clean_none : Clean none := rfl

theorem clean_some {text : String} : Clean (some text) ↔ trimNonEmpty text = some text := by
  rw [Clean, Option.bind_some]

theorem clean_cleanOptionalString (value : Option String) : Clean (cleanOptionalString value) := by
  cases found : cleanOptionalString value with
  | none => exact clean_none
  | some text =>
    obtain ⟨raw, -, trimmed⟩ := Option.bind_eq_some_iff.mp found
    exact clean_some.mpr (trimNonEmpty_idem trimmed)

theorem clean_resolveString (candidates : List (Option String × String)) (fallback : String) :
    Clean (resolveString candidates fallback).1 := by
  unfold resolveString
  split
  · rename_i value source found
    obtain ⟨candidate, -, found⟩ := List.exists_of_findSome?_eq_some found
    obtain ⟨text, cleaned, same⟩ := Option.map_eq_some_iff.mp found
    have clean := clean_cleanOptionalString candidate.1
    rw [cleaned, (Prod.mk.inj same).1] at clean
    exact clean
  · exact clean_none

theorem Clean.or {left right : Option String} (cleanLeft : Clean left) (cleanRight : Clean right) :
    Clean (left.or right) := by
  cases left with
  | none => exact cleanRight
  | some _ => exact cleanLeft

theorem clean_getD {value : Option String} {fallback : String} (clean : Clean value)
    (cleanFallback : Clean (some fallback)) : Clean (some (value.getD fallback)) := by
  cases value with
  | none => exact cleanFallback
  | some _ => exact clean

theorem resolveContext_settled (env : String → Option String) (args : ParsedArgs)
    (metadata : MetadataEnvelope) : (resolveContext env args metadata).Settled where
  clientId := clean_getD (clean_resolveString _ _) (by unfold Clean; decide)
  sessionId := clean_resolveString _ _
  conversationId := clean_resolveString _ _
  clientInstanceId := clean_resolveString _ _
  transportSessionId := clean_resolveString _ _
  credentialProfileId := clean_resolveString _ _

/-- A session lease is named after the session id when there is one. -/
theorem resolveContext_sessionLeaseId {env : String → Option String} {args : ParsedArgs}
    {metadata : MetadataEnvelope} {session : String}
    (explicit : (resolveContext env args metadata).sessionId = some session) :
    (resolveContext env args metadata).sessionLeaseId = "external:" ++ sanitizeKey session := by
  have clean : cleanOptionalString (resolveContext env args metadata).sessionId =
      some session := by
    have settled := (resolveContext_settled env args metadata).sessionId
    rw [explicit] at settled ⊢
    exact settled
  have leased : ∀ input : SessionLeaseInput, cleanOptionalString input.sessionId = some session →
      (resolveSessionLease input).1 = "external:" ++ sanitizeKey session := by
    intro input given
    rw [resolveSessionLease, given]
  exact leased _ clean

end Mcpace.Client

import Mcpace.Client.Partition
import Mcpace.Execution.Normalized
import Mcpace.Mcp.Request
import Mcpace.Upstream.ServerConfig

/-!
Contract: which requests to one server share a pooled session.

Mirrors `upstream_session_key` of `src/upstream/lease_runtime.rs` and `server_fingerprint` of
`src/upstream.rs`. The key is made of the affinity fingerprint, the display values beside it and
the transport. The fingerprint is exact; the transport is in the key whether the policy lists it
or not.

Does not own: how the settings files are hashed and the root path is printed.
-/

namespace Mcpace.Upstream

open Library Json Execution List Text

/-! ### Keys -/

structure UpstreamSessionKey where
  rootPath : String
  serverName : String
  settingsModifiedMs : Nat
  settingsLen : Nat
  serverFingerprint : String
  clientId : String
  sessionId : String
  projectRoot : String
  transport : String
  executionMode : String
  affinityFingerprint : String
deriving DecidableEq, Repr

/-- The root path as it is printed, and the fingerprint of the settings files. -/
structure SessionSite where
  rootPath : String
  settingsModifiedMs : Nat
  settingsLen : Nat

def policyFingerprint (policy : ExecutionPolicy) : String :=
  "protocol=" ++ executionProtocol ++ "|mode=" ++ policy.mode.asStr ++ "|affinity=" ++
    ",".intercalate policy.affinity ++ "|queueTimeoutMs=" ++ toString policy.queueTimeoutMs ++
    "|reusePolicy=" ++ policy.reusePolicy ++ "|minWorkers=" ++ toString policy.minWorkers ++
    "|maxWorkers=" ++ toString policy.maxWorkers ++ "|maxInFlightPerWorker=" ++
    toString policy.maxInFlightPerWorker ++ "|maxQueueDepth=" ++ toString policy.maxQueueDepth ++
    "|idleTtlMs=" ++ toString policy.idleTtlMs

def unitSeparator : String := String.ofList [Char.ofNat 0x1f]

def fingerprintSecretMap (printer : Printer) (values : List (String × String)) : String :=
  unitSeparator.intercalate
    (values.map (fun entry => entry.1 ++ ":" ++ printer.fingerprintText entry.2))

def serverFingerprint (printer : Printer) (server : UpstreamServerConfig) : String :=
  "protocol=" ++ Mcp.currentProtocolVersion ++ "|enabled=" ++ toString server.enabled ++
    "|type=" ++ server.sourceType ++ "|command=" ++ server.command.getD "" ++ "|args=" ++
    unitSeparator.intercalate server.args ++ "|env=" ++ fingerprintSecretMap printer server.env ++
    "|headers=" ++ fingerprintSecretMap printer server.headers ++ "|cwd=" ++
    server.cwd.getD "" ++ "|url=" ++ server.url.getD "" ++ "|timeout=" ++
    toString server.timeoutMs ++ "|execution=" ++ policyFingerprint server.execution

def upstreamSessionKey (printer : Printer) (site : SessionSite) (server : UpstreamServerConfig)
    (affinity : ExecutionAffinityKey) : UpstreamSessionKey where
  rootPath := site.rootPath
  serverName := server.name
  settingsModifiedMs := site.settingsModifiedMs
  settingsLen := site.settingsLen
  serverFingerprint := serverFingerprint printer server
  clientId := affinity.clientId
  sessionId := affinity.sessionId
  projectRoot := affinity.projectRoot
  transport := affinity.transport
  executionMode := server.execution.mode.asStr
  affinityFingerprint := affinity.fingerprint

/-! ### Groups -/

/-- The requests agree on every dimension that the policy lists. -/
def SameGroup (printer : Printer) (policy : ExecutionPolicy)
    (left right : ExecutionAffinityContext) : Prop :=
  ∀ dimension ∈ policy.affinity, left.value printer dimension = right.value printer dimension

/-- Keys tell exactly the affinity groups apart, and outside a pool a key has one worker. -/
structure ExactGroups (printer : Printer) (site : SessionSite) (server : UpstreamServerConfig) :
    Prop where
  keys : ∀ left right leftKey rightKey, server.execution.affinityKey printer left = .ok leftKey →
    server.execution.affinityKey printer right = .ok rightKey →
    (upstreamSessionKey printer site server leftKey =
      upstreamSessionKey printer site server rightKey ↔
        SameGroup printer server.execution left right)
  single : server.execution.mode ≠ .pool → server.execution.workerLimit ≤ 1

section Groups

variable {printer : Printer} {site : SessionSite} {server : UpstreamServerConfig}
  {policy : ExecutionPolicy} {left right : ExecutionAffinityContext}
  {leftKey rightKey : ExecutionAffinityKey}

theorem transport_of_affinityKey (resolved : policy.affinityKey printer left = .ok leftKey) :
    leftKey.transport = left.defaultTransport := by
  rw [ExecutionPolicy.affinityKey] at resolved
  split at resolved
  · cases resolved
  · cases resolved
    rfl

/-- Everything in a key but its transport is made of the values of the listed dimensions. -/
theorem affinityKey_of_sameGroup (same : SameGroup printer policy left right)
    (leftResolved : policy.affinityKey printer left = .ok leftKey)
    (rightResolved : policy.affinityKey printer right = .ok rightKey) :
    { leftKey with transport := rightKey.transport } = rightKey := by
  rw [ExecutionPolicy.affinityKey] at leftResolved rightResolved
  cases leftValues : affinityValues printer policy.mode left policy.affinity with
  | error error =>
    rw [leftValues] at leftResolved
    cases leftResolved
  | ok leftEntries =>
    cases rightValues : affinityValues printer policy.mode right policy.affinity with
    | error error =>
      rw [rightValues] at rightResolved
      cases rightResolved
    | ok rightEntries =>
      have entries : leftEntries = rightEntries := by
        rw [(affinityValues_eq_ok leftValues).2, (affinityValues_eq_ok rightValues).2]
        apply map_congr_left
        intro dimension member
        rw [same dimension member]
      rw [leftValues, entries] at leftResolved
      rw [rightValues] at rightResolved
      cases leftResolved
      cases rightResolved
      rfl

/-- Two requests share a session exactly when they are of one group and name one transport. -/
theorem upstreamSessionKey_eq_iff (faithful : printer.Faithful)
    (leftResolved : server.execution.affinityKey printer left = .ok leftKey)
    (rightResolved : server.execution.affinityKey printer right = .ok rightKey) :
    upstreamSessionKey printer site server leftKey =
        upstreamSessionKey printer site server rightKey ↔
      SameGroup printer server.execution left right ∧
        left.defaultTransport = right.defaultTransport := by
  have groups := fingerprint_eq_iff faithful id (fun _ _ => rfl) (by decide) leftResolved
    rightResolved
  rw [List.map_id, List.map_id, String.toList_inj] at groups
  rw [← transport_of_affinityKey leftResolved, ← transport_of_affinityKey rightResolved]
  constructor
  · intro equal
    exact ⟨groups.mp (congrArg UpstreamSessionKey.affinityFingerprint equal),
      congrArg UpstreamSessionKey.transport equal⟩
  · intro ⟨same, transport⟩
    have keys := affinityKey_of_sameGroup same leftResolved rightResolved
    rw [← transport] at keys
    rw [← keys]

theorem workerLimit_le_one (notPool : policy.mode ≠ .pool) : policy.workerLimit ≤ 1 := by
  rw [ExecutionPolicy.workerLimit]
  split
  · omega
  · exact absurd ‹_› notPool
  · omega

/-! ### Requests that differ in their transport only -/

/-- A request that gives every dimension a value. -/
def completeContext (transport : String) : ExecutionAffinityContext where
  clientId := some "client"
  sessionId := some "session"
  projectRoot := some "/project"
  transport := some transport
  metadata := some (.object [("credential", .string "key")])

theorem isSome_value_completeContext {dimension : String} (transport : String)
    (supported : dimension ∈ supportedAffinities) :
    ((completeContext transport).value printer dimension).isSome = true := by
  have session : ((completeContext transport).sessionId.bind trimNonEmpty).isSome = true := by
    show (trimNonEmpty "session").isSome = true
    decide
  have project : ((completeContext transport).projectRoot.bind trimNonEmpty).isSome = true := by
    show (trimNonEmpty "/project").isSome = true
    decide
  have credential : (metadataString (completeContext transport).metadata [["mcpace", "credentialId"],
      ["mcpace", "credential"], ["credentialId"], ["credential"]]).isSome = true := by
    show (metadataString (some (.object [("credential", .string "key")])) _).isSome = true
    decide
  simp only [supportedAffinities, mem_cons, not_mem_nil, or_false] at supported
  rcases supported with rfl | rfl | rfl | rfl | rfl | rfl | rfl | rfl | rfl | rfl <;>
    simp only [ExecutionAffinityContext.value, ExecutionAffinityContext.defaultSession,
      Option.isSome_or, Option.isSome_some, session, project, credential, Bool.or_true]
  rfl

theorem value_completeContext {dimension : String} (different : dimension ≠ "transport")
    (left right : String) :
    (completeContext left).value printer dimension =
      (completeContext right).value printer dimension := by
  unfold ExecutionAffinityContext.value
  split <;> first | exact absurd rfl different | rfl

theorem affinityValues_complete {mode : ExecutionMode} {context : ExecutionAffinityContext}
    {dimensions : List String}
    (complete : ∀ dimension ∈ dimensions, (context.value printer dimension).isSome = true) :
    ∃ values, affinityValues printer mode context dimensions = .ok values := by
  induction dimensions with
  | nil => exact ⟨[], rfl⟩
  | cons dimension rest ih =>
    obtain ⟨value, found⟩ := Option.isSome_iff_exists.mp (complete dimension (by simp))
    obtain ⟨values, later⟩ := ih (forall_mem_cons.mp complete).2
    exact ⟨(dimension ++ "=" ++ value) :: values, by rw [affinityValues, found, later]⟩

theorem affinityKey_completeContext
    (supported : ∀ dimension ∈ policy.affinity, dimension ∈ supportedAffinities)
    (transport : String) :
    ∃ key, policy.affinityKey printer (completeContext transport) = .ok key := by
  obtain ⟨values, resolved⟩ := @affinityValues_complete printer policy.mode
    (completeContext transport) policy.affinity
    (fun dimension member => isSome_value_completeContext transport (supported dimension member))
  rw [ExecutionPolicy.affinityKey, resolved]
  exact ⟨_, rfl⟩

/-! ### Contract -/

/-- The groups of a server with a normalized policy are exact just when the policy lists the
transport. -/
theorem exactGroups_iff (faithful : printer.Faithful) (raw : ExecutionPolicy)
    (normalized : server.execution = raw.normalize) :
    ExactGroups printer site server ↔ "transport" ∈ server.execution.affinity := by
  constructor
  · intro exact
    by_contra unlisted
    have supported : ∀ dimension ∈ server.execution.affinity, dimension ∈ supportedAffinities := by
      rw [normalized]
      exact (ExecutionPolicy.normal_normalize raw).affinity.supported
    obtain ⟨stdioKey, stdioResolved⟩ :=
      @affinityKey_completeContext printer server.execution supported "stdio"
    obtain ⟨httpKey, httpResolved⟩ :=
      @affinityKey_completeContext printer server.execution supported "http"
    -- Both requests are of one group, so by exactness their keys and with them their transports
    -- are the same.
    have group : SameGroup printer server.execution (completeContext "stdio")
        (completeContext "http") := by
      intro dimension member
      exact value_completeContext (fun same => unlisted (same ▸ member)) "stdio" "http"
    have shared := (exact.keys _ _ _ _ stdioResolved httpResolved).mpr group
    have transports :=
      ((upstreamSessionKey_eq_iff faithful stdioResolved httpResolved).mp shared).2
    exact absurd transports (by decide)
  · intro listed
    refine ⟨?_, workerLimit_le_one⟩
    intro left right leftKey rightKey leftResolved rightResolved
    rw [upstreamSessionKey_eq_iff faithful leftResolved rightResolved]
    constructor
    · exact fun both => both.1
    · exact fun same => ⟨same, Option.some.inj (same "transport" listed)⟩

end Groups

/-! ### Servers -/

def plainSite : SessionSite := ⟨"/root", 0, 0⟩

/-- A shared server that lists the given dimensions. -/
def listingServer (affinity : List String) : UpstreamServerConfig where
  name := "files"
  enabled := true
  disabledReason := none
  sourceType := "stdio"
  command := some "files"
  args := []
  env := []
  headers := []
  cwd := none
  url := none
  timeoutMs := 120000
  execution := { ExecutionPolicy.forMode .shared with affinity := affinity }.normalize
  toolPolicies := []

theorem exactGroups_listed :
    ExactGroups Client.digitPrinter plainSite (listingServer ["client", "transport"]) ∧
      (listingServer ["client", "transport"]).execution.affinity = ["client", "transport"] :=
  ⟨(exactGroups_iff Client.digitPrinter_faithful
      { ExecutionPolicy.forMode .shared with affinity := ["client", "transport"] } rfl).mpr
        (by decide), by decide⟩

def sharedKey (transport : String) : Option UpstreamSessionKey :=
  (((listingServer []).execution.affinityKey Client.digitPrinter
    (completeContext transport)).toOption).map
      (upstreamSessionKey Client.digitPrinter plainSite (listingServer []))

/-- A shared server has one group, and two sessions for requests over two transports. -/
theorem sharedKey_transports :
    Client.digitPrinter.Faithful ∧ (listingServer []).execution.affinity = [] ∧
      (sharedKey "stdio").map UpstreamSessionKey.affinityFingerprint =
        (sharedKey "http").map UpstreamSessionKey.affinityFingerprint ∧
      (sharedKey "stdio").isSome = true ∧ (sharedKey "http").isSome = true ∧
      sharedKey "stdio" ≠ sharedKey "http" :=
  ⟨Client.digitPrinter_faithful, by decide, by decide, by decide,
    by decide +kernel, by decide +kernel⟩

end Mcpace.Upstream

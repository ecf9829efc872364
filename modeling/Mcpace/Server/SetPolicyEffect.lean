import Mcpace.Execution.Schedule
import Mcpace.Server.SetPolicy
import Mcpace.Upstream.ServerConfig

/-!
Owns what setting a policy does to the policies the runtime loads.

The command edits the key as it was typed; the runtime goes by the last key that normalizes to the
name. The two meet when the typed key is that last key, or when it becomes it and the key it
replaces had no tool policies to lose. `setPolicy_faithful_iff` is this condition, with the two
ways in which the written config gives the runtime no policy at all.
-/

namespace Mcpace.Server

open Library Json Execution Sources Upstream
open OrderedMap Checks ExecutionPolicy
open List Option JsonValue

/-! ### What the runtime reads -/

/-- The block the runtime goes by: the last one whose key normalizes to the name. -/
def declaration (config : JsonValue) (name : String) : Option JsonValue :=
  ((declaredServers config).reverse.find? (fun server =>
    normalizeServerName server.1 = name)).map Prod.snd

def profileOverride (workspace : Workspace) (config : JsonValue) (name : String) : Option Bool :=
  get name (loadRuntimeProfileSelection workspace.env config).serverOverrides

def rootSchedule (config : JsonValue) : Schedule :=
  (rootSettings config).settled

def runtimeSettings (config block : JsonValue) : Schedule :=
  serverSettings (rootSchedule config) (block.get "policy")
    (block.get "execution")
    (((block.get "policy").map inferredModeFromCanonical).getD (rootSchedule config).mode)

theorem mode_rootSchedule (config : JsonValue) :
    (fromConfigRoot config).mode = (rootSchedule config).mode :=
  congrArg Schedule.mode (schedule_fromConfigRoot config)

theorem schedule_forServer (config block : JsonValue) :
    (forServer (fromConfigRoot config) block).schedule =
      (runtimeSettings config block).settled := by
  rw [forServer, schedule_underRoot, runtimeSettings, mode_rootSchedule, rootSchedule]

/-- The policies of the runtime under the root defaults of a config. -/
def runtimePolicies (workspace : Workspace) (config : JsonValue) :
    List (String × UpstreamServerPolicy) :=
  ofList ((declaredServers config).filterMap (fun server =>
    let normalizedName := normalizeServerName server.1
    if normalizedName = "" then none
    else some (normalizedName, upstreamServerPolicy workspace.platform (fromConfigRoot config)
      (profileOverride workspace config normalizedName) server.2)))

theorem get_runtimePolicies (workspace : Workspace) (config : JsonValue) {name : String}
    (named : name ≠ "") :
    get name (runtimePolicies workspace config) =
      (declaration config name).map (upstreamServerPolicy workspace.platform
        (fromConfigRoot config) (profileOverride workspace config name)) := by
  rw [runtimePolicies, get_ofList, ← filterMap_reverse, declaration, Option.map_map]
  induction (declaredServers config).reverse with
  | nil => rfl
  | cons server rest ih =>
    rw [filterMap_cons, List.find?_cons]
    by_cases same : normalizeServerName server.1 = name
    · simp only [same, named, if_false, decide_true, get_cons, if_true,
        map_some, Function.comp_apply]
    · simp only [same, decide_false]
      by_cases unnamed : normalizeServerName server.1 = ""
      · simp only [unnamed, if_true]
        exact ih
      · simp only [unnamed, if_false, get_cons, Ne.symm same]
        exact ih

/-! ### What is asked of the command -/

def guards (block : JsonValue) : List ToolRiskPolicy :=
  ((block.arrayAtPath ["toolPolicies"]).getD []).filterMap parseToolPolicy

/-- The runtime loads the server with the reported mode and the tool policies it had, and every
other server as before. -/
def Faithful (workspace after : Workspace) (report : PolicyReport) : Prop :=
  ∃ before loaded policy, loadUpstreamServerPolicies workspace = .ok before ∧
    loadUpstreamServerPolicies after = .ok loaded ∧
    get (normalizeServerName report.server) loaded.2 = some policy ∧
    policy.execution.mode = report.preset.mode ∧
    policy.toolPolicies = ((get (normalizeServerName report.server) before.2).map
        UpstreamServerPolicy.toolPolicies).getD [] ∧
    loaded.1 = before.1 ∧
    ∀ other ≠ normalizeServerName report.server, get other loaded.2 = get other before.2

/-- The last key of the server, before the edit, against the typed one. A key after the typed one
stays in charge, so it must have the mode already; a key before it loses its tool policies. -/
def TypedKeyReaches (config : JsonValue) (report : PolicyReport) : Prop :=
  ∀ last ∈ (entriesNamed (normalizeServerName report.server) (declaredServers config)).getLast?,
    if report.server < last.1 then
      (forServer (fromConfigRoot config) last.2).mode = report.preset.mode
    else last.1 = report.server ∨ guards last.2 = []

/-- The config with the block of the report in it is no longer than what the loaders read. -/
def WrittenFits (host : Host) (config : JsonValue) (report : PolicyReport) : Prop :=
  ∃ document, upsertPolicy config report.server report.policy report.execution = .ok document ∧
    host.printedBytes document ≤ maxJsonFileBytes

/-! ### The edited block -/

theorem get_insertIfAbsent {key other : String} (different : other ≠ key) (value : JsonValue)
    (entries : JsonMap) :
    get other (insertIfAbsent key value entries) = get other entries := by
  rw [insertIfAbsent]
  split
  · rfl
  · exact get_insert_of_ne different value entries

theorem get_policy_updatedServer (policy execution : JsonValue) (server : JsonMap) :
    get "policy" (updatedServer policy execution server) = some policy := by
  rw [updatedServer, get_insert_of_ne (by decide), get_insert_self]

theorem get_execution_updatedServer (policy execution : JsonValue) (server : JsonMap) :
    get "execution" (updatedServer policy execution server) = some execution := by
  rw [updatedServer, get_insert_self]

theorem get_updatedServer {key : String}
    (kept : key ∉ ["kind", "required", "defaultEnabled", "policy", "execution"])
    (policy execution : JsonValue) (server : JsonMap) :
    get key (updatedServer policy execution server) = get key server := by
  simp only [mem_cons, not_mem_nil, or_false, not_or] at kept
  obtain ⟨kind, required, defaultEnabled, notPolicy, notExecution⟩ := kept
  rw [updatedServer, get_insert_of_ne notExecution,
    get_insert_of_ne notPolicy, get_insertIfAbsent defaultEnabled,
    get_insertIfAbsent required, get_insertIfAbsent kind]

/-- The block keeps the tool policies it had; a member that was no object had none. -/
theorem guards_updatedServer (policy execution : JsonValue) (servers : JsonMap) (name : String) :
    guards (.object (updatedServer policy execution (childObject servers name))) =
      ((get name servers).map guards).getD [] := by
  have member := @get_updatedServer "toolPolicies" (by decide) policy execution
    (childObject servers name)
  have guarded : ∀ entries : JsonMap, guards (.object entries) =
      (((get "toolPolicies" entries).bind asArray).getD []).filterMap
        parseToolPolicy := by
    intro entries
    rw [guards, arrayAtPath, valueAtPath_singleton, get_object]
  rw [guarded, member, ← guarded, childObject]
  cases get name servers with
  | none => rfl
  | some block => cases block <;> rfl

/-! ### The mode of the edited block -/

namespace PolicyReport

/-- Reports whose worker counts turn the server off only where the mode does. -/
structure Settled (report : PolicyReport) : Prop where
  preset : report.preset = ExecutionPreset.ofMode report.preset.mode
  workers : report.preset.mode ≠ .disabled → ValidCount report.maxWorkers
  inFlight : report.preset.mode ≠ .disabled → ValidCount report.maxInFlightPerWorker
  idle : report.preset.mode = .disabled → report.maxWorkers = 0 ∧ report.maxInFlightPerWorker = 0
  queueTimeout : report.queueTimeoutMs < 2 ^ 64

theorem validCount_getD {value : Option Nat} {default : Nat}
    (valid : ∀ count ∈ value, ValidCount count) (fallback : ValidCount default) :
    ValidCount (value.getD default) := by
  cases value with
  | none => exact fallback
  | some count => exact valid count rfl

theorem settled_ofOptions (options : SetPolicyOptions) (serverName configPath : String)
    {preset : ExecutionPreset} (known : preset = ExecutionPreset.ofMode preset.mode) :
    (ofOptions options serverName preset configPath).Settled where
  preset := known
  workers := by
    intro (running : preset.mode ≠ .disabled)
    have fallback : ValidCount preset.defaultMaxWorkers := by
      rw [known] at running ⊢
      generalize preset.mode = mode at running
      cases mode <;> first | exact absurd rfl running | decide
    show ValidCount (if preset.mode = .disabled then 0 else _)
    rw [if_neg running]
    exact validCount_getD options.maxWorkers_valid fallback
  inFlight := by
    intro (running : preset.mode ≠ .disabled)
    show ValidCount (if preset.mode = .disabled then 0 else _)
    rw [if_neg running]
    exact validCount_getD options.maxInFlightPerWorker_valid (by decide)
  idle := fun disabled => ⟨if_pos disabled, if_pos disabled⟩
  queueTimeout := by
    have fallback : preset.defaultQueueTimeoutMs < 2 ^ 64 := by
      rw [known]
      generalize preset.mode = mode
      cases mode <;> decide
    rw [ofOptions]
    cases given : options.queueTimeoutMs with
    | none => exact fallback
    | some value => exact (options.queueTimeoutMs_valid value given).2

end PolicyReport

/-- A positive count that is written leaves a positive setting. -/
theorem getD_nonNegative_ne_zero {count base : Nat} (valid : ValidCount count)
    (positive : base ≠ 0) : (nonNegative (some (ofNat count))).getD base ≠ 0 := by
  cases found : nonNegative (some (ofNat count)) with
  | none => exact positive
  | some value =>
    obtain ⟨number, parsed, converted⟩ := bind_eq_some_iff.mp found
    have same : number = (count : Int) := Text.eq_of_parseSigned_toString parsed
    rw [same, if_pos (Int.natCast_nonneg count), Int.toNat_natCast] at converted
    cases converted
    exact valid.1.ne'

namespace PolicyReport

variable {report : PolicyReport}

theorem modeAt_execution : modeAt (some report.execution) = some report.preset.mode := by
  have member : report.execution.get "mode" = some (.string report.preset.mode.asStr) :=
    get_ofEntries_eq_some rfl
  rw [modeAt, bind_some, member, bind_some, asStr, bind_some, ExecutionMode.parse_asStr]
  rfl

theorem canonicalPolicyDisabled_policy (settled : report.Settled) :
    canonicalPolicyDisabled report.policy = decide (report.preset.mode = .disabled) := by
  have startup : report.policy.get "startupStrategy" =
      some (.string report.preset.startupStrategy) := get_ofEntries_eq_some rfl
  have routing : report.policy.get "routingGroup" = some (.string report.preset.routingGroup) :=
    get_ofEntries_eq_some rfl
  have concurrency : report.policy.get "concurrencyPolicy" =
      some (.string report.preset.concurrencyPolicy) := get_ofEntries_eq_some rfl
  have scope : report.policy.get "scopeClass" = some (.string report.preset.scopeClass) :=
    get_ofEntries_eq_some rfl
  simp only [canonicalPolicyDisabled, stringAtPath, valueAtPath_singleton,
    startup, routing, concurrency, scope, bind_some, asStr, map_some]
  rw [settled.preset]
  generalize report.preset.mode = mode
  cases mode <;> decide +kernel

theorem validCount_parallelism (settled : report.Settled)
    (running : report.preset.mode ≠ .disabled) : ValidCount report.parallelism := by
  have workers := settled.workers running
  rw [parallelism, if_neg running]
  split
  · rwa [max_eq_left workers.1]
  · rw [settled.preset]
    generalize report.preset.mode = mode
    cases mode <;> decide

/-- The two written blocks give a server the mode of the preset, and counts that keep it on. -/
theorem serverSettings_of_running (settled : report.Settled)
    (running : report.preset.mode ≠ .disabled) (root : Schedule) (fallbackMode : ExecutionMode) :
    (serverSettings root (some report.policy) (some report.execution)
      fallbackMode).settled.mode = report.preset.mode := by
  have enabled : ¬((some report.policy).map canonicalPolicyDisabled).getD false = true := by
    rw [map_some, getD_some, canonicalPolicyDisabled_policy settled]
    exact fun disabled => running (of_decide_eq_true disabled)
  have workers : report.execution.get "maxWorkers" = some (.ofNat report.maxWorkers) :=
    get_ofEntries_eq_some rfl
  have inFlight : report.execution.get "maxInFlightPerWorker" =
      some (.ofNat report.maxInFlightPerWorker) := get_ofEntries_eq_some rfl
  have canonicalWorkers : report.policy.get "maxWorkers" = some (.ofNat report.maxWorkers) := by
    refine (get_ofEntries_eq_some rfl).trans ?_
    rw [if_neg running]
  have parallelism : report.policy.get "parallelismLimit" = some (.ofNat report.parallelism) :=
    get_ofEntries_eq_some rfl
  have canonicalInFlight : report.policy.get "maxInFlightPerWorker" =
      some (.ofNat report.maxInFlightPerWorker) := by
    refine (get_ofEntries_eq_some rfl).trans ?_
    rw [if_neg running, max_eq_left (settled.inFlight running).1]
  have preset : ((forMode report.preset.mode).schedule.maxWorkers ≠ 0) ∧
      (forMode report.preset.mode).schedule.maxInFlightPerWorker ≠ 0 := by
    generalize report.preset.mode = mode at running
    cases mode <;> first | exact absurd rfl running | decide
  rw [serverSettings, if_neg enabled, modeAt_execution, getD_some]
  -- the counts are asked for in the execution block, then in the canonical one, then in the preset
  have on : ¬(overlaySettings (serverBase root
      (some report.preset.mode) report.preset.mode) (some report.policy)
      (some report.execution)).Off := by
    simp only [Schedule.Off, serverBase, overlaySettings,
      Schedule.read, Schedule.readCanonical, map_some, getD_some, getD_or,
      reduceCtorEq, false_and, if_false, workers, inFlight, canonicalWorkers, parallelism,
      canonicalInFlight, not_or]
    refine ⟨?_, ?_, ?_⟩
    · rw [mode_forMode]
      exact running
    · apply getD_nonNegative_ne_zero (settled.workers running)
      apply getD_nonNegative_ne_zero (settled.workers running)
      exact getD_nonNegative_ne_zero (validCount_parallelism settled running) preset.1
    · apply getD_nonNegative_ne_zero (settled.inFlight running)
      exact getD_nonNegative_ne_zero (settled.inFlight running) preset.2
  rw [Schedule.settled_mode_of_not_off on, mode_overlaySettings, mode_serverBase]

end PolicyReport

variable {report : PolicyReport}

/-- The runtime reads the reported mode from the edited block. -/
theorem mode_updatedServer (settled : report.Settled) (config : JsonValue) (server : JsonMap) :
    (forServer (fromConfigRoot config)
      (.object (updatedServer report.policy report.execution server))).mode =
        report.preset.mode := by
  have resolved := congrArg Schedule.mode (schedule_forServer config
    (.object (updatedServer report.policy report.execution server)))
  rw [runtimeSettings, get_object, get_object, get_policy_updatedServer,
    get_execution_updatedServer] at resolved
  refine resolved.trans ?_
  by_cases disabled : report.preset.mode = .disabled
  · have off : ((some report.policy).map canonicalPolicyDisabled).getD false = true := by
      rw [map_some, getD_some,
        PolicyReport.canonicalPolicyDisabled_policy settled, decide_eq_true disabled]
    rw [serverSettings, if_pos off, disabled]
    rfl
  · exact PolicyReport.serverSettings_of_running settled disabled _ _

/-! ### The edited config -/

/-- What the edit leaves of a config. -/
structure Upserted (config document : JsonValue) (serverName : String) (block : JsonValue) :
    Prop where
  servers : declaredServers document = OrderedMap.insert serverName block (declaredServers config)
  others : ∀ key ≠ "servers", document.get key = config.get key

def editedBlock (config : JsonValue) (report : PolicyReport) : JsonValue :=
  .object (updatedServer report.policy report.execution
    (childObject (declaredServers config) report.server))

theorem declaredServers_object (root : JsonMap) :
    declaredServers (.object root) = childObject root "servers" := by
  rw [declaredServers, objectAtPath, valueAtPath_singleton, get_object, childObject]

theorem upserted_of_upsertPolicy {config document : JsonValue}
    (edited : upsertPolicy config report.server report.policy report.execution = .ok document) :
    Upserted config document report.server (editedBlock config report) := by
  cases config with
  | object root =>
    cases edited
    constructor
    · rw [declaredServers_object, declaredServers_object, childObject,
        get_insert_self, editedBlock, declaredServers_object]
      rfl
    · intro key different
      exact get_insert_of_ne different _ root
  | _ => cases edited

section ReadsBack

variable {renumber : String → Option String}

theorem readsBack_childObject {parent : JsonMap} {key : String}
    (stable : ∀ entry ∈ parent, entry.2.ReadsBack renumber) :
    ∀ entry ∈ childObject parent key, entry.2.ReadsBack renumber := by
  rw [childObject]
  cases found : get key parent with
  | none => exact nofun
  | some value =>
    have kept : value.ReadsBack renumber := stable _ (mem_of_get found)
    cases value with
    | object entries => exact kept.entries
    | _ => exact nofun

theorem readsBack_insertIfAbsent {key : String} {value : JsonValue} {entries : JsonMap}
    (stable : ∀ entry ∈ entries, entry.2.ReadsBack renumber)
    (member : value.ReadsBack renumber) :
    ∀ entry ∈ insertIfAbsent key value entries, entry.2.ReadsBack renumber := by
  rw [insertIfAbsent]
  split
  · exact stable
  · exact readsBack_insert stable member

variable {execution : JsonValue}

theorem readsBack_updatedServer {policy : JsonValue} {server : JsonMap}
    (stable : ∀ entry ∈ server, entry.2.ReadsBack renumber) (policyKept : policy.ReadsBack renumber)
    (executionKept : execution.ReadsBack renumber) :
    ∀ entry ∈ updatedServer policy execution server, entry.2.ReadsBack renumber := by
  apply readsBack_insert _ executionKept
  apply readsBack_insert _ policyKept
  apply readsBack_insertIfAbsent _ (readsBack_bool true)
  apply readsBack_insertIfAbsent _ (readsBack_bool false)
  exact readsBack_insertIfAbsent stable (readsBack_string "configured")

theorem readsBack_upsertPolicy {config document policy : JsonValue} {serverName : String}
    (kept : config.ReadsBack renumber) (policyKept : policy.ReadsBack renumber)
    (executionKept : execution.ReadsBack renumber)
    (edited : upsertPolicy config serverName policy execution = .ok document) :
    document.ReadsBack renumber := by
  cases config with
  | object root =>
    cases edited
    have servers := @readsBack_childObject renumber _ "servers" kept.entries
    apply readsBack_object
    apply readsBack_insert kept.entries
    apply readsBack_object
    apply readsBack_insert servers
    apply readsBack_object
    exact readsBack_updatedServer (readsBack_childObject servers) policyKept executionKept
  | _ => cases edited

end ReadsBack

variable {renumber : String → Option String}

theorem PolicyReport.Settled.readsBack_policy (settled : report.Settled)
    (exactU64 : ExactU64 renumber) : report.policy.ReadsBack renumber := by
  have counts : report.parallelism < 2 ^ 64 ∧
      (if report.preset.mode = .disabled then 0 else report.maxWorkers) < 2 ^ 64 ∧
      (if report.preset.mode = .disabled then 0 else max report.maxInFlightPerWorker 1) <
        2 ^ 64 := by
    by_cases disabled : report.preset.mode = .disabled
    · simp only [PolicyReport.parallelism, disabled, if_true]
      omega
    · have parallelism := (PolicyReport.validCount_parallelism settled disabled).2
      have workers := (settled.workers disabled).2
      have inFlight := (settled.inFlight disabled).2
      simp only [disabled, if_false]
      omega
  apply readsBack_ofEntries
  simp only [forall_mem_cons, readsBack_string, readsBack_bool,
    readsBack_ofNat exactU64 counts.1, readsBack_ofNat exactU64 counts.2.1,
    readsBack_ofNat exactU64 counts.2.2, true_and]
  exact nofun

theorem PolicyReport.Settled.readsBack_execution (settled : report.Settled)
    (exactU64 : ExactU64 renumber) : report.execution.ReadsBack renumber := by
  have counts : report.maxWorkers < 2 ^ 64 ∧ report.maxInFlightPerWorker < 2 ^ 64 := by
    by_cases disabled : report.preset.mode = .disabled
    · have idle := settled.idle disabled
      omega
    · exact ⟨(settled.workers disabled).2, (settled.inFlight disabled).2⟩
  apply readsBack_ofEntries
  simp only [forall_mem_cons, readsBack_string, readsBack_strings,
    readsBack_ofNat exactU64 settled.queueTimeout,
    readsBack_ofNat exactU64 counts.1, readsBack_ofNat exactU64 counts.2, true_and]
  exact nofun

/-! ### The policies that are loaded -/

section Loaded

variable {workspace after : Workspace} {config document block : JsonValue} {name : String}
  {report : PolicyReport}

theorem loadUpstreamServerPolicies_parsed (parsed : workspace.configFile = .parsed config) :
    loadUpstreamServerPolicies workspace =
      .ok (fromConfigRoot config, runtimePolicies workspace config) := by
  rw [loadUpstreamServerPolicies, parsed]
  rfl

/-- No policy is filed under the empty name. -/
theorem get_runtimePolicies_empty (workspace : Workspace) (config : JsonValue) :
    get "" (runtimePolicies workspace config) = none := by
  cases found : get "" (runtimePolicies workspace config) with
  | none => rfl
  | some policy =>
    obtain ⟨server, _, made⟩ := mem_filterMap.mp (mem_ofList (mem_of_get found))
    dsimp only at made
    split at made
    · cases made
    · rename_i named
      exact absurd (congrArg Prod.fst (Option.some.inj made)) named

theorem declaration_eq (config : JsonValue) (name : String) : declaration config name =
      (entriesNamed name (declaredServers config)).getLast?.map Prod.snd := by
  rw [declaration, entriesNamed, ← List.head?_filter, filter_reverse, List.head?_reverse]
  rfl

theorem declaration_upserted_of_ne (upserted : Upserted config document name block)
    {other : String} (different : other ≠ normalizeServerName name) :
    declaration document other = declaration config other := by
  rw [declaration_eq, declaration_eq, upserted.servers, entriesNamed_insert_of_not different.symm]

/-- The server goes by the old last key if that comes after the typed one. -/
theorem declaration_upserted (upserted : Upserted config document name block)
    (sorted : Sorted (declaredServers config)) :
    declaration document (normalizeServerName name) =
      some (((entriesNamed (normalizeServerName name) (declaredServers config)).getLast?.filter
        (fun last => name < last.1)).getD (name, block)).2 := by
  have names : Names (normalizeServerName name) name := rfl
  rw [declaration_eq, upserted.servers, entriesNamed_insert sorted names,
    OrderedMap.getLast?_insert name block (sorted_entriesNamed sorted), map_some]

/-- A key that normalizes to the server's name is not after the last of them. -/
theorem le_last_of_get {value : JsonValue} {last : String × JsonValue}
    (sorted : Sorted (declaredServers config))
    (found : get name (declaredServers config) = some value)
    (isLast : (entriesNamed (normalizeServerName name) (declaredServers config)).getLast? =
      some last) : (name, value) = last ∨ name < last.1 := by
  have member : (name, value) ∈ entriesNamed (normalizeServerName name) (declaredServers config) :=
    mem_filter.mpr ⟨mem_of_get found, decide_eq_true rfl⟩
  obtain ⟨initial, split⟩ := List.getLast?_eq_some_iff.mp isLast
  have ordered : Sorted (initial ++ [last]) := split ▸ sorted_entriesNamed sorted
  rw [split] at member
  rcases mem_append.mp member with earlier | same
  · exact Or.inr ((pairwise_append.mp ordered).2.2 _ earlier last (mem_singleton_self last))
  · exact Or.inl (mem_singleton.mp same)

/-- The block the runtime goes by after the edit has the reported mode and the old tool policies
exactly when the typed key reaches it. -/
theorem declaration_faithful_iff (settled : report.Settled)
    (sorted : Sorted (declaredServers config)) :
    let entries := entriesNamed (normalizeServerName report.server) (declaredServers config)
    let chosen := ((entries.getLast?.filter (fun last => report.server < last.1)).getD
      (report.server, editedBlock config report)).2
    ((forServer (fromConfigRoot config) chosen).mode = report.preset.mode ∧
      guards chosen = (entries.getLast?.map (fun last => guards last.2)).getD []) ↔
    TypedKeyReaches config report := by
  intro entries
  have mode := mode_updatedServer settled config (childObject (declaredServers config)
    report.server)
  have kept := guards_updatedServer report.policy report.execution (declaredServers config)
    report.server
  rw [TypedKeyReaches]
  cases isLast : entries.getLast? with
  | none =>
    -- the name is new, so there is nothing to lose
    have absent : get report.server (declaredServers config) = none := by
      cases found : get report.server (declaredServers config) with
      | none => rfl
      | some value =>
        have member : (report.server, value) ∈ entries :=
          mem_filter.mpr ⟨mem_of_get found, decide_eq_true rfl⟩
        rw [List.getLast?_eq_none_iff.mp isLast] at member
        exact absurd member not_mem_nil
    rw [absent] at kept
    exact iff_of_true ⟨mode, kept⟩ nofun
  | some last =>
    simp only [mem_some_iff, forall_eq', map_some, getD_some]
    by_cases later : report.server < last.1
    · rw [filter_some, if_pos (decide_eq_true later), getD_some, if_pos later]
      exact and_iff_left rfl
    · rw [filter_some, if_neg (by simpa using later), getD_none, if_neg later]
      refine (and_iff_right mode).trans ?_
      show guards (.object (updatedServer _ _ _)) = guards last.2 ↔ _
      rw [kept]
      cases found : get report.server (declaredServers config) with
      | none =>
        -- the last key loses its tool policies to a new one after it
        have different : last.1 ≠ report.server := by
          intro same
          have member := mem_filter.mp (List.mem_of_getLast? isLast)
          have present := get_of_mem sorted member.1
          rw [same, found] at present
          cases present
        exact ⟨fun empty => Or.inr empty.symm, fun either => (either.resolve_left different).symm⟩
      | some value =>
        rcases le_last_of_get sorted found isLast with same | below
        · exact iff_of_true (by rw [← same]; rfl) (Or.inl (by rw [← same]))
        · exact absurd below later

end Loaded

/-! ### A run of the command -/

section Run

variable {host : Host} {workspace after : Workspace} {text : ConfigText} {config : JsonValue}
  {options : SetPolicyOptions} {report : PolicyReport} {output : PolicyOutput}

/-- What a command that is no dry run has done once it succeeds. -/
theorem setPolicy_eq_ok (wet : options.dryRun = false)
    (ran : setPolicy host workspace (.parsed config) options = .ok (report, output, after)) :
    report.Settled ∧ ∃ document,
      upsertPolicy config report.server report.policy report.execution = .ok document ∧
      after = { workspace with
        configFile := writtenConfig host workspace.configPath document } := by
  simp only [setPolicy, bind_eq_ok] at ran
  obtain ⟨serverName, _, preset, known, _, _, read, parsed, document, edited, written, committed,
    done⟩ := ran
  cases parsed
  cases done
  refine ⟨PolicyReport.settled_ofOptions options serverName workspace.configPath
    (ExecutionPreset.eq_ofMode (mapError_eq_ok known)), document, mapError_eq_ok edited, ?_⟩
  rw [commitConfig, wet, if_neg (by decide)] at committed
  cases failure : host.writeFailure workspace.configPath with
  | some reason =>
    rw [failure] at committed
    cases committed
  | none =>
    rw [failure] at committed
    cases committed
    rfl

theorem toolPolicies_upstreamServerPolicy (platform : String) (defaults : ExecutionPolicy)
    (enabled : Option Bool) (block : JsonValue) :
    (upstreamServerPolicy platform defaults enabled block).toolPolicies = guards block := rfl

/-- The policies that the runtime loads from an edited config: only the server's own changes, and
it follows the block the runtime then goes by. -/
theorem runtimePolicies_upserted {document block : JsonValue} {name : String}
    (upserted : Upserted config document name block)
    (sorted : Sorted (declaredServers config)) (env : after.env = workspace.env)
    (platform : after.platform = workspace.platform) :
    fromConfigRoot document = fromConfigRoot config ∧ (∀ other ≠ normalizeServerName name,
        get other (runtimePolicies after document) = get other (runtimePolicies workspace config)) ∧
      (normalizeServerName name ≠ "" →
        get (normalizeServerName name) (runtimePolicies after document) =
          some (upstreamServerPolicy workspace.platform (fromConfigRoot config)
            (profileOverride workspace config (normalizeServerName name))
            (((entriesNamed (normalizeServerName name) (declaredServers config)).getLast?.filter
              (fun last => name < last.1)).getD (name, block)).2)) := by
  have defaults : fromConfigRoot document =
      fromConfigRoot config := by
    rw [fromConfigRoot, fromConfigRoot, upserted.others "executionDefaults" (by decide)]
  have overrides : ∀ other, profileOverride after document other =
      profileOverride workspace config other := by
    intro other
    rw [profileOverride, profileOverride, env,
      loadRuntimeProfileSelection_congr workspace.env (upserted.others "profiles" (by decide))]
  refine ⟨defaults, ?_, ?_⟩
  · intro other different
    by_cases named : other = ""
    · rw [named, get_runtimePolicies_empty, get_runtimePolicies_empty]
    · rw [get_runtimePolicies after document named, get_runtimePolicies workspace config named,
        declaration_upserted_of_ne upserted different, defaults, overrides, platform]
  · intro named
    rw [get_runtimePolicies after document named, declaration_upserted upserted sorted, defaults,
      overrides, platform, map_some]

/-- When setting a policy is faithful: the config to be written can be loaded, the name is one that
policies are filed under, and the typed key reaches the block the runtime goes by. -/
theorem setPolicy_faithful_iff (host : Host) (workspace after : Workspace) (config : JsonValue)
    (options : SetPolicyOptions) (report : PolicyReport) (output : PolicyOutput)
    (parsed : workspace.configFile = .parsed config)
    (sorted : Sorted (declaredServers config))
    (kept : config.ReadsBack host.renumber) (exactU64 : ExactU64 host.renumber)
    (wet : options.dryRun = false)
    (ran : setPolicy host workspace (.parsed config) options = .ok (report, output, after)) :
    Faithful workspace after report ↔ WrittenFits host config report ∧
        normalizeServerName report.server ≠ "" ∧ TypedKeyReaches config report := by
  obtain ⟨settled, document, edited, written⟩ := setPolicy_eq_ok wet ran
  have upserted := upserted_of_upsertPolicy edited
  have reads : document.ReadsBack host.renumber := readsBack_upsertPolicy kept
    (settled.readsBack_policy exactU64) (settled.readsBack_execution exactU64) edited
  obtain ⟨defaults, others, own⟩ := @runtimePolicies_upserted workspace after config document _ _
    upserted sorted (by rw [written]) (by rw [written])
  have before := loadUpstreamServerPolicies_parsed parsed
  have guarded : normalizeServerName report.server ≠ "" →
      ((get (normalizeServerName report.server)
        (runtimePolicies workspace config)).map UpstreamServerPolicy.toolPolicies).getD [] =
      ((entriesNamed (normalizeServerName report.server) (declaredServers config)).getLast?.map
        (fun last => guards last.2)).getD [] := by
    intro named
    rw [get_runtimePolicies workspace config named, declaration_eq, Option.map_map, Option.map_map]
    rfl
  have file : after.configFile = writtenConfig host workspace.configPath document := by
    rw [written]
  rw [writtenConfig] at file
  split at file
  · rename_i large
    -- the config has grown past what the loaders read
    have failed : ∃ reason, loadUpstreamServerPolicies after = .error reason :=
      ⟨_, by rw [loadUpstreamServerPolicies, file]⟩
    obtain ⟨reason, failed⟩ := failed
    constructor
    · rintro ⟨_, _, _, _, loaded, _⟩
      rw [failed] at loaded
      cases loaded
    · rintro ⟨⟨_, same, fits⟩, _⟩
      rw [edited, Except.ok.injEq] at same
      rw [← same] at fits
      exact absurd large (Nat.not_lt.mpr fits)
  · rename_i fits
    rw [reads] at file
    have loaded := loadUpstreamServerPolicies_parsed file
    rw [defaults] at loaded
    have reaches := declaration_faithful_iff settled sorted
    constructor
    · rintro ⟨first, second, policy, isFirst, isSecond, found, mode, tools, _⟩
      rw [before] at isFirst
      rw [loaded] at isSecond
      cases isFirst
      cases isSecond
      have named : normalizeServerName report.server ≠ "" := by
        intro empty
        rw [empty, get_runtimePolicies_empty] at found
        cases found
      rw [own named] at found
      cases found
      rw [guarded named, toolPolicies_upstreamServerPolicy] at tools
      exact ⟨⟨document, edited, Nat.not_lt.mp fits⟩, named, reaches.mp ⟨mode, tools⟩⟩
    · rintro ⟨_, named, reached⟩
      obtain ⟨mode, tools⟩ := reaches.mpr reached
      exact ⟨_, _, _, before, loaded, own named, mode, tools.trans (guarded named).symm, rfl,
        others⟩

end Run

/-! ### Two keys for one server -/

/-- The policy the runtime loads under a name. -/
def loadedPolicy (workspace : Workspace) (name : String) : Option UpstreamServerPolicy :=
  (loadUpstreamServerPolicies workspace).toOption.bind (fun loaded => get name loaded.2)

theorem Faithful.loadedPolicy {workspace after : Workspace}
    (faithful : Faithful workspace after report) :
    (loadedPolicy after (normalizeServerName report.server)).map
        (fun policy => (policy.execution.mode, policy.toolPolicies)) =
      some (report.preset.mode, ((loadedPolicy workspace (normalizeServerName report.server)).map
          UpstreamServerPolicy.toolPolicies).getD []) := by
  obtain ⟨before, loaded, policy, isBefore, isLoaded, found, mode, tools, _⟩ := faithful
  rw [Server.loadedPolicy, Server.loadedPolicy, isBefore, isLoaded]
  simp only [Except.toOption, bind_some, found, map_some, mode, tools]

def policyWorkspace (config : JsonValue) : Workspace where
  configPath := "/mcp/mcpace.config.json"
  configFile := .parsed config
  env := fun _ => none
  platform := "linux"

def serversConfig (servers : JsonMap) : JsonValue := .object [("servers", .object servers)]

def guardedBlock : JsonValue :=
  .object [("toolPolicies", .array [.object [("riskClass", .string "destructive"),
    ("tools", .array [.string "delete*"])]])]

def setShared (serverName : String) : SetPolicyOptions where
  nameFilter := some serverName
  executionMode := some "shared"
  affinity := []
  queueTimeoutMs := none
  reusePolicy := none
  maxWorkers := none
  maxInFlightPerWorker := none
  dryRun := false
  jsonOutput := true
  queueTimeoutMs_valid := nofun
  maxWorkers_valid := nofun
  maxInFlightPerWorker_valid := nofun

/-- A guarded server beside another one. -/
def guardedConfig : JsonValue := serversConfig [("bar", .object []), ("foo", guardedBlock)]

/-- The only key of the guarded server is typed as it stands; the other server keeps its policy. -/
theorem setPolicy_faithful_oneKey : ∃ report output after,
      setPolicy plainHost (policyWorkspace guardedConfig) (.parsed guardedConfig)
        (setShared "foo") = .ok (report, output, after) ∧
      report.preset.mode = .shared ∧ (loadedPolicy (policyWorkspace guardedConfig) "bar").isSome ∧
      Faithful (policyWorkspace guardedConfig) after report := by
  have observed : (setPolicy plainHost (policyWorkspace guardedConfig) (.parsed guardedConfig)
      (setShared "foo")).toOption.map (fun outcome => (outcome.1.preset.mode, outcome.1.server,
        (upsertPolicy guardedConfig outcome.1.server outcome.1.policy
          outcome.1.execution).toOption.map (fun document =>
            decide (plainHost.printedBytes document ≤ maxJsonFileBytes)))) =
      some (.shared, "foo", some true) := by decide +kernel
  obtain ⟨⟨report, output, after⟩, ran, seen⟩ := exists_ok_of_map observed
  simp only [Prod.mk.injEq] at seen
  obtain ⟨mode, server, written⟩ := seen
  obtain ⟨document, edited, fits⟩ := exists_ok_of_map written
  have sorted : Sorted (declaredServers guardedConfig) := pairwise_pair.mpr (by decide +kernel)
  have kept : guardedConfig.ReadsBack plainHost.renumber := by
    rw [ReadsBack]
    decide +kernel
  refine ⟨report, output, after, ran, mode, by decide +kernel, ?_⟩
  apply (setPolicy_faithful_iff plainHost _ after _ (setShared "foo") report output rfl sorted kept
    (fun _ _ => rfl) rfl ran).mpr
  refine ⟨⟨document, edited, of_decide_eq_true fits⟩, ?_, ?_⟩
  · rw [server]
    decide +kernel
  · have last : (entriesNamed (normalizeServerName "foo")
        (declaredServers guardedConfig)).getLast? = some ("foo", guardedBlock) := by
      decide +kernel
    rw [TypedKeyReaches, server, last]
    rintro _ ⟨⟩
    rw [if_neg (lt_irrefl "foo")]
    exact Or.inl rfl

/-- Typed in lower case, the name gets a new key after the old one and the server loses its tool
policies; typed as the first of two keys, the mode of the server does not change. -/
theorem setPolicy_unfaithful_twoKeys : (∃ report output after,
      setPolicy plainHost (policyWorkspace (serversConfig [("Foo", guardedBlock)]))
        (.parsed (serversConfig [("Foo", guardedBlock)])) (setShared "foo") =
        .ok (report, output, after) ∧
      (loadedPolicy (policyWorkspace (serversConfig [("Foo", guardedBlock)])) "foo").map
        (fun policy => policy.toolPolicies.length) = some 1 ∧
      (loadedPolicy after "foo").map (fun policy => policy.toolPolicies.length) = some 0 ∧
      ¬Faithful (policyWorkspace (serversConfig [("Foo", guardedBlock)])) after report) ∧
    ∃ report output after, setPolicy plainHost (policyWorkspace (serversConfig [("Foo", .object []),
          ("foo", .object [])]))
        (.parsed (serversConfig [("Foo", .object []), ("foo", .object [])])) (setShared "Foo") =
        .ok (report, output, after) ∧
      report.preset.mode = .shared ∧
      (loadedPolicy after "foo").map (fun policy => policy.execution.mode) = some .serialized ∧
      ¬Faithful (policyWorkspace (serversConfig [("Foo", .object []), ("foo", .object [])]))
        after report := by
  constructor
  · have observed : (setPolicy plainHost (policyWorkspace (serversConfig [("Foo", guardedBlock)]))
        (.parsed (serversConfig [("Foo", guardedBlock)])) (setShared "foo")).toOption.map
          (fun outcome => (outcome.1.server,
            (loadedPolicy outcome.2.2 "foo").map (fun policy => policy.toolPolicies.length))) =
        some ("foo", some 0) := by decide +kernel
    have before : (loadedPolicy (policyWorkspace (serversConfig [("Foo", guardedBlock)]))
        "foo").map (fun policy => policy.toolPolicies.length) = some 1 := by decide +kernel
    obtain ⟨⟨report, output, after⟩, ran, seen⟩ := exists_ok_of_map observed
    simp only [Prod.mk.injEq] at seen
    refine ⟨report, output, after, ran, before, seen.2, ?_⟩
    intro faithful
    have name : normalizeServerName "foo" = "foo" := by decide +kernel
    have kept := faithful.loadedPolicy
    rw [seen.1, name] at kept
    obtain ⟨policy, isPolicy, one⟩ := map_eq_some_iff.mp before
    obtain ⟨policyAfter, isAfter, none⟩ := map_eq_some_iff.mp seen.2
    simp only [isPolicy, isAfter, map_some, getD_some, Option.some.injEq, Prod.mk.injEq] at kept
    rw [kept.2, one] at none
    cases none
  · have observed : (setPolicy plainHost
        (policyWorkspace (serversConfig [("Foo", .object []), ("foo", .object [])]))
        (.parsed (serversConfig [("Foo", .object []), ("foo", .object [])]))
        (setShared "Foo")).toOption.map (fun outcome => (outcome.1.server, outcome.1.preset.mode,
          (loadedPolicy outcome.2.2 "foo").map (fun policy => policy.execution.mode))) =
        some ("Foo", .shared, some .serialized) := by decide +kernel
    obtain ⟨⟨report, output, after⟩, ran, seen⟩ := exists_ok_of_map observed
    simp only [Prod.mk.injEq] at seen
    obtain ⟨server, mode, loaded⟩ := seen
    refine ⟨report, output, after, ran, mode, loaded, ?_⟩
    intro faithful
    have name : normalizeServerName "Foo" = "foo" := by decide +kernel
    have kept := faithful.loadedPolicy
    obtain ⟨policy, isPolicy, serialized⟩ := map_eq_some_iff.mp loaded
    rw [server, name, isPolicy] at kept
    simp only [map_some, Option.some.injEq, Prod.mk.injEq] at kept
    rw [kept.1, mode] at serialized
    cases serialized

end Mcpace.Server

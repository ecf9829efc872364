import Mcpace.Execution.Policy

/-!
Owns what a resolved execution policy depends on: for each setting, the place it is read from
and the form it is settled into.

A resolution applies up to three blocks to a preset and normalizes the result.
`resolvedSettings` says directly which value wins, `Schedule.settled` what normalization makes of
it, and `schedule_resolveWithCanonical` that a resolution is these two. Root defaults are written
and read once more before a server uses them; `schedule_underRoot` shows that nothing is lost on
the way.

Does not own: the source label and the warnings of a policy.
-/

namespace Mcpace.Execution

open Library Json List JsonValue

/-- The settings by which a server is scheduled. -/
structure Schedule where
  mode : ExecutionMode
  affinity : List String
  queueTimeoutMs : Nat
  reusePolicy : String
  minWorkers : Nat
  maxWorkers : Nat
  maxInFlightPerWorker : Nat
  maxQueueDepth : Nat
  idleTtlMs : Nat
deriving DecidableEq, Repr

def ExecutionPolicy.schedule (policy : ExecutionPolicy) : Schedule :=
  { mode := policy.mode, affinity := policy.affinity, queueTimeoutMs := policy.queueTimeoutMs,
    reusePolicy := policy.reusePolicy, minWorkers := policy.minWorkers,
    maxWorkers := policy.maxWorkers, maxInFlightPerWorker := policy.maxInFlightPerWorker,
    maxQueueDepth := policy.maxQueueDepth, idleTtlMs := policy.idleTtlMs }

namespace Schedule

/-! ### Settled form -/

/-- Settings under which nothing runs. -/
def Off (schedule : Schedule) : Prop :=
  schedule.mode = .disabled ∨ schedule.maxWorkers = 0 ∨ schedule.maxInFlightPerWorker = 0

instance (schedule : Schedule) : Decidable schedule.Off :=
  inferInstanceAs (Decidable (_ ∨ _ ∨ _))

/-- The affinity an isolating mode cannot do without is added at the end. -/
def requireAffinity (mode : ExecutionMode) (affinity : List String) : List String :=
  let affinity := if mode = .projectIsolated ∧ affinity.contains "project" = false then
    affinity ++ ["project"] else affinity
  if mode = .sessionIsolated ∧ ¬(affinity.any (fun value =>
      ["chat", "session", "application", "transport-session"].contains value) = true) then
    affinity ++ ["session"]
  else affinity

def dimensions (schedule : Schedule) : List String :=
  (normalizeAffinity (requireAffinity schedule.mode (normalizeAffinity schedule.affinity).1)).1

/-- Only a pool has more than one worker. -/
def workers (schedule : Schedule) : Nat :=
  if schedule.mode = .pool then min (max schedule.maxWorkers 1) workerMaximum else 1

def reuse (schedule : Schedule) : String :=
  if ExecutionPolicy.allowedReuse.contains schedule.reusePolicy then schedule.reusePolicy
  else (ExecutionPolicy.forMode schedule.mode).reusePolicy

def settled (schedule : Schedule) : Schedule :=
  if schedule.Off then
    { schedule with
      mode := .disabled, affinity := [], queueTimeoutMs := 0, reusePolicy := "never",
      minWorkers := 0, maxWorkers := 0, maxInFlightPerWorker := 0 }
  else
    { mode := schedule.mode
      affinity := schedule.dimensions
      queueTimeoutMs := min schedule.queueTimeoutMs maxQueueTimeoutMs
      reusePolicy := schedule.reuse
      minWorkers := min schedule.minWorkers schedule.workers
      maxWorkers := schedule.workers
      maxInFlightPerWorker := min (max schedule.maxInFlightPerWorker 1) inFlightMaximum
      maxQueueDepth := min (max schedule.maxQueueDepth 1) queueDepthMaximum
      idleTtlMs := min (max schedule.idleTtlMs 1000) idleTtlMaximum }

variable {schedule : Schedule}

theorem settled_mode_of_not_off (on : ¬schedule.Off) : schedule.settled.mode = schedule.mode := by
  rw [settled, if_neg on]

theorem settled_mode_of_off (off : schedule.Off) : schedule.settled.mode = .disabled := by
  rw [settled, if_pos off]

theorem mode_ne_disabled (on : ¬schedule.Off) : schedule.mode ≠ .disabled :=
  fun disabled => on (Or.inl disabled)

theorem settled_mode_eq_disabled_iff : schedule.settled.mode = .disabled ↔ schedule.Off := by
  constructor
  · intro disabled
    by_contra on
    exact mode_ne_disabled on ((settled_mode_of_not_off on).symm.trans disabled)
  · exact settled_mode_of_off

variable {left right : Schedule}

end Schedule

/-! ### Normalization settles -/

namespace ExecutionPolicy

theorem clampWithWarning_fst (value maximum : Nat) (label : String) :
    (clampWithWarning value maximum label).1 = min value maximum := by
  rw [clampWithWarning]
  split
  · exact (min_eq_right (by omega)).symm
  · exact (min_eq_left (by omega)).symm

section

variable (policy : ExecutionPolicy)

include policy

theorem schedule_settleAffinity : policy.settleAffinity.schedule =
      { policy.schedule with affinity := (normalizeAffinity policy.schedule.affinity).1 } := rfl

theorem schedule_clampLimits : policy.clampLimits.schedule =
      { policy.schedule with
        queueTimeoutMs := min policy.schedule.queueTimeoutMs maxQueueTimeoutMs
        maxWorkers := min (max policy.schedule.maxWorkers 1) workerMaximum
        maxInFlightPerWorker := min (max policy.schedule.maxInFlightPerWorker 1) inFlightMaximum
        maxQueueDepth := min (max policy.schedule.maxQueueDepth 1) queueDepthMaximum
        idleTtlMs := min (max policy.schedule.idleTtlMs 1000) idleTtlMaximum } := by
  simp only [clampLimits, schedule, warn, clampWithWarning_fst]

theorem schedule_limitWorkers : policy.limitWorkers.schedule =
      let workers := if policy.schedule.mode ≠ .pool ∧ policy.schedule.maxWorkers > 1 then 1
        else policy.schedule.maxWorkers
      { policy.schedule with
        maxWorkers := workers, minWorkers := min policy.schedule.minWorkers workers } := by
  have mode : policy.schedule.mode = policy.mode := rfl
  have workers : policy.schedule.maxWorkers = policy.maxWorkers := rfl
  rw [limitWorkers, mode, workers]
  dsimp only
  split <;> rfl

theorem schedule_addMissingAffinity : policy.addMissingAffinity.schedule =
      { policy.schedule with
        affinity := Schedule.requireAffinity policy.schedule.mode policy.schedule.affinity } := by
  have project : policy.hasAffinity "project" = policy.affinity.contains "project" := rfl
  have mode : policy.schedule.mode = policy.mode := rfl
  have affinity : policy.schedule.affinity = policy.affinity := rfl
  rw [addMissingAffinity, Schedule.requireAffinity, project, mode, affinity]
  by_cases missing : policy.mode = .projectIsolated ∧ policy.affinity.contains "project" = false
  · -- no mode isolates by project and by session
    have other : ¬policy.mode = .sessionIsolated := by
      rw [missing.1]
      decide
    rw [if_pos missing, if_pos missing, if_neg (fun session => other session.1),
      if_neg (fun session => other session.1)]
    rfl
  · rw [if_neg missing, if_neg missing]
    dsimp only
    split <;> rfl

theorem schedule_settleReuse : policy.settleReuse.schedule =
      { policy.schedule with reusePolicy := policy.schedule.reuse } := by
  have same : policy.schedule.reusePolicy = policy.reusePolicy := rfl
  rw [settleReuse, Schedule.reuse, same]
  split <;> rfl

theorem schedule_normalize : policy.normalize.schedule = policy.schedule.settled := by
  rw [normalize, Schedule.settled]
  by_cases off : policy.schedule.Off
  · have settledOff : policy.settleAffinity.mode = .disabled ∨
        policy.settleAffinity.maxWorkers = 0 ∨
        policy.settleAffinity.maxInFlightPerWorker = 0 := off
    rw [if_pos settledOff, if_pos off]
    rfl
  · have settledOn : ¬(policy.settleAffinity.mode = .disabled ∨
        policy.settleAffinity.maxWorkers = 0 ∨
        policy.settleAffinity.maxInFlightPerWorker = 0) := off
    -- at least one worker is left after the clamp, so limiting leaves one outside a pool
    have workers : (if policy.schedule.mode ≠ .pool ∧
        min (max policy.schedule.maxWorkers 1) workerMaximum > 1 then 1
        else min (max policy.schedule.maxWorkers 1) workerMaximum) = policy.schedule.workers := by
      rw [Schedule.workers]
      have maximum : workerMaximum = 64 := rfl
      by_cases pool : policy.schedule.mode = .pool
      · rw [if_neg (fun limited => limited.1 pool), if_pos pool]
      · simp only [pool, ne_eq, not_false_eq_true, true_and, if_false]
        split <;> omega
    rw [if_neg settledOn, if_neg off]
    simp only [schedule_settleReuse, schedule_settleAffinity, schedule_addMissingAffinity,
      schedule_limitWorkers, schedule_clampLimits, Schedule.reuse, Schedule.dimensions, workers]

end

variable {policy : ExecutionPolicy} {settings : Schedule}

end ExecutionPolicy

/-! ### Blocks -/

namespace Schedule

/-- The settings an execution block names; the others stay. -/
def read (block : JsonValue) (base : Schedule) : Schedule :=
  { mode := base.mode
    affinity := (((block.get "affinity").bind asArray).map
      (fun items => stringsFromArray (some items))).getD base.affinity
    queueTimeoutMs := (nonNegative (block.get "queueTimeoutMs")).getD base.queueTimeoutMs
    reusePolicy := ((((block.get "reusePolicy").bind asStr).map
      normalizeToken).filter (· ≠ "")).getD base.reusePolicy
    minWorkers := (nonNegative (block.get "minWorkers")).getD base.minWorkers
    maxWorkers := (nonNegative (block.get "maxWorkers")).getD base.maxWorkers
    maxInFlightPerWorker :=
      (nonNegative (block.get "maxInFlightPerWorker")).getD base.maxInFlightPerWorker
    maxQueueDepth := (positive (block.get "maxQueueDepth")).getD base.maxQueueDepth
    idleTtlMs := (positive (block.get "idleTtlMs")).getD base.idleTtlMs }

/-- The two limits that a block sets for every mode. -/
def readLimits (block : JsonValue) (base : Schedule) : Schedule :=
  { base with
    maxQueueDepth := (positive (block.get "maxQueueDepth")).getD base.maxQueueDepth
    idleTtlMs := (positive (block.get "idleTtlMs")).getD base.idleTtlMs }

/-- What a canonical policy that does not disable the server says about workers. -/
def readCanonical (block : JsonValue) (base : Schedule) : Schedule :=
  { base with
    maxWorkers := ((nonNegative (block.get "maxWorkers")).or
      (nonNegative (block.get "parallelismLimit"))).getD base.maxWorkers
    maxInFlightPerWorker :=
      (nonNegative (block.get "maxInFlightPerWorker")).getD base.maxInFlightPerWorker }

end Schedule

namespace ExecutionPolicy

variable {value : JsonValue}

theorem get_eq_none_of_asObject (notObject : value.asObject = none) (key : String) :
    value.get key = none := by
  cases value with
  | object entries => exact absurd notObject (Option.some_ne_none _)
  | _ => rfl

theorem schedule_applyJson (policy : ExecutionPolicy) (block : JsonValue) (label : String) :
    (policy.applyJson block label).schedule = policy.schedule.read block := by
  rw [applyJson]
  split
  · rename_i notObject
    simp only [Schedule.read, get_eq_none_of_asObject notObject]
    rfl
  · rfl

variable {policy : ExecutionPolicy}

theorem schedule_applyCanonicalJson {block : JsonValue}
    (enabled : canonicalPolicyDisabled block = false) :
    (policy.applyCanonicalJson block).schedule = policy.schedule.readCanonical block := by
  rw [applyCanonicalJson, if_neg (by rw [enabled]; decide)]
  simp only [valueAtPath_singleton]
  rfl

/-! ### Root defaults read back -/

/-- Policies whose written form gives every scheduling setting back. -/
structure Readable (policy : ExecutionPolicy) : Prop where
  affinity : ∀ dimension ∈ policy.affinity, dimension ∈ supportedAffinities
  reuse : policy.reusePolicy ∈ allowedReuse
  queueTimeout : policy.queueTimeoutMs < 2 ^ 63
  minWorkers : policy.minWorkers < 2 ^ 63
  maxWorkers : policy.maxWorkers < 2 ^ 63
  maxInFlight : policy.maxInFlightPerWorker < 2 ^ 63
  queueDepth : 0 < policy.maxQueueDepth ∧ policy.maxQueueDepth < 2 ^ 63
  idleTtl : 0 < policy.idleTtlMs ∧ policy.idleTtlMs < 2 ^ 63

theorem nonNegative_ofNat {value : Nat} (fits : value < 2 ^ 63) :
    nonNegative (some (ofNat value)) = some value := by
  rw [nonNegative, Option.bind_some, asI64_ofNat fits, Option.bind_some,
    if_pos (Int.natCast_nonneg value), Int.toNat_natCast]

theorem positive_ofNat {value : Nat} (bounds : 0 < value ∧ value < 2 ^ 63) :
    positive (some (ofNat value)) = some value := by
  rw [positive, nonNegative_ofNat bounds.2, Option.filter_some, if_pos (decide_eq_true bounds.1)]

theorem stringsFromArray_supported {affinity : List String}
    (supported : ∀ dimension ∈ affinity, dimension ∈ supportedAffinities) :
    stringsFromArray (some (affinity.map .string)) = affinity := by
  have plain : ∀ dimension ∈ supportedAffinities,
      Text.trimNonEmpty dimension = some dimension := by decide
  have reads : ∀ dimension ∈ affinity,
      (JsonValue.string dimension).asStr.bind Text.trimNonEmpty = some dimension := by
    intro dimension member
    rw [asStr, Option.bind_some]
    exact plain dimension (supported dimension member)
  rw [stringsFromArray, Option.getD_some, filterMap_map,
    filterMap_congr (g := some) (by exact reads), filterMap_some]

theorem normalizeToken_allowedReuse {reuse : String} (allowed : reuse ∈ allowedReuse) :
    (some (normalizeToken reuse)).filter (· ≠ "") = some reuse := by
  have plain : ∀ token ∈ allowedReuse, normalizeToken token = token ∧ token ≠ "" := by
    decide
  rw [(plain reuse allowed).1, Option.filter_some, if_pos (decide_eq_true (plain reuse allowed).2)]

theorem modeAt_toConfigJsonValue (policy : ExecutionPolicy) :
    modeAt (some policy.toConfigJsonValue) = some policy.mode := by
  have member : policy.toConfigJsonValue.get "mode" = some (.string policy.mode.asStr) :=
    get_ofEntries_eq_some rfl
  rw [modeAt, Option.bind_some, member, Option.bind_some, asStr, Option.bind_some,
    ExecutionMode.parse_asStr]
  rfl

theorem get_queueDepth :
    policy.toConfigJsonValue.get "maxQueueDepth" = some (.ofNat policy.maxQueueDepth) :=
  get_ofEntries_eq_some rfl

theorem get_idleTtl :
    policy.toConfigJsonValue.get "idleTtlMs" = some (.ofNat policy.idleTtlMs) :=
  get_ofEntries_eq_some rfl

/-- A readable policy written as defaults gives its own settings back, whatever they are laid
over. -/
theorem Readable.read_toConfigJsonValue (readable : policy.Readable) {base : Schedule}
    (mode : base.mode = policy.mode) : base.read policy.toConfigJsonValue = policy.schedule := by
  have affinity : policy.toConfigJsonValue.get "affinity" =
      some (.array (policy.affinity.map .string)) := get_ofEntries_eq_some rfl
  have reuse : policy.toConfigJsonValue.get "reusePolicy" = some (.string policy.reusePolicy) :=
    get_ofEntries_eq_some rfl
  have queueTimeout : policy.toConfigJsonValue.get "queueTimeoutMs" =
      some (.ofNat policy.queueTimeoutMs) := get_ofEntries_eq_some rfl
  have minWorkers : policy.toConfigJsonValue.get "minWorkers" = some (.ofNat policy.minWorkers) :=
    get_ofEntries_eq_some rfl
  have maxWorkers : policy.toConfigJsonValue.get "maxWorkers" = some (.ofNat policy.maxWorkers) :=
    get_ofEntries_eq_some rfl
  have maxInFlight : policy.toConfigJsonValue.get "maxInFlightPerWorker" =
      some (.ofNat policy.maxInFlightPerWorker) := get_ofEntries_eq_some rfl
  simp only [Schedule.read, affinity, reuse, queueTimeout, minWorkers, maxWorkers, maxInFlight,
    get_queueDepth, get_idleTtl, Option.bind_some, Option.map_some, asArray, asStr,
    normalizeToken_allowedReuse readable.reuse, nonNegative_ofNat readable.queueTimeout,
    nonNegative_ofNat readable.minWorkers, nonNegative_ofNat readable.maxWorkers,
    nonNegative_ofNat readable.maxInFlight, positive_ofNat readable.queueDepth,
    positive_ofNat readable.idleTtl, Option.getD_some,
    stringsFromArray_supported readable.affinity, mode]
  rfl

theorem Readable.readLimits_toConfigJsonValue (readable : policy.Readable) (base : Schedule) :
    base.readLimits policy.toConfigJsonValue =
      { base with maxQueueDepth := policy.maxQueueDepth, idleTtlMs := policy.idleTtlMs } := by
  simp only [Schedule.readLimits, get_queueDepth, get_idleTtl, positive_ofNat readable.queueDepth,
    positive_ofNat readable.idleTtl, Option.getD_some]

theorem mem_supported_of_normalizeAffinity {values : List String} {dimension : String}
    (member : dimension ∈ (normalizeAffinity values).1) : dimension ∈ supportedAffinities := by
  obtain ⟨raw, kept, same⟩ := List.mem_map.mp (Text.mem_of_mem_sortedUnique member)
  rw [← same]
  exact contains_iff_mem.mp (mem_filter.mp kept).2

theorem reusePolicy_forMode (mode : ExecutionMode) : (forMode mode).reusePolicy ∈ allowedReuse := by
  cases mode <;> decide

/-- Settled settings are readable if the two limits that settling may leave alone are. -/
theorem readable_of_schedule {settings : Schedule} (resolved : policy.schedule = settings.settled)
    (queueDepth : 0 < settings.maxQueueDepth ∧ settings.maxQueueDepth < 2 ^ 63)
    (idleTtl : 0 < settings.idleTtlMs ∧ settings.idleTtlMs < 2 ^ 63) : policy.Readable := by
  by_cases off : settings.Off
  · rw [Schedule.settled, if_pos off] at resolved
    injection resolved with _ affinity queueTimeout reuse minWorkers maxWorkers maxInFlight
      sameDepth sameTtl
    exact
      { affinity := by rw [affinity]; exact nofun
        reuse := by rw [reuse]; decide
        queueTimeout := by omega
        minWorkers := by omega
        maxWorkers := by omega
        maxInFlight := by omega
        queueDepth := by omega
        idleTtl := by omega }
  · rw [Schedule.settled, if_neg off] at resolved
    injection resolved with _ affinity queueTimeout reuse minWorkers maxWorkers maxInFlight
      sameDepth sameTtl
    have workers : settings.workers ≤ 64 := by
      have maximum : workerMaximum = 64 := rfl
      rw [Schedule.workers]
      split <;> omega
    have bounds : maxQueueTimeoutMs = 300000 ∧ inFlightMaximum = 64 ∧
        queueDepthMaximum = 10000 ∧ idleTtlMaximum = 86400000 := ⟨rfl, rfl, rfl, rfl⟩
    exact
      { affinity := by
          rw [affinity]
          exact fun _ member => mem_supported_of_normalizeAffinity member
        reuse := by
          rw [reuse, Schedule.reuse]
          split
          · rename_i allowed
            exact contains_iff_mem.mp allowed
          · exact reusePolicy_forMode settings.mode
        queueTimeout := by omega
        minWorkers := by omega
        maxWorkers := by omega
        maxInFlight := by omega
        queueDepth := by omega
        idleTtl := by omega }

/-! ### A resolution -/

/-- What a resolution starts from: the preset of its mode, under all of the defaults if they are
for this mode and no other is asked for, under their two limits otherwise. -/
def baseSettings (executionDefaults : Option JsonValue) (explicitMode : Option ExecutionMode)
    (mode : ExecutionMode) : Schedule :=
  match executionDefaults with
  | none => (forMode mode).schedule
  | some block =>
    if explicitMode = none ∧ modeAt executionDefaults = some mode then
      (forMode mode).schedule.read block
    else (forMode mode).schedule.readLimits block

/-- The canonical block is laid over the base, and the execution block over both. -/
def overlaySettings (base : Schedule) (canonicalPolicy serverExecution : Option JsonValue) :
    Schedule :=
  let inherited := (canonicalPolicy.map (fun block => base.readCanonical block)).getD base
  (serverExecution.map (fun block => inherited.read block)).getD inherited

theorem mode_forMode (mode : ExecutionMode) : (forMode mode).schedule.mode = mode := by
  cases mode <;> rfl

theorem mode_baseSettings (executionDefaults : Option JsonValue)
    (explicitMode : Option ExecutionMode) (mode : ExecutionMode) :
    (baseSettings executionDefaults explicitMode mode).mode = mode := by
  cases executionDefaults with
  | none => exact mode_forMode mode
  | some block =>
    rw [baseSettings]
    split
    · exact mode_forMode mode
    · exact mode_forMode mode

theorem mode_overlaySettings (base : Schedule)
    (canonicalPolicy serverExecution : Option JsonValue) :
    (overlaySettings base canonicalPolicy serverExecution).mode = base.mode := by
  cases canonicalPolicy <;> cases serverExecution <;> rfl

variable {executionDefaults canonicalPolicy serverExecution : Option JsonValue}
  {fallbackMode : ExecutionMode}

theorem schedule_resolve_disabled
    (disabled : (canonicalPolicy.map canonicalPolicyDisabled).getD false = true) :
    (resolveWithCanonical executionDefaults canonicalPolicy serverExecution
      fallbackMode).schedule = (forMode .disabled).schedule.settled := by
  rw [resolveWithCanonical, if_pos disabled, schedule_normalize]
  rfl

theorem schedule_overlay {policy : ExecutionPolicy} {canonicalPolicy : Option JsonValue}
    (enabled : (canonicalPolicy.map canonicalPolicyDisabled).getD false = false)
    (serverExecution : Option JsonValue) (label : String) :
    ((serverExecution.map (fun server =>
      ((canonicalPolicy.map policy.applyCanonicalJson).getD policy).applyJson server label)).getD
        ((canonicalPolicy.map policy.applyCanonicalJson).getD policy)).schedule =
      overlaySettings policy.schedule canonicalPolicy serverExecution := by
  have canonical : ((canonicalPolicy.map policy.applyCanonicalJson).getD policy).schedule =
      (canonicalPolicy.map (fun block => policy.schedule.readCanonical block)).getD
        policy.schedule := by
    cases canonicalPolicy with
    | none => rfl
    | some block => exact schedule_applyCanonicalJson enabled
  rw [overlaySettings, ← canonical]
  cases serverExecution with
  | none => rfl
  | some block => exact schedule_applyJson _ block label

theorem schedule_resolve_enabled
    (enabled : (canonicalPolicy.map canonicalPolicyDisabled).getD false = false) :
    (resolveWithCanonical executionDefaults canonicalPolicy serverExecution fallbackMode).schedule =
      (overlaySettings (baseSettings executionDefaults (modeAt serverExecution)
        ((modeAt serverExecution).getD fallbackMode)) canonicalPolicy serverExecution).settled := by
  -- the mode that is set at the end is the one the blocks already have
  have finish : ∀ (last : ExecutionPolicy) (mode : ExecutionMode) (source : String) {settings},
      last.schedule = overlaySettings settings canonicalPolicy serverExecution →
      settings = baseSettings executionDefaults (modeAt serverExecution) mode →
      ({ last with mode := mode, source := source } : ExecutionPolicy).schedule =
        overlaySettings (baseSettings executionDefaults (modeAt serverExecution) mode)
          canonicalPolicy serverExecution := by
    intro last mode source settings overlay begins
    have modes : last.schedule.mode = mode := by
      rw [overlay, begins, mode_overlaySettings, mode_baseSettings]
    rw [← begins, ← overlay, ← modes]
    rfl
  rw [resolveWithCanonical, if_neg (by rw [enabled]; decide), schedule_normalize]
  refine congrArg Schedule.settled (finish _ _ _ (schedule_overlay enabled _ _) ?_)
  cases executionDefaults with
  | none => rfl
  | some block =>
    rw [baseSettings]
    dsimp only
    split
    · exact schedule_applyJson _ _ _
    · rfl

/-- The settings of a resolution, each from the block that decides it. -/
def resolvedSettings (executionDefaults canonicalPolicy serverExecution : Option JsonValue)
    (fallbackMode : ExecutionMode) : Schedule :=
  if (canonicalPolicy.map canonicalPolicyDisabled).getD false then (forMode .disabled).schedule
  else
    overlaySettings (baseSettings executionDefaults (modeAt serverExecution)
      ((modeAt serverExecution).getD fallbackMode)) canonicalPolicy serverExecution

/-- Resolving is reading the blocks and settling what they say. -/
theorem schedule_resolveWithCanonical (executionDefaults canonicalPolicy serverExecution :
    Option JsonValue) (fallbackMode : ExecutionMode) :
    (resolveWithCanonical executionDefaults canonicalPolicy serverExecution fallbackMode).schedule =
      (resolvedSettings executionDefaults canonicalPolicy serverExecution fallbackMode).settled := by
  rw [resolvedSettings]
  split
  · rename_i disabled
    exact schedule_resolve_disabled disabled
  · rename_i enabled
    exact schedule_resolve_enabled (Bool.eq_false_of_not_eq_true enabled)

/-! ### Root defaults and servers -/

/-- What the `executionDefaults` of a config say. -/
def rootSettings (config : JsonValue) : Schedule :=
  let defaults := config.get "executionDefaults"
  baseSettings defaults none ((modeAt defaults).getD .serialized)

theorem schedule_fromConfigRoot (config : JsonValue) :
    (fromConfigRoot config).schedule = (rootSettings config).settled :=
  schedule_resolveWithCanonical (config.get "executionDefaults") none none _

theorem positive_bounds {value : Option JsonValue} {number : Nat}
    (found : positive value = some number) : 0 < number ∧ number < 2 ^ 63 := by
  obtain ⟨read, above⟩ := Option.filter_eq_some_iff.mp found
  obtain ⟨integer, parsed, converted⟩ := Option.bind_eq_some_iff.mp read
  obtain ⟨document, _, isNumber⟩ := Option.bind_eq_some_iff.mp parsed
  cases document with
  | number text =>
    have range := (Option.filter_eq_some_iff.mp isNumber).2
    rw [decide_eq_true_eq] at range
    split at converted
    · have same : integer.toNat = number := Option.some.inj converted
      have positive : 0 < number := of_decide_eq_true above
      omega
    · exact absurd converted (Option.some_ne_none _).symm
  | _ => exact absurd isNumber (Option.some_ne_none _).symm

theorem getD_positive_bounds (value : Option JsonValue) {base : Nat}
    (bounds : 0 < base ∧ base < 2 ^ 63) :
    0 < (positive value).getD base ∧ (positive value).getD base < 2 ^ 63 := by
  cases found : positive value with
  | none => exact bounds
  | some number => exact positive_bounds found

theorem readable_fromConfigRoot (config : JsonValue) : (fromConfigRoot config).Readable := by
  have preset : ∀ mode, (forMode mode).schedule.maxQueueDepth = 256 ∧
      (forMode mode).schedule.idleTtlMs = 300000 := by
    intro mode
    cases mode <;> exact ⟨rfl, rfl⟩
  have limits : ∀ defaults explicitMode mode,
      (0 < (baseSettings defaults explicitMode mode).maxQueueDepth ∧
        (baseSettings defaults explicitMode mode).maxQueueDepth < 2 ^ 63) ∧
      (0 < (baseSettings defaults explicitMode mode).idleTtlMs ∧
        (baseSettings defaults explicitMode mode).idleTtlMs < 2 ^ 63) := by
    intro defaults explicitMode mode
    obtain ⟨depth, ttl⟩ := preset mode
    cases defaults with
    | none =>
      rw [baseSettings, depth, ttl]
      omega
    | some block =>
      have laid := And.intro (@getD_positive_bounds (block.get "maxQueueDepth") 256 (by omega))
        (@getD_positive_bounds (block.get "idleTtlMs") 300000 (by omega))
      rw [← depth, ← ttl] at laid
      rw [baseSettings]
      split
      · exact laid
      · exact laid
  exact readable_of_schedule (schedule_fromConfigRoot config) (limits _ _ _).1 (limits _ _ _).2

/-- What a server starts from under settled root defaults. -/
def serverBase (root : Schedule) (explicitMode : Option ExecutionMode) (mode : ExecutionMode) :
    Schedule :=
  if explicitMode = none ∧ root.mode = mode then root
  else
    { (forMode mode).schedule with
      maxQueueDepth := root.maxQueueDepth, idleTtlMs := root.idleTtlMs }

/-- Where each setting of a server comes from: its execution block, else its canonical block,
else the root defaults if they are for its mode, else the preset of the mode. The queue depth and
the idle time of the root count for every mode. -/
def serverSettings (root : Schedule) (canonicalPolicy serverExecution : Option JsonValue)
    (fallbackMode : ExecutionMode) : Schedule :=
  if (canonicalPolicy.map canonicalPolicyDisabled).getD false then (forMode .disabled).schedule
  else
    overlaySettings (serverBase root (modeAt serverExecution)
      ((modeAt serverExecution).getD fallbackMode)) canonicalPolicy serverExecution

theorem mode_serverBase (root : Schedule) (explicitMode : Option ExecutionMode)
    (mode : ExecutionMode) : (serverBase root explicitMode mode).mode = mode := by
  rw [serverBase]
  split
  · rename_i inherits
    exact inherits.2
  · exact mode_forMode mode

theorem baseSettings_toConfigJsonValue {defaults : ExecutionPolicy}
    (readable : defaults.Readable) (explicitMode : Option ExecutionMode) (mode : ExecutionMode) :
    baseSettings (some defaults.toConfigJsonValue) explicitMode mode =
      serverBase defaults.schedule explicitMode mode := by
  rw [baseSettings, modeAt_toConfigJsonValue, serverBase]
  by_cases inherits : explicitMode = none ∧ defaults.schedule.mode = mode
  · rw [if_pos ⟨inherits.1, congrArg some inherits.2⟩, if_pos inherits]
    exact readable.read_toConfigJsonValue ((mode_forMode mode).trans inherits.2.symm)
  · rw [if_neg (fun both => inherits ⟨both.1, Option.some.inj both.2⟩), if_neg inherits]
    exact readable.readLimits_toConfigJsonValue _

theorem schedule_underRoot (config : JsonValue)
    (canonicalPolicy serverExecution : Option JsonValue) (fallbackMode : ExecutionMode) :
    (resolveWithCanonical (some (fromConfigRoot config).toConfigJsonValue) canonicalPolicy
        serverExecution fallbackMode).schedule =
      (serverSettings (rootSettings config).settled canonicalPolicy serverExecution
        fallbackMode).settled := by
  rw [schedule_resolveWithCanonical, resolvedSettings, serverSettings,
    baseSettings_toConfigJsonValue (readable_fromConfigRoot config), schedule_fromConfigRoot]

end ExecutionPolicy

end Mcpace.Execution

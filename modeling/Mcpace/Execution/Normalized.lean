import Mcpace.Execution.Schedule

/-!
Contract: what holds of every resolved execution policy, whatever was configured.

The facts are proved for `Schedule.settled`, the form into which normalization brings the settings
of a policy. Settled settings are left alone by normalization.
-/

namespace Mcpace.Execution

open Library Json List

/-! ### Affinity lists -/

section Affinity

variable {values : List String}

/-- The dimensions that tell sessions apart. -/
def sessionAffinities : List String := ["chat", "session", "application", "transport-session"]

/-- An affinity list that normalization leaves alone. -/
structure CanonicalAffinity (affinity : List String) : Prop where
  sorted : affinity.Pairwise (· < ·)
  supported : ∀ dimension ∈ affinity, dimension ∈ supportedAffinities

theorem normalizeAffinityToken_supported {dimension : String}
    (supported : dimension ∈ supportedAffinities) :
    normalizeAffinityToken dimension = dimension ∧ dimension ≠ "" := by
  have table : ∀ dimension ∈ supportedAffinities,
      normalizeAffinityToken dimension = dimension ∧ dimension ≠ "" := by decide
  exact table dimension supported

theorem canonicalAffinity_normalizeAffinity (values : List String) :
    CanonicalAffinity (normalizeAffinity values).1 where
  sorted := Text.sorted_sortedUnique _
  supported := fun _ member => ExecutionPolicy.mem_supported_of_normalizeAffinity member

theorem CanonicalAffinity.normalizeAffinity_eq (canonical : CanonicalAffinity values) :
    (normalizeAffinity values).1 = values := by
  have fixed : ∀ dimension ∈ values, normalizeAffinityToken dimension = dimension :=
    fun dimension member =>
      (normalizeAffinityToken_supported (canonical.supported dimension member)).1
  have tokens : values.filter (fun raw => normalizeAffinityToken raw ≠ "") = values := by
    apply filter_eq_self.mpr
    intro dimension member
    rw [fixed dimension member]
    exact decide_eq_true (normalizeAffinityToken_supported (canonical.supported dimension member)).2
  have supported : values.filter
      (fun raw => supportedAffinities.contains (normalizeAffinityToken raw)) = values := by
    apply filter_eq_self.mpr
    intro dimension member
    rw [fixed dimension member]
    exact contains_iff_mem.mpr (canonical.supported dimension member)
  have mapped : values.map normalizeAffinityToken = values := by
    rw [map_congr_left fixed, List.map_id']
  show Text.sortedUnique (((values.filter (fun raw => normalizeAffinityToken raw ≠ "")).filter
    (fun raw => supportedAffinities.contains (normalizeAffinityToken raw))).map
      normalizeAffinityToken) = values
  rw [tokens, supported, mapped]
  exact Text.sortedUnique_of_sorted canonical.sorted

theorem mem_normalizeAffinity {dimension : String} (member : dimension ∈ values)
    (supported : dimension ∈ supportedAffinities) : dimension ∈ (normalizeAffinity values).1 := by
  obtain ⟨fixed, nonempty⟩ := normalizeAffinityToken_supported supported
  show dimension ∈ Text.sortedUnique _
  rw [Text.mem_sortedUnique, List.mem_map]
  refine ⟨dimension, ?_, fixed⟩
  simp only [mem_filter, fixed, contains_iff_mem, supported, member, nonempty, ne_eq,
    not_false_eq_true, decide_true, and_self]

end Affinity

namespace Schedule

/-- The list has what its mode cannot do without. -/
structure Complete (mode : ExecutionMode) (affinity : List String) : Prop where
  project : mode = .projectIsolated → "project" ∈ affinity
  session : mode = .sessionIsolated → ∃ dimension ∈ sessionAffinities, dimension ∈ affinity

section Complete

variable {mode : ExecutionMode} {affinity : List String}

theorem complete_requireAffinity (mode : ExecutionMode) (affinity : List String) :
    Complete mode (requireAffinity mode affinity) where
  project := by
    rintro rfl
    rw [requireAffinity]
    simp only [true_and, reduceCtorEq, false_and, if_false]
    split
    · simp
    · rename_i present
      exact contains_iff_mem.mp (Bool.eq_true_of_not_eq_false present)
  session := by
    rintro rfl
    rw [requireAffinity]
    simp only [true_and, reduceCtorEq, false_and, if_false]
    split
    · exact ⟨"session", by decide, by simp⟩
    · rename_i present
      obtain ⟨dimension, member, isSession⟩ := List.any_eq_true.mp (not_not.mp present)
      exact ⟨dimension, contains_iff_mem.mp isSession, member⟩

theorem Complete.requireAffinity_eq (complete : Complete mode affinity) :
    requireAffinity mode affinity = affinity := by
  have project : ¬(mode = .projectIsolated ∧ affinity.contains "project" = false) := by
    rintro ⟨isolated, missing⟩
    rw [contains_iff_mem.mpr (complete.project isolated)] at missing
    cases missing
  have session : ¬(mode = .sessionIsolated ∧ ¬(affinity.any (fun value =>
      ["chat", "session", "application", "transport-session"].contains value) = true)) := by
    rintro ⟨isolated, missing⟩
    obtain ⟨dimension, isSession, member⟩ := complete.session isolated
    exact missing (List.any_eq_true.mpr ⟨dimension, member, contains_iff_mem.mpr isSession⟩)
  rw [requireAffinity, if_neg project, if_neg session]

theorem Complete.normalizeAffinity (complete : Complete mode affinity) :
    Complete mode (Execution.normalizeAffinity affinity).1 where
  project := fun isolated => mem_normalizeAffinity (complete.project isolated) (by decide)
  session := by
    intro isolated
    obtain ⟨dimension, isSession, member⟩ := complete.session isolated
    have supported : ∀ dimension ∈ sessionAffinities, dimension ∈ supportedAffinities := by decide
    exact ⟨dimension, isSession, mem_normalizeAffinity member (supported dimension isSession)⟩

end Complete

/-! ### Settled settings -/

/-- What is known of settings that run. -/
structure Bounded (schedule : Schedule) : Prop where
  workers : 1 ≤ schedule.maxWorkers ∧ schedule.maxWorkers ≤ 64
  single : schedule.mode ≠ .pool → schedule.maxWorkers = 1
  minWorkers : schedule.minWorkers ≤ schedule.maxWorkers
  inFlight : 1 ≤ schedule.maxInFlightPerWorker ∧ schedule.maxInFlightPerWorker ≤ 64
  queueDepth : 1 ≤ schedule.maxQueueDepth ∧ schedule.maxQueueDepth ≤ 10000
  idleTtl : 1000 ≤ schedule.idleTtlMs ∧ schedule.idleTtlMs ≤ 24 * 60 * 60 * 1000
  queueTimeout : schedule.queueTimeoutMs ≤ 5 * 60 * 1000

structure Normal (schedule : Schedule) : Prop where
  disabled_iff : schedule.mode = .disabled ↔ schedule.maxWorkers = 0
  bounded : schedule.mode ≠ .disabled → schedule.Bounded
  affinity : CanonicalAffinity schedule.affinity
  complete : Complete schedule.mode schedule.affinity

variable {schedule : Schedule}

theorem clamp_bounds {low high : Nat} (ordered : low ≤ high) (value : Nat) :
    low ≤ min (max value low) high ∧ min (max value low) high ≤ high := by
  omega

theorem bounded_settled (on : ¬schedule.Off) : schedule.settled.Bounded := by
  have workers : 1 ≤ schedule.workers ∧ schedule.workers ≤ 64 := by
    unfold Schedule.workers workerMaximum
    split <;> omega
  have single : schedule.mode ≠ .pool → schedule.workers = 1 := by
    intro notPool
    rw [Schedule.workers, if_neg notPool]
  rw [settled, if_neg on]
  refine ⟨workers, single, ?_, clamp_bounds (by decide) _, clamp_bounds (by decide) _,
    clamp_bounds (by decide) _, ?_⟩
  · show min schedule.minWorkers schedule.workers ≤ schedule.workers
    omega
  · show min schedule.queueTimeoutMs (5 * 60 * 1000) ≤ 5 * 60 * 1000
    omega

theorem normal_settled (schedule : Schedule) : schedule.settled.Normal := by
  by_cases off : schedule.Off
  · rw [settled, if_pos off]
    refine ⟨?_, fun running => absurd rfl running, ⟨List.Pairwise.nil, ?_⟩, ⟨?_, ?_⟩⟩
    · exact ⟨fun _ => rfl, fun _ => rfl⟩
    all_goals simp
  · have bounded := bounded_settled off
    have running : schedule.settled.mode ≠ .disabled := by
      rw [settled_mode_of_not_off off]
      exact mode_ne_disabled off
    have dimensions : schedule.settled.affinity = schedule.dimensions := by
      rw [settled, if_neg off]
    refine ⟨?_, fun _ => bounded, ?_, ?_⟩
    · have some := bounded.workers
      constructor
      · exact fun disabled => absurd disabled running
      · intro none
        omega
    · rw [dimensions]
      exact canonicalAffinity_normalizeAffinity _
    · rw [dimensions, settled_mode_of_not_off off]
      exact (complete_requireAffinity _ _).normalizeAffinity

theorem reuse_of_allowed (allowed : schedule.reusePolicy ∈ ExecutionPolicy.allowedReuse) :
    schedule.reuse = schedule.reusePolicy := by
  rw [reuse, if_pos (contains_iff_mem.mpr allowed)]

theorem reuse_mem_allowedReuse (schedule : Schedule) :
    schedule.reuse ∈ ExecutionPolicy.allowedReuse := by
  rw [reuse]
  split
  · rename_i allowed
    exact contains_iff_mem.mp allowed
  · exact ExecutionPolicy.reusePolicy_forMode schedule.mode

/-- Normal settings that run are left alone. -/
theorem Normal.settled_eq (normal : schedule.Normal) (on : ¬schedule.Off)
    (allowed : schedule.reusePolicy ∈ ExecutionPolicy.allowedReuse) :
    schedule.settled = schedule := by
  have bounded := normal.bounded (mode_ne_disabled on)
  have dimensions : schedule.dimensions = schedule.affinity := by
    rw [Schedule.dimensions, normal.affinity.normalizeAffinity_eq,
      normal.complete.requireAffinity_eq, normal.affinity.normalizeAffinity_eq]
  have workers : schedule.workers = schedule.maxWorkers := by
    have bounds := bounded.workers
    unfold Schedule.workers workerMaximum
    split
    · omega
    · rename_i notPool
      exact (bounded.single notPool).symm
  have inFlight := bounded.inFlight
  have queueDepth := bounded.queueDepth
  have idleTtl := bounded.idleTtl
  have queueTimeout := bounded.queueTimeout
  have minWorkers := bounded.minWorkers
  rw [settled, if_neg on, dimensions, workers, reuse_of_allowed allowed]
  unfold maxQueueTimeoutMs inFlightMaximum queueDepthMaximum idleTtlMaximum
  rw [min_eq_left queueTimeout, min_eq_left minWorkers, max_eq_left inFlight.1,
    min_eq_left inFlight.2, max_eq_left queueDepth.1, min_eq_left queueDepth.2,
    max_eq_left idleTtl.1, min_eq_left idleTtl.2]

theorem settled_settled (schedule : Schedule) : schedule.settled.settled = schedule.settled := by
  by_cases off : schedule.Off
  · have again : schedule.settled.Off := Or.inl (settled_mode_of_off off)
    rw [settled, if_pos again]
    rw [settled, if_pos off]
  · have normal := normal_settled schedule
    have still : ¬schedule.settled.Off := by
      have bounded := bounded_settled off
      have workers := bounded.workers
      have inFlight := bounded.inFlight
      rintro (disabled | none | none)
      · exact off (settled_mode_eq_disabled_iff.mp disabled)
      · omega
      · omega
    apply normal.settled_eq still
    have kept : schedule.settled.reusePolicy = schedule.reuse := by
      rw [settled, if_neg off]
    rw [kept]
    exact reuse_mem_allowedReuse schedule

end Schedule

/-! ### Contract -/

namespace ExecutionPolicy

theorem normal_normalize (policy : ExecutionPolicy) : policy.normalize.schedule.Normal := by
  rw [schedule_normalize]
  exact Schedule.normal_settled policy.schedule

/-- Every resolution gives normal settings, a canonical policy that is disabled disables, and
normalizing once more changes no setting. -/
theorem resolveWithCanonical_normal (executionDefaults canonicalPolicy serverExecution :
    Option JsonValue) (fallbackMode : ExecutionMode) :
    let resolved := resolveWithCanonical executionDefaults canonicalPolicy serverExecution
      fallbackMode
    resolved.schedule.Normal ∧
      (∀ canonical, canonicalPolicy = some canonical → canonicalPolicyDisabled canonical = true →
        resolved.mode = .disabled) ∧
      resolved.normalize.schedule = resolved.schedule := by
  intro resolved
  have settled : resolved.schedule = (resolvedSettings executionDefaults canonicalPolicy
      serverExecution fallbackMode).settled :=
    schedule_resolveWithCanonical executionDefaults canonicalPolicy serverExecution fallbackMode
  refine ⟨?_, ?_, ?_⟩
  · rw [settled]
    exact Schedule.normal_settled _
  · rintro canonical rfl disabled
    show (resolveWithCanonical executionDefaults (some canonical) serverExecution
      fallbackMode).mode = .disabled
    rw [resolveWithCanonical, if_pos (by simpa using disabled)]
    rfl
  · rw [schedule_normalize, settled, Schedule.settled_settled]

/-- An isolating server that asks for too much gets one worker, a queue and the affinity of its
mode; a canonical policy that is switched off wins over it. -/
theorem resolveWithCanonical_normal_isolated :
    let greedy := JsonValue.object [("affinity", .array [.string "client", .string "moon"]),
      ("maxWorkers", .number "99"), ("mode", .string "project-isolated")]
    let off := JsonValue.object [("routingGroup", .string "disabled")]
    (resolveWithCanonical none none (some greedy) .shared).affinity = ["client", "project"] ∧
      (resolveWithCanonical none none (some greedy) .shared).maxWorkers = 1 ∧
      canonicalPolicyDisabled off = true ∧
      (resolveWithCanonical none (some off) (some greedy) .shared).mode = .disabled := by
  intro greedy off
  have switchedOff : canonicalPolicyDisabled off = true := by decide
  refine ⟨by decide, by decide, switchedOff, ?_⟩
  exact (resolveWithCanonical_normal none (some off) (some greedy) .shared).2.1 off rfl switchedOff

/-- A server that says nothing about its policy is scheduled as the root defaults say. -/
theorem forServer_inherits (config : JsonValue) {server : JsonMap}
    (noPolicy : OrderedMap.get "policy" server = none)
    (noExecution : OrderedMap.get "execution" server = none) :
    (forServer (fromConfigRoot config) (.object server)).schedule =
      (fromConfigRoot config).schedule := by
  have root : (fromConfigRoot config).mode = (rootSettings config).settled.mode :=
    congrArg Schedule.mode (schedule_fromConfigRoot config)
  have policy : JsonValue.get "policy" (.object server) = none := noPolicy
  have execution : JsonValue.get "execution" (.object server) = none := noExecution
  have unchanged : serverSettings (rootSettings config).settled none none
      (rootSettings config).settled.mode = (rootSettings config).settled := by
    show serverBase _ none _ = _
    exact if_pos ⟨rfl, rfl⟩
  rw [forServer, policy, execution, schedule_underRoot, Option.map_none, Option.getD_none, root,
    unchanged, Schedule.settled_settled, schedule_fromConfigRoot]

theorem forServer_inherits_pool :
    (forServer (fromConfigRoot (.object [("executionDefaults", .object [("maxWorkers", .number "99"),
        ("mode", .string "pool")])])) (.object [("command", .string "npx")])).maxWorkers = 64 := by
  have inherited := congrArg Schedule.maxWorkers (@forServer_inherits
    (.object [("executionDefaults", .object [("maxWorkers", .number "99"), ("mode", .string "pool")])])
    [("command", .string "npx")] (by decide) (by decide))
  refine inherited.trans ?_
  decide

end ExecutionPolicy

end Mcpace.Execution

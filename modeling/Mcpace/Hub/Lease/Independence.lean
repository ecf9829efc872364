import Mcpace.Hub.Lease.Admission

/-!
Contract: when the leases of two servers are independent.

Both keys of a planned route start with the sanitized server name and a bar, and a sanitized
text contains no bar. So two servers whose names `sanitize_key` tells apart never meet under one
key, and two servers whose names it merges do when what follows the names is the same.

A record carries the name its settings file spells, not its registry name. On registry names
`sanitize_key` is the identity; on spellings it merges what the registry tells apart: a blank
and an underscore are two registry names and one key.
-/

namespace Mcpace.Hub.Lease

open Library Json Execution Client Sources String Text

/-- The route was planned for the record and the context. -/
def PlannedFor (printer : Printer) (platform : String) (record : PlanRecord)
    (context : ResolvedContext) (route : PlannedRoute) : Prop :=
  ∃ plan serverName, Plans printer platform plan serverName record context ∧
    plannedRouteFromPlan plan serverName = .ok route

structure Independent (left right : PlannedRoute) : Prop where
  mutex : ∀ key, left.requestMutexKey = some key → right.requestMutexKey ≠ some key
  capacity : routeCapacityKey left ≠ routeCapacityKey right

/-! ### Keys -/

theorem bar_notMem_sanitizeKey (value : String) : '|' ∉ (sanitizeKey value).toList := by
  rw [sanitizeKey, toList_ofList, List.mem_map]
  rintro ⟨char, -, bar⟩
  rw [sanitizeChar] at bar
  split at bar
  · rename_i kept
    rw [bar] at kept
    exact absurd kept (by decide)
  · exact absurd bar (by decide)

section Keys

variable {printer : Printer} {platform : String} {record : PlanRecord}
  {context : ResolvedContext} {route : PlannedRoute}

/-- What follows the name of the server in the key that its capacity is counted under: the worker
group of a route that is locked, else the kind, the mode and the partition. -/
def keyTail (printer : Printer) (record : PlanRecord) (context : ResolvedContext) : String :=
  let scope := resolveScope printer record.toServerRecord context
  if (resolveRequestStrategy record scope).mutexKey.isSome then
    "execution-mutex:" ++ sanitizeKey scope.workerPoolKey
  else
    "kind:" ++ sanitizeKey (if Text.trim record.kind = "" then "unknown" else record.kind) ++
      "|execution:" ++ record.execution.mode.asStr ++ "|partition:" ++
        sanitizeKey scope.processPartition

theorem mutexKey_of_strategy {scope : ScopeResolution} {key : String}
    (locked : (resolveRequestStrategy record scope).mutexKey = some key) :
    key = mutexKey record scope := by
  rw [resolveRequestStrategy] at locked
  split_ifs at locked
  · cases locked
  · cases locked
  · cases locked
  · rw [modeStrategy] at locked
    cases mode : record.execution.mode with
    | shared =>
      simp only [mode] at locked
      by_cases small : scope.parallelismLimit ≤ 1
      · rw [if_pos small] at locked
        exact (Option.some.inj locked).symm
      · rw [if_neg small] at locked
        cases locked
    | disabled | pool =>
      simp only [mode] at locked
      cases locked
    | serialized | sessionIsolated | projectIsolated =>
      simp only [mode] at locked
      exact (Option.some.inj locked).symm

theorem PlannedFor.routeCapacityKey_eq (planned : PlannedFor printer platform record context route) :
    (routeCapacityKey route).toList = "server:".toList ++
      ((sanitizeKey record.name).toList ++ '|' :: (keyTail printer record context).toList) := by
  obtain ⟨plan, serverName, plans, read⟩ := planned
  obtain ⟨-, admission, mutex, scope, binding, -⟩ :=
    get_serverPlan (buildServerPlan printer platform record context)
  obtain ⟨-, mutexRead, scopeRead, -⟩ :=
    @readRoute_members _ context.toJsonValue _ _ _ _ admission mutex scope binding
  rw [← plans.route_eq read] at mutexRead scopeRead
  have isMutex : route.requestMutexKey = (resolveRequestStrategy record
      (resolveScope printer record.toServerRecord context)).mutexKey := mutexRead
  have isScope : route.processScopeKey =
      (resolveScope printer record.toServerRecord context).processScopeKey := scopeRead
  rw [routeCapacityKey, isMutex, isScope, keyTail]
  cases locked : (resolveRequestStrategy record
      (resolveScope printer record.toServerRecord context)).mutexKey with
  | some key =>
    rw [mutexKey_of_strategy locked]
    simp [mutexKey, toList_append]
  | none => simp [resolveScope, toList_append]

end Keys

/-- Two planned routes are independent exactly when the sanitized names of their servers differ or
what follows the names in their keys does. -/
theorem PlannedFor.independent_iff {printer : Printer} {platform : String}
    {leftRecord rightRecord : PlanRecord} {leftContext rightContext : ResolvedContext}
    {leftRoute rightRoute : PlannedRoute}
    (leftPlanned : PlannedFor printer platform leftRecord leftContext leftRoute)
    (rightPlanned : PlannedFor printer platform rightRecord rightContext rightRoute) :
    Independent leftRoute rightRoute ↔ sanitizeKey leftRecord.name ≠ sanitizeKey rightRecord.name ∨
      keyTail printer leftRecord leftContext ≠ keyTail printer rightRecord rightContext := by
  have same : routeCapacityKey leftRoute = routeCapacityKey rightRoute ↔
      sanitizeKey leftRecord.name = sanitizeKey rightRecord.name ∧
        keyTail printer leftRecord leftContext = keyTail printer rightRecord rightContext := by
    rw [← toList_inj, leftPlanned.routeCapacityKey_eq, rightPlanned.routeCapacityKey_eq,
      List.append_cancel_left_eq, append_separator_inj (bar_notMem_sanitizeKey _)
        (bar_notMem_sanitizeKey _), toList_inj, toList_inj]
  rw [← not_and_or, ← same]
  refine ⟨Independent.capacity, fun apart => ⟨fun key holds other => apart ?_, apart⟩⟩
  rw [routeCapacityKey, routeCapacityKey, holds, other, Option.getD_some, Option.getD_some]

/-! ### Registry names -/

def isNameChar (char : Char) : Bool :=
  isAsciiAlphanumeric char || ['-', '_', '.'].contains char

theorem isNameChar_facts {char : Char} (named : isNameChar char = true) :
    isNameChar char.toLower = true ∧ (isWhitespace char = false ∧ char ≠ '\\') ∧
      char.toLower ≠ ':' ∧ sanitizeChar char = char := by
  have small : char.toNat < 128 := by
    rw [isNameChar, Bool.or_eq_true] at named
    rcases named with alphanumeric | other
    · have code := toNat_of_isAsciiAlphanumeric alphanumeric
      omega
    · simp only [List.contains_cons, List.contains_nil, Bool.or_false, Bool.or_eq_true,
        beq_iff_eq] at other
      rcases other with rfl | rfl | rfl <;> decide
  have facts : ∀ code < 128, isNameChar (Char.ofNat code) = true →
      isNameChar (Char.ofNat code).toLower = true ∧
        (isWhitespace (Char.ofNat code) = false ∧ Char.ofNat code ≠ '\\') ∧
        (Char.ofNat code).toLower ≠ ':' ∧ sanitizeChar (Char.ofNat code) = Char.ofNat code := by
    decide
  rw [← Char.ofNat_toNat char] at named ⊢
  exact facts _ small named

theorem isNameChar_of_mem {name : String} {char : Char}
    (member : char ∈ (normalizeServerName name).toList) : isNameChar char = true := by
  rw [normalizeServerName, toAsciiLowercase, toList_ofList, List.mem_map] at member
  obtain ⟨kept, member, rfl⟩ := member
  rw [trimMatches, toList_ofList, toList_ofList] at member
  have inMapped := (List.dropWhile_suffix _).subset ((List.rdropWhile_prefix _ _).subset member)
  obtain ⟨source, -, rfl⟩ := List.mem_map.mp inMapped
  split
  · rename_i named
    refine (isNameChar_facts ?_).1
    simpa [isNameChar, or_assoc] using named
  · decide

/-- On registry names sanitizing is the identity. -/
theorem sanitizeKey_normalizeServerName (name : String) :
    sanitizeKey (normalizeServerName name) = normalizeServerName name := by
  have plain := fun char member => isNameChar_facts (@isNameChar_of_mem name char member)
  have notUri : decodeFileUri (normalizeServerName name).toList = none := by
    rw [decodeFileUri, if_pos]
    rw [Bool.not_eq_true', ← Bool.not_eq_true, List.isPrefixOf_iff_prefix]
    intro uri
    obtain ⟨char, member, colon⟩ := List.mem_map.mp (uri.subset (by decide : ':' ∈ "file://".toList))
    exact (plain char member).2.2.1 colon
  rw [sanitizeKey, normalizePath_eq_self (fun char member => (plain char member).2.1) notUri,
    List.map_congr_left (fun char member => (plain char member).2.2.2), List.map_id',
    ofList_toList]

/-! ### Conflicts -/

variable {left right : PlannedRoute} {leaseId : String} {lease : JsonValue}

/-- A lease on an independent route is no holder of the route's keys. -/
theorem Independent.occupies (independent : Independent left right)
    (carries : Carries lease (grantedTexts leaseId left)) :
    (∀ key, right.requestMutexKey = some key → holdsMutex key lease = false) ∧
      holdsCapacity (routeCapacityKey right) lease = false := by
  constructor
  · intro key holds
    rw [carries.holdsMutex key]
    exact beq_false_of_ne (fun same => independent.mutex key same holds)
  · rw [carries.holdsCapacity]
    exact beq_false_of_ne (fun same => independent.capacity (Option.some.inj same))

/-- The conflict search for a route finds the same without a lease on an independent route. -/
theorem Independent.findConflictIn_eq (independent : Independent left right)
    (carries : Carries lease (grantedTexts leaseId left)) (before after : JsonMap) :
    findConflictIn (before ++ (leaseId, lease) :: after) right =
      findConflictIn (before ++ after) right := by
  obtain ⟨noMutex, noCapacity⟩ := independent.occupies carries
  rw [findConflictIn, findConflictIn]
  cases holds : right.requestMutexKey with
  | some key =>
    simp [OrderedMap.values, List.find?_append, noMutex key holds]
  | none => simp [OrderedMap.values, noCapacity]

/-- A lease on a route with the same mutex key is a conflict. -/
theorem findConflictIn_of_mutexKey_eq {key : String} (leftHolds : left.requestMutexKey = some key)
    (rightHolds : right.requestMutexKey = some key)
    (carries : Carries lease (grantedTexts leaseId left)) (after : JsonMap) :
    (findConflictIn ((leaseId, lease) :: after) right).isSome = true := by
  have holds : holdsMutex key lease = true := by
    rw [carries.holdsMutex, beq_iff_eq]
    exact leftHolds
  simp [findConflictIn, rightHolds, OrderedMap.values, holds]

/-! ### Merged names -/

section Merged

variable (printer : Printer) (platform : String)

def serializedRoute (name : String) : PlannedRoute :=
  readRoute (buildServerPlan printer platform (projectRecord name .serialized)
    projectContext).toJsonValue projectContext.toJsonValue

theorem plannedFor_serializedRoute (name : String) :
    PlannedFor printer platform (projectRecord name .serialized) projectContext
      (serializedRoute printer platform name) := by
  have named : toAsciiLowercase (Text.trim (projectRecord name .serialized).name) =
      toAsciiLowercase (toAsciiLowercase (Text.trim name)) :=
    (Text.toAsciiLowercase_idem (Text.trim name)).symm
  have plans := plans_planDocument named printer platform [] projectContext
  exact ⟨_, name, plans, plans.planned⟩

theorem mutexKey_serializedRoute (name : String) :
    (serializedRoute printer platform name).requestMutexKey =
      some ("server:" ++ sanitizeKey name ++ "|execution-mutex:" ++ sanitizeKey
        ("worker-group:" ++ sanitizeKey name ++ "|mode:" ++ ExecutionMode.serialized.asStr ++
          "|affinity:" ++ sanitizeKey (affinityFingerprint printer .serialized []))) := by
  let record := projectRecord name .serialized
  have routable : (record.isNotRoutable || record.execution.isDisabled) = false := rfl
  have resolved :
      (resolveScope printer record.toServerRecord projectContext).affinityResolved = true := rfl
  have strategy : (resolveRequestStrategy record (resolveScope printer record.toServerRecord
      projectContext)).mutexKey = some (mutexKey record (resolveScope printer
        record.toServerRecord projectContext)) := by
    rw [resolveRequestStrategy, routable, resolved]
    rfl
  obtain ⟨-, admission, mutex, scope, binding, -⟩ :=
    get_serverPlan (buildServerPlan printer platform record projectContext)
  obtain ⟨-, mutexRead, -, -⟩ :=
    @readRoute_members _ projectContext.toJsonValue _ _ _ _ admission mutex scope binding
  exact mutexRead.trans strategy

end Merged

/-- All routes planned for two server names are independent exactly when sanitizing tells the
names apart. A lease on an independent route changes nothing in the conflict search. -/
theorem independent_iff_sanitizeKey_ne (printer : Printer) (platform left right : String) :
    (∀ leftRecord rightRecord leftContext rightContext leftRoute rightRoute,
      leftRecord.name = left → rightRecord.name = right →
      PlannedFor printer platform leftRecord leftContext leftRoute →
      PlannedFor printer platform rightRecord rightContext rightRoute →
      Independent leftRoute rightRoute ∧
        ∀ leaseId lease before after, Carries lease (grantedTexts leaseId leftRoute) →
          findConflictIn (before ++ (leaseId, lease) :: after) rightRoute =
            findConflictIn (before ++ after) rightRoute) ↔
      sanitizeKey left ≠ sanitizeKey right := by
  constructor
  · intro independent merged
    have routes := (independent _ _ _ _ _ _ rfl rfl
      (plannedFor_serializedRoute printer platform left)
      (plannedFor_serializedRoute printer platform right)).1
    refine routes.mutex _ (mutexKey_serializedRoute printer platform left) ?_
    rw [mutexKey_serializedRoute, merged]
  · rintro apart leftRecord rightRecord leftContext rightContext leftRoute rightRoute rfl rfl
      leftPlanned rightPlanned
    have independent := (leftPlanned.independent_iff rightPlanned).mpr (.inl apart)
    exact ⟨independent, fun leaseId lease before after carries =>
      independent.findConflictIn_eq carries before after⟩

/-- Two registry names, one key: a lease on one server blocks the other. -/
theorem independent_blankAndUnderscore : normalizeServerName "a b" ≠ normalizeServerName "a_b" ∧
      ∃ left right,
        PlannedFor digitPrinter "linux" (projectRecord "a b" .serialized) projectContext left ∧
        PlannedFor digitPrinter "linux" (projectRecord "a_b" .serialized) projectContext right ∧
        left.requestMutexKey = right.requestMutexKey ∧ left.requestMutexKey.isSome = true ∧
        routeCapacityKey left = routeCapacityKey right ∧
        ∀ leaseId lease after, Carries lease (grantedTexts leaseId left) →
          (findConflictIn ((leaseId, lease) :: after) right).isSome = true := by
  have merged : sanitizeKey "a_b" = sanitizeKey "a b" := by decide
  have leftKey := mutexKey_serializedRoute digitPrinter "linux" "a b"
  have rightKey := mutexKey_serializedRoute digitPrinter "linux" "a_b"
  rw [merged] at rightKey
  refine ⟨by decide, _, _, plannedFor_serializedRoute digitPrinter "linux" "a b",
    plannedFor_serializedRoute digitPrinter "linux" "a_b", leftKey.trans rightKey.symm, ?_, ?_, ?_⟩
  · rw [leftKey, Option.isSome_some]
  · rw [routeCapacityKey, routeCapacityKey, leftKey, rightKey, Option.getD_some, Option.getD_some]
  · intro leaseId lease after carries
    exact findConflictIn_of_mutexKey_eq leftKey rightKey carries after

end Mcpace.Hub.Lease

import Mcpace.Hub.Lease.Effect

/-!
Owns the text members of stored lease records and the invariant that ties every
record to its key and to the route it was granted for.

Text members survive reading back whatever the serializer does to numbers, so
nothing here restricts the clock.
-/

namespace Mcpace.Hub.Lease

open Library Json OrderedMap List Option JsonValue

/-! ### Text members -/

/-- The member at `path` is the given text, or null when there is none. -/
def TextAt (value : JsonValue) (path : List String) (text : Option String) : Prop :=
  value.valueAtPath path = some (.stringOrNull text)

variable {value : JsonValue} {path : List String} {text : Option String}

theorem TextAt.optionalString (carried : TextAt value path text) :
    optionalString value path = text := by
  rw [Mcpace.Hub.Lease.optionalString, stringAtPath, carried]
  cases text <;> rfl

theorem TextAt.requiredString {text : String} (carried : TextAt value path (some text)) :
    requiredString value path = text := by
  rw [Mcpace.Hub.Lease.requiredString, carried.optionalString, getD_some]

theorem TextAt.reload (renumber : String → Option String) (carried : TextAt value path text) :
    TextAt (value.reload renumber) path text := by
  rw [TextAt, valueAtPath_reload, carried]
  cases text <;> rfl

/-- The text members of a lease record that the store's decisions depend on, with
its owner and session. -/
structure LeaseTexts where
  leaseId : String
  clientId : String
  sessionLeaseId : String
  sessionId : Option String
  requestMutexKey : Option String
  capacityKey : String

/-- The texts of the record granted for a route. -/
def grantedTexts (leaseId : String) (route : PlannedRoute) : LeaseTexts where
  leaseId := leaseId
  clientId := route.clientId
  sessionLeaseId := route.sessionLeaseId
  sessionId := route.sessionId
  requestMutexKey := route.requestMutexKey
  capacityKey := routeCapacityKey route

structure Carries (record : JsonValue) (texts : LeaseTexts) : Prop where
  leaseId : TextAt record ["leaseId"] (some texts.leaseId)
  clientId : TextAt record ["clientId"] (some texts.clientId)
  sessionLeaseId : TextAt record ["sessionLeaseId"] (some texts.sessionLeaseId)
  sessionId : TextAt record ["sessionId"] texts.sessionId
  requestMutexKey : TextAt record ["route", "requestMutexKey"] texts.requestMutexKey
  capacityKey : TextAt record ["route", "capacityKey"] (some texts.capacityKey)

variable {record : JsonValue} {texts : LeaseTexts}

theorem Carries.reload (renumber : String → Option String) (carries : Carries record texts) :
    Carries (record.reload renumber) texts where
  leaseId := carries.leaseId.reload renumber
  clientId := carries.clientId.reload renumber
  sessionLeaseId := carries.sessionLeaseId.reload renumber
  sessionId := carries.sessionId.reload renumber
  requestMutexKey := carries.requestMutexKey.reload renumber
  capacityKey := carries.capacityKey.reload renumber

theorem carries_leaseRecordJson (leaseId : String) (route : PlannedRoute)
    (acquiredAtMs expiresAtMs ttlMs : Nat) :
    Carries (leaseRecordJson leaseId route acquiredAtMs expiresAtMs ttlMs)
      (grantedTexts leaseId route) := by
  have routeMember : JsonValue.get "route"
      (leaseRecordJson leaseId route acquiredAtMs expiresAtMs ttlMs) =
        some (routeJson route) := by
    rw [leaseRecordJson, get_ofEntries]
    simp [get_cons]
  constructor
  case requestMutexKey =>
    rw [TextAt, valueAtPath_cons, routeMember, bind_some,
      valueAtPath_cons, routeJson, get_ofEntries]
    simp [get_cons, grantedTexts]
  case capacityKey =>
    rw [TextAt, valueAtPath_cons, routeMember, bind_some,
      valueAtPath_cons, routeJson, get_ofEntries]
    simp [get_cons, grantedTexts, stringOrNull]
  all_goals
    rw [TextAt, valueAtPath_cons, leaseRecordJson, get_ofEntries]
    simp [get_cons, grantedTexts, stringOrNull]

theorem get_renewRecord_of_ne {key : String} (notRenewed : key ≠ "renewedAtMs")
    (notExpires : key ≠ "expiresAtMs") (notTtl : key ≠ "ttlMs") (nowMs ttlMs : Nat)
    (record : JsonValue) :
    (renewRecord nowMs ttlMs record).get key = record.get key := by
  cases record with
  | object entries =>
    simp only [renewRecord, get_object]
    rw [get_insert_of_ne notTtl, get_insert_of_ne notExpires, get_insert_of_ne notRenewed]
  | null | bool _ | number _ | string _ | array _ => rfl

theorem Carries.renewRecord (nowMs ttlMs : Nat) (carries : Carries record texts) :
    Carries (renewRecord nowMs ttlMs record) texts := by
  have kept : ∀ {key : String} (rest : List String) {text : Option String},
      key ≠ "renewedAtMs" → key ≠ "expiresAtMs" → key ≠ "ttlMs" →
      TextAt record (key :: rest) text →
      TextAt (Mcpace.Hub.Lease.renewRecord nowMs ttlMs record) (key :: rest) text := by
    intro key rest text notRenewed notExpires notTtl carried
    rw [TextAt, valueAtPath_cons, get_renewRecord_of_ne notRenewed notExpires notTtl]
    exact carried
  exact {
    leaseId := kept _ (by decide) (by decide) (by decide) carries.leaseId
    clientId := kept _ (by decide) (by decide) (by decide) carries.clientId
    sessionLeaseId := kept _ (by decide) (by decide) (by decide) carries.sessionLeaseId
    sessionId := kept _ (by decide) (by decide) (by decide) carries.sessionId
    requestMutexKey := kept _ (by decide) (by decide) (by decide) carries.requestMutexKey
    capacityKey := kept _ (by decide) (by decide) (by decide) carries.capacityKey }

theorem Carries.holdsMutex (carries : Carries record texts) (mutexKey : String) :
    holdsMutex mutexKey record = (texts.requestMutexKey == some mutexKey) := by
  rw [Mcpace.Hub.Lease.holdsMutex, carries.requestMutexKey.optionalString]

theorem Carries.holdsCapacity (carries : Carries record texts) (capacityKey : String) :
    holdsCapacity capacityKey record = (some texts.capacityKey == some capacityKey) := by
  rw [Mcpace.Hub.Lease.holdsCapacity, carries.capacityKey.optionalString]

/-! ### Reported conflicts -/

variable {route : PlannedRoute}

/-- A reported conflict is a stored record of the contended key, under the id a
takeover removes. -/
theorem findConflictIn_stored {leases : JsonMap} (sorted : Sorted leases)
    (named : ∀ entry ∈ leases, requiredString entry.2 ["leaseId"] = entry.1)
    {conflict : LeaseConflict} (found : findConflictIn leases route = some conflict) :
    get (requiredString conflict.lease ["leaseId"]) leases = some conflict.lease ∧
      (match route.requestMutexKey with
        | some mutexKey => holdsMutex mutexKey conflict.lease = true
        | none => holdsCapacity (routeCapacityKey route) conflict.lease = true) := by
  have stored : ∀ {record : JsonValue}, record ∈ values leases →
      get (requiredString record ["leaseId"]) leases = some record := by
    intro record member
    obtain ⟨entry, entryMember, rfl⟩ := List.mem_map.mp member
    rw [named entry entryMember]
    exact get_of_mem sorted entryMember
  unfold findConflictIn at found
  cases mutex : route.requestMutexKey with
  | some mutexKey =>
    simp only [mutex] at found
    obtain ⟨record, search, rfl⟩ := map_eq_some_iff.mp found
    exact ⟨stored (List.mem_of_find?_eq_some search), List.find?_some search⟩
  | none =>
    simp only [mutex] at found
    split at found
    · rename_i full
      simp only [Option.some.injEq] at found
      subst found
      -- The capacity is positive, so an exhausted one has a first occupant.
      obtain ⟨record, first⟩ : ∃ record, ((values leases).filter
          (holdsCapacity (routeCapacityKey route))).head? = some record := by
        cases shape : (values leases).filter
            (holdsCapacity (routeCapacityKey route)) with
        | nil =>
          rw [shape, length_nil] at full
          omega
        | cons record rest => exact ⟨record, rfl⟩
      have member := List.mem_of_mem_head? first
      rw [first, getD_some]
      exact ⟨stored (mem_of_mem_filter member), of_mem_filter member⟩
    · cases found

theorem takeoverAllowed_iff {takeover : Bool} {lease : JsonValue} :
    takeoverAllowed takeover lease route = true ↔
      takeover = true ∧ optionalString lease ["sessionLeaseId"] = some route.sessionLeaseId := by
  unfold takeoverAllowed optionalString
  cases lease.stringAtPath ["sessionLeaseId"] with
  | none => simp
  | some value => simp

/-! ### The record invariant -/

/-- Keys increase, and every record carries its own key as lease id and the texts
of an accepted origin. -/
structure WellFormed (origin : LeaseTexts → Prop) (leases : JsonMap) : Prop where
  sorted : Sorted leases
  carried : ∀ entry ∈ leases, ∃ texts, Carries entry.2 texts ∧ texts.leaseId = entry.1 ∧
    origin texts

namespace WellFormed

variable {origin : LeaseTexts → Prop} {leases : JsonMap}

theorem empty : WellFormed origin [] where
  sorted := sorted_nil
  carried := by simp

theorem reload (renumber : String → Option String) (wellFormed : WellFormed origin leases) :
    WellFormed origin (reloadEntries renumber leases) where
  sorted := sorted_reloadEntries renumber wellFormed.sorted
  carried := by
    intro entry member
    rw [reloadEntries_eq_map] at member
    obtain ⟨source, sourceMember, rfl⟩ := List.mem_map.mp member
    obtain ⟨texts, carries, named, accepted⟩ := wellFormed.carried source sourceMember
    exact ⟨texts, carries.reload renumber, named, accepted⟩

theorem filter (keep : String × JsonValue → Bool) (wellFormed : WellFormed origin leases) :
    WellFormed origin (leases.filter keep) where
  sorted := sorted_filter wellFormed.sorted
  carried := fun entry member => wellFormed.carried entry (mem_of_mem_filter member)

variable {leaseId : String}

theorem insert {record : JsonValue} {texts : LeaseTexts} (wellFormed : WellFormed origin leases)
    (carries : Carries record texts) (named : texts.leaseId = leaseId) (accepted : origin texts) :
    WellFormed origin (OrderedMap.insert leaseId record leases) where
  sorted := sorted_insert wellFormed.sorted
  carried := forall_mem_insert ⟨texts, carries, named, accepted⟩ wellFormed.carried

theorem renew (leaseId : String) (nowMs ttlMs : Nat) (wellFormed : WellFormed origin leases) :
    WellFormed origin (modify leaseId (renewRecord nowMs ttlMs) leases) where
  sorted := sorted_modify wellFormed.sorted
  carried := by
    intro entry member
    obtain ⟨source, sourceMember, equal⟩ := List.mem_map.mp member
    obtain ⟨texts, carries, named, accepted⟩ := wellFormed.carried source sourceMember
    subst equal
    split
    · exact ⟨texts, carries.renewRecord nowMs ttlMs, named, accepted⟩
    · exact ⟨texts, carries, named, accepted⟩

variable (wellFormed : WellFormed origin leases)

include wellFormed

theorem named_of_get {record : JsonValue} (found : get leaseId leases = some record) :
    ∃ texts, Carries record texts ∧ texts.leaseId = leaseId ∧ origin texts :=
  wellFormed.carried _ (mem_of_get found)

/-- Every outcome keeps the invariant when the origin accepts what it acquires. -/
theorem effect {environment : StepEnvironment} {command : LeaseCommand} {acquired : Option String}
    {after : JsonMap} (outcome : LeaseEffect environment command leases acquired after)
    (accepts : ∀ entry ∈ acquisition acquired command, origin (grantedTexts entry.1 entry.2)) :
    WellFormed origin after := by
  cases outcome with
  | listed => exact wellFormed
  | refused => exact wellFormed
  | granted =>
    exact wellFormed.insert (carries_leaseRecordJson _ _ _ _ _) rfl (accepts _ rfl)
  | takenOver =>
    exact (wellFormed.filter _).insert (carries_leaseRecordJson _ _ _ _ _) rfl (accepts _ rfl)
  | renewed => exact wellFormed.renew _ _ _
  | released => exact wellFormed.filter _

theorem requiredString_leaseId :
    ∀ entry ∈ leases, requiredString entry.2 ["leaseId"] = entry.1 := by
  intro entry member
  obtain ⟨texts, carries, named, -⟩ := wellFormed.carried entry member
  rw [carries.leaseId.requiredString, named]

end WellFormed

end Mcpace.Hub.Lease

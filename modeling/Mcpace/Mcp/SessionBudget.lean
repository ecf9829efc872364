import Mcpace.Mcp.HttpSession

/-!
Owns the budgets of the HTTP session store: how many sessions it keeps, how many request ids a
session records, and how many bytes of ids a session and the store hold.

The counters are kept incrementally. `Budgeted` says what they count and where they stop; every
operation of the store keeps it, with any clock and any request ids.

Does not own: what a request does with the store.
-/

namespace Mcpace.Mcp

open Library List Machine

/-! ### Operations -/

/-- The operations of the store, with the clock where they read it. `rank` is the order in which
the map of sessions is iterated. -/
inductive SessionOperation where
  | createOrReplace (new : McpHttpSessionStore.NewSession) (rank : String → Nat) (nowMs : Nat)
  | touch (sessionId : String) (protocolHeader : Option String) (nowMs : Nat)
  | markInitialized (sessionId : String) (protocolHeader : Option String) (nowMs : Nat)
  | trackRequestId (sessionId requestIdKey : String)
  | close (sessionId : String) (nowMs : Nat)
  | pruneExpired (nowMs : Nat)

def SessionOperation.run (store : McpHttpSessionStore) : SessionOperation → McpHttpSessionStore
  | .createOrReplace new rank nowMs => (store.createOrReplace new rank nowMs).2
  | .touch sessionId protocolHeader nowMs => (store.touch sessionId protocolHeader nowMs).2
  | .markInitialized sessionId protocolHeader nowMs =>
    match store.touch sessionId protocolHeader nowMs with
    | (.ok view, touched) => (touched.markInitialized view.id).2
    | (.error _, touched) => touched
  | .trackRequestId sessionId requestIdKey => (store.trackRequestId sessionId requestIdKey).2
  | .close sessionId nowMs => (store.close sessionId nowMs).2
  | .pruneExpired nowMs => store.pruneExpired nowMs

def runOperations (maxSessions ttlMs : Nat) (operations : List SessionOperation) :
    McpHttpSessionStore :=
  operations.foldl SessionOperation.run (McpHttpSessionStore.new maxSessions ttlMs)

/-! ### Budgets -/

def McpHttpSession.recordedBytes (session : McpHttpSession) : Nat :=
  ∑ requestId ∈ session.seenRequestIds, requestId.utf8ByteSize

structure McpHttpSession.Budgeted (session : McpHttpSession) : Prop where
  counted : session.seenRequestIdBytes = session.recordedBytes
  few : session.seenRequestIds.card ≤ maxMcpHttpRequestIdsPerSession
  small : session.seenRequestIdBytes ≤ maxMcpHttpRequestIdReplayBytes

namespace McpHttpSessionStore

structure Budgeted (store : McpHttpSessionStore) : Prop where
  sorted : OrderedMap.Sorted store.sessions
  roomy : 1 ≤ store.maxSessions
  capacity : store.sessions.length ≤ store.maxSessions
  sessions : ∀ entry ∈ store.sessions, entry.2.Budgeted
  total : replayBytes store.sessions ≤ maxMcpHttpGlobalRequestIdReplayBytes

variable {store after : McpHttpSessionStore} {sessionId : String} {session : McpHttpSession}

theorem budgeted_new (maxSessions ttlMs : Nat) : (new maxSessions ttlMs).Budgeted where
  sorted := OrderedMap.sorted_nil
  roomy := Nat.le_max_right ..
  capacity := Nat.zero_le _
  sessions := nofun
  total := Nat.zero_le _

theorem Budgeted.of_get (budgeted : store.Budgeted) (found : store.get sessionId = some session) :
    session.Budgeted :=
  budgeted.sessions _ (OrderedMap.mem_of_get found)

/-- The budgets hold afterwards, for the same number of sessions. -/
def StaysBudgeted (store after : McpHttpSessionStore) : Prop :=
  after.Budgeted ∧ after.maxSessions = store.maxSessions

/-! ### Losing sessions -/

theorem replayBytes_le_of_sublist {left right : McpHttpSessions} (fewer : left.Sublist right) :
    replayBytes left ≤ replayBytes right :=
  (fewer.map _).sum_le_sum (fun _ _ => Nat.zero_le _)

theorem Budgeted.of_sublist (budgeted : store.Budgeted)
    (fewer : after.sessions.Sublist store.sessions) (same : after.maxSessions = store.maxSessions) :
    after.Budgeted where
  sorted := budgeted.sorted.sublist fewer
  roomy := same ▸ budgeted.roomy
  capacity := by
    rw [same]
    exact fewer.length_le.trans budgeted.capacity
  sessions := fun entry member => budgeted.sessions entry (fewer.subset member)
  total := (replayBytes_le_of_sublist fewer).trans budgeted.total

theorem sublist_evictLoop (rank : String → Nat) (maxSessions fuel : Nat)
    (sessions : McpHttpSessions) :
    (evictLoop rank maxSessions fuel sessions).Sublist sessions := by
  induction fuel generalizing sessions with
  | zero => exact List.Sublist.refl sessions
  | succ fuel ih =>
    rw [evictLoop]
    split
    · split
      · exact List.Sublist.refl sessions
      · exact (ih _).trans filter_sublist
    · exact List.Sublist.refl sessions

variable {rank : String → Nat}

theorem length_remove_oldest {sessions : McpHttpSessions} {victim : String × McpHttpSession}
    (found : oldest rank sessions = some victim) :
    (OrderedMap.remove victim.1 sessions).length < sessions.length := by
  have member : victim ∈ sessions := argmin_mem found
  rw [OrderedMap.remove, length_filter_lt_length_iff_exists]
  exact ⟨victim, member, by simp⟩

/-- The eviction leaves room for one more. -/
theorem length_evictLoop {maxSessions : Nat} (roomy : 1 ≤ maxSessions) (fuel : Nat)
    (sessions : McpHttpSessions) (enough : sessions.length ≤ fuel) :
    (evictLoop rank maxSessions fuel sessions).length < maxSessions := by
  induction fuel generalizing sessions with
  | zero =>
    rw [evictLoop]
    omega
  | succ fuel ih =>
    rw [evictLoop]
    split
    · rename_i full
      cases found : oldest rank sessions with
      | none =>
        have empty : sessions = [] := argmin_eq_none.mp found
        rw [empty, length_nil] at full
        omega
      | some victim =>
        have shorter := length_remove_oldest found
        exact ih _ (by omega)
    · rename_i room
      exact Nat.lt_of_not_le room

theorem sublist_pruneExpired (store : McpHttpSessionStore) (nowMs : Nat) :
    (store.pruneExpired nowMs).sessions.Sublist store.sessions :=
  filter_sublist

section

variable (budgeted : store.Budgeted)

include budgeted

theorem Budgeted.pruneExpired (nowMs : Nat) : (store.pruneExpired nowMs).Budgeted :=
  budgeted.of_sublist (sublist_pruneExpired store nowMs) rfl

theorem Budgeted.dropExpired (sessionId : String) : (store.dropExpired sessionId).Budgeted :=
  budgeted.of_sublist filter_sublist rfl

theorem Budgeted.remove (sessionId : String) : (store.remove sessionId).Budgeted :=
  budgeted.of_sublist filter_sublist rfl

/-! ### Putting a session -/

/-- A session is put where there is room and its bytes fit. -/
theorem Budgeted.put (within : session.Budgeted)
    (room : (store.get sessionId).isSome = true ∨ store.sessions.length < store.maxSessions)
    (fits : replayBytes store.sessions + session.seenRequestIdBytes ≤
      maxMcpHttpGlobalRequestIdReplayBytes +
        ((store.get sessionId).map McpHttpSession.seenRequestIdBytes).getD 0) :
    (store.put sessionId session).Budgeted where
  sorted := OrderedMap.sorted_insert budgeted.sorted
  roomy := budgeted.roomy
  capacity := by
    have length := @OrderedMap.length_insert _ _ _ sessionId session _ budgeted.sorted
    have capacity := budgeted.capacity
    show (OrderedMap.insert sessionId session store.sessions).length ≤ store.maxSessions
    rw [get] at room
    rcases room with present | room
    · rw [if_pos present] at length
      omega
    · omega
  sessions := OrderedMap.forall_mem_insert within budgeted.sessions
  total := by
    have total := @OrderedMap.sum_insert _ _ _ McpHttpSession.seenRequestIdBytes sessionId session
      _ budgeted.sorted
    show replayBytes (OrderedMap.insert sessionId session store.sessions) ≤ _
    rw [get] at fits
    rw [replayBytes] at fits ⊢
    omega

theorem Budgeted.put_same {old : McpHttpSession} (found : store.get sessionId = some old)
    (sameIds : session.seenRequestIds = old.seenRequestIds)
    (sameBytes : session.seenRequestIdBytes = old.seenRequestIdBytes) :
    (store.put sessionId session).Budgeted := by
  have within := budgeted.of_get found
  refine budgeted.put ⟨?_, ?_, ?_⟩ (.inl (by rw [found]; rfl)) ?_
  · rw [sameBytes, within.counted, McpHttpSession.recordedBytes, McpHttpSession.recordedBytes,
      sameIds]
  · rw [sameIds]
    exact within.few
  · rw [sameBytes]
    exact within.small
  · have total := budgeted.total
    rw [found, sameBytes]
    show _ ≤ _ + old.seenRequestIdBytes
    omega

/-! ### The operations -/

theorem Budgeted.touch (sessionId : String) (protocolHeader : Option String) (nowMs : Nat) :
    store.StaysBudgeted (store.touch sessionId protocolHeader nowMs).2 := by
  rw [McpHttpSessionStore.touch]
  cases found : store.get sessionId with
  | none => exact ⟨budgeted, rfl⟩
  | some session =>
    dsimp only
    split_ifs
    · exact ⟨budgeted.dropExpired sessionId, rfl⟩
    · split
      · exact ⟨budgeted, rfl⟩
      · exact ⟨budgeted.put_same found rfl rfl, rfl⟩

theorem Budgeted.markInitialized (sessionId : String) :
    store.StaysBudgeted (store.markInitialized sessionId).2 := by
  rw [McpHttpSessionStore.markInitialized]
  cases found : store.get sessionId with
  | none => exact ⟨budgeted, rfl⟩
  | some session => exact ⟨budgeted.put_same found rfl rfl, rfl⟩

theorem Budgeted.close (sessionId : String) (nowMs : Nat) :
    store.StaysBudgeted (store.close sessionId nowMs).2 := by
  rw [McpHttpSessionStore.close]
  cases found : store.get sessionId with
  | none => exact ⟨budgeted, rfl⟩
  | some session =>
    dsimp only
    split_ifs
    · exact ⟨budgeted.dropExpired sessionId, rfl⟩
    · exact ⟨budgeted.remove sessionId, rfl⟩

end

/-- A sum below a limit far from the machine's was not cut off. -/
theorem add_le_of_saturatingAdd {left right limit : Nat} (small : limit < 2 ^ 64 - 1)
    (fits : ¬saturatingAdd 64 left right > limit) :
    saturatingAdd 64 left right = left + right ∧ left + right ≤ limit := by
  rw [saturatingAdd] at fits ⊢
  omega

theorem Budgeted.trackRequestId (budgeted : store.Budgeted) (sessionId requestIdKey : String) :
    store.StaysBudgeted (store.trackRequestId sessionId requestIdKey).2 := by
  rw [McpHttpSessionStore.trackRequestId]
  cases found : store.get sessionId with
  | none => exact ⟨budgeted, rfl⟩
  | some session =>
    dsimp only
    split_ifs with seen long full spent
    · exact ⟨budgeted, rfl⟩
    · exact ⟨budgeted, rfl⟩
    · exact ⟨budgeted, rfl⟩
    · exact ⟨budgeted, rfl⟩
    · have within := budgeted.of_get found
      rw [not_or, Nat.not_le] at spent
      obtain ⟨added, small⟩ := add_le_of_saturatingAdd (by decide) spent.2
      obtain ⟨-, fits⟩ := add_le_of_saturatingAdd (by decide) full
      refine ⟨budgeted.put ⟨?_, ?_, ?_⟩ (.inl (by rw [found]; rfl)) ?_, rfl⟩
      · show saturatingAdd 64 _ _ = ∑ requestId ∈ insert requestIdKey session.seenRequestIds, _
        rw [Finset.sum_insert seen, added, within.counted, McpHttpSession.recordedBytes,
          Nat.add_comm]
      · show (insert requestIdKey session.seenRequestIds).card ≤ _
        rw [Finset.card_insert_of_notMem seen]
        exact spent.1
      · show saturatingAdd 64 _ _ ≤ _
        rw [added]
        exact small
      · rw [found]
        show _ + saturatingAdd 64 _ _ ≤ _ + session.seenRequestIdBytes
        omega

/-- The store in which a new session is put: without the expired sessions, and unless the session
is there, with those evicted that are in its way. -/
def madeRoom (store : McpHttpSessionStore) (sessionId : String) (rank : String → Nat)
    (nowMs : Nat) : McpHttpSessionStore :=
  if ((store.pruneExpired nowMs).get sessionId).isSome then store.pruneExpired nowMs
  else (store.pruneExpired nowMs).evictUntilCapacityForInsert rank

/-- The ids of the store and of the new session exceed the limit of the store. -/
def Overfull (left : McpHttpSessionStore) (new : NewSession) (bytes : Nat) : Prop :=
  saturatingAdd 64 (replayBytes left.sessions -
    ((left.get new.sessionId).map McpHttpSession.seenRequestIdBytes).getD 0) bytes >
      maxMcpHttpGlobalRequestIdReplayBytes

instance (left : McpHttpSessionStore) (new : NewSession) (bytes : Nat) :
    Decidable (Overfull left new bytes) :=
  inferInstanceAs (Decidable (_ > _))

/-- The client names itself and its request within the field limits. -/
structure NewSession.Acceptable (new : NewSession) : Prop where
  fields : (fieldTooLong new.clientName || fieldTooLong new.clientVersion) = false
  key : ∀ key ∈ new.initializeRequestIdKey, key.utf8ByteSize ≤ maxMcpHttpRequestIdStorageBytes

variable {new : NewSession}

/-- A creation with a field that is too long is refused at once. -/
theorem createOrReplace_of_not_acceptable (unacceptable : ¬new.Acceptable)
    (store : McpHttpSessionStore) (rank : String → Nat) (nowMs : Nat) :
    ∃ error, error ≠ globalReplayBudgetFull ∧
      store.createOrReplace new rank nowMs = (.error error, store) := by
  rw [McpHttpSessionStore.createOrReplace]
  by_cases fields : (fieldTooLong new.clientName || fieldTooLong new.clientVersion) = true
  · rw [if_pos fields]
    exact ⟨_, by decide, rfl⟩
  · rw [if_neg fields, if_pos]
    · exact ⟨_, by decide, rfl⟩
    · cases isKey : new.initializeRequestIdKey with
      | none =>
        refine absurd ⟨Bool.eq_false_of_not_eq_true fields, ?_⟩ unacceptable
        intro key member
        rw [isKey] at member
        cases member
      | some key =>
        by_contra short
        refine unacceptable ⟨Bool.eq_false_of_not_eq_true fields, ?_⟩
        intro other member
        rw [isKey, Option.mem_some_iff] at member
        rw [← member]
        exact Nat.le_of_not_lt (of_decide_eq_false (Bool.eq_false_of_not_eq_true short))

/-- Any other creation makes room, and is refused when the ids do not fit. -/
theorem createOrReplace_of_acceptable (acceptable : new.Acceptable) (store : McpHttpSessionStore)
    (rank : String → Nat) (nowMs : Nat) :
    store.createOrReplace new rank nowMs =
      if Overfull (store.madeRoom new.sessionId rank nowMs) new
          (new.session nowMs store.ttlMs).seenRequestIdBytes then
        (.error globalReplayBudgetFull, store.madeRoom new.sessionId rank nowMs)
      else
        (.ok (new.session nowMs store.ttlMs).view,
          (store.madeRoom new.sessionId rank nowMs).put new.sessionId
            (new.session nowMs store.ttlMs)) := by
  have short : ¬(new.initializeRequestIdKey.map (fun key =>
      decide (key.utf8ByteSize > maxMcpHttpRequestIdStorageBytes))).getD false = true := by
    cases isKey : new.initializeRequestIdKey with
    | none => simp
    | some key =>
      have fits := acceptable.key key isKey
      simp only [Option.map_some, Option.getD_some, decide_eq_true_eq]
      omega
  rw [McpHttpSessionStore.createOrReplace, if_neg (Bool.not_eq_true _ ▸ acceptable.fields),
    if_neg short]
  rfl

theorem NewSession.Acceptable.budgeted (acceptable : new.Acceptable) (nowMs ttlMs : Nat) :
    (new.session nowMs ttlMs).Budgeted := by
  have limits : maxMcpHttpRequestIdStorageBytes ≤ maxMcpHttpRequestIdReplayBytes := by decide
  rw [NewSession.session]
  cases isKey : new.initializeRequestIdKey with
  | none => exact ⟨rfl, Nat.zero_le _, Nat.zero_le _⟩
  | some key =>
    refine ⟨?_, ?_, (acceptable.key key isKey).trans limits⟩
    · simp [McpHttpSession.recordedBytes]
    · simp [maxMcpHttpRequestIdsPerSession]

theorem maxSessions_madeRoom (store : McpHttpSessionStore) (sessionId : String)
    (rank : String → Nat) (nowMs : Nat) :
    (store.madeRoom sessionId rank nowMs).maxSessions = store.maxSessions := by
  rw [madeRoom]
  split_ifs
  · rfl
  · rfl

section

variable (budgeted : store.Budgeted)

include budgeted

/-- There is room: the session's own, or that of the sessions evicted. -/
theorem Budgeted.madeRoom (sessionId : String) (rank : String → Nat) (nowMs : Nat) :
    (store.madeRoom sessionId rank nowMs).Budgeted ∧
      (((store.madeRoom sessionId rank nowMs).get sessionId).isSome = true ∨
        (store.madeRoom sessionId rank nowMs).sessions.length <
          (store.madeRoom sessionId rank nowMs).maxSessions) := by
  have pruned := budgeted.pruneExpired nowMs
  rw [McpHttpSessionStore.madeRoom]
  split_ifs with present
  · exact ⟨pruned, .inl present⟩
  · exact ⟨pruned.of_sublist (sublist_evictLoop ..) rfl,
      .inr (length_evictLoop pruned.roomy _ _ (Nat.le_refl _))⟩

theorem Budgeted.createOrReplace (new : NewSession) (rank : String → Nat) (nowMs : Nat) :
    store.StaysBudgeted (store.createOrReplace new rank nowMs).2 := by
  by_cases acceptable : new.Acceptable
  · obtain ⟨within, room⟩ := budgeted.madeRoom new.sessionId rank nowMs
    have limit := maxSessions_madeRoom store new.sessionId rank nowMs
    rw [createOrReplace_of_acceptable acceptable]
    split_ifs with full
    · exact ⟨within, limit⟩
    · have fits := (add_le_of_saturatingAdd (by decide) full).2
      exact ⟨within.put (acceptable.budgeted nowMs store.ttlMs) room (by omega), limit⟩
  · obtain ⟨error, -, refused⟩ := createOrReplace_of_not_acceptable acceptable store rank nowMs
    rw [refused]
    exact ⟨budgeted, rfl⟩

theorem Budgeted.run (operation : SessionOperation) : store.StaysBudgeted (operation.run store) := by
  cases operation with
  | createOrReplace new rank nowMs => exact budgeted.createOrReplace new rank nowMs
  | touch sessionId protocolHeader nowMs => exact budgeted.touch sessionId protocolHeader nowMs
  | markInitialized sessionId protocolHeader nowMs =>
    have touched := budgeted.touch sessionId protocolHeader nowMs
    rw [SessionOperation.run]
    split
    · rename_i view _ same
      rw [same] at touched
      have marked := touched.1.markInitialized view.id
      exact ⟨marked.1, marked.2.trans touched.2⟩
    · rename_i same
      rw [same] at touched
      exact touched
  | trackRequestId sessionId requestIdKey => exact budgeted.trackRequestId sessionId requestIdKey
  | close sessionId nowMs => exact budgeted.close sessionId nowMs
  | pruneExpired nowMs => exact ⟨budgeted.pruneExpired nowMs, rfl⟩

theorem Budgeted.recorded :
    (store.sessions.map (fun entry => entry.2.recordedBytes)).sum = replayBytes store.sessions := by
  rw [replayBytes]
  apply congrArg List.sum
  exact map_congr_left (fun entry member => (budgeted.sessions entry member).counted.symm)

end

theorem budgeted_runOperations (maxSessions ttlMs : Nat) (operations : List SessionOperation) :
    StaysBudgeted (.new maxSessions ttlMs) (runOperations maxSessions ttlMs operations) := by
  refine List.foldlRecOn operations _ ⟨budgeted_new maxSessions ttlMs, rfl⟩ ?_
  intro store stays operation _
  have ran := stays.1.run operation
  exact ⟨ran.1, ran.2.trans stays.2⟩

/-- In every state that operations on a new store reach, the sessions are at most as many as
configured, every session counts the bytes of its ids and stays below its two limits, and the ids
of all sessions stay below the limit of the store. -/
theorem runOperations_withinBudgets (maxSessions ttlMs : Nat) (operations : List SessionOperation) :
    (runOperations maxSessions ttlMs operations).sessions.length ≤ max maxSessions 1 ∧
      (∀ entry ∈ (runOperations maxSessions ttlMs operations).sessions,
        entry.2.seenRequestIdBytes = ∑ requestId ∈ entry.2.seenRequestIds, requestId.utf8ByteSize ∧
          entry.2.seenRequestIds.card ≤ 4096 ∧
          ∑ requestId ∈ entry.2.seenRequestIds, requestId.utf8ByteSize ≤ 512 * 1024) ∧
      ((runOperations maxSessions ttlMs operations).sessions.map (fun entry =>
        ∑ requestId ∈ entry.2.seenRequestIds, requestId.utf8ByteSize)).sum ≤ 16 * 1024 * 1024 := by
  obtain ⟨budgeted, limit⟩ := budgeted_runOperations maxSessions ttlMs operations
  refine ⟨?_, ?_, ?_⟩
  · exact budgeted.capacity.trans limit.le
  · intro entry member
    have within := budgeted.sessions entry member
    exact ⟨within.counted, within.few, within.counted.symm.trans_le within.small⟩
  · exact budgeted.recorded.trans_le budgeted.total

end McpHttpSessionStore

end Mcpace.Mcp

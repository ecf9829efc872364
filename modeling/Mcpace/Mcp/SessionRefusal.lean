import Mcpace.Mcp.SessionBudget

/-!
Contract: what a refused session creation does to the sessions of others.

The store makes room for a new session before it checks whether its request id fits the budget of
the store. A creation that is refused there has already evicted a session that had not expired.
-/

namespace Mcpace.Mcp

open Library List Machine Option
open OrderedMap hiding insert

namespace McpHttpSessionStore

variable {store : McpHttpSessionStore} {new : NewSession} {rank : String → Nat} {nowMs : Nat}

/-- A refused creation leaves every session that has not expired in the store as it was. -/
def RefusalHarmless (store : McpHttpSessionStore) (new : NewSession) (rank : String → Nat)
    (nowMs : Nat) : Prop :=
  ∀ error, (store.createOrReplace new rank nowMs).1 = .error error →
    ∀ sessionId session, store.get sessionId = some session → nowMs < session.expiresAtMs →
      (store.createOrReplace new rank nowMs).2.get sessionId = some session

/-- The sessions that have not expired. -/
def live (store : McpHttpSessionStore) (nowMs : Nat) : McpHttpSessions :=
  store.sessions.filter (fun entry => nowMs < entry.2.expiresAtMs)

/-- The new session replaces one that has not expired, or there is room for one more. -/
def HasRoom (store : McpHttpSessionStore) (sessionId : String) (nowMs : Nat) : Prop :=
  (∃ session, store.get sessionId = some session ∧ nowMs < session.expiresAtMs) ∨
    (store.live nowMs).length < store.maxSessions

def NewSession.bytes (new : NewSession) : Nat :=
  (new.initializeRequestIdKey.map String.utf8ByteSize).getD 0

/-- In the place of the session seen longest ago, the id of the new one fits the budget. -/
def FitsForOldest (store : McpHttpSessionStore) (new : NewSession) (rank : String → Nat)
    (nowMs : Nat) : Prop :=
  ∀ victim ∈ oldest rank (store.live nowMs),
    replayBytes (store.live nowMs) - victim.2.seenRequestIdBytes + new.bytes ≤
      maxMcpHttpGlobalRequestIdReplayBytes

theorem get_live (sorted : Sorted store.sessions) (sessionId : String) (nowMs : Nat) :
    OrderedMap.get sessionId (store.live nowMs) =
      (store.get sessionId).filter (fun session => decide (nowMs < session.expiresAtMs)) := by
  show OrderedMap.get sessionId (retain (fun _ session => decide (nowMs < session.expiresAtMs))
    store.sessions) = _
  rw [get_retain sorted]
  rfl

theorem isSome_get_live (sorted : Sorted store.sessions) (sessionId : String)
    (nowMs : Nat) : (OrderedMap.get sessionId (store.live nowMs)).isSome = true ↔
      ∃ session, store.get sessionId = some session ∧ nowMs < session.expiresAtMs := by
  rw [get_live sorted, isSome_iff_exists]
  simp [filter_eq_some_iff]

variable {maxSessions : Nat} {sessions : McpHttpSessions}

theorem evictLoop_of_room (room : sessions.length < maxSessions) (fuel : Nat) :
    evictLoop rank maxSessions fuel sessions = sessions := by
  cases fuel with
  | zero => rfl
  | succ fuel => rw [evictLoop, if_neg (Nat.not_le.mpr room)]

variable {sessionId : String}

theorem madeRoom_of_hasRoom (sorted : Sorted store.sessions)
    (room : store.HasRoom sessionId nowMs) (rank : String → Nat) :
    (store.madeRoom sessionId rank nowMs).sessions = store.live nowMs := by
  rw [madeRoom]
  split_ifs with present
  · rfl
  · rcases room with found | fewer
    · exact absurd ((isSome_get_live sorted sessionId nowMs).mpr found) present
    · exact evictLoop_of_room fewer _

/-- Where there is none, exactly the session seen longest ago is evicted. -/
theorem madeRoom_of_crowded (budgeted : store.Budgeted) (crowded : ¬store.HasRoom sessionId nowMs)
    (rank : String → Nat) :
    ∃ victim, oldest rank (store.live nowMs) = some victim ∧
      OrderedMap.get sessionId (store.live nowMs) = none ∧
      (store.madeRoom sessionId rank nowMs).sessions =
        OrderedMap.remove victim.1 (store.live nowMs) := by
  rw [HasRoom, not_or, Nat.not_lt] at crowded
  have absent := mt (isSome_get_live budgeted.sorted sessionId nowMs).mp crowded.1
  have pruned := budgeted.pruneExpired nowMs
  have roomy : 1 ≤ store.maxSessions := pruned.roomy
  have capacity : (store.live nowMs).length ≤ store.maxSessions := pruned.capacity
  cases found : oldest rank (store.live nowMs) with
  | none =>
    have empty : store.live nowMs = [] := argmin_eq_none.mp found
    rw [empty, length_nil] at crowded
    omega
  | some victim =>
    have shorter := length_remove_oldest found
    obtain ⟨fuel, isFuel⟩ : ∃ fuel, (store.live nowMs).length = fuel + 1 :=
      ⟨(store.live nowMs).length - 1, by omega⟩
    refine ⟨victim, rfl, by simpa using absent, ?_⟩
    rw [madeRoom]
    refine (congrArg sessions (if_neg absent)).trans ?_
    show evictLoop rank store.maxSessions (store.live nowMs).length (store.live nowMs) = _
    rw [isFuel, evictLoop, if_pos crowded.2, found]
    exact evictLoop_of_room (by omega) fuel

theorem overfull_of_crowded (budgeted : store.Budgeted) {victim : String × McpHttpSession}
    (found : oldest rank (store.live nowMs) = some victim)
    (absent : OrderedMap.get new.sessionId (store.live nowMs) = none)
    (evicted : (store.madeRoom new.sessionId rank nowMs).sessions =
      OrderedMap.remove victim.1 (store.live nowMs)) (ttlMs : Nat) :
    Overfull (store.madeRoom new.sessionId rank nowMs) new
        (new.session nowMs ttlMs).seenRequestIdBytes ↔ ¬store.FitsForOldest new rank nowMs := by
  have sorted : Sorted (store.live nowMs) := (budgeted.pruneExpired nowMs).sorted
  have sum := @sum_remove _ _ _ McpHttpSession.seenRequestIdBytes victim.1 victim.2 _ sorted
    (get_of_mem sorted (argmin_mem found))
  have gone : (store.madeRoom new.sessionId rank nowMs).get new.sessionId = none := by
    rw [get, evicted]
    cases kept : OrderedMap.get new.sessionId (OrderedMap.remove victim.1 (store.live nowMs)) with
    | none => rfl
    | some session =>
      have member := mem_of_mem_filter (mem_of_get kept)
      rw [get_of_mem sorted member] at absent
      cases absent
  have limit : maxMcpHttpGlobalRequestIdReplayBytes = 16777216 := rfl
  have bytes : (new.session nowMs ttlMs).seenRequestIdBytes = new.bytes := rfl
  simp only [Overfull, FitsForOldest, gone, found, evicted, bytes, saturatingAdd, replayBytes,
    mem_some_iff, forall_eq', map_none, getD_none, not_le, gt_iff_lt]
  omega

theorem Budgeted.harmless_iff (budgeted : store.Budgeted) : RefusalHarmless store new rank
    nowMs ↔ store.HasRoom new.sessionId nowMs ∨ ¬new.Acceptable ∨
      store.FitsForOldest new rank nowMs := by
  rw [RefusalHarmless]
  by_cases acceptable : new.Acceptable
  · rw [createOrReplace_of_acceptable acceptable, iff_true_intro acceptable, not_true, false_or]
    by_cases room : store.HasRoom new.sessionId nowMs
    · refine iff_of_true ?_ (.inl room)
      split_ifs
      · intro _ _ sessionId session found unexpired
        rw [get, madeRoom_of_hasRoom budgeted.sorted room rank, get_live budgeted.sorted, found]
        exact filter_some_pos (decide_eq_true unexpired)
      · intro _ refused
        cases refused
    · obtain ⟨victim, found, absent, evicted⟩ := madeRoom_of_crowded budgeted room rank
      have overfull := overfull_of_crowded budgeted found absent evicted store.ttlMs
      rw [or_iff_right room]
      split_ifs with full
      · refine iff_of_false ?_ (overfull.mp full)
        intro harmless
        have sorted : Sorted (store.live nowMs) := (budgeted.pruneExpired nowMs).sorted
        have stored := get_of_mem sorted (argmin_mem found)
        rw [get_live budgeted.sorted, filter_eq_some_iff, decide_eq_true_eq] at stored
        have kept := harmless _ rfl victim.1 victim.2 stored.1 stored.2
        rw [get, evicted, get_remove_self] at kept
        cases kept
      · refine iff_of_true ?_ (not_not.mp (mt overfull.mpr full))
        intro _ refused
        cases refused
  · obtain ⟨error, -, refused⟩ := createOrReplace_of_not_acceptable acceptable store rank nowMs
    rw [refused]
    exact iff_of_true (fun _ _ _ _ found _ => found) (.inr (.inl acceptable))

/-- In every reachable store, a refused creation leaves the sessions that have not expired alone
exactly when there is room for the new session, its fields are too long, or its id fits in the
place of the session seen longest ago. -/
theorem refusalHarmless_iff (maxSessions ttlMs : Nat) (operations : List SessionOperation)
    (new : NewSession) (rank : String → Nat) (nowMs : Nat) :
    RefusalHarmless (runOperations maxSessions ttlMs operations) new rank nowMs ↔
      (runOperations maxSessions ttlMs operations).HasRoom new.sessionId nowMs ∨
        ¬new.Acceptable ∨
        (runOperations maxSessions ttlMs operations).FitsForOldest new rank nowMs :=
  (budgeted_runOperations maxSessions ttlMs operations).1.harmless_iff

/-! ### A crowded store -/

def clientId (number : Nat) : String := String.ofList (replicate (number + 1) 'x')

def requestKey (number : Nat) : String := String.ofList ('s' :: ':' :: replicate (number + 21) 'a')

def client (sessionId key : String) : NewSession := ⟨sessionId, "2025-06-18", none, none, some key⟩

/-- The bytes of the first request keys. -/
def keyBytes : Nat → Nat
  | 0 => 0
  | count + 1 => keyBytes count + (count + 23)

/-- A session that was opened after one millisecond and has made some requests. -/
def busySession (number count : Nat) : McpHttpSession :=
  { (client (clientId number) "").session 1 defaultMcpHttpSessionTtlMs with
    seenRequestIds := (Finset.range count).image requestKey
    seenRequestIdBytes := keyBytes count }

/-- The operation that a client's request amounts to. -/
def request (number : Nat) : Nat → SessionOperation
  | 0 => .createOrReplace (client (clientId number) (requestKey 0)) (fun _ => 0) 1
  | count + 1 => .trackRequestId (clientId number) (requestKey (count + 1))

def idleClient : NewSession := client (clientId 0) "n:1"

/-- One client opens a session; later, others make 160 requests each. -/
def crowding (count : Nat) : List SessionOperation :=
  .createOrReplace idleClient (fun _ => 0) 0 ::
    (List.range count).flatMap (fun number => (List.range 160).map (request (number + 1)))

def crowd (count : Nat) : McpHttpSessions :=
  (clientId 0, idleClient.session 0 defaultMcpHttpSessionTtlMs) ::
    (List.range count).map (fun number => (clientId (number + 1), busySession (number + 1) 160))

def storing (sessions : McpHttpSessions) : McpHttpSessionStore :=
  ⟨sessions, defaultMcpHttpSessionLimit, defaultMcpHttpSessionTtlMs, 0⟩

theorem utf8ByteSize_of_ascii {chars : List Char} (ascii : ∀ char ∈ chars, char.utf8Size = 1) :
    (String.ofList chars).utf8ByteSize = chars.length := by
  induction chars with
  | nil => rfl
  | cons first rest ih =>
    rw [String.ofList_cons, String.utf8ByteSize_append, String.utf8ByteSize_singleton,
      ascii first mem_cons_self, ih (forall_mem_cons.mp ascii).2, length_cons, Nat.add_comm]

theorem utf8ByteSize_requestKey (number : Nat) : (requestKey number).utf8ByteSize = number + 23 := by
  have ascii : ∀ char ∈ 's' :: ':' :: replicate (number + 21) 'a', char.utf8Size = 1 :=
    forall_mem_cons.mpr ⟨rfl, forall_mem_cons.mpr ⟨rfl, fun _ member =>
      (mem_replicate.mp member).2 ▸ rfl⟩⟩
  rw [requestKey, utf8ByteSize_of_ascii ascii, length_cons, length_cons, length_replicate]

theorem requestKey_inj {left right : Nat} (same : requestKey left = requestKey right) :
    left = right := by
  have sizes := congrArg String.utf8ByteSize same
  rw [utf8ByteSize_requestKey, utf8ByteSize_requestKey] at sizes
  omega

theorem clientId_lt {left right : Nat} (less : left < right) : clientId left < clientId right := by
  rw [clientId, clientId, String.lt_iff_toList_lt, String.toList_ofList, String.toList_ofList]
  induction left generalizing right with
  | zero =>
    obtain ⟨right, rfl⟩ := Nat.exists_eq_add_one.mpr less
    exact cons_lt_cons_iff.mpr (.inr ⟨rfl, nil_lt_cons _ _⟩)
  | succ left ih =>
    obtain ⟨right, rfl⟩ := Nat.exists_eq_add_one.mpr (Nat.zero_lt_of_lt less)
    exact cons_lt_cons_iff.mpr (.inr ⟨rfl, ih (Nat.lt_of_succ_lt_succ less)⟩)

theorem keyBytes_mono {left right : Nat} (le : left ≤ right) : keyBytes left ≤ keyBytes right :=
  monotone_nat_of_le_succ (fun _ => Nat.le_add_right _ _) le

theorem keyBytes_all : keyBytes 160 = 16400 := by decide +kernel

section

variable {front : McpHttpSessions} {number count : Nat}
  (above : ∀ entry ∈ front, entry.1 < clientId number)

include above

/-- A client with a new session id is added behind the others. -/
theorem opened {key : String} (unexpired : ∀ entry ∈ front, nowMs < entry.2.expiresAtMs)
    (room : front.length < defaultMcpHttpSessionLimit)
    (short : key.utf8ByteSize ≤ maxMcpHttpRequestIdStorageBytes)
    (fits : replayBytes front + key.utf8ByteSize ≤ maxMcpHttpGlobalRequestIdReplayBytes) :
    ((storing front).createOrReplace (client (clientId number) key) rank nowMs).2 =
      storing (front ++ [(clientId number,
        (client (clientId number) key).session nowMs defaultMcpHttpSessionTtlMs)]) := by
  have acceptable : (client (clientId number) key).Acceptable := by
    refine ⟨rfl, ?_⟩
    intro other member
    rw [← mem_some_iff.mp member]
    exact short
  have pruned : (storing front).live nowMs = front :=
    filter_eq_self.mpr (fun entry member => decide_eq_true (unexpired entry member))
  have whole : (storing front).pruneExpired nowMs = storing front := by
    rw [pruneExpired]
    show McpHttpSessionStore.mk ((storing front).live nowMs) _ _
      (saturatingAdd 64 0 (front.length - ((storing front).live nowMs).length)) = _
    rw [pruned, Nat.sub_self]
    rfl
  have made : (storing front).madeRoom (client (clientId number) key).sessionId rank nowMs =
      storing front := by
    show madeRoom _ (clientId number) _ _ = _
    rw [madeRoom, whole, get, storing, get_eq_none_of_forall_gt above]
    show McpHttpSessionStore.mk (evictLoop _ _ _ _) _ _ _ = _
    rw [evictLoop_of_room room]
  have spare : ¬Overfull (storing front) (client (clientId number) key) ((client (clientId number)
      key).session nowMs defaultMcpHttpSessionTtlMs).seenRequestIdBytes := by
    show ¬saturatingAdd 64 (replayBytes front - ((OrderedMap.get (clientId number) front).map
      _).getD 0) key.utf8ByteSize > _
    rw [get_eq_none_of_forall_gt above, saturatingAdd]
    simp only [map_none, getD_none]
    omega
  have done := createOrReplace_of_acceptable acceptable (storing front) rank nowMs
  rw [made] at done
  rw [done, show (storing front).ttlMs = defaultMcpHttpSessionTtlMs from rfl, if_neg spare, put]
  show storing (OrderedMap.insert (clientId number) _ front) = _
  rw [insert_of_forall_lt above]

/-- A further request of the last client is recorded. -/
theorem requested (few : count < 160)
    (fits : replayBytes front + keyBytes (count + 1) ≤ maxMcpHttpGlobalRequestIdReplayBytes) :
    ((storing (front ++ [(clientId number, busySession number count)])).trackRequestId
      (clientId number) (requestKey count)).2 =
        storing (front ++ [(clientId number, busySession number (count + 1))]) := by
  have size := utf8ByteSize_requestKey count
  have found : (storing (front ++ [(clientId number, busySession number count)])).get
      (clientId number) = some (busySession number count) := by
    rw [get, storing, get_append, get_eq_none_of_forall_gt above]
    exact if_pos rfl
  have bytes : replayBytes (storing (front ++ [(clientId number, busySession number
      count)])).sessions = replayBytes front + keyBytes count := by
    simp [storing, replayBytes, busySession]
  have unseen : requestKey count ∉ (busySession number count).seenRequestIds := by
    rw [busySession, Finset.mem_image]
    rintro ⟨earlier, before, same⟩
    rw [requestKey_inj same, Finset.mem_range] at before
    exact lt_irrefl _ before
  have card : (busySession number count).seenRequestIds.card ≤ count :=
    Finset.card_image_le.trans (Finset.card_range count).le
  have small : keyBytes count + (count + 23) ≤ keyBytes 160 := @keyBytes_mono (count + 1) 160 few
  rw [keyBytes_all] at small
  have added : saturatingAdd 64 (keyBytes count) (count + 23) = keyBytes (count + 1) := by
    rw [saturatingAdd, keyBytes]
    omega
  have own : (busySession number count).seenRequestIdBytes = keyBytes count := rfl
  rw [keyBytes] at fits
  rw [trackRequestId, found]
  dsimp only
  rw [if_neg unseen, size, bytes, own, added, if_neg, if_neg, if_neg, put]
  · show storing (OrderedMap.insert (clientId number) _ (front ++ _)) = _
    rw [insert_concat above, busySession, busySession, Finset.range_add_one, Finset.image_insert]
  · rw [not_or, keyBytes]
    exact ⟨by rw [maxMcpHttpRequestIdsPerSession]; omega,
      by rw [maxMcpHttpRequestIdReplayBytes]; omega⟩
  · exact not_lt.mpr ((min_le_left _ _).trans (by omega))
  · rw [maxMcpHttpRequestIdStorageBytes]
    omega

theorem visited (unexpired : ∀ entry ∈ front, 1 < entry.2.expiresAtMs)
    (room : front.length < defaultMcpHttpSessionLimit) (few : count < 160)
    (fits : replayBytes front + 16400 ≤ maxMcpHttpGlobalRequestIdReplayBytes) :
    ((List.range (count + 1)).map (request number)).foldl SessionOperation.run (storing front) =
      storing (front ++ [(clientId number, busySession number (count + 1))]) := by
  have bytes := @keyBytes_mono (count + 1) 160 few
  rw [keyBytes_all] at bytes
  induction count with
  | zero =>
    have size := utf8ByteSize_requestKey 0
    refine (opened above unexpired room (by rw [size]; decide) (by omega)).trans ?_
    simp [busySession, client, NewSession.session, size, keyBytes, keyBytes]
  | succ count ih =>
    rw [range_succ, map_append, foldl_append, ih (by omega) ((keyBytes_mono (Nat.le_succ _)).trans bytes)]
    exact requested above few (by omega)

end

theorem replayBytes_crowd (count : Nat) : replayBytes (crowd count) = 3 + 16400 * count := by
  have size : "n:1".utf8ByteSize = 3 := by decide
  simp [replayBytes, crowd, idleClient, client, NewSession.session, busySession, size, keyBytes_all,
    Function.comp_def]
  omega

/-- The sessions of the crowd, with the time at which they were seen last. -/
theorem mem_crowd {count : Nat} {entry : String × McpHttpSession} (member : entry ∈ crowd count) :
    2 < entry.2.expiresAtMs ∧ entry.1 < clientId (count + 1) ∧
      (entry = (clientId 0, idleClient.session 0 defaultMcpHttpSessionTtlMs) ∨
        entry.2.lastSeenAtMs = 1) := by
  rcases mem_cons.mp member with rfl | busy
  · exact ⟨by decide, clientId_lt (Nat.succ_pos _), .inl rfl⟩
  · obtain ⟨number, inRange, rfl⟩ := mem_map.mp busy
    have late : 2 < saturatingAdd 128 1 defaultMcpHttpSessionTtlMs := by decide
    exact ⟨late, clientId_lt (Nat.succ_lt_succ (mem_range.mp inRange)), .inr rfl⟩

theorem crowded (count : Nat) (few : count < 1024) :
    runOperations defaultMcpHttpSessionLimit defaultMcpHttpSessionTtlMs (crowding count) =
      storing (crowd count) := by
  induction count with
  | zero => exact @opened (fun _ => 0) 0 [] 0 nofun "n:1" nofun (by decide) (by decide) (by decide)
  | succ count ih =>
    have step : crowding (count + 1) = crowding count ++ (List.range 160).map (request (count + 1)) := by
      rw [crowding, crowding, range_succ (n := count), flatMap_append, flatMap_singleton, cons_append]
    have bytes := replayBytes_crowd count
    rw [step, runOperations, foldl_append, ← runOperations, ih (by omega), visited
      (fun entry member => (mem_crowd member).2.1)
      (fun entry member => (Nat.lt_succ_self 1).trans (mem_crowd member).1) ?_ (by decide) ?_]
    · rw [crowd, crowd, range_succ, map_append, cons_append]
      rfl
    · rw [crowd, length_cons, length_map, length_range, defaultMcpHttpSessionLimit]
      omega
    · rw [maxMcpHttpGlobalRequestIdReplayBytes]
      omega

/-- On a server with the default limits, after one client has opened a session and 1023 more have
made 160 requests each, one more client is refused, and the idle session is gone. -/
theorem refusal_harmful :
    ¬RefusalHarmless (runOperations defaultMcpHttpSessionLimit defaultMcpHttpSessionTtlMs
      (crowding 1023)) (client (clientId 1024) (requestKey 0)) (fun _ => 0) 2 := by
  have size := utf8ByteSize_requestKey 0
  have budgeted := (budgeted_runOperations defaultMcpHttpSessionLimit defaultMcpHttpSessionTtlMs
    (crowding 1023)).1
  rw [crowded 1023 (by decide)] at budgeted ⊢
  have everyone : (storing (crowd 1023)).live 2 = crowd 1023 :=
    filter_eq_self.mpr (fun entry member => decide_eq_true (mem_crowd member).1)
  rw [budgeted.harmless_iff, not_or, not_or, not_not, HasRoom, not_or]
  refine ⟨⟨?_, ?_⟩, ⟨rfl, ?_⟩, ?_⟩
  · rintro ⟨session, found, -⟩
    exact lt_irrefl _ (mem_crowd (mem_of_get found)).2.1
  · rw [everyone, crowd, length_cons, length_map, length_range]
    exact lt_irrefl _
  · intro key member
    rw [← mem_some_iff.mp member, size]
    decide
  · rw [FitsForOldest, everyone]
    intro fits
    cases found : oldest (fun _ => 0) (crowd 1023) with
    | none => cases argmin_eq_none.mp found
    | some victim =>
      have least := le_of_mem_argmin (mem_cons_self) found
      obtain rfl : victim = (clientId 0, idleClient.session 0 defaultMcpHttpSessionTtlMs) := by
        apply (mem_crowd (argmin_mem found)).2.2.resolve_right
        intro late
        simp [Prod.Lex.le_iff, late, NewSession.session] at least
      have exceeded := fits _ found
      rw [replayBytes_crowd, NewSession.bytes, show (client _ _).initializeRequestIdKey = some _ from
        rfl, map_some, getD_some, size] at exceeded
      exact absurd exceeded (by decide)

end McpHttpSessionStore

end Mcpace.Mcp

import Mcpace.Mcp.HttpWorld

/-!
Owns what a critical section of the session store can do: lose sessions, use one, or open one.

`SectionEffect` says it for every task; facts about a run are read off it without looking at the
operations again. Also owns what is known of a call when it gets to the store.
-/

namespace Mcpace.Mcp

open Library Json Machine Checks
open Dashboard (HttpRequest)

/-! ### What a critical section can do -/

/-- Sessions are lost, none is changed. -/
structure Shrinks (store after : McpHttpSessionStore) : Prop where
  wellFormed : after.WellFormed
  ttlMs_eq : after.ttlMs = store.ttlMs
  kept : ∀ sessionId session, after.get sessionId = some session →
    store.get sessionId = some session

section Shrinks

variable {store : McpHttpSessionStore}

theorem Shrinks.refl (wellFormed : store.WellFormed) : Shrinks store store :=
  ⟨wellFormed, rfl, fun _ _ found => found⟩

theorem Shrinks.trans {middle after : McpHttpSessionStore} (first : Shrinks store middle)
    (second : Shrinks middle after) : Shrinks store after where
  wellFormed := second.wellFormed
  ttlMs_eq := second.ttlMs_eq.trans first.ttlMs_eq
  kept := fun sessionId session found =>
    first.kept sessionId session (second.kept sessionId session found)

variable (wellFormed : store.WellFormed)

include wellFormed

theorem shrinks_pruneExpired (nowMs : Nat) : Shrinks store (store.pruneExpired nowMs) where
  wellFormed := wellFormed.pruneExpired nowMs
  ttlMs_eq := rfl
  kept := fun _ _ found => McpHttpSessionStore.get_of_pruneExpired wellFormed.sorted found

theorem shrinks_evict (rank : String → Nat) :
    Shrinks store (store.evictUntilCapacityForInsert rank) where
  wellFormed := wellFormed.evict rank
  ttlMs_eq := rfl
  kept := fun _ _ found => McpHttpSessionStore.get_of_evictLoop found

theorem shrinks_remove (sessionId : String) : Shrinks store (store.remove sessionId) where
  wellFormed := wellFormed.remove sessionId
  ttlMs_eq := rfl
  kept := by
    intro other session found
    rw [McpHttpSessionStore.get_remove] at found
    split at found
    · cases found
    · exact found

theorem shrinks_dropExpired (sessionId : String) : Shrinks store (store.dropExpired sessionId) := by
  have removed := shrinks_remove wellFormed sessionId
  exact ⟨⟨removed.wellFormed.sorted, removed.wellFormed.keyed⟩, rfl, removed.kept⟩

end Shrinks

/-- The session that the header of a request names. -/
def Names (request : HttpRequest) (sessionId : String) : Prop :=
  namedSession request "missing required Mcp-Session-Id header after initialize" = .ok sessionId

def McpHttpSession.touchedAt (session : McpHttpSession) (nowMs ttlMs : Nat) : McpHttpSession :=
  { session with lastSeenAtMs := nowMs, expiresAtMs := saturatingAdd 128 nowMs ttlMs }

/-- The named session is there and in time. -/
structure Found (store : McpHttpSessionStore) (request : HttpRequest) (nowMs : Nat)
    (sessionId : String) (session : McpHttpSession) : Prop where
  names : Names request sessionId
  get_eq : store.get sessionId = some session
  inTime : nowMs < session.expiresAtMs

section Operations

variable {store : McpHttpSessionStore} (wellFormed : store.WellFormed) (nowMs : Nat)
include wellFormed

theorem touch_cases (sessionId : String) (protocolHeader : Option String) :
    (∃ session, store.get sessionId = some session ∧ nowMs < session.expiresAtMs ∧
        store.touch sessionId protocolHeader nowMs =
          (.ok (session.touchedAt nowMs store.ttlMs).view,
            store.put sessionId (session.touchedAt nowMs store.ttlMs))) ∨
      ∃ error after, store.touch sessionId protocolHeader nowMs = (.error error, after) ∧
        Shrinks store after := by
  rw [McpHttpSessionStore.touch]
  cases found : store.get sessionId with
  | none => exact Or.inr ⟨_, _, rfl, Shrinks.refl wellFormed⟩
  | some session =>
    dsimp only
    split
    · exact Or.inr ⟨_, _, rfl, shrinks_dropExpired wellFormed sessionId⟩
    · rename_i inTime
      split
      · exact Or.inr ⟨_, _, rfl, Shrinks.refl wellFormed⟩
      · exact Or.inl ⟨session, rfl, Nat.lt_of_not_le inTime, rfl⟩

theorem touchFromRequest_cases (request : HttpRequest) :
    (∃ sessionId session, Found store request nowMs sessionId session ∧
        touchFromRequest store request nowMs = (.ok (session.touchedAt nowMs store.ttlMs).view,
            store.put sessionId (session.touchedAt nowMs store.ttlMs))) ∨
      ∃ error after, touchFromRequest store request nowMs = (.error error, after) ∧
        Shrinks store after := by
  rw [touchFromRequest]
  split
  · exact Or.inr ⟨_, _, rfl, Shrinks.refl wellFormed⟩
  · rename_i sessionId names
    split
    · exact Or.inr ⟨_, _, rfl, Shrinks.refl wellFormed⟩
    · rename_i protocolHeader _
      rcases touch_cases wellFormed nowMs sessionId protocolHeader with
        ⟨session, found, inTime, touched⟩ | failed
      · exact Or.inl ⟨sessionId, session, ⟨names, found, inTime⟩, touched⟩
      · exact Or.inr failed

theorem shrinks_closeFromRequest (request : HttpRequest) :
    Shrinks store (closeFromRequest store request nowMs).2 := by
  rw [closeFromRequest]
  split
  · exact Shrinks.refl wellFormed
  · rename_i sessionId _
    rw [McpHttpSessionStore.close]
    split
    · exact Shrinks.refl wellFormed
    · split
      · exact shrinks_dropExpired wellFormed sessionId
      · exact shrinks_remove wellFormed sessionId

/-- A created session is added to what is left of the store. -/
theorem createOrReplace_cases (new : McpHttpSessionStore.NewSession) (rank : String → Nat) :
    (∃ left, Shrinks store left ∧ store.createOrReplace new rank nowMs =
        (.ok (new.session nowMs store.ttlMs).view,
          left.put new.sessionId (new.session nowMs store.ttlMs))) ∨
      ∃ error after, store.createOrReplace new rank nowMs = (.error error, after) ∧
        Shrinks store after := by
  rw [McpHttpSessionStore.createOrReplace]
  split
  · exact Or.inr ⟨_, _, rfl, Shrinks.refl wellFormed⟩
  · split
    · exact Or.inr ⟨_, _, rfl, Shrinks.refl wellFormed⟩
    · dsimp only
      -- The rest does not look at how room was made.
      generalize made : (if ((store.pruneExpired nowMs).get new.sessionId).isSome
        then store.pruneExpired nowMs
        else (store.pruneExpired nowMs).evictUntilCapacityForInsert rank) = left
      have roomy : Shrinks store left := by
        have pruned := shrinks_pruneExpired wellFormed nowMs
        rw [← made]
        split
        · exact pruned
        · exact pruned.trans (shrinks_evict pruned.wellFormed rank)
      split
      · exact Or.inr ⟨_, _, rfl, roomy⟩
      · exact Or.inl ⟨left, roomy, rfl⟩

end Operations

/-- A request id is tracked on a session that is there and has not seen it. -/
theorem trackRequestId_cases (store : McpHttpSessionStore) (sessionId key : String) :
    (∃ session tracked, store.get sessionId = some session ∧ key ∉ session.seenRequestIds ∧
        tracked = { session with
          seenRequestIds := insert key session.seenRequestIds
          seenRequestIdBytes :=
            saturatingAdd 64 session.seenRequestIdBytes key.utf8ByteSize } ∧
        store.trackRequestId sessionId key = (.ok tracked.view, store.put sessionId tracked)) ∨
      ∃ error, store.trackRequestId sessionId key = (.error error, store) := by
  rw [McpHttpSessionStore.trackRequestId]
  cases found : store.get sessionId with
  | none => exact Or.inr ⟨_, rfl⟩
  | some session =>
    dsimp only
    split
    · exact Or.inr ⟨_, rfl⟩
    · rename_i unseen
      split
      · exact Or.inr ⟨_, rfl⟩
      · split
        · exact Or.inr ⟨_, rfl⟩
        · split
          · exact Or.inr ⟨_, rfl⟩
          · exact Or.inl ⟨session, _, rfl, unseen, rfl, rfl⟩

/-- One session is put in place of what was filed under its id, the others stay. -/
structure Replaces (store after : McpHttpSessionStore) (sessionId : String)
    (session : McpHttpSession) : Prop where
  wellFormed : after.WellFormed
  ttlMs_eq : after.ttlMs = store.ttlMs
  get_eq : ∀ other, after.get other = if other = sessionId then some session else store.get other

section Replaces

variable {store after : McpHttpSessionStore} {sessionId : String} {session newer : McpHttpSession}

theorem replaces_put (wellFormed : store.WellFormed) (keyed : session.id = sessionId) :
    Replaces store (store.put sessionId session) sessionId session where
  wellFormed := wellFormed.put keyed
  ttlMs_eq := rfl
  get_eq := fun other => McpHttpSessionStore.get_put store sessionId other session

theorem Replaces.get_self (replaces : Replaces store after sessionId session) :
    after.get sessionId = some session := by
  rw [replaces.get_eq, if_pos rfl]

theorem Replaces.put (replaces : Replaces store after sessionId session)
    (keyed : newer.id = sessionId) :
    Replaces store (after.put sessionId newer) sessionId newer where
  wellFormed := replaces.wellFormed.put keyed
  ttlMs_eq := replaces.ttlMs_eq
  get_eq := by
    intro other
    rw [McpHttpSessionStore.get_put, replaces.get_eq]
    split <;> rfl

end Replaces

/-- A session was found in time and its expiry put off. -/
structure Uses (store after : McpHttpSessionStore) (request : HttpRequest) (nowMs : Nat)
    (sessionId : String) (old new : McpHttpSession) : Prop where
  found : Found store request nowMs sessionId old
  replaces : Replaces store after sessionId new
  id_eq : new.id = sessionId
  expiresAtMs_eq : new.expiresAtMs = saturatingAdd 128 nowMs store.ttlMs
  seen : old.seenRequestIds ⊆ new.seenRequestIds

variable {request : HttpRequest} {store : McpHttpSessionStore} {nowMs : Nat} {sessionId : String}

theorem Found.uses {session : McpHttpSession} (found : Found store request nowMs sessionId session)
    (wellFormed : store.WellFormed) :
    Uses store (store.put sessionId (session.touchedAt nowMs store.ttlMs)) request nowMs sessionId
      session (session.touchedAt nowMs store.ttlMs) := by
  have id_eq : (session.touchedAt nowMs store.ttlMs).id = sessionId := by
    show session.id = sessionId
    exact wellFormed.id_of_get found.get_eq
  exact ⟨found, replaces_put wellFormed id_eq, id_eq, rfl, fun _ member => member⟩

/-- Tracking the id of a call keeps the use, and takes an id that is new. -/
theorem Uses.trackCall {after : McpHttpSessionStore} {old new : McpHttpSession}
    (uses : Uses store after request nowMs sessionId old new) (call : HttpCall) :
    (∃ newer tracked, Uses store tracked request nowMs sessionId old newer ∧
        Mcp.trackCall after new.view call = (.ok newer.view, tracked) ∧
        newer.initialized = new.initialized ∧
        ∀ key, call.requestIdKey = some key →
          key ∉ old.seenRequestIds ∧ key ∈ newer.seenRequestIds) ∨
      ∃ error, Mcp.trackCall after new.view call = (.error error, after) := by
  rw [Mcp.trackCall]
  cases call.requestIdKey with
  | none => exact Or.inl ⟨new, after, uses, rfl, rfl, nofun⟩
  | some key =>
    have id_eq : new.view.id = sessionId := uses.id_eq
    dsimp only
    rw [id_eq]
    rcases trackRequestId_cases after sessionId key with
      ⟨session, tracked, found, unseen, isTracked, ok⟩ | failed
    · rw [uses.replaces.get_self] at found
      cases found
      have keyed : tracked.id = sessionId := by
        rw [isTracked]
        exact uses.id_eq
      refine Or.inl ⟨tracked, _, ⟨uses.found, uses.replaces.put keyed, keyed, ?_, ?_⟩, ok, ?_, ?_⟩
      · rw [isTracked]
        exact uses.expiresAtMs_eq
      · intro other member
        rw [isTracked]
        exact Finset.mem_insert_of_mem (uses.seen member)
      · rw [isTracked]
      · intro other same
        cases same
        refine ⟨fun member => unseen (uses.seen member), ?_⟩
        rw [isTracked]
        exact Finset.mem_insert_self key _
    · exact Or.inr failed

/-- What a use shows. A check that fails after the session was touched shows nothing. -/
inductive UseDeed (task : HttpTask) (request : HttpRequest) (session : SessionRef)
    (old new : McpHttpSession) (done : CriticalSection) : Prop
  | touch (deed_eq : done.deed = none) (initialized_eq : new.initialized = old.initialized)
      (phase_eq : done.phase = .idle)
  | mark (call : HttpCall) (task_eq : task = .mark call) (request_eq : request = call.request)
      (deed_eq : done.deed = some (.marked session call)) (phase_eq : done.phase = .idle)
  | check (call : HttpCall) (task_eq : task = .check call) (request_eq : request = call.request)
      (deed_eq : done.deed = some (.checked session call))
      (initialized_eq : new.initialized = old.initialized)
      (ready : call.method ≠ .ping → old.initialized = true)
      (fresh : ∀ key, call.requestIdKey = some key →
        key ∉ old.seenRequestIds ∧ key ∈ new.seenRequestIds)
      (phase_cases : done.phase = .idle ∨ ∃ view, done.phase = .admitted session view call)

/-- A critical section loses sessions, uses one, or opens one. -/
inductive SectionEffect (store : McpHttpSessionStore) (creations : String → Nat) (host : HttpHost)
    (task : HttpTask) (done : CriticalSection) : Prop
  | lost (shrinks : Shrinks store done.store) (creations_eq : done.creations = creations)
      (touched_eq : done.touched = none) (deed_eq : done.deed = none)
      (phase_eq : done.phase = .idle)
  | used (request : HttpRequest) (sessionId : String) (old new : McpHttpSession)
      (uses : Uses store done.store request host.nowMs sessionId old new)
      (creations_eq : done.creations = creations)
      (touched_eq : done.touched = some (refOf creations sessionId))
      (deed : UseDeed task request (refOf creations sessionId) old new done)
  | opened (call : HttpCall) (sessionId : String) (left : McpHttpSessionStore)
      (task_eq : task = .create call) (shrinks : Shrinks store left)
      (replaces : Replaces left done.store sessionId
        ((call.newSession sessionId).session host.nowMs store.ttlMs))
      (creations_eq : done.creations =
        Function.update creations sessionId (creations sessionId + 1))
      (touched_eq : done.touched = some ⟨sessionId, creations sessionId + 1⟩)
      (deed_eq : done.deed = some (.created ⟨sessionId, creations sessionId + 1⟩ call))
      (response_eq : done.response = some (initializeResponse host call sessionId))
      (phase_eq : done.phase = .idle)

section Effects

variable {store : McpHttpSessionStore} (wellFormed : store.WellFormed) (creations : String → Nat)
  (host : HttpHost) {after : McpHttpSessionStore}

theorem touchedRef_of_ok {request : HttpRequest} {view : McpHttpSessionView} {sessionId : String}
    (touched : touchFromRequest store request host.nowMs = (.ok view, after))
    (id_eq : view.id = sessionId) :
    touchedRef store creations host request = some (refOf creations sessionId) := by
  rw [touchedRef, touched, ← id_eq]
  rfl

theorem touchedRef_of_error {request : HttpRequest} {error : McpHttpSessionError}
    (failed : touchFromRequest store request host.nowMs = (.error error, after)) :
    touchedRef store creations host request = none := by
  rw [touchedRef, failed]
  rfl

include wellFormed

theorem touchSection_effect (request : HttpRequest) (id : JsonValue) :
    SectionEffect store creations host (.touch request id)
      (touchSection store creations host request id) := by
  rcases touchFromRequest_cases wellFormed host.nowMs request with
    ⟨sessionId, session, found, touched⟩ | ⟨error, after, failed, shrinks⟩
  · have uses := found.uses wellFormed
    refine .used request sessionId session (session.touchedAt host.nowMs store.ttlMs) ?_ rfl
      (touchedRef_of_ok creations host touched uses.id_eq) (.touch rfl rfl rfl)
    rw [touchSection, touched]
    exact uses
  · refine .lost ?_ rfl (touchedRef_of_error creations host failed) rfl rfl
    rw [touchSection, failed]
    exact shrinks

theorem markSection_effect (call : HttpCall) :
    SectionEffect store creations host (.mark call) (markSection store creations host call) := by
  rcases touchFromRequest_cases wellFormed host.nowMs call.request with
    ⟨sessionId, session, found, touched⟩ | ⟨error, after, failed, shrinks⟩
  · have uses := found.uses wellFormed
    have id_eq := uses.id_eq
    set used := session.touchedAt host.nowMs store.ttlMs
    let ready := { used with initialized := true }
    -- The session that was touched is found again, so marking does not fail.
    have marked : markInitializedFromRequest store call.request host.nowMs =
        (.ok ready.view, (store.put sessionId used).put sessionId ready) := by
      rw [markInitializedFromRequest, touched]
      show McpHttpSessionStore.markInitialized _ used.id = _
      rw [id_eq, McpHttpSessionStore.markInitialized, uses.replaces.get_self]
    have again : (markSection store creations host call).store =
        (store.put sessionId used).put sessionId ready := by
      rw [markSection, marked]
    refine .used call.request sessionId session ready ?_ rfl
      (touchedRef_of_ok creations host touched id_eq) (.mark call rfl rfl ?_ rfl)
    · rw [again]
      exact ⟨found, uses.replaces.put id_eq, id_eq, rfl, fun _ member => member⟩
    · rw [markSection, marked, ← id_eq]
      rfl
  · have unmarked : markInitializedFromRequest store call.request host.nowMs =
        (.error error, after) := by
      rw [markInitializedFromRequest, failed]
    refine .lost ?_ rfl (touchedRef_of_error creations host failed) ?_ rfl
    · rw [markSection, unmarked]
      exact shrinks
    · rw [markSection, unmarked]
      rfl

theorem checkSection_effect (call : HttpCall) :
    SectionEffect store creations host (.check call) (checkSection store creations host call) := by
  rcases touchFromRequest_cases wellFormed host.nowMs call.request with
    ⟨sessionId, session, found, touched⟩ | ⟨error, after, failed, shrinks⟩
  · have uses := found.uses wellFormed
    have isTouched := touchedRef_of_ok creations host touched uses.id_eq
    rcases uses.trackCall call with ⟨newer, tracked, usesNewer, ok, initialized, fresh⟩ | ⟨_, failed⟩
    · by_cases unready : call.method ≠ .ping ∧ newer.view.initialized = false
      · -- The id stays taken, although the request is refused.
        simp only [checkSection, prepareMcpSession, touched, ok, if_pos unready]
        exact .used call.request sessionId session newer usesNewer rfl isTouched
          (.touch rfl initialized rfl)
      · have ready : call.method ≠ .ping → session.initialized = true := by
          intro notPing
          have set : ¬newer.initialized = false := fun unset => unready ⟨notPing, unset⟩
          rw [initialized] at set
          exact Bool.eq_true_of_not_eq_false set
        have ref_eq : refOf creations newer.view.id = refOf creations sessionId :=
          congrArg (refOf creations) usesNewer.id_eq
        simp only [checkSection, prepareMcpSession, touched, ok, if_neg unready]
        refine .used call.request sessionId session newer usesNewer rfl isTouched
          (.check call rfl rfl ?_ initialized ready fresh ?_)
        · show some (HttpDeed.checked (refOf creations newer.view.id) call) = _
          rw [ref_eq]
        · dsimp only
          split
          · exact Or.inr ⟨newer.view, by rw [ref_eq]⟩
          · exact Or.inl rfl
    · simp only [checkSection, prepareMcpSession, touched, failed]
      exact .used call.request sessionId session _ uses rfl isTouched (.touch rfl rfl rfl)
  · have untouched := touchedRef_of_error creations host failed
    simp only [checkSection, prepareMcpSession, failed]
    exact .lost shrinks rfl untouched rfl rfl

theorem closeSection_effect (request : HttpRequest) :
    SectionEffect store creations host (.close request)
      (closeSection store creations host request) :=
  .lost (shrinks_closeFromRequest wellFormed host.nowMs request) rfl rfl rfl rfl

theorem createSection_effect (call : HttpCall) : SectionEffect store creations host (.create call)
      (createSection store creations host call) := by
  cases random : host.randomSessionId with
  | error error =>
    simp only [createSection, random]
    exact .lost (Shrinks.refl wellFormed) rfl rfl rfl rfl
  | ok sessionId =>
    rcases createOrReplace_cases wellFormed host.nowMs (call.newSession sessionId) host.rank with
      ⟨left, shrinks, created⟩ | ⟨error, after, failed, shrinks⟩
    · simp only [createSection, random, created]
      exact .opened call sessionId left rfl shrinks (replaces_put shrinks.wellFormed rfl)
        rfl rfl rfl rfl rfl
    · simp only [createSection, random, failed]
      exact .lost shrinks rfl rfl rfl rfl

theorem run_effect (task : HttpTask) :
    SectionEffect store creations host task (task.run store creations host) := by
  cases task with
  | touch request id => exact touchSection_effect wellFormed creations host request id
  | mark call => exact markSection_effect wellFormed creations host call
  | check call => exact checkSection_effect wellFormed creations host call
  | create call => exact createSection_effect wellFormed creations host call
  | close request => exact closeSection_effect wellFormed creations host request

end Effects

/-! ### What a request asks for -/

/-- The call is what its message says, and the message is a valid envelope. -/
structure HttpCall.Valid (call : HttpCall) : Prop where
  envelope : validateRequestEnvelope call.message = .ok ()
  method_eq : call.message.valueAtPath ["method"] = some (.string call.method.name)
  requestId_eq : call.requestId = Mcp.requestId call.message

def HttpTask.Valid : HttpTask → Prop
  | .create call => call.Valid ∧ call.method = .initializeCall ∧ call.requestId ≠ none
  | .mark call => call.Valid ∧ call.method = .initialized ∧ call.requestId = none
  | .check call => call.Valid
  | .touch _ _ | .close _ => True

variable {task : HttpTask} {call : HttpCall}

theorem HttpCall.valid_task (valid : call.Valid) (isTask : call.task = .ok task) : task.Valid := by
  rw [HttpCall.task] at isTask
  split at isTask
  · rename_i opening
    split at isTask
    · cases isTask
    · rename_i request
      cases isTask
      exact ⟨valid, opening, request⟩
  · split at isTask
    · rename_i readying
      cases isTask
      exact ⟨valid, readying⟩
    · cases isTask
      exact valid

theorem valid_messageTask {message : JsonValue} (isTask : messageTask request message = .ok task) :
    task.Valid := by
  rw [messageTask] at isTask
  split at isTask
  · rename_i name found
    simp only [checkCall, bind_eq_ok] at isTask
    obtain ⟨_, ⟨_, envelope, _⟩, isTask⟩ := isTask
    refine HttpCall.valid_task ⟨mapError_eq_ok envelope, ?_, rfl⟩ isTask
    rw [Method.name_parse]
    exact found
  · cases isTask
  · rw [answerTask] at isTask
    split at isTask
    · cases isTask
      trivial
    · cases isTask

theorem valid_routeTask {parse : String → Except String JsonValue}
    (isTask : routeTask parse request = .ok task) : task.Valid := by
  rw [routeTask] at isTask
  split at isTask
  · cases isTask
  · cases isTask
    trivial
  · simp only [postTask, bind_eq_ok] at isTask
    obtain ⟨_, _, _, _, _, _, _, _, isTask⟩ := isTask
    exact valid_messageTask isTask
  · cases isTask

/-- Handlers run for other methods than `ping`, which is served before the session is ready. -/
theorem handler_dispatchCall {adapter : HttpAdapter} {view : McpHttpSessionView}
    {handler : HandlerCall} (ran : (dispatchCall adapter call view).2 = some handler) :
    call.method ≠ .ping := by
  intro ping
  simp only [dispatchCall, ping] at ran
  cases ran

end Mcpace.Mcp

import Mcpace.Mcp.HttpEffect

/-!
Owns what the past of a run tells of the sessions in the store.

A run is kept as the list of its entries. `LiveSession` is read from that list: the session was
opened, is ready if it says so, was not lost, was always used in time, and has seen every request
id that was taken from it. `StoreFacts.lock` keeps it up over a critical section.
-/

namespace Mcpace.Mcp

open Library Json Machine List Option Function
open Dashboard (HttpRequest)

/-! ### Histories -/

abbrev HttpEntry (P : Type) := (P × HttpEvent) × HttpOutcome

def HttpDeed.session : HttpDeed → SessionRef
  | .created session _ | .marked session _ | .checked session _ | .dispatched session _ _ => session

section History

variable {P : Type}

/-- The session was opened by an `initialize` that was answered with a result. -/
def Creates (session : SessionRef) (entry : HttpEntry P) : Prop :=
  ∃ host call, entry.1.2 = .lock host ∧ entry.2.deed = some (.created session call) ∧
    call.Valid ∧ call.method = .initializeCall ∧ call.requestId ≠ none ∧
    entry.2.response = some (initializeResponse host call session.id)

/-- The session was named by a `notifications/initialized`. -/
def Marks (session : SessionRef) (entry : HttpEntry P) : Prop :=
  ∃ call, entry.2.deed = some (.marked session call) ∧ call.Valid ∧
    call.method = .initialized ∧ call.requestId = none ∧ Names call.request session.id

/-- The clock when the session's expiry was put off. -/
def touchTime (session : SessionRef) (entry : HttpEntry P) : Option Nat :=
  if entry.2.touched = some session then entry.1.2.clock else none

def touchTimes (session : SessionRef) (past : List (HttpEntry P)) : List Nat :=
  past.filterMap (touchTime session)

/-- The session was never used when its time was up. -/
def Timely (ttlMs : Nat) (times : List Nat) : Prop :=
  times.IsChain (fun earlier later => later < saturatingAdd 128 earlier ttlMs)

/-- The request id that a session took. -/
def takenKey (entry : HttpEntry P) : Option (SessionRef × String) :=
  match entry.2.deed with
  | some (.created session call) | some (.checked session call) =>
    call.requestIdKey.map (fun key => (session, key))
  | _ => none

/-- The request id of a request that was dispatched, `initialize` included. -/
def dispatchedKey (entry : HttpEntry P) : Option (SessionRef × String) :=
  match entry.2.deed with
  | some (.created session call) | some (.dispatched session call _) =>
    call.requestIdKey.map (fun key => (session, key))
  | _ => none

/-- The session was opened by an `initialize`, and after that made ready. -/
def OpenedAndMarked (session : SessionRef) (past : List (HttpEntry P)) : Prop :=
  ∃ opening marking, [opening, marking].Sublist past ∧ Creates session opening ∧
    Marks session marking

/-- The session was opened and made ready before the check, and neither lost nor out of time. -/
structure ReadyAt (ttlMs : Nat) (before : List (HttpEntry P)) (check : HttpEntry P)
    (session : SessionRef) : Prop where
  opened : OpenedAndMarked session before
  kept : ∀ entry ∈ before, session ∉ entry.2.removed
  used : (touchTime session check).isSome = true
  timely : Timely ttlMs (touchTimes session (before ++ [check]))

/-- The connection received a request that asks for the task. -/
def Received (parse : String → Except String JsonValue) (past : List (HttpEntry P)) (process : P)
    (task : HttpTask) : Prop :=
  ∃ request, (process, HttpEvent.receive request) ∈ past.map Prod.fst ∧
    routeTask parse request = .ok task

/-- The connection's last deed was to check the call it had received against the session that the
call names. -/
structure CheckedFor (parse : String → Except String JsonValue) (ttlMs : Nat)
    (past : List (HttpEntry P)) (process : P) (session : SessionRef) (call : HttpCall)
    (before later : List (HttpEntry P)) (check : HttpEntry P) : Prop where
  past_eq : past = before ++ check :: later
  process_eq : check.1.1 = process
  deed_eq : check.2.deed = some (.checked session call)
  last : ∀ entry ∈ later, entry.1.1 = process → entry.2.deed = none
  received : Received parse before process (.check call)
  names : Names call.request session.id
  ready : call.method ≠ .ping → ReadyAt ttlMs before check session

end History

/-! ### One more entry -/

section Append

variable {P : Type} {past : List (HttpEntry P)} {entry : HttpEntry P} {session : SessionRef}

theorem touchTimes_append (session : SessionRef) (past : List (HttpEntry P)) (entry : HttpEntry P) :
    touchTimes session (past ++ [entry]) =
      touchTimes session past ++ (touchTime session entry).toList := by
  rw [touchTimes, filterMap_append, touchTimes]
  cases found : touchTime session entry <;> simp [found]

theorem mem_filterMap_append {mark : HttpEntry P → Option (SessionRef × String)}
    {value : SessionRef × String} :
    value ∈ (past ++ [entry]).filterMap mark ↔
      value ∈ past.filterMap mark ∨ mark entry = some value := by
  rw [filterMap_append, mem_append]
  simp

theorem kept_append (kept : ∀ other ∈ past, session ∉ other.2.removed)
    (stays : session ∉ entry.2.removed) : ∀ other ∈ past ++ [entry], session ∉ other.2.removed := by
  intro other member
  rcases mem_append.mp member with earlier | last
  · exact kept other earlier
  · rw [mem_singleton.mp last]
    exact stays

theorem OpenedAndMarked.append (ready : OpenedAndMarked session past) (entry : HttpEntry P) :
    OpenedAndMarked session (past ++ [entry]) := by
  obtain ⟨opening, marking, order, creates, marks⟩ := ready
  exact ⟨opening, marking, order.trans (sublist_append_left past [entry]), creates, marks⟩

/-- The entry that marks an opened session makes it ready. -/
theorem openedAndMarked_of_marks {opening : HttpEntry P} (member : opening ∈ past)
    (creates : Creates session opening) (marks : Marks session entry) :
    OpenedAndMarked session (past ++ [entry]) := by
  have order : ([opening] ++ [entry]).Sublist (past ++ [entry]) :=
    (singleton_sublist.mpr member).append (List.Sublist.refl [entry])
  exact ⟨opening, entry, order, creates, marks⟩

/-- A use within the time of the last one. -/
theorem Timely.use {ttlMs last nowMs : Nat} {times : List Nat}
    (timely : Timely ttlMs (times ++ [last])) (inTime : nowMs < saturatingAdd 128 last ttlMs) :
    Timely ttlMs (times ++ [last] ++ [nowMs]) := by
  apply List.IsChain.append timely (isChain_singleton nowMs)
  intro earlier isLast later isFirst
  rw [List.getLast?_append, List.getLast?_singleton] at isLast
  cases isLast
  cases isFirst
  exact inTime

end Append

/-! ### Sessions in the store -/

/-- An outcome names a session. -/
def HttpOutcome.Mentions (outcome : HttpOutcome) (session : SessionRef) : Prop :=
  session ∈ outcome.removed ∨ outcome.touched = some session ∨
    ∃ deed, outcome.deed = some deed ∧ deed.session = session

section Store

variable {P : Type}

/-- What the past tells of a session in the store. -/
structure LiveSession (ttlMs : Nat) (past : List (HttpEntry P)) (session : SessionRef)
    (stored : McpHttpSession) : Prop where
  opened : ∃ opening ∈ past, Creates session opening
  ready : stored.initialized = true → OpenedAndMarked session past
  kept : ∀ entry ∈ past, session ∉ entry.2.removed
  timely : ∃ times last, touchTimes session past = times ++ [last] ∧
    Timely ttlMs (times ++ [last]) ∧ stored.expiresAtMs = saturatingAdd 128 last ttlMs
  seen : ∀ key, (session, key) ∈ past.filterMap takenKey → key ∈ stored.seenRequestIds

structure StoreFacts (ttlMs : Nat) (past : List (HttpEntry P)) (store : McpHttpSessionStore)
    (creations : String → Nat) : Prop where
  wellFormed : store.WellFormed
  ttlMs_eq : store.ttlMs = ttlMs
  known : ∀ entry ∈ past, ∀ session, entry.2.Mentions session →
    session.incarnation ≤ creations session.id
  live : ∀ sessionId stored, store.get sessionId = some stored →
    LiveSession ttlMs past (refOf creations sessionId) stored

variable {ttlMs : Nat} {past : List (HttpEntry P)} {entry : HttpEntry P} {session : SessionRef}
  {stored : McpHttpSession}

theorem LiveSession.frame (live : LiveSession ttlMs past session stored)
    (stays : session ∉ entry.2.removed) (untouched : entry.2.touched ≠ some session)
    (untaken : ∀ key, takenKey entry ≠ some (session, key)) :
    LiveSession ttlMs (past ++ [entry]) session stored where
  opened := by
    obtain ⟨opening, member, creates⟩ := live.opened
    exact ⟨opening, mem_append_left [entry] member, creates⟩
  ready := fun initialized => (live.ready initialized).append entry
  kept := kept_append live.kept stays
  timely := by
    have still : touchTimes session (past ++ [entry]) = touchTimes session past := by
      rw [touchTimes_append, touchTime, if_neg untouched]
      simp
    rw [still]
    exact live.timely
  seen := by
    intro key taken
    rcases mem_filterMap_append.mp taken with earlier | last
    · exact live.seen key earlier
    · exact absurd last (untaken key)

variable {creations : String → Nat}

theorem refOf_inj {left right : String} :
    refOf creations left = refOf creations right ↔ left = right := by
  simp only [refOf, SessionRef.mk.injEq]
  constructor
  · exact fun same => same.1
  · rintro rfl
    exact ⟨rfl, rfl⟩

variable {store after : McpHttpSessionStore} {creationsAfter : String → Nat}

/-- A session that is in the store afterwards was not lost. -/
theorem not_mem_removedRefs {sessionId : String} (found : after.get sessionId = some stored) :
    refOf creationsAfter sessionId ∉ removedRefs store after creations creationsAfter := by
  intro member
  simp only [removedRefs, List.mem_map, mem_filter] at member
  obtain ⟨other, ⟨_, gone⟩, same⟩ := member
  simp only [refOf, SessionRef.mk.injEq] at same
  obtain ⟨rfl, count⟩ := same
  simp [found, count] at gone

theorem incarnation_of_mem_removedRefs
    (member : session ∈ removedRefs store after creations creationsAfter) :
    session.incarnation = creations session.id := by
  simp only [removedRefs, List.mem_map] at member
  obtain ⟨_, _, rfl⟩ := member
  rfl

/-- Sessions of the past are older than one that is opened now. -/
theorem StoreFacts.not_mentions (facts : StoreFacts ttlMs past store creations)
    (member : entry ∈ past) {sessionId : String} :
    ¬entry.2.Mentions ⟨sessionId, creations sessionId + 1⟩ := by
  intro mentions
  have bound := facts.known entry member _ mentions
  simp only at bound
  omega

theorem mentions_of_takenKey {key : String} (taken : takenKey entry = some (session, key)) :
    entry.2.Mentions session := by
  rw [takenKey] at taken
  split at taken
  case h_3 => cases taken
  all_goals
    rename_i deed
    simp only [map_eq_some_iff, Prod.mk.injEq] at taken
    exact Or.inr (Or.inr ⟨_, deed, taken.choose_spec.2.1⟩)

theorem known_append (known : ∀ other ∈ past, ∀ session, other.2.Mentions session →
      session.incarnation ≤ creations session.id)
    (grows : ∀ sessionId, creations sessionId ≤ creationsAfter sessionId)
    (bounded : ∀ session, entry.2.Mentions session →
      session.incarnation ≤ creationsAfter session.id) :
    ∀ other ∈ past ++ [entry], ∀ session, other.2.Mentions session →
      session.incarnation ≤ creationsAfter session.id := by
  intro other member session mentions
  rcases mem_append.mp member with earlier | last
  · exact (known other earlier session mentions).trans (grows session.id)
  · rw [mem_singleton.mp last] at mentions
    exact bounded session mentions

theorem StoreFacts.shrink (facts : StoreFacts ttlMs past store creations)
    (shrinks : Shrinks store after)
    (lost : ∀ session ∈ entry.2.removed, session ∈ removedRefs store after creations creations)
    (untouched : entry.2.touched = none) (untaken : takenKey entry = none)
    (bounded : ∀ deed, entry.2.deed = some deed →
      deed.session.incarnation ≤ creations deed.session.id) :
    StoreFacts ttlMs (past ++ [entry]) after creations where
  wellFormed := shrinks.wellFormed
  ttlMs_eq := shrinks.ttlMs_eq.trans facts.ttlMs_eq
  known := by
    apply known_append facts.known (fun _ => le_rfl)
    rintro session (removed | touched | ⟨deed, isDeed, rfl⟩)
    · exact (incarnation_of_mem_removedRefs (lost session removed)).le
    · rw [untouched] at touched
      cases touched
    · exact bounded deed isDeed
  live := by
    intro sessionId stored found
    apply (facts.live sessionId stored (shrinks.kept sessionId stored found)).frame
    · exact fun removed => not_mem_removedRefs found (lost _ removed)
    · rw [untouched]
      exact nofun
    · rw [untaken]
      exact nofun

end Store

section Lock

variable {P : Type} {ttlMs : Nat} {past : List (HttpEntry P)} {store : McpHttpSessionStore}
  {creations : String → Nat} {host : HttpHost} {task : HttpTask} {done : CriticalSection}
  {process : P}

def lockEntry (process : P) (host : HttpHost) (store : McpHttpSessionStore)
    (creations : String → Nat) (done : CriticalSection) : HttpEntry P :=
  ((process, .lock host), done.outcome store creations)

theorem not_mem_removed_lockEntry {sessionId : String} {stored : McpHttpSession}
    (found : done.store.get sessionId = some stored) :
    refOf done.creations sessionId ∉ (lockEntry process host store creations done).2.removed :=
  not_mem_removedRefs found

theorem touchTime_lockEntry {session : SessionRef} (touched : done.touched = some session) :
    touchTime session (lockEntry process host store creations done) = some host.nowMs :=
  if_pos touched

section Use

variable {request : HttpRequest} {sessionId : String} {old new : McpHttpSession}
  {session : SessionRef}

section

variable (deed : UseDeed task request session old new done)

include deed

/-- A use takes at most a request id of its own session, and the session has then seen it. -/
theorem UseDeed.seen_of_takenKey {taken : SessionRef × String}
    (isTaken : takenKey (lockEntry process host store creations done) = some taken) :
    taken.1 = session ∧ taken.2 ∈ new.seenRequestIds := by
  simp only [takenKey, lockEntry, CriticalSection.outcome] at isTaken
  cases deed with
  | touch deed_eq =>
    simp only [deed_eq] at isTaken
    cases isTaken
  | mark call task_eq request_eq deed_eq =>
    simp only [deed_eq] at isTaken
    cases isTaken
  | check call task_eq request_eq deed_eq initialized_eq ready fresh =>
    simp only [deed_eq, map_eq_some_iff] at isTaken
    obtain ⟨key, isKey, rfl⟩ := isTaken
    exact ⟨rfl, (fresh key isKey).2⟩

theorem UseDeed.session_of_deed {done' : HttpDeed} (isDeed : done.deed = some done') :
    done'.session = session := by
  cases deed with
  | touch deed_eq =>
    rw [deed_eq] at isDeed
    cases isDeed
  | mark call task_eq request_eq deed_eq =>
    rw [deed_eq] at isDeed
    cases isDeed
    rfl
  | check call task_eq request_eq deed_eq =>
    rw [deed_eq] at isDeed
    cases isDeed
    rfl

theorem UseDeed.dispatchedKey_eq :
    dispatchedKey (lockEntry process host store creations done) = none := by
  simp only [dispatchedKey, lockEntry, CriticalSection.outcome]
  cases deed with
  | touch deed_eq => rw [deed_eq]
  | mark call task_eq request_eq deed_eq => rw [deed_eq]
  | check call task_eq request_eq deed_eq => rw [deed_eq]

end

/-- A session is ready after a use if it was before, or if the use marked it. -/
theorem LiveSession.ready_use (live : LiveSession ttlMs past session old)
    (deed : UseDeed task request session old new done) (valid : task.Valid)
    (names : Names request session.id) (initialized : new.initialized = true) :
    OpenedAndMarked session (past ++ [lockEntry process host store creations done]) := by
  cases deed with
  | touch deed_eq initialized_eq =>
    rw [initialized_eq] at initialized
    exact (live.ready initialized).append _
  | mark call task_eq request_eq deed_eq =>
    obtain ⟨opening, member, creates⟩ := live.opened
    apply openedAndMarked_of_marks member creates
    rw [task_eq] at valid
    rw [request_eq] at names
    exact ⟨call, deed_eq, valid.1, valid.2.1, valid.2.2, names⟩
  | check call task_eq request_eq deed_eq initialized_eq =>
    rw [initialized_eq] at initialized
    exact (live.ready initialized).append _

theorem LiveSession.timely_use (live : LiveSession ttlMs past session old)
    (touched : done.touched = some session) (inTime : host.nowMs < old.expiresAtMs) :
    ∃ times, touchTimes session (past ++ [lockEntry process host store creations done]) =
        times ++ [host.nowMs] ∧ Timely ttlMs (times ++ [host.nowMs]) := by
  obtain ⟨times, last, isTimes, timely, expires⟩ := live.timely
  rw [expires] at inTime
  refine ⟨times ++ [last], ?_, timely.use inTime⟩
  rw [touchTimes_append, touchTime_lockEntry touched, isTimes]
  rfl

variable (uses : Uses store done.store request host.nowMs sessionId old new)
  (creations_eq : done.creations = creations)
  (touched : done.touched = some (refOf creations sessionId))
  (deed : UseDeed task request (refOf creations sessionId) old new done) (valid : task.Valid)

include uses creations_eq touched deed valid

theorem LiveSession.use (live : LiveSession ttlMs past (refOf creations sessionId) old)
    (ttlMs_eq : store.ttlMs = ttlMs) : LiveSession ttlMs (past ++ [lockEntry process host store creations done])
      (refOf creations sessionId) new where
  opened := by
    obtain ⟨opening, member, creates⟩ := live.opened
    exact ⟨opening, mem_append_left _ member, creates⟩
  ready := live.ready_use deed valid uses.found.names
  kept := by
    apply kept_append live.kept
    have stays := @not_mem_removed_lockEntry P store creations host done process sessionId new
      uses.replaces.get_self
    rwa [creations_eq] at stays
  timely := by
    obtain ⟨times, isTimes, timely⟩ := live.timely_use touched uses.found.inTime
    exact ⟨times, host.nowMs, isTimes, timely, by rw [uses.expiresAtMs_eq, ttlMs_eq]⟩
  seen := by
    intro key taken
    rcases mem_filterMap_append.mp taken with earlier | last
    · exact uses.seen (live.seen key earlier)
    · exact (deed.seen_of_takenKey last).2

theorem StoreFacts.use (facts : StoreFacts ttlMs past store creations) :
    StoreFacts ttlMs (past ++ [lockEntry process host store creations done]) done.store
      done.creations where
  wellFormed := uses.replaces.wellFormed
  ttlMs_eq := uses.replaces.ttlMs_eq.trans facts.ttlMs_eq
  known := by
    rw [creations_eq]
    apply known_append facts.known (fun _ => le_rfl)
    rintro session (removed | isTouched | ⟨isDone, isDeed, rfl⟩)
    · exact (incarnation_of_mem_removedRefs removed).le
    · cases touched.symm.trans isTouched
      exact le_rfl
    · rw [deed.session_of_deed isDeed]
      exact le_rfl
  live := by
    rw [creations_eq]
    intro other stored found
    by_cases same : other = sessionId
    · rw [same, uses.replaces.get_self] at found
      cases found
      rw [same]
      exact (facts.live sessionId old uses.found.get_eq).use uses creations_eq touched deed valid
        facts.ttlMs_eq
    · have before : store.get other = some stored := by
        rw [uses.replaces.get_eq, if_neg same] at found
        exact found
      apply (facts.live other stored before).frame
      · have stays := @not_mem_removed_lockEntry P store creations host done process other stored
          found
        rwa [creations_eq] at stays
      · rw [lockEntry, CriticalSection.outcome, touched]
        exact fun isOther => same (refOf_inj.mp (Option.some.inj isOther)).symm
      · intro key taken
        exact same (refOf_inj.mp (deed.seen_of_takenKey taken).1)

end Use

section Open

theorem refOf_update_self (creations : String → Nat) (sessionId : String) (count : Nat) :
    refOf (update creations sessionId count) sessionId = ⟨sessionId, count⟩ := by
  rw [refOf, update_self]

theorem refOf_update_of_ne {creations : String → Nat} {sessionId other : String} {count : Nat}
    (different : other ≠ sessionId) :
    refOf (update creations sessionId count) other = refOf creations other := by
  rw [refOf, update_of_ne different, refOf]

theorem le_update_succ (creations : String → Nat) (sessionId other : String) :
    creations other ≤ update creations sessionId (creations sessionId + 1) other := by
  by_cases same : other = sessionId
  · rw [same, update_self]
    omega
  · rw [update_of_ne same]

variable {call : HttpCall} {sessionId : String} (facts : StoreFacts ttlMs past store creations)
  (valid : (HttpTask.create call).Valid)
  (touched : done.touched = some ⟨sessionId, creations sessionId + 1⟩)
  (deed : done.deed = some (.created ⟨sessionId, creations sessionId + 1⟩ call))
  (response : done.response = some (initializeResponse host call sessionId))

include facts valid touched deed response

/-- What the past tells of a session that was opened in the last entry: nothing before it. -/
theorem StoreFacts.live_opened (stays : ⟨sessionId, creations sessionId + 1⟩ ∉
      (lockEntry process host store creations done).2.removed) :
    LiveSession ttlMs (past ++ [lockEntry process host store creations done])
      ⟨sessionId, creations sessionId + 1⟩
      ((call.newSession sessionId).session host.nowMs store.ttlMs) where
  opened := by
    refine ⟨_, mem_append_right past (mem_singleton_self _), host, call, rfl, deed,
      valid.1, valid.2.1, valid.2.2, response⟩
  ready := nofun
  kept := kept_append
    (fun other member removed => facts.not_mentions member (Or.inl removed)) stays
  timely := by
    have none : touchTimes ⟨sessionId, creations sessionId + 1⟩ past = [] := by
      apply filterMap_eq_nil_iff.mpr
      intro other member
      exact if_neg (fun isTouched => facts.not_mentions member (Or.inr (Or.inl isTouched)))
    refine ⟨[], host.nowMs, ?_, isChain_singleton _, ?_⟩
    · rw [touchTimes_append, touchTime_lockEntry touched, none]
      rfl
    · rw [← facts.ttlMs_eq]
      rfl
  seen := by
    intro key taken
    rcases mem_filterMap_append.mp taken with earlier | last
    · obtain ⟨other, member, isTaken⟩ := mem_filterMap.mp earlier
      exact absurd (mentions_of_takenKey isTaken) (facts.not_mentions member)
    · simp only [takenKey, lockEntry, CriticalSection.outcome, deed, map_eq_some_iff,
        Prod.mk.injEq, true_and] at last
      obtain ⟨_, isKey, rfl⟩ := last
      exact Option.mem_toFinset.mpr isKey

theorem StoreFacts.open {left : McpHttpSessionStore} (shrinks : Shrinks store left)
    (replaces : Replaces left done.store sessionId
      ((call.newSession sessionId).session host.nowMs store.ttlMs))
    (creations_eq : done.creations = update creations sessionId (creations sessionId + 1)) :
    StoreFacts ttlMs (past ++ [lockEntry process host store creations done]) done.store
      done.creations where
  wellFormed := replaces.wellFormed
  ttlMs_eq := (replaces.ttlMs_eq.trans shrinks.ttlMs_eq).trans facts.ttlMs_eq
  known := by
    rw [creations_eq]
    apply known_append facts.known (le_update_succ creations sessionId)
    rintro session (removed | isTouched | ⟨isDone, isDeed, rfl⟩)
    · rw [incarnation_of_mem_removedRefs removed]
      exact le_update_succ creations sessionId session.id
    · cases touched.symm.trans isTouched
      exact (update_self sessionId _ creations).ge
    · cases deed.symm.trans isDeed
      exact (update_self sessionId _ creations).ge
  live := by
    intro other stored found
    have stays := @not_mem_removed_lockEntry P store creations host done process other stored found
    by_cases same : other = sessionId
    · rw [same, replaces.get_self] at found
      cases found
      rw [same, creations_eq, refOf_update_self] at stays ⊢
      exact facts.live_opened valid touched deed response stays
    · have before : store.get other = some stored := by
        rw [replaces.get_eq, if_neg same] at found
        exact shrinks.kept other stored found
      rw [creations_eq, refOf_update_of_ne same] at stays ⊢
      apply (facts.live other stored before).frame stays
      · rw [lockEntry, CriticalSection.outcome, touched]
        exact fun isOther => same (congrArg SessionRef.id (Option.some.inj isOther)).symm
      · intro key taken
        simp only [takenKey, lockEntry, CriticalSection.outcome, deed, map_eq_some_iff,
          Prod.mk.injEq] at taken
        obtain ⟨_, _, isOther, _⟩ := taken
        exact same (congrArg SessionRef.id isOther).symm

end Open

/-- A critical section keeps what is known of the store. -/
theorem StoreFacts.lock (facts : StoreFacts ttlMs past store creations) (valid : task.Valid)
    (effect : SectionEffect store creations host task done) :
    StoreFacts ttlMs (past ++ [lockEntry process host store creations done]) done.store
      done.creations := by
  cases effect with
  | lost shrinks creations_eq touched_eq deed_eq =>
    rw [creations_eq]
    apply facts.shrink shrinks
    · simp only [lockEntry, CriticalSection.outcome, creations_eq]
      exact fun _ removed => removed
    · exact touched_eq
    · simp only [takenKey, lockEntry, CriticalSection.outcome, deed_eq]
    · intro deed isDeed
      cases deed_eq.symm.trans isDeed
  | used request sessionId old new uses creations_eq touched_eq deed =>
    exact facts.use uses creations_eq touched_eq deed valid
  | opened call sessionId left task_eq shrinks replaces creations_eq touched_eq deed_eq
      response_eq =>
      rw [task_eq] at valid
      exact facts.open valid touched_eq deed_eq response_eq shrinks replaces creations_eq

end Lock

end Mcpace.Mcp

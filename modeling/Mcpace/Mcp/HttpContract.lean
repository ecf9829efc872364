import Mcpace.Mcp.HttpHistory
import Mcpace.Mcp.StdioContract

/-!
Contract: over any interleaving of requests, a handler runs only for a session that was opened,
made ready and not lost before its check, and no request id of a session is dispatched twice.

`PhaseFacts` says what the past tells of each connection that is under way. Together with the
facts about the store it is an invariant of every run.
-/

namespace Mcpace.Mcp

open Library Json List Option Function
open Dashboard (HttpRequest)

/-! ### Connections under way -/

section Phases

variable {P : Type} {parse : String → Except String JsonValue} {ttlMs : Nat}

/-- What the past tells of a call that was admitted and waits for its dispatch. -/
structure AdmittedFacts (parse : String → Except String JsonValue) (ttlMs : Nat)
    (past : List (HttpEntry P)) (process : P) (session : SessionRef) (call : HttpCall) : Prop where
  checked : ∃ before later check, CheckedFor parse ttlMs past process session call before later check
  taken : ∀ key, call.requestIdKey = some key → (session, key) ∈ past.filterMap takenKey
  undispatched : ∀ key, call.requestIdKey = some key → (session, key) ∉ past.filterMap dispatchedKey

structure PhaseFacts (parse : String → Except String JsonValue) (ttlMs : Nat)
    (past : List (HttpEntry P)) (phase : P → HttpPhase) : Prop where
  waiting : ∀ process task, phase process = .waiting task → Received parse past process task
  admitted : ∀ process session view call, phase process = .admitted session view call →
    AdmittedFacts parse ttlMs past process session call
  distinct : ∀ left right session view view' call call' key,
    phase left = .admitted session view call → phase right = .admitted session view' call' →
    call.requestIdKey = some key → call'.requestIdKey = some key → left = right
  answered : ∀ value ∈ past.filterMap dispatchedKey, value ∈ past.filterMap takenKey

variable {past : List (HttpEntry P)} {entry : HttpEntry P} {process : P} {session : SessionRef}
  {call : HttpCall} {phase after : P → HttpPhase} {task : HttpTask}

theorem Received.append (received : Received parse past process task) (entry : HttpEntry P) :
    Received parse (past ++ [entry]) process task := by
  obtain ⟨request, member, isTask⟩ := received
  refine ⟨request, ?_, isTask⟩
  rw [map_append]
  exact mem_append_left _ member

/-- An entry that is neither the connection's own deed nor a dispatch of the same id. -/
theorem AdmittedFacts.frame (facts : AdmittedFacts parse ttlMs past process session call)
    (silent : entry.1.1 = process → entry.2.deed = none)
    (other : ∀ key, call.requestIdKey = some key → dispatchedKey entry ≠ some (session, key)) :
    AdmittedFacts parse ttlMs (past ++ [entry]) process session call where
  checked := by
    obtain ⟨before, later, check, checked⟩ := facts.checked
    refine ⟨before, later ++ [entry], check, ?_, checked.process_eq, checked.deed_eq, ?_,
      checked.received, checked.names, checked.ready⟩
    · rw [checked.past_eq]
      simp
    · intro further member
      rcases mem_append.mp member with earlier | last
      · exact checked.last further earlier
      · rw [mem_singleton.mp last]
        exact silent
  taken := fun key isKey => mem_filterMap_append.mpr (Or.inl (facts.taken key isKey))
  undispatched := by
    intro key isKey dispatched
    rcases mem_filterMap_append.mp dispatched with earlier | last
    · exact facts.undispatched key isKey earlier
    · exact other key isKey last

theorem answered_append
    (answered : ∀ value ∈ past.filterMap dispatchedKey, value ∈ past.filterMap takenKey)
    (last : ∀ value, dispatchedKey entry = some value →
      value ∈ past.filterMap takenKey ∨ takenKey entry = some value) :
    ∀ value ∈ (past ++ [entry]).filterMap dispatchedKey,
      value ∈ (past ++ [entry]).filterMap takenKey := by
  intro value member
  apply mem_filterMap_append.mpr
  rcases mem_filterMap_append.mp member with earlier | isLast
  · exact Or.inl (answered value earlier)
  · exact last value isLast

/-- Connections go on or become idle. -/
theorem PhaseFacts.frame (facts : PhaseFacts parse ttlMs past phase)
    (still : ∀ process, after process = phase process ∨ after process = .idle)
    (apart : ∀ process session view call, after process = .admitted session view call →
      (entry.1.1 = process → entry.2.deed = none) ∧
        ∀ key, call.requestIdKey = some key → dispatchedKey entry ≠ some (session, key))
    (last : ∀ value, dispatchedKey entry = some value →
      value ∈ past.filterMap takenKey ∨ takenKey entry = some value) :
    PhaseFacts parse ttlMs (past ++ [entry]) after := by
  have before : ∀ process, after process ≠ .idle → after process = phase process := by
    intro process busy
    exact (still process).resolve_right busy
  refine ⟨?_, ?_, ?_, answered_append facts.answered last⟩
  · intro process task isWaiting
    have same := before process (by rw [isWaiting]; simp)
    exact (facts.waiting process task (same ▸ isWaiting)).append entry
  · intro process session view call isAdmitted
    have same := before process (by rw [isAdmitted]; simp)
    obtain ⟨silent, other⟩ := apart process session view call isAdmitted
    exact (facts.admitted process session view call (same ▸ isAdmitted)).frame silent other
  · intro left right session view view' call call' key isLeft isRight
    have sameLeft := before left (by rw [isLeft]; simp)
    have sameRight := before right (by rw [isRight]; simp)
    exact facts.distinct left right session view view' call call' key (sameLeft ▸ isLeft)
      (sameRight ▸ isRight)

/-- A step that does nothing that the contract is about. -/
theorem PhaseFacts.quiet (facts : PhaseFacts parse ttlMs past phase) (deed : entry.2.deed = none)
    (still : ∀ process, after process = phase process ∨ after process = .idle) :
    PhaseFacts parse ttlMs (past ++ [entry]) after := by
  have undispatched : dispatchedKey entry = none := by rw [dispatchedKey, deed]
  apply facts.frame still
  · intro _ _ _ _ _
    refine ⟨fun _ => deed, ?_⟩
    simp [undispatched]
  · intro value isValue
    rw [undispatched] at isValue
    cases isValue

end Phases

section PhaseSteps

variable {P : Type} [DecidableEq P] {parse : String → Except String JsonValue} {ttlMs : Nat}
  {past : List (HttpEntry P)} {phase : P → HttpPhase} {process : P}

theorem update_idle_cases (phase : P → HttpPhase) (process other : P) :
    update phase process .idle other = phase other ∨ update phase process .idle other = .idle := by
  by_cases same : other = process
  · exact Or.inr (by rw [same, update_self])
  · exact Or.inl (update_of_ne same _ _)

variable {session : SessionRef} {view : McpHttpSessionView} {call : HttpCall}

theorem ne_of_update_idle {other : P}
    (isAdmitted : update phase process .idle other = .admitted session view call) :
    other ≠ process := by
  rintro rfl
  rw [update_self] at isAdmitted
  cases isAdmitted

variable {entry : HttpEntry P}

/-- The connection becomes idle, and if it dispatched an id then a new one. -/
theorem PhaseFacts.settle (facts : PhaseFacts parse ttlMs past phase)
    (isProcess : entry.1.1 = process)
    (fresh : ∀ value, dispatchedKey entry = some value →
      takenKey entry = some value ∧ value ∉ past.filterMap takenKey) :
    PhaseFacts parse ttlMs (past ++ [entry]) (update phase process .idle) := by
  apply facts.frame (update_idle_cases phase process)
  · intro other session view call isAdmitted
    have different := ne_of_update_idle isAdmitted
    rw [update_of_ne different] at isAdmitted
    refine ⟨fun isOther => absurd (isOther.symm.trans isProcess) different, ?_⟩
    intro key isKey dispatched
    exact (fresh _ dispatched).2
      ((facts.admitted other session view call isAdmitted).taken key isKey)
  · exact fun value dispatched => Or.inr (fresh value dispatched).1

/-- An idle connection takes up a task, or is admitted with an id that no other waits with. -/
theorem PhaseFacts.occupy {now : HttpPhase}
    (facts : PhaseFacts parse ttlMs past (update phase process .idle))
    (waiting : ∀ task, now = .waiting task → Received parse past process task)
    (admitted : ∀ session view call, now = .admitted session view call →
      AdmittedFacts parse ttlMs past process session call ∧
        ∀ other view' call' key, update phase process .idle other = .admitted session view' call' →
          call.requestIdKey = some key → call'.requestIdKey ≠ some key) :
    PhaseFacts parse ttlMs past (update phase process now) := by
  have others : ∀ other, other ≠ process →
      update phase process now other = update phase process .idle other := by
    intro other different
    rw [update_of_ne different, update_of_ne different]
  refine ⟨?_, ?_, ?_, facts.answered⟩
  · intro other task isWaiting
    by_cases same : other = process
    · rw [same, update_self] at isWaiting
      rw [same]
      exact waiting task isWaiting
    · rw [others other same] at isWaiting
      exact facts.waiting other task isWaiting
  · intro other session view call isAdmitted
    by_cases same : other = process
    · rw [same, update_self] at isAdmitted
      rw [same]
      exact (admitted session view call isAdmitted).1
    · rw [others other same] at isAdmitted
      exact facts.admitted other session view call isAdmitted
  · intro left right session view view' call call' key isLeft isRight leftKey rightKey
    by_cases sameLeft : left = process <;> by_cases sameRight : right = process
    · rw [sameLeft, sameRight]
    · rw [sameLeft, update_self] at isLeft
      rw [others right sameRight] at isRight
      exact absurd rightKey ((admitted session view call isLeft).2 right view' call' key isRight
        leftKey)
    · rw [others left sameLeft] at isLeft
      rw [sameRight, update_self] at isRight
      exact absurd leftKey ((admitted session view' call' isRight).2 left view call key isLeft
        rightKey)
    · rw [others left sameLeft] at isLeft
      rw [others right sameRight] at isRight
      exact facts.distinct left right session view view' call call' key isLeft isRight leftKey
        rightKey

section Lock

variable {store : McpHttpSessionStore} {creations : String → Nat} {host : HttpHost}
  {task : HttpTask} {done : CriticalSection}

/-- A call whose check passed: its session was ready and had not seen its id. -/
theorem PhaseFacts.admitted_check (facts : PhaseFacts parse ttlMs past phase) {sessionId : String}
    {old : McpHttpSession} {call : HttpCall} {view : McpHttpSessionView}
    (live : LiveSession ttlMs past (refOf creations sessionId) old)
    (isWaiting : phase process = .waiting (.check call))
    (found : Found store call.request host.nowMs sessionId old)
    (touched : done.touched = some (refOf creations sessionId))
    (deed : done.deed = some (.checked (refOf creations sessionId) call))
    (ready : call.method ≠ .ping → old.initialized = true)
    (fresh : ∀ key, call.requestIdKey = some key → key ∉ old.seenRequestIds) :
    PhaseFacts parse ttlMs (past ++ [lockEntry process host store creations done])
      (update phase process (.admitted (refOf creations sessionId) view call)) := by
  have undispatched : dispatchedKey (lockEntry process host store creations done) = none := by
    simp only [dispatchedKey, lockEntry, CriticalSection.outcome, deed]
  have untaken : ∀ key, call.requestIdKey = some key →
      (refOf creations sessionId, key) ∉ past.filterMap takenKey :=
    fun key isKey taken => fresh key isKey (live.seen key taken)
  have settled : PhaseFacts parse ttlMs (past ++ [lockEntry process host store creations done])
      (update phase process .idle) := by
    apply facts.settle rfl
    simp [undispatched]
  refine settled.occupy (fun _ isTask => by cases isTask) ?_
  intro session view call isAdmitted
  cases isAdmitted
  refine ⟨⟨⟨past, [], _, rfl, rfl, deed, ?_, facts.waiting process _ isWaiting, found.names,
    ?_⟩, ?_, ?_⟩, ?_⟩
  · exact fun _ member => absurd member not_mem_nil
  · intro notPing
    obtain ⟨times, isTimes, timely⟩ := live.timely_use touched found.inTime
    refine ⟨live.ready (ready notPing), live.kept, ?_, ?_⟩
    · rw [touchTime_lockEntry touched]
      rfl
    · rw [isTimes]
      exact timely
  · intro key isKey
    apply mem_filterMap_append.mpr
    simp only [takenKey, lockEntry, CriticalSection.outcome, deed, isKey, map_some, or_true]
  · intro key isKey dispatched
    rcases mem_filterMap_append.mp dispatched with earlier | last
    · exact untaken key isKey (facts.answered _ earlier)
    · rw [undispatched] at last
      cases last
  · -- An id that is new to the session is not the one of a call admitted before.
    intro other view' call' key isAdmitted isKey isKey'
    rw [update_of_ne (ne_of_update_idle isAdmitted)] at isAdmitted
    exact untaken key isKey ((facts.admitted other _ view' call' isAdmitted).taken key isKey')

/-- A critical section keeps what is known of the connections. -/
theorem PhaseFacts.lock (facts : PhaseFacts parse ttlMs past phase)
    (storeFacts : StoreFacts ttlMs past store creations) (isWaiting : phase process = .waiting task)
    (effect : SectionEffect store creations host task done) :
    PhaseFacts parse ttlMs (past ++ [lockEntry process host store creations done])
      (update phase process done.phase) := by
  cases effect with
  | lost shrinks creations_eq touched_eq deed_eq phase_eq =>
    rw [phase_eq]
    exact facts.quiet deed_eq (update_idle_cases phase process)
  | used request sessionId old new uses creations_eq touched_eq deed =>
    have idle : done.phase = .idle → PhaseFacts parse ttlMs
        (past ++ [lockEntry process host store creations done])
        (update phase process done.phase) := by
      intro isIdle
      rw [isIdle]
      apply facts.settle rfl
      intro value dispatched
      rw [deed.dispatchedKey_eq] at dispatched
      cases dispatched
    cases deed with
    | touch _ _ phase_eq => exact idle phase_eq
    | mark _ _ _ _ phase_eq => exact idle phase_eq
    | check call task_eq request_eq deed_eq _ ready fresh phase_cases =>
      rcases phase_cases with phase_eq | ⟨view, phase_eq⟩
      · exact idle phase_eq
      · rw [phase_eq]
        have found := uses.found
        rw [request_eq] at found
        exact facts.admitted_check (storeFacts.live sessionId old found.get_eq) (task_eq ▸ isWaiting)
          found touched_eq deed_eq ready (fun key isKey => (fresh key isKey).1)
  | opened call sessionId left task_eq shrinks replaces creations_eq touched_eq deed_eq
      response_eq phase_eq =>
      rw [phase_eq]
      apply facts.settle rfl
      intro value dispatched
      simp only [dispatchedKey, lockEntry, CriticalSection.outcome, deed_eq] at dispatched
      refine ⟨?_, ?_⟩
      · simp only [takenKey, lockEntry, CriticalSection.outcome, deed_eq]
        exact dispatched
      · intro taken
        obtain ⟨key, _, rfl⟩ := map_eq_some_iff.mp dispatched
        obtain ⟨other, member, isTaken⟩ := mem_filterMap.mp taken
        exact storeFacts.not_mentions member (mentions_of_takenKey isTaken)

end Lock

/-- A dispatch: the id was taken at the check, and no other connection waits with it. -/
theorem PhaseFacts.dispatch (facts : PhaseFacts parse ttlMs past phase)
    {handler : Option HandlerCall} (isAdmitted : phase process = .admitted session view call)
    (isProcess : entry.1.1 = process)
    (deed : entry.2.deed = some (.dispatched session call handler)) :
    PhaseFacts parse ttlMs (past ++ [entry]) (update phase process .idle) := by
  have isKey : ∀ value, dispatchedKey entry = some value →
      value.1 = session ∧ call.requestIdKey = some value.2 := by
    intro value dispatched
    simp only [dispatchedKey, deed] at dispatched
    obtain ⟨key, found, rfl⟩ := map_eq_some_iff.mp dispatched
    exact ⟨rfl, found⟩
  apply facts.frame (update_idle_cases phase process)
  · intro other session' view' call' waits
    have different := ne_of_update_idle waits
    rw [update_of_ne different] at waits
    refine ⟨fun isOther => absurd (isOther.symm.trans isProcess) different, ?_⟩
    intro key isKey' dispatched
    obtain ⟨same, found⟩ := isKey _ dispatched
    rw [show session' = session from same] at waits
    exact different (facts.distinct other process session view' view call' call key waits
      isAdmitted isKey' found)
  · intro value dispatched
    obtain ⟨same, found⟩ := isKey value dispatched
    have taken := (facts.admitted process session view call isAdmitted).taken value.2 found
    rw [← same] at taken
    exact Or.inl taken

theorem PhaseFacts.receive (facts : PhaseFacts parse ttlMs past phase) {request : HttpRequest}
    {task : HttpTask} {outcome : HttpOutcome} (isTask : routeTask parse request = .ok task)
    (deed : outcome.deed = none) :
    PhaseFacts parse ttlMs (past ++ [((process, .receive request), outcome)])
      (update phase process (.waiting task)) := by
  -- Up to the new task the connection might as well be idle.
  apply PhaseFacts.occupy (facts.quiet deed (update_idle_cases phase process))
  · intro found isFound
    cases isFound
    refine ⟨request, ?_, isTask⟩
    simp
  · exact nofun

end PhaseSteps

/-! ### Runs -/

section Runs

variable {P : Type} {parse : String → Except String JsonValue} {ttlMs : Nat}
  {past : List (HttpEntry P)} {world : HttpWorld P} {process : P}

structure HttpInvariant (parse : String → Except String JsonValue) (ttlMs : Nat)
    (past : List (HttpEntry P)) (world : HttpWorld P) : Prop where
  store : StoreFacts ttlMs past world.store world.creations
  phases : PhaseFacts parse ttlMs past world.phase

variable {entry : HttpEntry P}

theorem StoreFacts.still {store : McpHttpSessionStore} {creations : String → Nat}
    (facts : StoreFacts ttlMs past store creations) (removed : entry.2.removed = [])
    (touched : entry.2.touched = none) (untaken : takenKey entry = none)
    (bounded : ∀ deed, entry.2.deed = some deed →
      deed.session.incarnation ≤ creations deed.session.id) :
    StoreFacts ttlMs (past ++ [entry]) store creations := by
  apply facts.shrink (Shrinks.refl facts.wellFormed) ?_ touched untaken bounded
  rw [removed]
  exact nofun

theorem HttpInvariant.silent (invariant : HttpInvariant parse ttlMs past world)
    (action : P × HttpEvent) (response : Option McpHttpResponse) :
    HttpInvariant parse ttlMs (past ++ [(action, { HttpOutcome.silent with response := response })])
      world where
  store := invariant.store.still rfl rfl rfl nofun
  phases := invariant.phases.quiet rfl (fun _ => Or.inl rfl)

theorem HttpInvariant.overview (invariant : HttpInvariant parse ttlMs past world) (nowMs : Nat) :
    HttpInvariant parse ttlMs
      (past ++ [((process, .overview nowMs), (overviewStep world nowMs).1)])
      (overviewStep world nowMs).2 where
  store := by
    apply invariant.store.shrink (shrinks_pruneExpired invariant.store.wellFormed nowMs)
    · exact fun _ removed => removed
    · rfl
    · rfl
    · exact nofun
  phases := invariant.phases.quiet rfl (fun _ => Or.inl rfl)

theorem httpInvariant_start (parse : String → Except String JsonValue) (maxSessions ttlMs : Nat) :
    HttpInvariant parse (McpHttpSessionStore.new maxSessions ttlMs).ttlMs []
      (httpStart P maxSessions ttlMs) where
  store := by
    refine ⟨McpHttpSessionStore.wellFormed_new maxSessions ttlMs, rfl, ?_, ?_⟩
    · exact fun _ member => absurd member not_mem_nil
    · exact nofun
  phases := by
    refine ⟨?_, ?_, ?_, ?_⟩
    · exact nofun
    · exact nofun
    · exact fun _ _ _ _ _ _ _ _ isAdmitted => by cases isAdmitted
    · exact nofun

/-- Where a deed comes from: a session is opened under a new reference, and a dispatch is for an
admitted call. -/
def HttpDeed.Origin (world : HttpWorld P) (process : P) : HttpDeed → Prop
  | .created session _ => session.incarnation = world.creations session.id + 1
  | .marked _ _ | .checked _ _ => True
  | .dispatched session call handler => ∃ view adapter,
      world.phase process = .admitted session view call ∧
        (dispatchCall adapter call view).2 = handler

variable {deed : HttpDeed}

theorem SectionEffect.origin {host : HttpHost} {task : HttpTask} {done : CriticalSection}
    (effect : SectionEffect world.store world.creations host task done)
    (isDeed : done.deed = some deed) : deed.Origin world process := by
  cases effect with
  | lost shrinks creations_eq touched_eq deed_eq =>
    rw [deed_eq] at isDeed
    cases isDeed
  | used request sessionId old new uses creations_eq touched_eq used =>
    cases used with
    | touch deed_eq =>
      rw [deed_eq] at isDeed
      cases isDeed
    | mark call task_eq request_eq deed_eq =>
      rw [deed_eq] at isDeed
      cases isDeed
      trivial
    | check call task_eq request_eq deed_eq =>
      rw [deed_eq] at isDeed
      cases isDeed
      trivial
  | opened call sessionId left task_eq shrinks replaces creations_eq touched_eq deed_eq =>
    rw [deed_eq] at isDeed
    cases isDeed
    rfl

variable [DecidableEq P]

section

variable (invariant : HttpInvariant parse ttlMs past world)

include invariant

theorem HttpInvariant.receive (request : HttpRequest) : HttpInvariant parse ttlMs
      (past ++ [((process, .receive request), (receiveStep parse world process request).1)])
      (receiveStep parse world process request).2 := by
  rw [receiveStep]
  split
  · split
    · exact invariant.silent _ _
    · rename_i task isTask
      exact ⟨invariant.store.still rfl rfl rfl nofun, invariant.phases.receive isTask rfl⟩
  · exact invariant.silent _ none

theorem HttpInvariant.lock (host : HttpHost) : HttpInvariant parse ttlMs
      (past ++ [((process, .lock host), (lockStep world process host).1)])
      (lockStep world process host).2 := by
  rw [lockStep]
  split
  · rename_i task isWaiting
    obtain ⟨_, _, isTask⟩ := invariant.phases.waiting process task isWaiting
    have effect := run_effect invariant.store.wellFormed world.creations host task
    exact ⟨invariant.store.lock (valid_routeTask isTask) effect,
      invariant.phases.lock invariant.store isWaiting effect⟩
  · exact invariant.silent _ none

theorem HttpInvariant.dispatch (adapter : HttpAdapter) : HttpInvariant parse ttlMs
      (past ++ [((process, .dispatch adapter), (dispatchStep world process adapter).1)])
      (dispatchStep world process adapter).2 := by
  rw [dispatchStep]
  split
  · rename_i session view call isAdmitted
    refine ⟨invariant.store.still rfl rfl rfl ?_, invariant.phases.dispatch isAdmitted rfl rfl⟩
    intro deed isDeed
    cases isDeed
    obtain ⟨before, later, check, checked⟩ :=
      (invariant.phases.admitted process session view call isAdmitted).checked
    have member : check ∈ past := by
      rw [checked.past_eq]
      simp
    exact invariant.store.known check member session (Or.inr (Or.inr ⟨_, checked.deed_eq, rfl⟩))
  · exact invariant.silent _ none

theorem HttpInvariant.step (action : P × HttpEvent) :
    HttpInvariant parse ttlMs (past ++ [(action, (httpStep parse world action).1)])
      (httpStep parse world action).2 := by
  obtain ⟨process, event⟩ := action
  cases event with
  | receive request => exact invariant.receive request
  | lock host => exact invariant.lock host
  | dispatch adapter => exact invariant.dispatch adapter
  | overview nowMs => exact invariant.overview nowMs

end

/-- Every entry of a run was made in a world of which the invariant holds. -/
theorem httpRun_entry {maxSessions : Nat} {actions : List (P × HttpEvent)}
    {rest : List (HttpEntry P)}
    (split : httpRun parse maxSessions ttlMs actions = past ++ entry :: rest) :
    ∃ world, HttpInvariant parse (McpHttpSessionStore.new maxSessions ttlMs).ttlMs past world ∧
      (httpStep parse world entry.1).1 = entry.2 := by
  apply Trace.Invariant.of_entry ?_ split
  refine ⟨httpInvariant_start parse maxSessions ttlMs, ?_⟩
  intro past world action next invariant moved
  cases moved
  exact invariant.step action

theorem origin_of_httpStep {action : P × HttpEvent} (wellFormed : world.store.WellFormed)
    (isDeed : (httpStep parse world action).1.deed = some deed) : deed.Origin world action.1 := by
  obtain ⟨process, event⟩ := action
  cases event with
  | receive request =>
    simp only [httpStep, receiveStep] at isDeed
    split at isDeed
    · split at isDeed <;> cases isDeed
    · cases isDeed
  | lock host =>
    simp only [httpStep, lockStep] at isDeed
    split at isDeed
    · rename_i task _
      exact (run_effect wellFormed world.creations host task).origin isDeed
    · cases isDeed
  | dispatch adapter =>
    simp only [httpStep, dispatchStep] at isDeed
    split at isDeed
    · rename_i session view call isAdmitted
      cases isDeed
      exact ⟨view, adapter, isAdmitted, rfl⟩
    · cases isDeed
  | overview nowMs => cases isDeed

theorem HttpInvariant.not_mem_dispatched (invariant : HttpInvariant parse ttlMs past world)
    (made : (httpStep parse world entry.1).1 = entry.2) {value : SessionRef × String}
    (dispatched : dispatchedKey entry = some value) : value ∉ past.filterMap dispatchedKey := by
  rw [dispatchedKey] at dispatched
  split at dispatched
  · rename_i session call isDeed
    rw [← made] at isDeed
    have origin := origin_of_httpStep invariant.store.wellFormed isDeed
    obtain ⟨key, _, rfl⟩ := map_eq_some_iff.mp dispatched
    intro earlier
    obtain ⟨other, member, taken⟩ :=
      mem_filterMap.mp (invariant.phases.answered _ earlier)
    have bound := invariant.store.known other member session (mentions_of_takenKey taken)
    rw [origin] at bound
    omega
  · rename_i session call handler isDeed
    rw [← made] at isDeed
    obtain ⟨view, _, isAdmitted, _⟩ := origin_of_httpStep invariant.store.wellFormed isDeed
    obtain ⟨key, isKey, rfl⟩ := map_eq_some_iff.mp dispatched
    exact (invariant.phases.admitted _ session view call isAdmitted).undispatched key isKey
  · cases dispatched

end Runs

/-! ### Contract -/

/-- A handler runs only for a call that its connection received and checked; the session that the
call names had been opened and made ready before the check, and was neither lost nor out of time.
The ids of the requests that were dispatched for one session are distinct. -/
theorem http_contract {P : Type} [DecidableEq P] (parse : String → Except String JsonValue)
    (maxSessions ttlMs : Nat) (actions : List (P × HttpEvent)) :
    (∀ past entry rest session call handler,
      httpRun parse maxSessions ttlMs actions = past ++ entry :: rest →
      entry.2.deed = some (.dispatched session call (some handler)) →
      ∃ before later check,
        CheckedFor parse (McpHttpSessionStore.new maxSessions ttlMs).ttlMs past entry.1.1 session
          call before later check ∧
        ReadyAt (McpHttpSessionStore.new maxSessions ttlMs).ttlMs before check session) ∧
      ((httpRun parse maxSessions ttlMs actions).filterMap dispatchedKey).Nodup := by
  constructor
  · intro past entry rest session call handler split isDeed
    obtain ⟨world, invariant, made⟩ := httpRun_entry split
    rw [← made] at isDeed
    obtain ⟨view, adapter, isAdmitted, ran⟩ :=
      origin_of_httpStep invariant.store.wellFormed isDeed
    obtain ⟨before, later, check, checked⟩ :=
      (invariant.phases.admitted entry.1.1 session view call isAdmitted).checked
    exact ⟨before, later, check, checked, checked.ready (handler_dispatchCall ran)⟩
  · apply Trace.nodup_filterMap
    intro past entry rest split value dispatched
    obtain ⟨world, invariant, made⟩ := httpRun_entry split
    exact invariant.not_mem_dispatched made dispatched

/-! ### A handshake over two connections -/

def postRequest (body : String) (sessionHeader : List (String × String)) : HttpRequest where
  method := "POST"
  path := "/mcp"
  query := ""
  headers := [("accept", "application/json, text/event-stream"),
    ("content-type", "application/json")] ++ sessionHeader
  body := Utf8.encode body.toList

def hostAt (nowMs : Nat) : HttpHost where
  nowMs := nowMs
  rank := fun _ => 0
  randomSessionId := .ok "s"
  capabilities := .object []
  instructions := ""
  version := "0"

def emptyHttpAdapter : HttpAdapter where
  toolListResult := fun _ _ => .object []
  listPrompts := fun _ => .object []
  getPrompt := fun _ _ => .error "unknown prompt"
  listResources := fun _ => .object []
  listResourceTemplates := fun _ => .object []
  readResource := fun _ => .error "unknown resource"
  toolNames := []
  resultOptions := fun _ _ => .ok ()
  runHttpTool := fun _ _ => .object []

/-- One connection opens the session and lists the tools, the other makes it ready and repeats the
request under the same id. -/
def httpHandshake : List (Bool × HttpEvent) :=
  [(false, .receive (postRequest openLine [])), (false, .lock (hostAt 0)),
    (true, .receive (postRequest readyLine [("mcp-session-id", "s")])), (true, .lock (hostAt 1)),
    (false, .receive (postRequest listLine [("mcp-session-id", "s")])),
    (true, .receive (postRequest listLine [("mcp-session-id", "s")])),
    (false, .lock (hostAt 2)), (true, .lock (hostAt 2)),
    (true, .dispatch emptyHttpAdapter), (false, .dispatch emptyHttpAdapter)]

def HttpOutcome.handled (outcome : HttpOutcome) : Option (SessionRef × HandlerCall) :=
  match outcome.deed with
  | some (.dispatched session _ (some handler)) => some (session, handler)
  | _ => none

theorem deed_of_handled {outcome : HttpOutcome} {session : SessionRef} {handler : HandlerCall}
    (handled : outcome.handled = some (session, handler)) :
    ∃ call, outcome.deed = some (.dispatched session call (some handler)) := by
  rw [HttpOutcome.handled] at handled
  split at handled
  · rename_i isSession call isHandler isDeed
    cases handled
    exact ⟨call, isDeed⟩
  · cases handled

/-- The tools are listed once, for the session that was opened and made ready before. -/
theorem http_contract_handshake :
    (httpRun handshakeParse 8 60000 httpHandshake).map (fun entry => entry.2.handled) =
        List.replicate 9 none ++ [some (⟨"s", 1⟩, .toolListResult none)] ∧
      ((httpRun handshakeParse 8 60000 httpHandshake).filterMap dispatchedKey).Nodup ∧
      ∃ before check, before <+: httpRun handshakeParse 8 60000 httpHandshake ∧
        ReadyAt 60000 before check ⟨"s", 1⟩ := by
  have handled : (httpRun handshakeParse 8 60000 httpHandshake).map (fun entry => entry.2.handled) =
        List.replicate 9 none ++ [some (⟨"s", 1⟩, .toolListResult none)] := by
    decide +kernel
  obtain ⟨checked, distinct⟩ := http_contract handshakeParse 8 60000 httpHandshake
  refine ⟨handled, distinct, ?_⟩
  have last := congrArg (fun outcomes => outcomes[9]?) handled
  simp only [List.getElem?_map] at last
  obtain ⟨entry, isEntry, isHandled⟩ := map_eq_some_iff.mp last
  obtain ⟨past, rest, split⟩ := append_of_mem (List.mem_of_getElem? isEntry)
  obtain ⟨call, isDeed⟩ := deed_of_handled isHandled
  obtain ⟨before, later, check, isChecked, ready⟩ :=
    checked past entry rest _ call _ split isDeed
  refine ⟨before, check, ?_, ready⟩
  rw [split, isChecked.past_eq, List.append_assoc]
  exact prefix_append before _

end Mcpace.Mcp

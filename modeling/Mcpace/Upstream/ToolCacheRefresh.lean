import Mcpace.Upstream.ToolCacheFreshness

/-!
Contract: what a refreshing call of the tool cache returns.

A refreshing call does not look into the caches first. If a load of its key is in flight in its
process it waits for that load and then looks, whatever became of the load: a load that failed, or
that had its list before the call began, leaves it with an older list.

`Renewing` says of each step what it takes for the waiting to be as good as a load of one's own.
-/

namespace Mcpace.Upstream.ToolCache

open Library Json Interleaving List Option

/-! ### The condition -/

/-- The list a deed put into the memory of the process under the key. -/
def Deed.inMemory (home : Nat) (key : ToolListCacheKey) : Deed → Option Receipt
  | .remembered other wanted receipt => if other = home ∧ wanted = key then some receipt else none
  | _ => none

/-- The list a deed wrote into the file. -/
def Deed.inFile (path : CachePath) : Deed → Option Receipt
  | .wrote other receipt => if other = path then some receipt else none
  | _ => none

/-- The list of a load of the key in the process that succeeded and gave its permit back. -/
def Deed.finished (home : Nat) (key : ToolListCacheKey) : Deed → Option Receipt
  | .released other wanted outcome => if other = home ∧ wanted = key then outcome else none
  | _ => none

/-- The refreshing call that a step wakes up. -/
def wokenCall : Phase → Event → Option Call
  | .waiting call, .proceed => if call.refresh then some call else none
  | _, _ => none

/-- The refreshing call that reads a file in a step. -/
def readingCall : Phase → Event → Option Call
  | .readingFile call, .proceed => if call.refresh then some call else none
  | _, _ => none

section Condition

variable (setting : Setting) (shared : Shared) (thread : Thread) (event : Event)

/-- A refreshing call that waited goes on only when a load of its process received a list after
the call began, and finished. -/
def WaitsForArrival : Prop :=
  ∀ call ∈ wokenCall thread.phase event, ∃ deed ∈ shared.history,
    ∃ receipt ∈ deed.finished thread.home call.key, call.began ≤ receipt.index

/-- Nothing is put into memory after a list that was received later. -/
def RemembersInOrder : Prop :=
  ∀ stored ∈ storedEntry shared.now thread.phase event, ∀ deed ∈ shared.history,
    ∀ receipt ∈ deed.inMemory thread.home stored.1, receipt.index ≤ stored.2.receipt.index

/-- Nothing is written to a file after a list that was received later. -/
def WritesInOrder : Prop :=
  ∀ written ∈ writtenFile setting thread.home thread.phase event, ∀ deed ∈ shared.history,
    ∀ receipt ∈ deed.inFile written.1, receipt.index ≤ written.2.receipt.index

/-- A refreshing call that does not find its list in memory reads a file only when a list received
after the call began was written to it. -/
def ReadsWritten : Prop :=
  ∀ call ∈ readingCall thread.phase event, ∃ deed ∈ shared.history,
    ∃ receipt ∈ deed.inFile (setting.cachePath thread.home call.key), call.began ≤ receipt.index

end Condition

def Renewing (setting : Setting) {T : Type} (world : CacheWorld T) (action : T × Event)
    (_next : CacheWorld T) : Prop :=
  Attributed setting world action ∧ WaitsForArrival world.shared (world.process action.1) action.2 ∧
    RemembersInOrder world.shared (world.process action.1) action.2 ∧
    WritesInOrder setting world.shared (world.process action.1) action.2 ∧
    ReadsWritten setting world.shared (world.process action.1) action.2

/-! ### Order of arrival -/

/-- A load of the process stored a list that was received after the call began. -/
def Renewed (home : Nat) (history : List Deed) (call : Call) : Prop :=
  ∃ receipt, call.began ≤ receipt.index ∧ .remembered home call.key receipt ∈ history

structure OrderFacts (shared : Shared) : Prop where
  memory : ∀ home key entry, OrderedMap.get key (shared.memory home) = some entry →
    ∀ receipt, .remembered home key receipt ∈ shared.history → receipt.index ≤ entry.receipt.index
  disk : ∀ path file, shared.disk path = some file →
    ∀ receipt, .wrote path receipt ∈ shared.history → receipt.index ≤ file.receipt.index
  released : ∀ home key receipt, .released home key (some receipt) ∈ shared.history →
    .remembered home key receipt ∈ shared.history

/-- A refreshing call holds nothing that was received before it began. -/
def Phase.Renewing (home : Nat) (history : List Deed) : Phase → Prop
  | .looking call =>
    call.began ≤ history.length ∧ (call.refresh = true → Renewed home history call)
  | .judging call file =>
    call.began ≤ history.length ∧ (call.refresh = true → call.began ≤ file.receipt.index)
  | .readingFile call | .discarding call | .acquiring call | .waiting call | .loading call =>
    call.began ≤ history.length
  | .promoting call _ file _ => call.refresh = true → call.began ≤ file.receipt.index
  | .serving call _ receipt _ => call.refresh = true → call.began ≤ receipt.index
  | .stamping call receipt | .writing call receipt _ | .remembering call receipt =>
    call.began ≤ receipt.index
  | .releasing call (some (.ok receipt)) =>
    call.began ≤ receipt.index ∧ .remembered home call.key receipt ∈ history
  | .returned call (.ok answer) => call.refresh = true → call.began ≤ answer.receipt.index
  | _ => True

section Order

variable {setting : Setting} {home : Nat} {shared sharedAfter : Shared} {phase phaseAfter : Phase}
  {event : Event} {receipt : Receipt}

variable {history later : List Deed} {call : Call}

theorem Renewed.mono (renewed : Renewed home history call) (extends' : history <+: later) :
    Renewed home later call := by
  have ⟨receipt, recent, remembered⟩ := renewed
  exact ⟨receipt, recent, extends'.subset remembered⟩

theorem Phase.Renewing.mono (renewing : phase.Renewing home history)
    (extends' : history <+: later) : phase.Renewing home later := by
  have longer := extends'.length_le
  cases phase with
  | looking => exact ⟨renewing.1.trans longer, fun refresh => (renewing.2 refresh).mono extends'⟩
  | judging => exact ⟨renewing.1.trans longer, renewing.2⟩
  | readingFile | discarding | acquiring | waiting | loading =>
    exact Nat.le_trans renewing longer
  | releasing call outcome =>
    rcases outcome with _ | _ | receipt
    · trivial
    · trivial
    · exact ⟨renewing.1, extends'.subset renewing.2⟩
  | returned call outcome => cases outcome <;> exact renewing
  | _ => exact renewing

section

variable (facts : OrderFacts shared)

include facts

/-- What a refreshing call finds in memory after the waiting is new. -/
theorem OrderFacts.hit {call : Call} {entry : CachedToolList}
    (renewed : Renewed home shared.history call)
    (found : OrderedMap.get call.key (shared.memory home) = some entry) :
    call.began ≤ entry.receipt.index := by
  have ⟨receipt, recent, remembered⟩ := renewed
  exact recent.trans (facts.memory home call.key entry found receipt remembered)

/-- What a refreshing call reads from its file after the waiting is new. -/
theorem OrderFacts.read {file : CacheFile}
    (reads : ReadsWritten setting shared ⟨home, .readingFile call⟩ .proceed)
    (found : shared.disk (setting.cachePath home call.key) = some file)
    (refresh : call.refresh = true) : call.began ≤ file.receipt.index := by
  have reading : readingCall (.readingFile call) .proceed = some call := by
    rw [readingCall, if_pos refresh]
  obtain ⟨deed, member, receipt, wrote, recent⟩ := reads call reading
  cases deed with
  | wrote path written =>
    simp only [Deed.inFile] at wrote
    split at wrote
    · rename_i same
      cases wrote
      exact recent.trans (facts.disk _ file found receipt (same ▸ member))
    · cases wrote
  | _ => cases wrote

/-- A refreshing call that goes on after the waiting. -/
theorem OrderFacts.wake
    (waits : WaitsForArrival shared ⟨home, .waiting call⟩ .proceed)
    (refresh : call.refresh = true) :
    Renewed home shared.history call := by
  have woken : wokenCall (.waiting call) .proceed = some call := by
    rw [wokenCall, if_pos refresh]
  have ⟨deed, member, receipt, finished, recent⟩ := waits call woken
  cases deed with
  | released other wanted outcome =>
    simp only [Deed.finished] at finished
    split at finished
    · rename_i same
      rw [mem_def] at finished
      rw [finished, same.1, same.2] at member
      exact ⟨receipt, recent, facts.released home call.key receipt member⟩
    · cases finished
  | _ => cases finished

theorem OrderFacts.step
    (renewing : phase.Renewing home shared.history)
    (remembers : RemembersInOrder shared ⟨home, phase⟩ event)
    (writes : WritesInOrder setting shared ⟨home, phase⟩ event)
    (moves : Moves setting home shared phase event phaseAfter sharedAfter) :
    OrderFacts sharedAfter where
  memory := by
    intro other key entry found receipt member
    rcases moves.memory found with ⟨old, apart⟩ | ⟨rfl, stores⟩
    · rcases moves.deed member with earlier | ⟨here, written, stores, _⟩
      · exact facts.memory other key entry old receipt earlier
      · exact absurd ⟨here, rfl⟩ (apart _ stores)
    · rcases moves.deed member with earlier | ⟨_, written, same, rfl⟩
      · exact remembers _ stores _ earlier receipt (by simp [Deed.inMemory])
      · cases stores.symm.trans same
        exact Nat.le_refl _
  disk := by
    intro path file found receipt member
    rcases moves.disk found with ⟨old, apart⟩ | written
    · rcases moves.deed member with earlier | ⟨other, written, _⟩
      · exact facts.disk path file old receipt earlier
      · exact absurd rfl (apart _ written)
    · rcases moves.deed member with earlier | ⟨other, same, rfl⟩
      · exact writes _ written _ earlier receipt (by simp [Deed.inFile])
      · cases written.symm.trans same
        exact Nat.le_refl _
  released := by
    intro other key receipt member
    have grows := moves.history
    rcases moves.deed member with earlier | ⟨rfl, call, rfl, rfl⟩
    · exact grows.subset (facts.released other key receipt earlier)
    · exact grows.subset renewing.2

theorem Phase.Renewing.step (renewing : phase.Renewing home shared.history)
    (waits : WaitsForArrival shared ⟨home, phase⟩ event)
    (reads : ReadsWritten setting shared ⟨home, phase⟩ event)
    (moves : Moves setting home shared phase event phaseAfter sharedAfter) :
    phaseAfter.Renewing home sharedAfter.history := by
  cases moves with
  | refreshing => exact Nat.le_refl _
  | asking => exact ⟨Nat.le_refl _, nofun⟩
  | hit found => exact fun refresh => facts.hit (renewing.2 refresh) found
  | read found => exact ⟨renewing, facts.read reads found⟩
  | miss | expire | reject | outdate => exact renewing.1
  | accept => exact renewing.2
  | wake call => exact ⟨renewing, fun refresh => facts.wake waits refresh⟩
  | receive => exact renewing
  | remember call receipt => exact ⟨renewing, mem_append_right _ (mem_singleton_self _)⟩
  | release call outcome =>
    rcases outcome with _ | _ | receipt
    · trivial
    · trivial
    · exact fun _ => renewing.1
  | refuse | panic => trivial
  | tick | lose => exact renewing
  | _ => exact renewing

end

end Order

/-! ### Refreshing calls -/

section Runs

variable {setting : Setting} {T : Type} [DecidableEq T] {start world : CacheWorld T}

theorem renewing_of_reaches (initial : Initial start)
    (reached : Reaches (advance setting) (Renewing setting) start world) :
    OrderFacts world.shared ∧ ∀ thread, (world.process thread).phase.Renewing
      (world.process thread).home world.shared.history := by
  apply Reaches.each OrderFacts
    (fun shared thread => thread.phase.Renewing thread.home shared.history) _ _ reached
  · refine ⟨⟨?_, ?_, ?_⟩, ?_⟩
    · simp [initial.memory]
    · simp [initial.disk]
    · simp [initial.history]
    · intro thread
      rw [initial.idle]
      trivial
  · intro world thread event threadAfter sharedAfter facts renewing advanced condition
    obtain ⟨_, waits, remembers, writes, reads⟩ := condition
    obtain ⟨sameHome, moves⟩ := moves_of_advance advanced
    refine ⟨facts.step (renewing thread) remembers writes moves, ?_, ?_⟩
    · rw [sameHome]
      exact (renewing thread).step facts waits reads moves
    · intro other
      exact (renewing other).mono moves.history

/-- In every run whose steps all meet the condition, a refreshing call that returns a list returns
one that was received for its key after the call began. -/
theorem refreshedList_received (initial : Initial start)
    (reached : Reaches (advance setting) (Renewing setting) start world) {thread : T} {call : Call}
    {answer : Answer} (returned : (world.process thread).phase = .returned call (.ok answer))
    (refresh : call.refresh = true) :
    Genuine setting world.shared.history call.key answer.tools answer.receipt ∧
      .received answer.receipt ∈ world.shared.history.drop call.began := by
  have ⟨facts, genuine⟩ :=
    genuine_of_reaches (fun _ _ _ condition => condition.1) initial reached
  have genuine := genuine thread
  have renewing := (renewing_of_reaches initial reached).2 thread
  rw [returned] at genuine renewing
  have recent : call.began ≤ answer.receipt.index := renewing refresh
  have placed := facts.placed answer.receipt genuine.received
  refine ⟨genuine, List.mem_iff_getElem?.mpr ⟨answer.receipt.index - call.began, ?_⟩⟩
  rw [List.getElem?_drop, Nat.add_sub_cancel' recent]
  exact placed

end Runs

/-! ### Concrete runs -/

section Concrete

variable {T : Type}

instance (shared : Shared) (thread : Thread) (event : Event) :
    Decidable (WaitsForArrival shared thread event) :=
  inferInstanceAs (Decidable (∀ call ∈ wokenCall _ _, _))

instance (shared : Shared) (thread : Thread) (event : Event) :
    Decidable (RemembersInOrder shared thread event) :=
  inferInstanceAs (Decidable (∀ stored ∈ storedEntry _ _ _, _))

instance (setting : Setting) (shared : Shared) (thread : Thread) (event : Event) :
    Decidable (WritesInOrder setting shared thread event) :=
  inferInstanceAs (Decidable (∀ written ∈ writtenFile _ _ _ _, _))

instance (setting : Setting) (shared : Shared) (thread : Thread) (event : Event) :
    Decidable (ReadsWritten setting shared thread event) :=
  inferInstanceAs (Decidable (∀ call ∈ readingCall _ _, _))

instance (setting : Setting) (world : CacheWorld T) (action : T × Event)
    (next : CacheWorld T) : Decidable (Renewing setting world action next) :=
  inferInstanceAs (Decidable (_ ∧ _))

/-- A refreshing call up to its wait for the permit, or its load. -/
def refreshingCall (thread : T) : List (T × Event) :=
  [(thread, .call demoKey true)] ++ proceeds thread 1

end Concrete

/-- Two refreshing calls: the second waits for the load of the first, whose list arrives after
both began. -/
def sharedRun : List (Nat × Event) :=
  refreshingCall 0 ++ refreshingCall 1 ++ [(0, .receive (.ok (oneTool "a")))] ++ proceeds 0 4 ++
    proceeds 1 3

theorem refreshedList_received_sharedRun : ∃ world : CacheWorld Nat, ∃ call answer,
      Reaches (advance plainSetting) (Renewing plainSetting) (emptyWorld (fun _ => 0)) world ∧
      (world.process 1).phase = .returned call (.ok answer) ∧ call.refresh = true ∧
      Genuine plainSetting world.shared.history call.key answer.tools answer.receipt ∧
      .received answer.receipt ∈ world.shared.history.drop call.began := by
  have ran : ((runChecked (advance plainSetting) (Renewing plainSetting) (emptyWorld (fun _ => 0))
      sharedRun).bind (fun world => (world.process 1).phase.answer?)).map
        (fun returned => returned.1.refresh) = some true := by decide
  obtain ⟨⟨call, answer⟩, answered, refresh⟩ := map_eq_some_iff.mp ran
  obtain ⟨world, reachedBy, answered⟩ := bind_eq_some_iff.mp answered
  have reached := reaches_of_runChecked reachedBy
  have returned := Phase.eq_returned answered
  have received := refreshedList_received (emptyWorld_initial _) reached returned refresh
  exact ⟨world, call, answer, reached, returned, refresh, received⟩

/-- A list is loaded. A second later two refreshing calls begin; the second waits for the load of
the first, which fails. -/
def failedRun : List (Nat × Event) :=
  loadingCall 0 "a" ++ [(0, .tick 1000000000)] ++ refreshingCall 1 ++ refreshingCall 2 ++
    [(1, .receive (.error "down"))] ++ proceeds 1 1 ++ proceeds 2 3

/-- A refreshing call returns a list although none was received after it began. -/
theorem failedRun_stale : ∃ world : CacheWorld Nat, ∃ call answer,
      Reaches (advance plainSetting) (fun _ _ _ => True) (emptyWorld (fun _ => 0)) world ∧
      (world.process 2).phase = .returned call (.ok answer) ∧ call.refresh = true ∧
      ∀ receipt, .received receipt ∉ world.shared.history.drop call.began := by
  have ran : ((runChecked (advance plainSetting) (fun _ _ _ => True) (emptyWorld (fun _ => 0))
      failedRun).bind (fun world => (world.process 2).phase.answer?.map (fun returned =>
        (returned.1.refresh, (world.shared.history.drop returned.1.began).filterMap
          Deed.arrival?)))) = some (true, []) := by decide +kernel
  obtain ⟨world, reachedBy, ran⟩ := bind_eq_some_iff.mp ran
  obtain ⟨⟨call, answer⟩, answered, shown⟩ := map_eq_some_iff.mp ran
  rw [Prod.mk.injEq] at shown
  refine ⟨world, call, answer, reaches_of_runChecked reachedBy, Phase.eq_returned answered,
    shown.1, ?_⟩
  intro receipt member
  have listed : receipt.receivedAt ∈
      (world.shared.history.drop call.began).filterMap Deed.arrival? :=
    mem_filterMap.mpr ⟨_, member, rfl⟩
  rw [shown.2] at listed
  exact not_mem_nil listed

end Mcpace.Upstream.ToolCache

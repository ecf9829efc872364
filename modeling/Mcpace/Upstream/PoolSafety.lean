import Mcpace.Upstream.SessionPool

/-!
Contract: the session pool keeps its limits and never shares or loses a worker in use.

A thread that has taken a worker is the only one that writes to it until it clears the busy
flag. Purging and eviction remove only workers that are not busy at the time of the removal,
and under the same mutex a worker is taken, so a worker in use stays registered until its own
thread removes it.
-/

namespace Mcpace.Upstream.SessionPool

open Library Interleaving List Option Function Groups

variable {κ : Type*}

def Worker.Ready (worker : Worker) : Prop :=
  worker.initialized = true ∧ worker.session.isSome = true

namespace Phase

/-- The worker a thread has taken, as long as it is registered. -/
def inUse : Phase κ → Option (κ × Nat)
  | .initializing key worker | .publishing key worker | .held key worker
  | .returning key worker | .clearing key worker | .unregistering key worker =>
    some (key, worker)
  | _ => none

/-- The worker whose busy flag a thread has set. -/
def taken : Phase κ → Option Nat
  | .freeing worker => some worker
  | phase => phase.inUse.map Prod.snd

/-- What a phase needs of the worker it has taken. -/
def Demands : Phase κ → Worker → Prop
  | .publishing _ _, worker => worker.session.isSome = true
  | .held _ _, worker | .returning _ _, worker => worker.Ready
  | _, _ => True

theorem taken_of_inUse {phase : Phase κ} {key : κ} {worker : Nat}
    (used : phase.inUse = some (key, worker)) : phase.taken = some worker := by
  cases phase <;> simp_all [inUse, taken]

theorem inUse_of_taken_eq_none {phase : Phase κ} (untaken : phase.taken = none) :
    phase.inUse = none := by
  cases phase <;> simp_all [inUse, taken]

end Phase

/-! ### The invariant -/

variable [LinearOrder κ]

/-- The registry is within its limits, and its idle workers can be handed out. -/
structure Sound (settings : Settings κ) (pool : Pool κ) : Prop where
  sorted : OrderedMap.Sorted pool.groups
  total : total pool.groups ≤ settings.capacity
  limited : ∀ key, (group key pool.groups).length ≤ settings.limit key
  known : ∀ key worker, worker ∈ group key pool.groups → worker < pool.nextWorker
  nodup : ∀ key, (group key pool.groups).Nodup
  home : ∀ key other worker, worker ∈ group key pool.groups →
    worker ∈ group other pool.groups → key = other
  ready : ∀ key worker, worker ∈ group key pool.groups →
    (pool.worker worker).busy = false → (pool.worker worker).Ready

structure Invariant {P : Type*} (settings : Settings κ) (world : World P (Pool κ) (Phase κ)) :
    Prop where
  sound : Sound settings world.shared
  busy : ∀ thread worker, (world.process thread).taken = some worker →
    (world.shared.worker worker).busy = true ∧ worker < world.shared.nextWorker
  alone : ∀ thread other worker, (world.process thread).taken = some worker →
    (world.process other).taken = some worker → thread = other
  registered : ∀ thread key worker, (world.process thread).inUse = some (key, worker) →
    worker ∈ group key world.shared.groups
  unregistered : ∀ thread worker, world.process thread = .freeing worker →
    ∀ key, worker ∉ group key world.shared.groups
  demands : ∀ thread worker, (world.process thread).taken = some worker →
    (world.process thread).Demands (world.shared.worker worker)

namespace Sound

variable {settings : Settings κ} {pool : Pool κ} {worker : Nat}

/-- Writing to a worker keeps the registry sound if the worker stays busy, is not registered,
or is ready. -/
theorem update (sound : Sound settings pool) {change : Worker → Worker}
    (allowed : ∀ key, worker ∈ group key pool.groups →
      (change (pool.worker worker)).busy = false → (change (pool.worker worker)).Ready) :
    Sound settings (pool.update worker change) where
  sorted := sound.sorted
  total := sound.total
  limited := sound.limited
  known := sound.known
  nodup := sound.nodup
  home := sound.home
  ready := by
    intro key other member idle
    by_cases same : other = worker
    · rw [same] at member idle ⊢
      rw [Pool.worker_update_self] at idle ⊢
      exact allowed key member idle
    · rw [Pool.worker_update_of_ne same] at idle ⊢
      exact sound.ready key other member idle

theorem shrink (sound : Sound settings pool) {groups : List (κ × List Nat)}
    (sorted : OrderedMap.Sorted groups) (total : Groups.total groups ≤ Groups.total pool.groups)
    (fewer : ∀ key, (group key groups).Sublist (group key pool.groups)) :
    Sound settings { pool with groups := groups } where
  sorted := sorted
  total := total.trans sound.total
  limited := fun key => (fewer key).length_le.trans (sound.limited key)
  known := fun key worker member => sound.known key worker ((fewer key).subset member)
  nodup := fun key => (sound.nodup key).sublist (fewer key)
  home := fun key other worker member otherMember =>
    sound.home key other worker ((fewer key).subset member) ((fewer other).subset otherMember)
  ready := fun key worker member => sound.ready key worker ((fewer key).subset member)

/-- Part of one group stays. -/
theorem replace (sound : Sound settings pool) {key : κ} {part : List Nat}
    (fewer : part.Sublist (group key pool.groups)) :
    Sound settings { pool with groups := Groups.replace key part pool.groups } :=
  sound.shrink (sorted_replace sound.sorted key _) (total_replace_le sound.sorted fewer.length_le)
    (group_replace_sublist fewer)

/-- The evicted worker is registered and not busy. -/
theorem removedWorker (sound : Sound settings pool) {evicted : Pool κ}
    (removed : pool.removeOldestIdleWorker = some evicted) :
    ∃ key index worker, (group key pool.groups)[index]? = some worker ∧
      (pool.worker worker).busy = false ∧
      evicted = { pool with groups := eraseIdx key index pool.groups } := by
  obtain ⟨place, oldest, rfl⟩ := map_eq_some_iff.mp removed
  obtain ⟨entry, listed, idle⟩ := mem_flatMap.mp (argmin_mem oldest)
  obtain ⟨⟨worker, index⟩, atIndex, found⟩ := mem_filterMap.mp idle
  by_cases taken : (pool.worker worker).busy = true
  · rw [if_pos taken] at found
    cases found
  · rw [if_neg taken, Option.some.injEq] at found
    refine ⟨entry.1, index, worker, ?_, Bool.eq_false_iff.mpr taken, by rw [← found]⟩
    rw [group_of_mem sound.sorted listed]
    exact List.mem_zipIdx_iff_getElem?.mp atIndex

/-- No worker is evicted only when all are busy. -/
theorem all_busy (removed : pool.removeOldestIdleWorker = none) {key : κ}
    (member : worker ∈ group key pool.groups) : (pool.worker worker).busy = true := by
  rw [Pool.removeOldestIdleWorker, map_eq_none_iff, argmin_eq_none,
    Pool.idleWorkers, flatMap_eq_nil_iff] at removed
  rw [group] at member
  cases found : OrderedMap.get key pool.groups with
  | none =>
    rw [found] at member
    cases member
  | some items =>
    rw [found, getD_some] at member
    obtain ⟨index, here⟩ := List.mem_iff_getElem?.mp member
    have unlisted := filterMap_eq_nil_iff.mp
      (removed (key, items) (OrderedMap.mem_of_get found)) (worker, index)
      (List.mem_zipIdx_iff_getElem?.mpr here)
    by_contra idle
    rw [if_neg idle] at unlisted
    cases unlisted

/-- Registering a new worker within the limits keeps the registry sound. -/
theorem create (sound : Sound settings pool) {key : κ}
    (room : (group key pool.groups).length < settings.limit key)
    (capacity : Groups.total pool.groups < settings.capacity) (idleTtlMs nowMs : Nat) :
    Sound settings {
      groups := push key pool.nextWorker pool.groups
      worker := Function.update pool.worker pool.nextWorker (Worker.reserved idleTtlMs nowMs)
      nextWorker := pool.nextWorker + 1 } := by
  have fresh : ∀ other, pool.nextWorker ∉ group other pool.groups :=
    fun other member => lt_irrefl _ (sound.known other _ member)
  have members := fun other worker =>
    (@mem_group_push _ _ _ key pool.nextWorker pool.groups other worker).mp
  refine {
    sorted := OrderedMap.sorted_insert sound.sorted
    total := ?_, limited := ?_, known := ?_, nodup := ?_, home := ?_, ready := ?_ }
  · show Groups.total (Groups.push key pool.nextWorker pool.groups) ≤ settings.capacity
    rw [total_push sound.sorted]
    omega
  · intro other
    show (group other (push key pool.nextWorker pool.groups)).length ≤ _
    rw [group_push]
    split
    · rename_i same
      rw [same, List.length_append, List.length_singleton]
      omega
    · exact sound.limited other
  · intro other worker member
    show worker < pool.nextWorker + 1
    rcases members other worker member with old | ⟨rfl, -⟩
    · have older := sound.known other worker old
      omega
    · omega
  · intro other
    show (group other (push key pool.nextWorker pool.groups)).Nodup
    rw [group_push]
    split
    · refine nodup_append.mpr ⟨sound.nodup key, nodup_singleton _, ?_⟩
      intro worker member new isNew same
      rw [mem_singleton.mp isNew] at same
      exact fresh key (same ▸ member)
    · exact sound.nodup other
  · intro other another worker member anotherMember
    rcases members other worker member with old | ⟨rfl, rfl⟩
    · rcases members another worker anotherMember with anotherOld | ⟨rfl, -⟩
      · exact sound.home other another worker old anotherOld
      · exact absurd old (fresh other)
    · rcases members another _ anotherMember with anotherOld | ⟨-, rfl⟩
      · exact absurd anotherOld (fresh another)
      · rfl
  · intro other worker member idle
    rcases members other worker member with old | ⟨rfl, -⟩
    · have older : worker ≠ pool.nextWorker := fun same => fresh other (same ▸ old)
      simp only [update_of_ne older] at idle ⊢
      exact sound.ready other worker old idle
    · simp only [update_self] at idle
      cases idle

end Sound

/-! ### Steps of the invariant -/

namespace Invariant

variable {P : Type*} [DecidableEq P] {settings : Settings κ} {world : World P (Pool κ) (Phase κ)}
  {thread : P} {phase : Phase κ} (invariant : Invariant settings world)

include invariant

/-- The step writes to no worker, removes only workers that are not busy, and leaves the
thread without a worker. -/
theorem shrink {groups : List (κ × List Nat)}
    (sound : Sound settings { world.shared with groups := groups })
    (fewer : ∀ key, (group key groups).Sublist (group key world.shared.groups))
    (kept : ∀ key worker, worker ∈ group key world.shared.groups →
      (world.shared.worker worker).busy = true → worker ∈ group key groups)
    (untaken : phase.taken = none) :
    Invariant settings ⟨{ world.shared with groups := groups },
      Function.update world.process thread phase⟩ := by
  obtain ⟨-, busy, alone, registered, unregistered, demands⟩ := invariant
  have unused := Phase.inUse_of_taken_eq_none untaken
  have notFreeing : ∀ worker, phase ≠ .freeing worker := by
    intro worker freeing
    rw [freeing] at untaken
    cases untaken
  have stays : ∀ other key worker, (world.process other).inUse = some (key, worker) →
      worker ∈ group key groups := by
    intro other key worker used
    exact kept key worker (registered other key worker used)
      (busy other worker (Phase.taken_of_inUse used)).1
  have gone : ∀ other worker, world.process other = .freeing worker →
      ∀ key, worker ∉ group key groups := by
    intro other worker freeing key member
    exact unregistered other worker freeing key ((fewer key).subset member)
  constructor <;> grind [update_apply]

/-- The step writes nothing and leaves the thread without a worker. -/
theorem quiet (untaken : phase.taken = none) :
    Invariant settings ⟨world.shared, Function.update world.process thread phase⟩ :=
  invariant.shrink invariant.sound (fun _ => List.Sublist.refl _) (fun _ _ member _ => member)
    untaken

variable {worker : Nat} {change : Worker → Worker}

/-- The step writes to one worker, which no other thread has taken. -/
theorem write (sound : Sound settings (world.shared.update worker change))
    (mine : ∀ other, other ≠ thread → (world.process other).taken ≠ some worker)
    (takes : ∀ current, phase.taken = some current → current = worker ∧
      (change (world.shared.worker worker)).busy = true ∧ worker < world.shared.nextWorker ∧
      phase.Demands (change (world.shared.worker worker)))
    (uses : ∀ key current, phase.inUse = some (key, current) → current ∈ group key world.shared.groups)
    (notFreeing : ∀ current, phase ≠ .freeing current) :
    Invariant settings ⟨world.shared.update worker change,
      Function.update world.process thread phase⟩ := by
  obtain ⟨-, busy, alone, registered, unregistered, demands⟩ := invariant
  have others : ∀ other current, other ≠ thread → (world.process other).taken = some current →
      (world.shared.update worker change).worker current = world.shared.worker current := by
    intro other current different taken
    have apart : current ≠ worker := by
      intro same
      rw [same] at taken
      exact mine other different taken
    exact Pool.worker_update_of_ne apart _ _
  have own := world.shared.worker_update_self worker change
  have sameGroups := world.shared.groups_update worker change
  have sameNext := world.shared.nextWorker_update worker change
  constructor <;> grind [update_apply]

/-- The thread registers a new worker and takes it. -/
theorem create {key : κ} (room : (group key world.shared.groups).length < settings.limit key)
    (capacity : total world.shared.groups < settings.capacity) (idleTtlMs nowMs : Nat) :
    Invariant settings ⟨{
      groups := push key world.shared.nextWorker world.shared.groups
      worker := Function.update world.shared.worker world.shared.nextWorker
        (Worker.reserved idleTtlMs nowMs)
      nextWorker := world.shared.nextWorker + 1 },
      Function.update world.process thread (.initializing key world.shared.nextWorker)⟩ := by
  have sound := invariant.sound.create room capacity idleTtlMs nowMs
  obtain ⟨-, busy, alone, registered, unregistered, demands⟩ := invariant
  have older : ∀ other worker, (world.process other).taken = some worker →
      worker ≠ world.shared.nextWorker := by
    intro other worker taken
    exact ne_of_lt (busy other worker taken).2
  have members := @mem_group_push _ _ _ key world.shared.nextWorker world.shared.groups
  have taken : (Phase.initializing key world.shared.nextWorker).taken =
      some world.shared.nextWorker := rfl
  have used : (Phase.initializing key world.shared.nextWorker).inUse =
      some (key, world.shared.nextWorker) := rfl
  have inUse := @Phase.taken_of_inUse κ
  have freeing : ∀ worker, (Phase.freeing worker : Phase κ).taken = some worker := fun _ => rfl
  constructor <;> grind [update_apply, Phase.Demands, Worker.reserved]

/-- The thread removes the worker it has taken from the registry. -/
theorem unregister {key : κ} (unregistering : world.process thread = .unregistering key worker) :
    Invariant settings ⟨world.shared.removeWorker key worker,
      Function.update world.process thread (.freeing worker)⟩ := by
  have part := erase_sublist (a := worker) (l := group key world.shared.groups)
  have sound : Sound settings (world.shared.removeWorker key worker) :=
    invariant.sound.replace part
  have mine : (world.process thread).taken = some worker := by rw [unregistering]; rfl
  have place := invariant.registered thread key worker (by rw [unregistering]; rfl)
  have removed : ∀ other, worker ∉ group other (world.shared.removeWorker key worker).groups := by
    intro other member
    have before := (group_replace_sublist part other).subset member
    have same := invariant.sound.home other key worker before place
    have erased := member
    rw [same, Pool.removeWorker, erase, group_replace, if_pos rfl] at erased
    exact (invariant.sound.nodup key).not_mem_erase erased
  obtain ⟨-, busy, alone, registered, unregistered, demands⟩ := invariant
  have stays : ∀ other home current, other ≠ thread →
      (world.process other).inUse = some (home, current) →
        current ∈ group home (world.shared.removeWorker key worker).groups := by
    intro other home current different used
    apply mem_group_replace (registered other home current used)
    intro same
    have apart : current ≠ worker := by
      intro equal
      rw [equal] at used
      exact different (alone other thread worker (Phase.taken_of_inUse used) mine)
    exact (mem_erase_of_ne apart).mpr (same ▸ registered other home current used)
  have gone : ∀ other current, world.process other = .freeing current →
      ∀ home, current ∉ group home (world.shared.removeWorker key worker).groups := by
    intro other current freeing home member
    exact unregistered other current freeing home ((group_replace_sublist part home).subset member)
  have sameWorkers : (world.shared.removeWorker key worker).worker = world.shared.worker := rfl
  have sameNext : (world.shared.removeWorker key worker).nextWorker =
      world.shared.nextWorker := rfl
  have taken : (Phase.freeing worker : Phase κ).taken = some worker := rfl
  have unused : (Phase.freeing worker : Phase κ).inUse = none := rfl
  constructor <;> grind [update_apply, Phase.Demands]

/-- A purge removes workers that are not busy. -/
theorem removeWorkers (candidates : List Nat) (untaken : phase.taken = none) :
    Invariant settings ⟨world.shared.removeWorkers candidates,
      Function.update world.process thread phase⟩ := by
  let keep := fun worker =>
    !(candidates.contains worker && !(world.shared.worker worker).busy)
  have filtered := group_filterItems invariant.sound.sorted keep
  have fewer : ∀ key, (group key (filterItems keep world.shared.groups)).Sublist
      (group key world.shared.groups) := by
    intro key
    rw [filtered]
    exact filter_sublist
  apply invariant.shrink _ fewer _ untaken
  · exact invariant.sound.shrink (Groups.sorted_filterItems invariant.sound.sorted keep)
      (total_filterItems_le keep _) fewer
  · intro key worker member busy
    rw [filtered, mem_filter]
    exact ⟨member, by simp [keep, busy]⟩

/-- An eviction removes one worker, which is not busy. -/
theorem evict {evicted : Pool κ} (removed : world.shared.removeOldestIdleWorker = some evicted)
    (untaken : phase.taken = none) :
    Invariant settings ⟨evicted, Function.update world.process thread phase⟩ := by
  obtain ⟨home, index, worker, there, idle, rfl⟩ := invariant.sound.removedWorker removed
  have part := eraseIdx_sublist (l := group home world.shared.groups) (k := index)
  apply invariant.shrink (invariant.sound.replace part) (group_replace_sublist part) _ untaken
  intro key other member busy
  apply mem_group_replace member
  intro same
  rw [same] at member
  obtain ⟨position, here⟩ := List.mem_iff_getElem?.mp member
  refine List.mem_eraseIdx_iff_getElem?.mpr ⟨position, ?_, here⟩
  intro samePosition
  rw [samePosition, there, Option.some.injEq] at here
  rw [here, busy] at idle
  cases idle

/-- The thread takes an idle worker. -/
theorem take {key : κ} {limit : Nat} (found : world.shared.idleWorker key limit = some worker)
    (idleTtlMs : Nat) :
    Invariant settings ⟨world.shared.update worker
        (fun taken => { taken with busy := true, idleTtlMs := idleTtlMs }),
      Function.update world.process thread
        (if (world.shared.worker worker).initialized then .held key worker
          else .initializing key worker)⟩ := by
  have member : worker ∈ group key world.shared.groups :=
    mem_of_mem_take (List.mem_of_find?_eq_some found)
  have idle : (world.shared.worker worker).busy = false := by
    simpa using List.find?_some found
  have ready := invariant.sound.ready key worker member idle
  have sound : Sound settings (world.shared.update worker
      (fun taken => { taken with busy := true, idleTtlMs := idleTtlMs })) :=
    invariant.sound.update nofun
  rw [if_pos ready.1]
  refine invariant.write sound ?_ ?_ ?_ nofun
  · intro other _ taken
    have busy := (invariant.busy other worker taken).1
    rw [idle] at busy
    cases busy
  · intro current taken
    cases taken
    exact ⟨rfl, rfl, invariant.sound.known key worker member, ready⟩
  · intro home current used
    cases used
    exact member

/-- The locked section of a checkout. -/
theorem select (call : Invocation κ) (nowMs : Nat) :
    Invariant settings ⟨(selectWorker settings world.shared call nowMs).2,
      Function.update world.process thread
        (selectWorker settings world.shared call nowMs).1⟩ := by
  rw [selectWorker]
  cases found : world.shared.idleWorker call.key (settings.limit call.key) with
  | some worker => exact invariant.take found _
  | none =>
    dsimp only
    split
    · rename_i room
      exact invariant.create room.1 room.2 _ _
    · split
      · cases removed : world.shared.removeOldestIdleWorker with
        | some evicted => exact invariant.evict removed rfl
        | none => exact invariant.quiet rfl
      · exact invariant.quiet rfl

/-- The thread writes to the worker it uses, leaving the busy flag alone, and goes on using it. -/
theorem writeOwn {key : κ} (used : (world.process thread).inUse = some (key, worker))
    (stillUsed : phase.inUse = some (key, worker))
    (keepsBusy : ∀ current, (change current).busy = current.busy)
    (demands : phase.Demands (change (world.shared.worker worker))) :
    Invariant settings ⟨world.shared.update worker change,
      Function.update world.process thread phase⟩ := by
  have taken := Phase.taken_of_inUse used
  obtain ⟨busy, known⟩ := invariant.busy thread worker taken
  have sound : Sound settings (world.shared.update worker change) := by
    apply invariant.sound.update
    intro home member idle
    rw [keepsBusy, busy] at idle
    cases idle
  refine invariant.write sound ?_ ?_ ?_ ?_
  · intro other different otherTaken
    exact different (invariant.alone other thread worker otherTaken taken)
  · intro current nowTaken
    rw [Phase.taken_of_inUse stillUsed, Option.some.injEq] at nowTaken
    exact ⟨nowTaken.symm, (keepsBusy _).trans busy, known, demands⟩
  · intro home current nowUsed
    rw [stillUsed, Option.some.injEq, Prod.mk.injEq] at nowUsed
    rw [← nowUsed.1, ← nowUsed.2]
    exact invariant.registered thread key worker used
  · intro current freeing
    rw [freeing] at stillUsed
    cases stillUsed

/-- The thread clears the busy flag of a worker that is ready or not registered. -/
theorem release (taken : (world.process thread).taken = some worker)
    (allowed : ∀ key, worker ∈ group key world.shared.groups → (world.shared.worker worker).Ready) :
    Invariant settings ⟨world.shared.update worker (fun current => { current with busy := false }),
      Function.update world.process thread .resting⟩ := by
  have sound : Sound settings (world.shared.update worker
      (fun current => { current with busy := false })) :=
    invariant.sound.update (fun key member _ => allowed key member)
  refine invariant.write sound ?_ nofun nofun
    nofun
  intro other different otherTaken
  exact different (invariant.alone other thread worker otherTaken taken)

theorem step {event : Event κ} {pool : Pool κ}
    (advanced : advance settings world.shared (world.process thread) event = some (phase, pool)) :
    Invariant settings ⟨pool, Function.update world.process thread phase⟩ := by
  unfold advance at advanced
  split at advanced
  · -- purge
    cases advanced
    exact invariant.quiet rfl
  · -- checkout
    cases advanced
    exact invariant.quiet rfl
  · -- collect
    cases advanced
    exact invariant.quiet rfl
  · -- load
    rename_i reading _ probe _
    cases advanced
    refine invariant.quiet ?_
    cases reading with
    | busy =>
      rw [judge]
      split <;> rfl
    | lastUsed | idleTtl _ | session _ => rfl
  · -- remove
    rename_i next _
    cases advanced
    refine invariant.removeWorkers _ ?_
    cases next <;> rfl
  · -- leaseLost
    cases advanced
    exact invariant.quiet rfl
  · -- select
    rename_i call nowMs _
    have selected := Option.some.inj advanced
    have chosen := @select κ _ P _ settings world thread invariant call nowMs
    rw [selected] at chosen
    exact chosen
  · -- timeOut
    cases advanced
    exact invariant.quiet rfl
  · -- wake
    cases advanced
    exact invariant.quiet rfl
  · -- initializationFails: the guard drops the worker
    rename_i key worker initializing
    cases advanced
    have kept : Invariant settings ⟨world.shared.update worker id,
        Function.update world.process thread (.clearing key worker)⟩ :=
      invariant.writeOwn (congrArg Phase.inUse initializing) rfl (fun _ => rfl) trivial
    rw [Pool.update_id] at kept
    exact kept
  · -- storeSession
    rename_i initializing
    cases advanced
    exact invariant.writeOwn (congrArg Phase.inUse initializing) rfl (fun _ => rfl) rfl
  · -- publish: the session is there before the flag
    rename_i publishing
    cases advanced
    have stored := invariant.demands thread _ (congrArg Phase.taken publishing)
    rw [publishing] at stored
    exact invariant.writeOwn (congrArg Phase.inUse publishing) rfl (fun _ => rfl) ⟨rfl, stored⟩
  · -- drop
    rename_i failed nowMs held
    cases advanced
    have ready := invariant.demands thread _ (congrArg Phase.taken held)
    rw [held] at ready
    cases failed with
    | true =>
      exact invariant.writeOwn (congrArg Phase.inUse held) rfl (fun _ => rfl) trivial
    | false =>
      exact invariant.writeOwn (congrArg Phase.inUse held) rfl (fun _ => rfl) ready
  · -- giveBack
    rename_i returning
    cases advanced
    have ready := invariant.demands thread _ (congrArg Phase.taken returning)
    rw [returning] at ready
    exact invariant.release (congrArg Phase.taken returning) (fun _ _ => ready)
  · -- clear
    rename_i clearing
    cases advanced
    exact invariant.writeOwn (congrArg Phase.inUse clearing) rfl (fun _ => rfl) trivial
  · -- unregister
    rename_i unregistering
    cases advanced
    exact invariant.unregister unregistering
  · -- free: the worker is no longer registered
    rename_i freeing
    cases advanced
    exact invariant.release (congrArg Phase.taken freeing)
      (fun key member => absurd member (invariant.unregistered thread _ freeing key))
  · cases advanced

end Invariant

/-! ### Safety -/

section Safety

variable {P : Type*} [DecidableEq P]

def emptyWorld : World P (Pool κ) (Phase κ) :=
  ⟨{ groups := [], worker := fun _ => Worker.reserved 0 0, nextWorker := 0 }, fun _ => .resting⟩

/-- A checkout of the thread holds the worker. -/
def Holds (world : World P (Pool κ) (Phase κ)) (thread : P) (key : κ) (worker : Nat) : Prop :=
  (world.process thread).inUse = some (key, worker)

/-- The thread's checkout has returned and is not dropped yet. -/
def CheckedOut (world : World P (Pool κ) (Phase κ)) (thread : P) (worker : Nat) : Prop :=
  ∃ key, world.process thread = .held key worker

omit [DecidableEq P] in
theorem invariant_emptyWorld (settings : Settings κ) :
    Invariant settings (emptyWorld : World P (Pool κ) (Phase κ)) where
  sound := {
    sorted := OrderedMap.sorted_nil
    total := Nat.zero_le _
    limited := fun _ => Nat.zero_le _
    known := nofun
    nodup := fun _ => nodup_nil
    home := nofun
    ready := fun _ _ member => absurd member not_mem_nil }
  busy := nofun
  alone := nofun
  registered := nofun
  unregistered := nofun
  demands := nofun

variable {settings : Settings κ}

theorem invariant_of_reaches {world : World P (Pool κ) (Phase κ)}
    (reached : Reaches (advance settings) (fun _ _ _ => True) emptyWorld world) :
    Invariant settings world := by
  apply reached.invariant (invariant_emptyWorld settings)
  intro earlier mover event phase pool invariant advanced _
  exact invariant.step advanced

/-- A thread that purges or selects uses no worker. -/
theorem inUse_of_removes {pool : Pool κ} {phase : Phase κ} {event : Event κ}
    {moved : Phase κ × Pool κ} (removes : event = .remove ∨ ∃ nowMs, event = .select nowMs)
    (advanced : advance settings pool phase event = some moved) : phase.inUse = none := by
  rcases removes with rfl | ⟨nowMs, rfl⟩
  all_goals cases phase <;> first | rfl | cases advanced

/-- In every state of every interleaving the pool is within both limits, no worker is used by
two checkouts, a worker in use is registered and stays registered when a thread purges or
evicts, and the worker of a successful checkout has an initialized session. -/
theorem sessionPool_safe {settings : Settings κ} {world : World P (Pool κ) (Phase κ)}
    (reached : Reaches (advance settings) (fun _ _ _ => True) emptyWorld world) :
    total world.shared.groups ≤ settings.capacity ∧
      (∀ key, (group key world.shared.groups).length ≤ settings.limit key) ∧
      (∀ thread other key otherKey worker, Holds world thread key worker →
        Holds world other otherKey worker → thread = other) ∧
      (∀ thread key worker, Holds world thread key worker → worker ∈ group key world.shared.groups ∧
          ∀ remover event next, step (advance settings) world (remover, event) = some next →
            (event = .remove ∨ ∃ nowMs, event = .select nowMs) →
            worker ∈ group key next.shared.groups) ∧
      ∀ thread worker, CheckedOut world thread worker → (world.shared.worker worker).Ready := by
  have invariant := invariant_of_reaches reached
  refine ⟨invariant.sound.total, invariant.sound.limited, ?_, ?_, ?_⟩
  · intro thread other key otherKey worker holds otherHolds
    exact invariant.alone thread other worker (Phase.taken_of_inUse holds)
      (Phase.taken_of_inUse otherHolds)
  · intro thread key worker holds
    refine ⟨invariant.registered thread key worker holds, ?_⟩
    intro remover event next moved removes
    have after := invariant_of_reaches (Reaches.tail reached moved trivial)
    obtain ⟨phase, pool, advanced, rfl⟩ := step_eq_some moved
    have different : thread ≠ remover := by
      intro same
      have unused := inUse_of_removes removes advanced
      rw [← same, holds] at unused
      cases unused
    apply after.registered thread key worker
    show (Function.update world.process remover phase thread).inUse = some (key, worker)
    rw [update_of_ne different]
    exact holds
  · intro thread worker ⟨key, held⟩
    have ready := invariant.demands thread worker (congrArg Phase.taken held)
    rw [held] at ready
    exact ready

end Safety

/-! ### Evictions for a full group -/

/-- The idle workers of other keys stay registered. -/
def SparesOthers (key : κ) (before after : Pool κ) : Prop :=
  ∀ other worker, other ≠ key → worker ∈ group other before.groups →
    (before.worker worker).busy = false → worker ∈ group other after.groups

/-- A pass of a checkout whose group is full evicts no idle worker of another key exactly when the
pool has room, a worker of the group is idle, or all workers of other keys are busy. -/
theorem sparesOthers_iff {P : Type*} [DecidableEq P] {settings : Settings κ}
    {world : World P (Pool κ) (Phase κ)}
    (reached : Reaches (advance settings) (fun _ _ _ => True) emptyWorld world)
    {call : Invocation κ}
    (full : settings.limit call.key ≤ (group call.key world.shared.groups).length)
    (nowMs : Nat) :
    SparesOthers call.key world.shared (selectWorker settings world.shared call nowMs).2 ↔
      total world.shared.groups < settings.capacity ∨
      (∃ worker ∈ group call.key world.shared.groups, (world.shared.worker worker).busy = false) ∨
      ∀ key worker, key ≠ call.key → worker ∈ group key world.shared.groups →
        (world.shared.worker worker).busy = true := by
  have sound := (invariant_of_reaches reached).sound
  have kept : SparesOthers call.key world.shared world.shared := fun _ _ _ member _ => member
  rw [selectWorker]
  cases found : world.shared.idleWorker call.key (settings.limit call.key) with
  | some worker =>
    refine iff_of_true kept (.inr (.inl ⟨worker, ?_, ?_⟩))
    · exact mem_of_mem_take (List.mem_of_find?_eq_some found)
    · simpa using List.find?_some found
  | none =>
    have allBusy : ∀ worker ∈ group call.key world.shared.groups,
        (world.shared.worker worker).busy = true := by
      rw [Pool.idleWorker, take_of_length_le (sound.limited _), List.find?_eq_none] at found
      simpa using found
    dsimp only
    rw [if_neg (fun room => absurd room.1 (Nat.not_lt.mpr full))]
    split
    · rename_i crowded
      cases removed : world.shared.removeOldestIdleWorker with
      | none => exact iff_of_true kept (.inr (.inr (fun _ _ _ => Sound.all_busy removed)))
      | some evicted =>
        -- the evicted worker is idle, so it is not one of the full group
        obtain ⟨home, index, worker, there, idle, rfl⟩ := sound.removedWorker removed
        have member := List.mem_of_getElem? there
        have other : home ≠ call.key := by
          rintro rfl
          rw [allBusy worker member] at idle
          cases idle
        refine iff_of_false (fun spares => ?_) ?_
        · have still := spares home worker other member idle
          rw [Groups.eraseIdx, Groups.group_replace, if_pos rfl] at still
          obtain ⟨position, elsewhere, here⟩ := List.mem_eraseIdx_iff_getElem?.mp still
          have bound := (List.getElem?_eq_some_iff.mp here).1
          exact elsewhere ((List.getElem?_inj bound (sound.nodup home)).mp (here.trans there.symm))
        · rintro (room | ⟨free, inGroup, isFree⟩ | busy)
          · exact absurd room (Nat.not_lt.mpr crowded)
          · rw [allBusy free inGroup] at isFree
            cases isFree
          · rw [busy home worker other member] at idle
            cases idle
    · exact iff_of_true kept (.inl (by omega))

/-! ### Pools of one and of two sessions -/

def oneSession : Settings Nat where
  maxSessions := 1
  workerLimit := fun _ => 1

/-- The second thread evicts the worker that the first has given back, for another key. -/
def evictionRun : List (Nat × Event Nat) := [
  (0, .checkout ⟨1, 1000⟩ 10), (0, .collect), (0, .remove), (0, .select 10),
  (1, .checkout ⟨2, 1000⟩ 20), (1, .collect), (1, .load .wouldBlock), (0, .storeSession 40),
  (0, .publish), (1, .remove), (1, .select 30), (0, .drop false 40), (0, .giveBack),
  (1, .wake 50), (1, .collect), (1, .load .wouldBlock), (1, .load .wouldBlock),
  (1, .load .wouldBlock), (1, .load (.opened false)), (1, .remove), (1, .select 50),
  (1, .select 60), (1, .storeSession 41), (1, .publish)]

theorem sessionPool_safe_evictionRun : ∃ world : World Nat (Pool Nat) (Phase Nat),
      Reaches (advance oneSession) (fun _ _ _ => True) emptyWorld world ∧
      CheckedOut world 1 1 ∧ world.shared.groups = [(2, [1])] ∧
      total world.shared.groups ≤ 1 ∧ (world.shared.worker 1).Ready := by
  have ran : (runChecked (advance oneSession) (fun _ _ _ => True) emptyWorld evictionRun).map
      (fun world => (world.process 1, world.shared.groups)) =
        some (.held 2 1, [(2, [1])]) := by decide
  obtain ⟨world, reachedBy, observed⟩ := map_eq_some_iff.mp ran
  rw [Prod.mk.injEq] at observed
  have reached := reaches_of_runChecked reachedBy
  have safe := sessionPool_safe reached
  have checkedOut : CheckedOut world 1 1 := ⟨2, observed.1⟩
  exact ⟨world, reached, checkedOut, observed.2, safe.1, safe.2.2.2.2 1 1 checkedOut⟩

def twoSessions : Settings Nat := { oneSession with maxSessions := 2 }

/-- A worker of key 2 is in use, and then one of key 1 is created and given back. -/
def idleElsewhereRun : List (Nat × Event Nat) := [
  (0, .checkout ⟨2, 1000⟩ 10), (0, .collect), (0, .remove), (0, .select 10),
  (1, .checkout ⟨1, 1000⟩ 20), (1, .collect), (1, .load .wouldBlock), (1, .remove), (1, .select 20),
  (1, .storeSession 40), (1, .publish), (1, .drop false 30), (1, .giveBack)]

/-- Key 2 has given its worker back too, so it takes that one and the worker of key 1 stays. -/
theorem sparesOthers_fullGroupRun : ∃ world : World Nat (Pool Nat) (Phase Nat),
    world.shared.groups = [(1, [1]), (2, [0])] ∧ (world.shared.worker 1).busy = false ∧
      1 ∈ group 1 (selectWorker twoSessions world.shared ⟨2, 1000⟩ 50).2.groups := by
  have ran : (runChecked (advance twoSessions) (fun _ _ _ => True) emptyWorld (idleElsewhereRun ++
      [(0, .storeSession 41), (0, .publish), (0, .drop false 40), (0, .giveBack)])).map
      (fun world => (world.shared.groups, (world.shared.worker 0).busy,
        (world.shared.worker 1).busy)) = some ([(1, [1]), (2, [0])], false, false) := by decide
  obtain ⟨world, reachedBy, observed⟩ := map_eq_some_iff.mp ran
  simp only [Prod.mk.injEq] at observed
  obtain ⟨groups, ownIdle, idle⟩ := observed
  have spares := @sparesOthers_iff _ _ _ _ _ _ (reaches_of_runChecked reachedBy) ⟨2, 1000⟩
    (by rw [groups]; decide) 50
  refine ⟨world, groups, idle, spares.mpr (.inr (.inl ⟨0, ?_, ownIdle⟩)) 1 1 ?_ ?_ idle⟩
  · rw [groups]
    decide
  · decide
  · rw [groups]
    decide

/-- The worker of key 1 is evicted, although no worker of key 2 can be created. -/
theorem fullGroup_evicts : ∃ world : World Nat (Pool Nat) (Phase Nat),
      Reaches (advance twoSessions) (fun _ _ _ => True) emptyWorld world ∧
      twoSessions.limit 2 ≤ (group 2 world.shared.groups).length ∧
      ¬SparesOthers 2 world.shared (selectWorker twoSessions world.shared ⟨2, 1000⟩ 50).2 := by
  have ran : (runChecked (advance twoSessions) (fun _ _ _ => True) emptyWorld idleElsewhereRun).map
      (fun world => (world.shared.groups, (world.shared.worker 1).busy,
        (selectWorker twoSessions world.shared ⟨2, 1000⟩ 50).2.groups)) =
      some ([(1, [1]), (2, [0])], false, [(2, [0])]) := by decide
  obtain ⟨world, reachedBy, observed⟩ := map_eq_some_iff.mp ran
  simp only [Prod.mk.injEq] at observed
  obtain ⟨groups, idle, after⟩ := observed
  refine ⟨world, reaches_of_runChecked reachedBy, by rw [groups]; decide, fun spares => ?_⟩
  have still := spares 1 1 (by decide) (by rw [groups]; decide) idle
  rw [after] at still
  exact absurd still (by decide)

end Mcpace.Upstream.SessionPool

import Mcpace.Library.OrderedMap
import Mcpace.Upstream.LeaseQueue

/-!
Contract: a lane that anybody still refers to is not pruned, so one key never has two lanes in
use.

Mirrors `enqueue`, `prune_empty_lanes` and the drop of tickets of `src/upstream/lease_queue.rs`.
Lanes are numbered as they are allocated, and the strong count of each `Arc` is kept as the
program counts it. The registry lock is held while the lanes are judged one by one; the other
threads go on with the lanes they refer to meanwhile.

Does not own: what happens within a lane.
-/

namespace Mcpace.Upstream.LaneRegistry

open Library Upstream.LeaseQueue OrderedMap Interleaving Function

def maxQueueLanes : Nat := 4096

structure QueueRegistry where
  lanes : List (String × Nat)
  locked : Bool
  allocated : Nat
  state : Nat → QueueLaneState
  strongCount : Nat → Nat

namespace QueueRegistry

/-- `Arc::new(QueueLane::default())`, kept under the key and returned as a second reference. -/
def create (laneKey : String) (registry : QueueRegistry) : QueueRegistry :=
  { registry with
    lanes := OrderedMap.insert laneKey registry.allocated registry.lanes
    allocated := registry.allocated + 1
    state := update registry.state registry.allocated .default
    strongCount := update registry.strongCount registry.allocated 2 }

def clone (lane : Nat) (registry : QueueRegistry) : QueueRegistry :=
  { registry with
    strongCount := update registry.strongCount lane (registry.strongCount lane + 1) }

/-- A reference is dropped. -/
def release (lane : Nat) (registry : QueueRegistry) : QueueRegistry :=
  { registry with
    strongCount := update registry.strongCount lane (registry.strongCount lane - 1) }

def write (lane : Nat) (state : QueueLaneState) (registry : QueueRegistry) : QueueRegistry :=
  { registry with state := update registry.state lane state }

theorem write_state (lane : Nat) (registry : QueueRegistry) :
    registry.write lane (registry.state lane) = registry := by
  rw [write, update_eq_self]

def isEmpty (lane : Nat) (registry : QueueRegistry) : Bool :=
  (registry.state lane).waiting = 0 ∧ registry.strongCount lane = 1

def remove (laneKey : String) (registry : QueueRegistry) : QueueRegistry :=
  match get laneKey registry.lanes with
  | none => registry
  | some lane =>
    release lane { registry with lanes := OrderedMap.remove laneKey registry.lanes }

/-- The end of `prune_empty_lanes`. -/
def removeAll (laneKeys : List String) (registry : QueueRegistry) : QueueRegistry :=
  laneKeys.foldl (fun registry laneKey => registry.remove laneKey) registry

/-- The lane of the key, looked up or made. -/
def resolve (laneKey : String) (registry : QueueRegistry) :
    Except LeaseQueueError (Nat × QueueRegistry) :=
  match get laneKey registry.lanes with
  | some lane => .ok (lane, registry.clone lane)
  | none =>
    if registry.lanes.length ≥ maxQueueLanes then .error (.laneLimit maxQueueLanes)
    else .ok (registry.allocated, registry.create laneKey)

end QueueRegistry

/-- Where a thread is: pruning with the registry lock held, between the registry section and the
lane section of `enqueue`, with a ticket, or about to drop its reference. -/
inductive Phase where
  | idle
  | pruning (laneKey : String) (maxDepth : Nat) (remaining : List (String × Nat))
      (emptied : List String)
  | entering (laneKey : String) (maxDepth : Nat) (lane : Nat)
  | queued (laneKey : String) (lane : Nat) (position : LeaseQueuePosition)
  | leaving (laneKey : String) (lane : Nat)
deriving DecidableEq

inductive Event where
  | enqueue (laneKey : String) (maxDepth : Nat)
  | judge
  | resolve
  | issue
  | waitUntilHead
  | finish (cancelled : Bool)
  | release
deriving DecidableEq

def advance (registry : QueueRegistry) : Phase → Event → Option (Phase × QueueRegistry)
  | .idle, .enqueue laneKey maxDepth =>
    if registry.locked then none
    else some (.pruning laneKey maxDepth registry.lanes [], { registry with locked := true })
  | .pruning laneKey maxDepth ((key, lane) :: remaining) emptied, .judge =>
    let emptied := if registry.isEmpty lane then emptied ++ [key] else emptied
    some (.pruning laneKey maxDepth remaining emptied, registry)
  | .pruning laneKey maxDepth [] emptied, .resolve =>
    let registry := { registry.removeAll emptied with locked := false }
    match registry.resolve laneKey with
    | .error _ => some (.idle, registry)
    | .ok (lane, registry) => some (.entering laneKey maxDepth lane, registry)
  | .entering laneKey maxDepth lane, .issue =>
    match issue laneKey maxDepth (registry.state lane) with
    | .error _ => some (.leaving laneKey lane, registry)
    | .ok (position, state) => some (.queued laneKey lane position, registry.write lane state)
  | .queued laneKey lane position, .waitUntilHead =>
    some (.queued laneKey lane position,
      registry.write lane (advanceCancelled (registry.state lane)))
  | .queued laneKey lane position, .finish cancelled =>
    some (.leaving laneKey lane,
      registry.write lane (finish position.ticket cancelled (registry.state lane)))
  | .leaving _ lane, .release => some (.idle, registry.release lane)
  | _, _ => none

variable {P : Type*}

def emptyRegistry : World P QueueRegistry Phase where
  shared := {
    lanes := []
    locked := false
    allocated := 0
    state := fun _ => .default
    strongCount := fun _ => 0 }
  process := fun _ => .idle

/-- The lane a thread refers to, and the key it was found under. -/
def Phase.handle : Phase → Option (String × Nat)
  | .idle => none
  | .pruning .. => none
  | .entering laneKey _ lane => some (laneKey, lane)
  | .queued laneKey lane _ => some (laneKey, lane)
  | .leaving laneKey lane => some (laneKey, lane)

def Phase.guards : Phase → Bool
  | .pruning .. => true
  | _ => false

/-- The thread has a ticket of the lane, taken under the key. -/
def HasTicket (world : World P QueueRegistry Phase) (thread : P) (laneKey : String)
    (lane : Nat) : Prop :=
  ∃ position, world.process thread = .queued laneKey lane position

/-! ### Reference counts -/

section Counts

/-- Registered lanes were allocated, have one key each, and are counted once for the registry
and once for every thread that refers to them. -/
structure Sound (holders : Nat → Finset P) (registry : QueueRegistry) : Prop where
  sorted : Sorted registry.lanes
  allocated : ∀ key lane, get key registry.lanes = some lane → lane < registry.allocated
  distinct : ∀ key other lane, get key registry.lanes = some lane →
    get other registry.lanes = some lane → key = other
  counted : ∀ key lane, get key registry.lanes = some lane →
    registry.strongCount lane = (holders lane).card + 1

variable {holders : Nat → Finset P} {registry : QueueRegistry} {laneKey : String} {lane : Nat}

theorem QueueRegistry.get_remove (other : String) : get other (registry.remove laneKey).lanes =
      if other = laneKey then none else get other registry.lanes := by
  rw [remove]
  cases found : get laneKey registry.lanes with
  | none =>
    by_cases same : other = laneKey
    · rw [if_pos same, same]
      exact found
    · rw [if_neg same]
  | some lane =>
    by_cases same : other = laneKey
    · rw [if_pos same, same]
      exact get_remove_self laneKey registry.lanes
    · rw [if_neg same]
      exact get_remove_of_ne same registry.lanes

theorem QueueRegistry.get_removeAll (laneKeys : List String) (other : String) :
    get other (registry.removeAll laneKeys).lanes =
      if other ∈ laneKeys then none else get other registry.lanes := by
  induction laneKeys generalizing registry with
  | nil => rw [if_neg List.not_mem_nil]; rfl
  | cons laneKey rest ih =>
    rw [removeAll, List.foldl_cons]
    have later := @ih (registry.remove laneKey)
    rw [removeAll, get_remove] at later
    rw [later]
    by_cases first : other = laneKey <;> by_cases member : other ∈ rest <;>
      simp [first, member]

namespace Sound

section

variable (sound : Sound holders registry)

include sound

theorem remove : Sound holders (registry.remove laneKey) := by
  rw [QueueRegistry.remove]
  cases found : get laneKey registry.lanes with
  | none => exact sound
  | some lane =>
    have kept : ∀ key other,
        OrderedMap.get key (OrderedMap.remove laneKey registry.lanes) = some other →
        get key registry.lanes = some other ∧ other ≠ lane := by
      intro key other present
      have different : key ≠ laneKey := by
        intro same
        rw [same, get_remove_self] at present
        cases present
      rw [get_remove_of_ne different] at present
      refine ⟨present, ?_⟩
      intro same
      rw [same] at present
      exact different (sound.distinct key laneKey lane present found)
    refine ⟨sorted_remove sound.sorted, ?_, ?_, ?_⟩
    · intro key other present
      exact sound.allocated key other (kept key other present).1
    · intro key other shared present presentOther
      exact sound.distinct key other shared (kept key shared present).1
        (kept other shared presentOther).1
    · intro key other present
      obtain ⟨before, different⟩ := kept key other present
      have counted := sound.counted key other before
      simp only [QueueRegistry.release, update_of_ne different]
      exact counted

theorem removeAll (laneKeys : List String) :
    Sound holders (registry.removeAll laneKeys) := by
  induction laneKeys generalizing registry with
  | nil => exact sound
  | cons laneKey rest ih => exact ih sound.remove

theorem write (state : QueueLaneState) :
    Sound holders (registry.write lane state) :=
  ⟨sound.sorted, sound.allocated, sound.distinct, sound.counted⟩

theorem create (thread : P) :
    Sound (update holders registry.allocated {thread}) (registry.create laneKey) := by
  have allocated := sound.allocated
  have distinct := sound.distinct
  have counted := sound.counted
  refine ⟨sorted_insert sound.sorted, ?_, ?_, ?_⟩
  · intro key lane present
    simp only [QueueRegistry.create, get_insert] at present ⊢
    grind
  · intro key other lane present presentOther
    simp only [QueueRegistry.create, get_insert] at present presentOther
    grind
  · intro key lane present
    simp only [QueueRegistry.create, get_insert] at present ⊢
    grind [update_apply, Finset.card_singleton]

end

variable [DecidableEq P] {thread : P}

theorem clone (sound : Sound holders registry) (fresh : thread ∉ holders lane) :
    Sound (update holders lane (insert thread (holders lane)))
      (registry.clone lane) := by
  refine ⟨sound.sorted, sound.allocated, sound.distinct, ?_⟩
  intro key other present
  have counted := sound.counted key other present
  by_cases same : other = lane
  · rw [same] at counted
    simp only [same, QueueRegistry.clone, update_self, Finset.card_insert_of_notMem fresh, counted]
  · simp only [QueueRegistry.clone, update_of_ne same, counted]

theorem release (sound : Sound holders registry) (held : thread ∈ holders lane) :
    Sound (update holders lane ((holders lane).erase thread))
      (registry.release lane) := by
  refine ⟨sound.sorted, sound.allocated, sound.distinct, ?_⟩
  intro key other present
  have counted := sound.counted key other present
  by_cases same : other = lane
  · have positive := Finset.card_pos.mpr ⟨thread, held⟩
    rw [same] at counted
    simp only [same, QueueRegistry.release, update_self, Finset.card_erase_of_mem held, counted]
    omega
  · simp only [QueueRegistry.release, update_of_ne same, counted]

end Sound

end Counts

/-! ### Interleavings -/

/-- A thread that refers to a lane finds it registered under its key. The lanes judged empty
are referred to by nobody, and stay so while the lock is held. -/
structure Invariant (holders : Nat → Finset P) (world : World P QueueRegistry Phase) : Prop where
  sound : Sound holders world.shared
  holds : ∀ thread lane, thread ∈ holders lane ↔
    ∃ laneKey, (world.process thread).handle = some (laneKey, lane)
  registered : ∀ thread laneKey lane, (world.process thread).handle = some (laneKey, lane) →
    get laneKey world.shared.lanes = some lane
  locked : ∀ thread, (world.process thread).guards → world.shared.locked
  guarded : ∀ first second, (world.process first).guards → (world.process second).guards →
    first = second
  visited : ∀ thread laneKey maxDepth remaining emptied,
    world.process thread = .pruning laneKey maxDepth remaining emptied →
    ∀ key lane, (key, lane) ∈ remaining → get key world.shared.lanes = some lane
  unused : ∀ thread laneKey maxDepth remaining emptied,
    world.process thread = .pruning laneKey maxDepth remaining emptied →
    ∀ key lane, key ∈ emptied → get key world.shared.lanes = some lane → holders lane = ∅

namespace Invariant

variable [DecidableEq P] {holders : Nat → Finset P} {world : World P QueueRegistry Phase}
  {thread : P} {phase : Phase} {laneKey : String} {lane : Nat}

/-- A thread that stays with its lane may write it. -/
theorem write (invariant : Invariant holders world)
    (before : (world.process thread).handle = some (laneKey, lane))
    (after : phase.handle = some (laneKey, lane)) (state : QueueLaneState) :
    Invariant holders
      ⟨world.shared.write lane state, update world.process thread phase⟩ := by
  have unguarded : phase.guards = false := by
    cases phase with
    | pruning => cases after
    | _ => rfl
  have handles : ∀ other, (update world.process thread phase other).handle =
      (world.process other).handle := by
    intro other
    by_cases mover : other = thread
    · rw [mover, update_self, before, after]
    · rw [update_of_ne mover]
  obtain ⟨sound, holds, registered, locked, guarded, visited, unused⟩ := invariant
  constructor
  · exact sound.write state
  · simpa only [handles] using holds
  · simpa only [handles, QueueRegistry.write] using registered
  all_goals grind [update_apply, QueueRegistry.write, Phase.guards]

/-- The lock is free, so nobody prunes. -/
theorem enqueue (invariant : Invariant holders world) (laneKey : String) (maxDepth : Nat)
    (idle : world.process thread = .idle) (free : world.shared.locked = false) :
    Invariant holders ⟨{ world.shared with locked := true }, update world.process thread
        (.pruning laneKey maxDepth world.shared.lanes [])⟩ := by
  obtain ⟨sound, holds, registered, locked, guarded, visited, unused⟩ := invariant
  have nobody : ∀ other, (world.process other).guards = false := by
    intro other
    have closed := locked other
    rw [free] at closed
    cases guards : (world.process other).guards with
    | false => rfl
    | true => cases closed guards
  constructor
  · exact ⟨sound.sorted, sound.allocated, sound.distinct, sound.counted⟩
  · grind [update_apply, Phase.handle]
  · grind [update_apply, Phase.handle]
  · grind [update_apply]
  · grind [update_apply]
  · have present : ∀ key lane, (key, lane) ∈ world.shared.lanes →
        get key world.shared.lanes = some lane :=
      fun key lane member => get_of_mem sound.sorted member
    grind [update_apply, Phase.guards]
  · grind [update_apply, Phase.guards]

variable {maxDepth : Nat} {remaining : List (String × Nat)} {emptied : List String}

section

variable (invariant : Invariant holders world)

include invariant

/-- A lane counted once is referred to by the registry alone. -/
theorem judge {key : String} (pruning : world.process thread =
      .pruning laneKey maxDepth ((key, lane) :: remaining) emptied) :
    Invariant holders ⟨world.shared, update world.process thread
      (.pruning laneKey maxDepth remaining
        (if world.shared.isEmpty lane then emptied ++ [key] else emptied))⟩ := by
  have present : get key world.shared.lanes = some lane :=
    invariant.visited _ _ _ _ _ pruning key lane List.mem_cons_self
  have unreferenced : world.shared.isEmpty lane → holders lane = ∅ := by
    intro judged
    have once := (of_decide_eq_true judged).2
    rw [invariant.sound.counted key lane present] at once
    exact Finset.card_eq_zero.mp (Nat.succ.inj once)
  obtain ⟨sound, holds, registered, locked, guarded, visited, unused⟩ := invariant
  constructor
  · exact sound
  all_goals grind [update_apply, Phase.handle, Phase.guards]

/-- Removing the lanes judged empty takes no lane from a thread that refers to it. -/
theorem prune (pruning : world.process thread = .pruning laneKey maxDepth remaining emptied) :
    Invariant holders ⟨{ world.shared.removeAll emptied with locked := false },
      update world.process thread .idle⟩ := by
  have removed := @QueueRegistry.get_removeAll world.shared emptied
  have sound := invariant.sound.removeAll emptied
  have nobodyElse : ∀ other, (update world.process thread .idle other).guards =
      false := by
    intro other
    have alone := invariant.guarded other thread
    rw [pruning] at alone
    grind [update_apply, Phase.guards]
  have holds := invariant.holds
  have registered := invariant.registered
  have unused := invariant.unused thread _ _ _ _ pruning
  constructor
  · exact ⟨sound.sorted, sound.allocated, sound.distinct, sound.counted⟩
  · grind [update_apply, Phase.handle]
  · intro other otherKey lane refers
    have mover : other ≠ thread := by grind [update_apply, Phase.handle]
    simp only [update_of_ne mover] at refers
    have before := registered other otherKey lane refers
    have member := (holds other lane).mpr ⟨otherKey, refers⟩
    have kept : otherKey ∉ emptied := by
      intro judged
      rw [unused otherKey lane judged before] at member
      exact Finset.notMem_empty other member
    simp only [removed, if_neg kept]
    exact before
  all_goals grind [Phase.guards]

/-- A thread takes a reference to the lane of its key. -/
theorem clone (maxDepth : Nat)
    (idle : world.process thread = .idle) (nobody : ∀ other, (world.process other).guards = false)
    (found : get laneKey world.shared.lanes = some lane) :
    Invariant (update holders lane (insert thread (holders lane)))
      ⟨world.shared.clone lane, update world.process thread (.entering laneKey maxDepth lane)⟩ := by
  obtain ⟨sound, holds, registered, locked, guarded, visited, unused⟩ := invariant
  have fresh : thread ∉ holders lane := by
    rw [holds, idle]
    intro ⟨key, refers⟩
    cases refers
  constructor
  · exact sound.clone fresh
  all_goals grind [update_apply, Phase.handle, QueueRegistry.clone, Phase.guards]

/-- A new lane is referred to by the thread that made it. -/
theorem create {laneKey : String} (maxDepth : Nat) (idle : world.process thread = .idle)
    (nobody : ∀ other, (world.process other).guards = false)
    (absent : get laneKey world.shared.lanes = none) :
    Invariant (update holders world.shared.allocated {thread})
      ⟨world.shared.create laneKey, update world.process thread
        (.entering laneKey maxDepth world.shared.allocated)⟩ := by
  obtain ⟨sound, holds, registered, locked, guarded, visited, unused⟩ := invariant
  have unreferenced : ∀ other key,
      (world.process other).handle ≠ some (key, world.shared.allocated) := by
    intro other key refers
    exact lt_irrefl _ (sound.allocated key _ (registered other key _ refers))
  constructor
  · exact sound.create thread
  · intro other lane
    by_cases made : lane = world.shared.allocated
    · have refused := unreferenced other
      rw [made, update_self, Finset.mem_singleton]
      constructor
      · intro same
        exact ⟨laneKey, by grind [update_apply, Phase.handle]⟩
      · rintro ⟨key, refers⟩
        grind [update_apply, Phase.handle]
    · grind [update_apply, Phase.handle]
  · intro other key lane refers
    simp only [QueueRegistry.create, get_insert]
    grind [update_apply, Phase.handle]
  all_goals grind [update_apply, Phase.guards]

/-- A thread drops its reference. -/
theorem release (refers : (world.process thread).handle = some (laneKey, lane)) :
    Invariant (update holders lane ((holders lane).erase thread))
      ⟨world.shared.release lane, update world.process thread .idle⟩ := by
  obtain ⟨sound, holds, registered, locked, guarded, visited, unused⟩ := invariant
  have held : thread ∈ holders lane := (holds thread lane).mpr ⟨laneKey, refers⟩
  constructor
  · exact sound.release held
  all_goals grind [update_apply, Phase.handle, QueueRegistry.release, Phase.guards]

end

variable {registry : QueueRegistry}

/-- The registry section ends: prune, then look the lane up or make it. -/
theorem resolve (invariant : Invariant holders world)
    (pruning : world.process thread = .pruning laneKey maxDepth [] emptied)
    (advanced : advance world.shared (.pruning laneKey maxDepth [] emptied) .resolve =
      some (phase, registry)) :
    ∃ holders, Invariant holders ⟨registry, update world.process thread phase⟩ := by
  have pruned := invariant.prune pruning
  have idle : update world.process thread .idle thread = .idle := update_self ..
  have nobody : ∀ other, (update world.process thread .idle other).guards = false := by
    intro other
    have closed := pruned.locked other
    cases guards : (update world.process thread .idle other).guards with
    | false => rfl
    | true => cases closed guards
  rw [advance, QueueRegistry.resolve] at advanced
  cases found : get laneKey (world.shared.removeAll emptied).lanes with
  | some lane =>
    simp only [found] at advanced
    cases advanced
    have acquired := pruned.clone maxDepth idle nobody found
    rw [update_idem] at acquired
    exact ⟨_, acquired⟩
  | none =>
    simp only [found] at advanced
    by_cases crowded : (world.shared.removeAll emptied).lanes.length ≥ maxQueueLanes
    · simp only [if_pos crowded] at advanced
      cases advanced
      exact ⟨holders, pruned⟩
    · simp only [if_neg crowded] at advanced
      cases advanced
      have acquired := pruned.create maxDepth idle nobody found
      rw [update_idem] at acquired
      exact ⟨_, acquired⟩

theorem step (invariant : Invariant holders world) {event : Event}
    (advanced : advance world.shared (world.process thread) event = some (phase, registry)) :
    ∃ holders, Invariant holders ⟨registry, update world.process thread phase⟩ := by
  unfold advance at advanced
  split at advanced
  · -- enqueue
    rename_i idle
    split at advanced <;> cases advanced
    rename_i free
    exact ⟨holders, invariant.enqueue _ _ idle (Bool.eq_false_iff.mpr free)⟩
  · rename_i pruning
    cases advanced
    exact ⟨holders, invariant.judge pruning⟩
  · rename_i pruning
    exact invariant.resolve pruning advanced
  · -- issue: a refused ticket leaves the lane as it is
    rename_i lane entering
    have refers := congrArg Phase.handle entering
    split at advanced <;> cases advanced
    · rw [← QueueRegistry.write_state lane world.shared]
      exact ⟨holders, invariant.write refers rfl _⟩
    · exact ⟨holders, invariant.write refers rfl _⟩
  · rename_i queued
    cases advanced
    exact ⟨holders, invariant.write (congrArg Phase.handle queued) rfl _⟩
  · rename_i queued
    cases advanced
    exact ⟨holders, invariant.write (congrArg Phase.handle queued) rfl _⟩
  · rename_i leaving
    cases advanced
    exact ⟨_, invariant.release (congrArg Phase.handle leaving)⟩
  · cases advanced

end Invariant

theorem invariant_emptyRegistry :
    Invariant (fun _ => ∅) (emptyRegistry : World P QueueRegistry Phase) where
  sound := {
    sorted := sorted_nil
    allocated := nofun
    distinct := nofun
    counted := fun _ _ present => by cases present }
  holds := by
    intro thread lane
    constructor
    · intro member
      exact absurd member (Finset.notMem_empty thread)
    · intro ⟨laneKey, refers⟩
      cases refers
  registered := nofun
  locked := nofun
  guarded := nofun
  visited := nofun
  unused := nofun

/-- In every state of every interleaving, the tickets of one key are tickets of one lane, and
the registry has that lane under the key. The same holds of every reference a thread has to a
lane before its ticket is issued and after it is finished. -/
theorem tickets_share_lane [DecidableEq P] {world : World P QueueRegistry Phase}
    (reached : Reaches advance (fun _ _ _ => True) emptyRegistry world) :
    (∀ first second laneKey lane otherLane, HasTicket world first laneKey lane →
        HasTicket world second laneKey otherLane → lane = otherLane) ∧
      (∀ thread laneKey lane, HasTicket world thread laneKey lane →
        get laneKey world.shared.lanes = some lane) ∧
      ∀ thread laneKey lane, (world.process thread).handle = some (laneKey, lane) →
        get laneKey world.shared.lanes = some lane := by
  have kept : ∃ holders, Invariant holders world := by
    apply reached.invariant ⟨_, invariant_emptyRegistry⟩
    intro earlier thread event phase registry ⟨holders, invariant⟩ advanced _
    exact invariant.step advanced
  obtain ⟨holders, invariant⟩ := kept
  have registered : ∀ thread laneKey lane, HasTicket world thread laneKey lane →
      get laneKey world.shared.lanes = some lane := by
    intro thread laneKey lane ⟨position, queued⟩
    apply invariant.registered thread
    rw [queued, Phase.handle]
  refine ⟨?_, registered, invariant.registered⟩
  intro first second laneKey lane otherLane ticket otherTicket
  have here := registered first laneKey lane ticket
  rw [registered second laneKey otherLane otherTicket] at here
  exact (Option.some.inj here).symm

/-- The first thread's lane is empty but referred to when the second prunes, and both then queue
in it; a third thread's prune removes the lane of another key that nobody uses any more. -/
def pruningRun : List (Nat × Event) := [
  (2, .enqueue "a" 1), (2, .resolve), (2, .issue), (2, .finish true), (2, .release),
  (0, .enqueue "b" 2), (0, .judge), (0, .resolve), (1, .enqueue "b" 2), (1, .judge),
  (0, .issue), (1, .resolve), (1, .issue)]

theorem tickets_share_lane_pruningRun : ∃ world : World Nat QueueRegistry Phase,
      Reaches advance (fun _ _ _ => True) emptyRegistry world ∧
      HasTicket world 0 "b" 1 ∧ HasTicket world 1 "b" 1 ∧
      OrderedMap.get "b" world.shared.lanes = some 1 ∧
      OrderedMap.get "a" world.shared.lanes = none := by
  have ran : (runChecked advance (fun _ _ _ => True) emptyRegistry pruningRun).map
      (fun world => (world.process 0, world.process 1, OrderedMap.get "a" world.shared.lanes)) =
        some (.queued "b" 1 ⟨0, 1, 0⟩, .queued "b" 1 ⟨1, 2, 1⟩, none) := by
    decide
  obtain ⟨world, reachedBy, observed⟩ := Option.map_eq_some_iff.mp ran
  simp only [Prod.mk.injEq] at observed
  obtain ⟨first, second, pruned⟩ := observed
  have reached := reaches_of_runChecked reachedBy
  have shared := tickets_share_lane reached
  have ticket : HasTicket world 0 "b" 1 := ⟨_, first⟩
  exact ⟨world, reached, ticket, ⟨_, second⟩, shared.2.1 0 "b" 1 ticket, pruned⟩

end Mcpace.Upstream.LaneRegistry

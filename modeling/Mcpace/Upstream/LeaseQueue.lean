import Mcpace.Library.Interleaving
import Mcpace.Library.Machine
import Mcpace.Library.TicketQueue

/-!
Contract: one lane of the lease queue is first in, first out.

Mirrors `QueueLaneState`, `enqueue`, `wait_until_head`, `complete`, `finish` and
`repair_lane_state` of `src/upstream/lease_queue.rs`, one step per locked section. The ticket
counters are `u64` and saturate.

A lane in use is a ticket queue: `pending` of its counters is the list of the tickets that are
held, in the order they were issued.

Does not own: how lanes are found and pruned.
-/

namespace Mcpace.Upstream.LeaseQueue

open Library Interleaving List Function Machine TicketQueue

/-! ### Lanes -/

inductive LeaseQueueError where
  | laneLimit (maximum : Nat)
  | full (lane : String) (maximum : Nat)
  | timeout (lane : String) (ticket : Nat)
deriving DecidableEq, Repr

def LeaseQueueError.message : LeaseQueueError → String
  | .laneLimit maximum =>
    "upstream lease queue exceeded its " ++ toString maximum ++ "-lane safety limit"
  | .full lane maximum =>
    "upstream lease queue '" ++ lane ++ "' is full (maximum depth " ++ toString maximum ++ ")"
  | .timeout lane ticket =>
    "upstream lease queue '" ++ lane ++ "' timed out while waiting for ticket " ++
      toString ticket

structure QueueLaneState where
  nextTicket : Nat
  servingTicket : Nat
  waiting : Nat
  cancelled : Finset Nat
deriving DecidableEq

def QueueLaneState.default : QueueLaneState where
  nextTicket := 0
  servingTicket := 0
  waiting := 0
  cancelled := ∅

structure LeaseQueuePosition where
  ticket : Nat
  depthAtEnqueue : Nat
  aheadAtEnqueue : Nat
deriving DecidableEq, Repr

def u64Max : Nat := 2 ^ 64 - 1

/-- The loop of `advance_cancelled`. Every pass removes a cancelled ticket, so their number is
enough fuel. -/
def advanceCancelledFor : Nat → QueueLaneState → QueueLaneState
  | 0, lane => lane
  | fuel + 1, lane =>
    if lane.servingTicket ∈ lane.cancelled then
      advanceCancelledFor fuel { lane with
        servingTicket := saturatingAdd 64 lane.servingTicket 1
        cancelled := lane.cancelled.erase lane.servingTicket }
    else lane

def advanceCancelled (lane : QueueLaneState) : QueueLaneState :=
  advanceCancelledFor lane.cancelled.card lane

/-- The lane section of `enqueue`. -/
def issue (laneKey : String) (maxDepth : Nat) (lane : QueueLaneState) :
    Except LeaseQueueError (LeaseQueuePosition × QueueLaneState) :=
  let maxDepth := max maxDepth 1
  if lane.waiting ≥ maxDepth then .error (.full laneKey maxDepth)
  else
    let lane := advanceCancelled lane
    let waiting := saturatingAdd 64 lane.waiting 1
    .ok ({ ticket := lane.nextTicket
           depthAtEnqueue := waiting
           aheadAtEnqueue := lane.nextTicket - lane.servingTicket },
      { lane with nextTicket := saturatingAdd 64 lane.nextTicket 1, waiting := waiting })

/-- `finish`, on a lane whose lock is not poisoned. -/
def finish (ticket : Nat) (cancelled : Bool) (lane : QueueLaneState) : QueueLaneState :=
  let lane := { lane with waiting := lane.waiting - 1 }
  if ticket = lane.servingTicket then
    advanceCancelled { lane with servingTicket := saturatingAdd 64 lane.servingTicket 1 }
  else if cancelled ∧ ticket > lane.servingTicket then
    { lane with cancelled := insert ticket lane.cancelled }
  else lane

def repairLaneState (lane : QueueLaneState) : QueueLaneState :=
  let nextTicket := max lane.nextTicket lane.servingTicket
  let kept := lane.cancelled.filter (fun ticket =>
    ticket ≥ lane.servingTicket ∧ ticket < nextTicket)
  let advanced := advanceCancelled { lane with nextTicket := nextTicket, cancelled := kept }
  { advanced with
    waiting := (advanced.nextTicket - advanced.servingTicket) - advanced.cancelled.card }

/-! ### Lanes as ticket queues -/

namespace QueueLaneState

def pending (lane : QueueLaneState) : List Nat :=
  TicketQueue.pending lane.servingTicket lane.nextTicket lane.cancelled

/-- The lane is a ticket queue, counts its tickets, and has numbers left. -/
structure Sound (lane : QueueLaneState) : Prop where
  tickets : TicketQueue.WellFormed lane.servingTicket lane.nextTicket lane.cancelled
  waiting : lane.waiting = lane.pending.length
  room : lane.nextTicket < u64Max

/-- The ticket left the queue, and the counters did not go back. -/
structure Without (lane : QueueLaneState) (ticket : Nat) (after : QueueLaneState) : Prop where
  sound : after.Sound
  pending_eq : after.pending = lane.pending.erase ticket
  forward : lane.servingTicket ≤ after.servingTicket

end QueueLaneState

theorem saturatingAdd_one {value : Nat} (small : value < u64Max) :
    saturatingAdd 64 value 1 = value + 1 :=
  Nat.min_eq_left small

section Lanes

variable {lane : QueueLaneState}

theorem advanceCancelledFor_eq (fuel : Nat) (room : lane.nextTicket < u64Max)
    (issued : ∀ ticket ∈ lane.cancelled, ticket < lane.nextTicket) :
    advanceCancelledFor fuel lane = { lane with
      servingTicket := (skip fuel lane.servingTicket lane.cancelled).1
      cancelled := (skip fuel lane.servingTicket lane.cancelled).2 } := by
  induction fuel generalizing lane with
  | zero => rfl
  | succ fuel ih =>
    rw [advanceCancelledFor, skip]
    by_cases spent : lane.servingTicket ∈ lane.cancelled
    · have below : lane.servingTicket < u64Max := (issued _ spent).trans room
      rw [if_pos spent, if_pos spent, saturatingAdd_one below]
      exact ih room (fun ticket member => issued ticket (Finset.mem_of_mem_erase member))
    · rw [if_neg spent, if_neg spent]

theorem QueueLaneState.Sound.advanceCancelled_eq (sound : lane.Sound) :
    advanceCancelled lane = lane := by
  rw [advanceCancelled, advanceCancelledFor_eq _ sound.room
    (fun ticket member => (sound.tickets.issued ticket member).2),
    skip_of_wellFormed sound.tickets]

theorem QueueLaneState.Sound.repairLaneState_eq (sound : lane.Sound) :
    repairLaneState lane = lane := by
  have next : max lane.nextTicket lane.servingTicket = lane.nextTicket :=
    max_eq_left sound.tickets.ordered
  have kept : lane.cancelled.filter (fun ticket =>
      ticket ≥ lane.servingTicket ∧ ticket < lane.nextTicket) = lane.cancelled := by
    rw [Finset.filter_eq_self]
    intro ticket member
    have bounds := sound.tickets.issued ticket member
    omega
  have counted := length_pending sound.tickets
  have waiting := sound.waiting
  rw [QueueLaneState.pending] at waiting
  rw [repairLaneState]
  simp only [next, kept, sound.advanceCancelled_eq]
  rw [show lane.nextTicket - lane.servingTicket - lane.cancelled.card = lane.waiting by omega]

variable {position : LeaseQueuePosition} (sound : lane.Sound)

include sound

variable {laneKey : String} {maxDepth : Nat} {after : QueueLaneState}

section

variable (issued : issue laneKey maxDepth lane = .ok (position, after))

include issued

/-- An issued ticket is the lane's next one, and the lane only counts it. -/
theorem QueueLaneState.Sound.eq_of_issue :
    lane.waiting < max maxDepth 1 ∧ position =
        { ticket := lane.nextTicket
          depthAtEnqueue := saturatingAdd 64 lane.waiting 1
          aheadAtEnqueue := lane.nextTicket - lane.servingTicket } ∧
      after = { lane with
        nextTicket := saturatingAdd 64 lane.nextTicket 1
        waiting := saturatingAdd 64 lane.waiting 1 } := by
  rw [issue, sound.advanceCancelled_eq] at issued
  by_cases full : lane.waiting ≥ max maxDepth 1
  · rw [if_pos full] at issued
    cases issued
  · rw [if_neg full] at issued
    cases issued
    exact ⟨Nat.lt_of_not_ge full, rfl, rfl⟩

theorem QueueLaneState.Sound.ticket_of_issue :
    position.ticket = lane.nextTicket := by
  rw [(sound.eq_of_issue issued).2.1]

theorem QueueLaneState.Sound.issue_eq
    (room : after.nextTicket < u64Max) :
    after.Sound ∧ after.pending = lane.pending ++ [lane.nextTicket] ∧
      after.servingTicket = lane.servingTicket ∧ after.waiting ≤ max maxDepth 1 := by
  obtain ⟨space, -, rfl⟩ := sound.eq_of_issue issued
  have counted := length_pending sound.tickets
  have waiting := sound.waiting
  have next : saturatingAdd 64 lane.nextTicket 1 = lane.nextTicket + 1 :=
    saturatingAdd_one sound.room
  have grown : saturatingAdd 64 lane.waiting 1 = lane.waiting + 1 := by
    apply saturatingAdd_one
    have enough := sound.room
    rw [QueueLaneState.pending] at waiting
    omega
  have appended : TicketQueue.pending lane.servingTicket (lane.nextTicket + 1) lane.cancelled =
      lane.pending ++ [lane.nextTicket] := pending_issue sound.tickets
  rw [next] at room
  rw [next, grown]
  refine ⟨⟨⟨?_, ?_⟩, ?_, room⟩, appended, rfl, space⟩
  · exact Nat.le_succ_of_le sound.tickets.ordered
  · intro ticket member
    have bounds := sound.tickets.issued ticket member
    exact ⟨bounds.1, Nat.lt_succ_of_lt bounds.2⟩
  · rw [QueueLaneState.pending]
    simp only [appended]
    rw [List.length_append, List.length_singleton, waiting]

end

theorem QueueLaneState.Sound.finish_head (cancelled : Bool)
    (member : lane.servingTicket ∈ lane.pending) :
    lane.Without lane.servingTicket (finish lane.servingTicket cancelled lane) := by
  have waitingTicket : lane.servingTicket < lane.nextTicket :=
    (TicketQueue.mem_pending.mp member).2.1
  have below : lane.servingTicket < u64Max := waitingTicket.trans sound.room
  have cons := TicketQueue.pending_eq_cons sound.tickets waitingTicket
  have room := sound.room
  have counted := sound.waiting
  have issued : ∀ ticket ∈ lane.cancelled,
      lane.servingTicket + 1 ≤ ticket ∧ ticket < lane.nextTicket :=
    fun ticket given => sound.tickets.issued ticket given
  obtain ⟨wellFormed, same, above, -⟩ :=
    skip_spec (le_refl _) (Nat.succ_le_of_lt waitingTicket) issued
  have finished : finish lane.servingTicket cancelled lane = { lane with
      servingTicket := (skip lane.cancelled.card (lane.servingTicket + 1) lane.cancelled).1
      waiting := lane.waiting - 1
      cancelled := (skip lane.cancelled.card (lane.servingTicket + 1)
        lane.cancelled).2 } := by
    rw [finish, if_pos rfl, saturatingAdd_one below]
    exact advanceCancelledFor_eq _ room (fun ticket given => (issued ticket given).2)
  rw [finished]
  have erased : lane.pending.erase lane.servingTicket =
      TicketQueue.pending (lane.servingTicket + 1) lane.nextTicket lane.cancelled := by
    rw [QueueLaneState.pending, cons, erase_cons_head]
  refine ⟨⟨wellFormed, ?_, room⟩, same.trans erased.symm, (Nat.le_succ _).trans above⟩
  rw [QueueLaneState.pending] at counted ⊢
  simp only [same]
  rw [counted, cons, length_cons, Nat.add_sub_cancel]

variable {ticket : Nat}

/-- Giving up a number in the middle of the queue erases it. -/
theorem QueueLaneState.Sound.finish_cancelled (member : ticket ∈ lane.pending)
    (later : ticket ≠ lane.servingTicket) : lane.Without ticket (finish ticket true lane) := by
  obtain ⟨low, high, -⟩ := TicketQueue.mem_pending.mp member
  have above : ticket > lane.servingTicket := lt_of_le_of_ne low later.symm
  have erased : TicketQueue.pending lane.servingTicket lane.nextTicket
      (insert ticket lane.cancelled) = lane.pending.erase ticket :=
    TicketQueue.pending_cancel ticket
  have finished : finish ticket true lane = { lane with
      waiting := lane.waiting - 1
      cancelled := insert ticket lane.cancelled } := by
    rw [finish, if_neg later, if_pos ⟨rfl, above⟩]
  rw [finished]
  refine ⟨⟨⟨sound.tickets.ordered, ?_⟩, ?_, sound.room⟩, erased, le_refl _⟩
  · intro other given
    rcases Finset.mem_insert.mp given with same | before
    · rw [same]
      exact ⟨above, high⟩
    · exact sound.tickets.issued other before
  · rw [QueueLaneState.pending]
    simp only [erased]
    rw [sound.waiting, length_erase_of_mem member]

/-- A ticket that is finished leaves the queue, wherever it stands; only the head may be
finished without giving it up. -/
theorem QueueLaneState.Sound.finish_eq {cancelled : Bool} (member : ticket ∈ lane.pending)
    (head : cancelled = false → ticket = lane.servingTicket) :
    lane.Without ticket (finish ticket cancelled lane) := by
  by_cases served : ticket = lane.servingTicket
  · rw [served] at member ⊢
    exact sound.finish_head cancelled member
  · cases cancelled with
    | false => exact absurd (head rfl) served
    | true => exact sound.finish_cancelled member served

end Lanes

/-! ### Threads on one lane -/

/-- A thread and its ticket; `head` says that `wait_until_head` returned `Ok` for it. -/
inductive Holder where
  | idle
  | queued (position : LeaseQueuePosition) (head : Bool)
deriving DecidableEq

def Holder.ticket : Holder → Option Nat
  | .idle => none
  | .queued position _ => some position.ticket

inductive Event where
  | enqueue (maxDepth : Nat)
  | waitUntilHead
  | complete
  | drop
deriving DecidableEq

def Event.maxDepth : Event → Nat
  | .enqueue maxDepth => maxDepth
  | _ => 0

/-- Whether `wait_until_head` returns `Ok` on this pass of its loop. -/
def isHead (position : LeaseQueuePosition) (lane : QueueLaneState) : Bool :=
  (advanceCancelled lane).servingTicket = position.ticket

/-- One locked section. A pass of the loop of `wait_until_head` that is not served waits on or
times out, and leaves the lane to the others in either case; `complete` takes a ticket that was
the head. -/
def advance (laneKey : String) (lane : QueueLaneState) :
    Holder → Event → Option (Holder × QueueLaneState)
  | .idle, .enqueue maxDepth =>
    match issue laneKey maxDepth lane with
    | .error _ => some (.idle, lane)
    | .ok (position, lane) => some (.queued position false, lane)
  | .queued position head, .waitUntilHead =>
    some (.queued position (head || isHead position lane), advanceCancelled lane)
  | .queued position true, .complete => some (.idle, finish position.ticket false lane)
  | .queued position _, .drop => some (.idle, finish position.ticket true lane)
  | _, _ => none

variable {P : Type*}

/-- Depths are at most `depth`, and fewer than `2 ^ 64 - 1` tickets are issued. -/
def Bounded (depth : Nat) (_world : World P QueueLaneState Holder) (action : P × Event)
    (next : World P QueueLaneState Holder) : Prop :=
  action.2.maxDepth ≤ depth ∧ next.shared.nextTicket < u64Max

instance (depth : Nat) (world : World P QueueLaneState Holder) (action : P × Event)
    (next : World P QueueLaneState Holder) : Decidable (Bounded depth world action next) :=
  inferInstanceAs (Decidable (_ ∧ _))

def emptyLane : World P QueueLaneState Holder where
  shared := .default
  process := fun _ => .idle

/-- Somebody holds the ticket. -/
def Outstanding (world : World P QueueLaneState Holder) (ticket : Nat) : Prop :=
  ∃ process, (world.process process).ticket = some ticket

/-- The number of tickets that are held and were issued before the position. -/
noncomputable def heldBefore (world : World P QueueLaneState Holder)
    (position : LeaseQueuePosition) : Nat :=
  {ticket | Outstanding world ticket ∧ ticket < position.ticket}.ncard

structure LaneInvariant (depth : Nat) (world : World P QueueLaneState Holder) : Prop where
  sound : world.shared.Sound
  shallow : world.shared.waiting ≤ max depth 1
  held : ∀ ticket, ticket ∈ world.shared.pending ↔ Outstanding world ticket
  alone : ∀ first second ticket, (world.process first).ticket = some ticket →
    (world.process second).ticket = some ticket → first = second
  served : ∀ process position, world.process process = .queued position true →
    position.ticket = world.shared.servingTicket

namespace LaneInvariant

variable {depth : Nat} {world : World P QueueLaneState Holder}

theorem isHead_iff (invariant : LaneInvariant depth world) (position : LeaseQueuePosition) :
    isHead position world.shared ↔ position.ticket = world.shared.servingTicket := by
  rw [isHead, invariant.sound.advanceCancelled_eq, decide_eq_true_eq, eq_comm]

variable {ticket : Nat}

section

variable (invariant : LaneInvariant depth world)

include invariant

theorem servingTicket_le (outstanding : Outstanding world ticket) :
    world.shared.servingTicket ≤ ticket :=
  (TicketQueue.mem_pending.mp ((invariant.held ticket).mpr outstanding)).1

theorem lt_nextTicket (outstanding : Outstanding world ticket) : ticket < world.shared.nextTicket :=
  (TicketQueue.mem_pending.mp ((invariant.held ticket).mpr outstanding)).2.1

/-- The served number is held by somebody as soon as any number is. -/
theorem outstanding_servingTicket (outstanding : Outstanding world ticket) :
    Outstanding world world.shared.servingTicket := by
  have nonempty : world.shared.servingTicket < world.shared.nextTicket :=
    (invariant.servingTicket_le outstanding).trans_lt (invariant.lt_nextTicket outstanding)
  apply (invariant.held _).mp
  rw [QueueLaneState.pending, TicketQueue.pending_eq_cons invariant.sound.tickets nonempty]
  exact mem_cons_self

theorem waiting_eq_ncard : world.shared.waiting = {ticket | Outstanding world ticket}.ncard := by
  have nodup : world.shared.pending.Nodup := TicketQueue.nodup_pending ..
  have same : {ticket | Outstanding world ticket} = world.shared.pending.toFinset := by
    ext ticket
    rw [Set.mem_ofPred_eq, ← invariant.held, Finset.mem_coe, List.mem_toFinset]
  rw [same, Set.ncard_coe_finset, toFinset_card_of_nodup nodup, invariant.sound.waiting]

/-- Whoever holds a ticket had it before the next one is issued. -/
theorem heldBefore_eq {laneKey : String} {maxDepth : Nat} {position : LeaseQueuePosition}
    {lane : QueueLaneState} (issued : issue laneKey maxDepth world.shared = .ok (position, lane)) :
    heldBefore world position = world.shared.waiting := by
  rw [heldBefore, invariant.waiting_eq_ncard, invariant.sound.ticket_of_issue issued]
  congr 1
  ext ticket
  exact and_iff_left_of_imp invariant.lt_nextTicket

end

variable [DecidableEq P] {process : P} {position : LeaseQueuePosition}
  (invariant : LaneInvariant depth world)

include invariant

variable {laneKey : String}

/-- A new ticket enters at the end of the queue. -/
theorem enqueue {maxDepth : Nat} (idle : world.process process = .idle) {after : QueueLaneState}
    (issued : issue laneKey maxDepth world.shared = .ok (position, after))
    (bound : maxDepth ≤ depth) (room : after.nextTicket < u64Max) :
    LaneInvariant depth
      ⟨after, update world.process process (.queued position false)⟩ := by
  obtain ⟨sound, appended, serving, shallow⟩ := invariant.sound.issue_eq issued room
  have fresh := invariant.sound.ticket_of_issue issued
  have issuedBefore : ∀ other ticket, (world.process other).ticket = some ticket →
      ticket ≠ position.ticket := by
    intro other ticket holds
    have below := invariant.lt_nextTicket ⟨other, holds⟩
    omega
  have held := invariant.held
  have alone := invariant.alone
  have served := invariant.served
  refine ⟨sound, shallow.trans (max_le_max_right 1 bound), ?_, ?_, ?_⟩
  · intro ticket
    simp only [appended, mem_append, mem_singleton, held, Outstanding]
    constructor
    · rintro (⟨other, holds⟩ | same)
      · exact ⟨other, by grind [update_apply, Holder.ticket]⟩
      · exact ⟨process, by grind [update_apply, Holder.ticket]⟩
    · intro ⟨other, holds⟩
      grind [update_apply, Holder.ticket]
  · grind [update_apply, Holder.ticket]
  · grind [update_apply, Holder.ticket]

variable {head : Bool}

/-- A pass of the waiting loop changes nothing but the thread's own flag. -/
theorem waitUntilHead {flag : Bool} (holds : world.process process = .queued position head)
    (meaning : flag = true → position.ticket = world.shared.servingTicket) :
    LaneInvariant depth
      ⟨world.shared, update world.process process (.queued position flag)⟩ := by
  have tickets : ∀ other, (update world.process process (.queued position flag) other).ticket =
        (world.process other).ticket := by
    intro other
    by_cases mover : other = process
    · rw [mover, update_self, holds, Holder.ticket, Holder.ticket]
    · rw [update_of_ne mover]
  have served := invariant.served
  refine ⟨invariant.sound, invariant.shallow, ?_, ?_, ?_⟩
  · intro ticket
    simp only [Outstanding, tickets]
    exact invariant.held ticket
  · simp only [tickets]
    exact invariant.alone
  · grind [update_apply]

/-- A ticket that is finished is nobody's any more, and the others keep theirs. -/
theorem finish {cancelled : Bool} (holds : world.process process = .queued position head)
    (completed : cancelled = false → head = true) :
    LaneInvariant depth ⟨LeaseQueue.finish position.ticket cancelled world.shared,
      update world.process process .idle⟩ ∧
      world.shared.servingTicket ≤
        (LeaseQueue.finish position.ticket cancelled world.shared).servingTicket := by
  have own : (world.process process).ticket = some position.ticket := by
    rw [holds, Holder.ticket]
  have member : position.ticket ∈ world.shared.pending := (invariant.held _).mpr ⟨process, own⟩
  have headed : cancelled = false → position.ticket = world.shared.servingTicket := by
    intro kept
    rw [completed kept] at holds
    exact invariant.served process position holds
  obtain ⟨sound, erased, later⟩ := invariant.sound.finish_eq member headed
  have fewer : (LeaseQueue.finish position.ticket cancelled world.shared).waiting ≤
      world.shared.waiting := by
    rw [sound.waiting, erased, invariant.sound.waiting]
    exact length_erase_le
  have nodup : world.shared.pending.Nodup := TicketQueue.nodup_pending ..
  have alone := invariant.alone
  have held : ∀ ticket,
      ticket ∈ (LeaseQueue.finish position.ticket cancelled world.shared).pending ↔
        ∃ other, (update world.process process .idle other).ticket = some ticket := by
    intro ticket
    rw [erased, nodup.mem_erase_iff, invariant.held]
    constructor
    · intro ⟨different, other, otherHolds⟩
      exact ⟨other, by grind [update_apply]⟩
    · intro ⟨other, otherHolds⟩
      have mover : other ≠ process := by grind [update_apply, Holder.ticket]
      rw [update_of_ne mover] at otherHolds
      refine ⟨?_, other, otherHolds⟩
      intro equal
      rw [equal] at otherHolds
      exact mover (alone _ _ _ otherHolds own)
  refine ⟨⟨sound, fewer.trans invariant.shallow, held, ?_, ?_⟩, later⟩
  · grind [update_apply, Holder.ticket]
  · -- another head still holds the served number, which the counter cannot have passed
    intro other otherPosition (otherHolds : update _ _ _ other = _)
    have listed := (held otherPosition.ticket).mpr ⟨other, by rw [otherHolds, Holder.ticket]⟩
    have above := (TicketQueue.mem_pending.mp listed).1
    have flagged : otherPosition.ticket = world.shared.servingTicket := by
      apply invariant.served other
      grind [update_apply]
    exact le_antisymm (flagged.le.trans later) above

/-- One locked section keeps the invariant and never turns the serving counter back. -/
theorem step {event : Event} {holder : Holder} {lane : QueueLaneState}
    (advanced : advance laneKey world.shared (world.process process) event = some (holder, lane))
    (admitted : Bounded depth world (process, event) ⟨lane, update world.process process holder⟩) :
    LaneInvariant depth ⟨lane, update world.process process holder⟩ ∧
      world.shared.servingTicket ≤ lane.servingTicket := by
  obtain ⟨bound, room⟩ := admitted
  cases phase : world.process process with
  | idle =>
    rw [phase] at advanced
    cases event with
    | enqueue maxDepth =>
      rw [advance] at advanced
      cases issued : issue laneKey maxDepth world.shared with
      | error reason =>
        rw [issued] at advanced
        cases advanced
        rw [← phase, update_eq_self]
        exact ⟨invariant, le_refl _⟩
      | ok pair =>
        rw [issued] at advanced
        cases advanced
        exact ⟨invariant.enqueue phase issued bound room,
          (invariant.sound.issue_eq issued room).2.2.1.ge⟩
    | waitUntilHead => cases advanced
    | complete => cases advanced
    | drop => cases advanced
  | queued position head =>
    rw [phase] at advanced
    cases event with
    | enqueue maxDepth => cases advanced
    | waitUntilHead =>
      rw [advance, invariant.sound.advanceCancelled_eq] at advanced
      cases advanced
      refine ⟨invariant.waitUntilHead phase ?_, le_refl _⟩
      intro flagged
      rcases (Bool.or_eq_true _ _).mp flagged with before | now
      · rw [before] at phase
        exact invariant.served process position phase
      · exact (invariant.isHead_iff position).mp now
    | complete =>
      cases head with
      | false => cases advanced
      | true =>
        cases advanced
        exact invariant.finish phase (fun _ => rfl)
    | drop =>
      cases head <;>
      · cases advanced
        exact invariant.finish phase nofun

end LaneInvariant

theorem laneInvariant_emptyLane (depth : Nat) :
    LaneInvariant depth (emptyLane : World P QueueLaneState Holder) where
  sound := {
    tickets := ⟨le_refl _, fun _ member => absurd member (Finset.notMem_empty _)⟩
    waiting := rfl
    room := show 0 < u64Max by decide }
  shallow := Nat.zero_le _
  held := by
    intro ticket
    constructor
    · intro member
      cases member
    · intro ⟨process, holds⟩
      cases holds
  alone := nofun
  served := nofun

section Runs

variable [DecidableEq P] {laneKey : String} {depth : Nat}
  {world later : World P QueueLaneState Holder}

/-- A run from a state with the invariant keeps it and only moves the serving counter on. -/
theorem LaneInvariant.run (invariant : LaneInvariant depth world)
    (reached : Reaches (advance laneKey) (Bounded depth) world later) :
    LaneInvariant depth later ∧ world.shared.servingTicket ≤ later.shared.servingTicket := by
  apply reached.invariant ⟨invariant, le_refl _⟩
  intro earlier process event holder lane ⟨kept, forward⟩ advanced admitted
  obtain ⟨next, moved⟩ := kept.step advanced admitted
  exact ⟨next, forward.trans moved⟩

/-- A lane is first in, first out. In every state the numbers from `serving_ticket` to
`next_ticket` are the outstanding tickets and the cancelled ones, `waiting` counts the
outstanding ones, of which there are never more than the largest depth passed or one; the head
is the smallest of them, heads come in the order of their numbers, which is the order of issue,
and repairing the state changes nothing. -/
theorem lane_fifo (reached : Reaches (advance laneKey) (Bounded depth) emptyLane world) :
    world.shared.servingTicket ≤ world.shared.nextTicket ∧ (∀ ticket ∈ world.shared.cancelled,
        world.shared.servingTicket ≤ ticket ∧ ticket < world.shared.nextTicket) ∧
      (∀ ticket, world.shared.servingTicket ≤ ticket ∧ ticket < world.shared.nextTicket ↔
        Outstanding world ticket ∨ ticket ∈ world.shared.cancelled) ∧
      (∀ ticket, Outstanding world ticket → ticket ∉ world.shared.cancelled) ∧
      (∀ first second ticket, (world.process first).ticket = some ticket →
        (world.process second).ticket = some ticket → first = second) ∧
      world.shared.waiting = {ticket | Outstanding world ticket}.ncard ∧
      world.shared.waiting ≤ max depth 1 ∧
      (∀ process position head, world.process process = .queued position head →
        (isHead position world.shared ↔
          ∀ ticket, Outstanding world ticket → position.ticket ≤ ticket)) ∧
      (∀ process position, world.process process = .queued position true →
        (∀ ticket, Outstanding world ticket → position.ticket ≤ ticket) ∧
        ∀ later, Reaches (advance laneKey) (Bounded depth) world later →
          ∀ other otherPosition, later.process other = .queued otherPosition true →
            position.ticket ≤ otherPosition.ticket) ∧
      (∀ maxDepth position lane, issue laneKey maxDepth world.shared = .ok (position, lane) →
        ∀ ticket, Outstanding world ticket → ticket < position.ticket) ∧
      repairLaneState world.shared = world.shared := by
  have invariant := ((laneInvariant_emptyLane depth).run reached).1
  have tickets := invariant.sound.tickets
  have held := invariant.held
  refine ⟨tickets.ordered, ?_, ?_, ?_, invariant.alone, invariant.waiting_eq_ncard,
    invariant.shallow, ?_, ?_, ?_, invariant.sound.repairLaneState_eq⟩
  · intro ticket member
    have bounds := tickets.issued ticket member
    exact ⟨bounds.1.le, bounds.2⟩
  · intro ticket
    rw [← held, QueueLaneState.pending, TicketQueue.mem_pending]
    have bounds := tickets.issued ticket
    by_cases member : ticket ∈ world.shared.cancelled
    · have issued := bounds member
      simp only [member, not_true_eq_false, and_false, or_true, iff_true]
      exact ⟨issued.1.le, issued.2⟩
    · simp only [member, not_false_eq_true, and_true, or_false]
  · intro ticket outstanding
    exact (TicketQueue.mem_pending.mp ((held ticket).mpr outstanding)).2.2
  · intro process position head holds
    have own : Outstanding world position.ticket := ⟨process, by rw [holds, Holder.ticket]⟩
    rw [invariant.isHead_iff]
    constructor
    · intro served ticket outstanding
      rw [served]
      exact invariant.servingTicket_le outstanding
    · intro smallest
      exact le_antisymm (smallest _ (invariant.outstanding_servingTicket own))
        (invariant.servingTicket_le own)
  · intro process position holds
    have served := invariant.served process position holds
    constructor
    · intro ticket outstanding
      rw [served]
      exact invariant.servingTicket_le outstanding
    · intro later reachedLater other otherPosition otherHolds
      obtain ⟨laterInvariant, forward⟩ := invariant.run reachedLater
      rw [served, laterInvariant.served other otherPosition otherHolds]
      exact forward
  · intro maxDepth position lane issued ticket outstanding
    rw [invariant.sound.ticket_of_issue issued]
    exact invariant.lt_nextTicket outstanding

/-- The second of three threads gives up while it waits, and the third is served after the
first. -/
def skippingRun : List (Nat × Event) := [
  (0, .enqueue 3), (1, .enqueue 3), (2, .enqueue 3), (0, .waitUntilHead), (1, .drop),
  (2, .waitUntilHead), (0, .complete), (2, .waitUntilHead)]

theorem lane_fifo_skippingRun : ∃ world : World Nat QueueLaneState Holder,
      Reaches (advance "lane") (Bounded 3) emptyLane world ∧
      (world.process 2).ticket = some 2 ∧ world.shared.servingTicket = 2 ∧
      world.shared.waiting ≤ 3 ∧ repairLaneState world.shared = world.shared := by
  have ran : (runChecked (advance "lane") (Bounded 3) emptyLane skippingRun).map
      (fun world => ((world.process 2).ticket, world.shared.servingTicket)) =
        some (some 2, 2) := by decide
  obtain ⟨world, reachedBy, observed⟩ := Option.map_eq_some_iff.mp ran
  rw [Prod.mk.injEq] at observed
  have reached := reaches_of_runChecked reachedBy
  have fifo := lane_fifo reached
  exact ⟨world, reached, observed.1, observed.2, fifo.2.2.2.2.2.2.1, fifo.2.2.2.2.2.2.2.2.2.2⟩

/-- A new ticket is told how many tickets are ahead of it exactly when no ticket was given up
behind one that is still outstanding: `next_ticket - serving_ticket` counts those too. -/
theorem aheadAtEnqueue_eq_iff (reached : Reaches (advance laneKey) (Bounded depth) emptyLane world)
    {maxDepth : Nat} {position : LeaseQueuePosition} {lane : QueueLaneState}
    (issued : issue laneKey maxDepth world.shared = .ok (position, lane)) :
    position.aheadAtEnqueue = heldBefore world position ↔ world.shared.cancelled = ∅ := by
  have invariant := ((laneInvariant_emptyLane depth).run reached).1
  have counted := length_pending invariant.sound.tickets
  have waiting := invariant.sound.waiting
  rw [QueueLaneState.pending] at waiting
  rw [invariant.heldBefore_eq issued, (invariant.sound.eq_of_issue issued).2.1,
    ← Finset.card_eq_zero]
  dsimp only
  omega

/-- Two threads wait, and a third is told that two are ahead of it. -/
theorem aheadAtEnqueue_eq_twoWaiting : ∃ (world : World Nat QueueLaneState Holder)
      (position : LeaseQueuePosition) (lane : QueueLaneState), Reaches (advance "lane") (Bounded 3) emptyLane world ∧
      issue "lane" 3 world.shared = .ok (position, lane) ∧ position.aheadAtEnqueue = 2 ∧
      heldBefore world position = 2 := by
  have ran : (runChecked (advance "lane") (Bounded 3) emptyLane
      [((0 : Nat), .enqueue 3), (1, .enqueue 3)]).map World.shared = some ⟨2, 0, 2, ∅⟩ := by decide
  obtain ⟨world, reachedBy, isLane⟩ := Option.map_eq_some_iff.mp ran
  have issued : issue "lane" 3 world.shared = .ok (⟨2, 3, 2⟩, ⟨3, 0, 3, ∅⟩) := by
    rw [isLane]
    rfl
  have reached := reaches_of_runChecked reachedBy
  exact ⟨world, _, _, reached, issued, rfl,
    ((aheadAtEnqueue_eq_iff reached issued).mpr (by rw [isLane])).symm⟩

/-- The second of two threads gives up, and a third is told that two are ahead of it. -/
theorem aheadAtEnqueue_exceeds : ∃ (world : World Nat QueueLaneState Holder)
      (position : LeaseQueuePosition) (lane : QueueLaneState), Reaches (advance "lane") (Bounded 3) emptyLane world ∧
      issue "lane" 3 world.shared = .ok (position, lane) ∧ position.aheadAtEnqueue = 2 ∧
      heldBefore world position = 1 := by
  have ran : (runChecked (advance "lane") (Bounded 3) emptyLane [((0 : Nat), .enqueue 3),
      (1, .enqueue 3), (1, .drop)]).map World.shared = some ⟨2, 0, 1, {1}⟩ := by decide
  obtain ⟨world, reachedBy, isLane⟩ := Option.map_eq_some_iff.mp ran
  have issued : issue "lane" 3 world.shared = .ok (⟨2, 2, 2⟩, ⟨3, 0, 2, {1}⟩) := by
    rw [isLane]
    rfl
  have reached := reaches_of_runChecked reachedBy
  refine ⟨world, _, _, reached, issued, rfl, ?_⟩
  rw [((laneInvariant_emptyLane 3).run reached).1.heldBefore_eq issued, isLane]

/-- A depth of zero still admits one ticket. -/
theorem waiting_exceeds_zeroDepth : ∃ world : World Unit QueueLaneState Holder,
      Reaches (advance "lane") (Bounded 0) emptyLane world ∧ ¬ world.shared.waiting ≤ 0 := by
  have ran : (runChecked (advance "lane") (Bounded 0) emptyLane
      [((), .enqueue 0)]).map (fun world => world.shared.waiting) = some 1 := by decide
  obtain ⟨world, reachedBy, waiting⟩ := Option.map_eq_some_iff.mp ran
  refine ⟨world, reaches_of_runChecked reachedBy, ?_⟩
  rw [waiting]
  decide

end Runs

end Mcpace.Upstream.LeaseQueue

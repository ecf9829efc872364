import Mathlib

/-!
Owns `supervise_invocation` of `src/bin/mcpace-agent-launcher.rs` with `stop_requested`,
`acknowledge_stop_request` and `wait_for_restart`: a child is started again and again while another
process may create the stop marker at any moment.

Every call can fail. A child that cannot be killed, awaited or asked for its status is let go, and
may run on; a marker that cannot be removed stays.

Does not own: the length of the back-off, and the logs.
-/

namespace Mcpace.Agent

inductive Phase where
  | starting
  | spawning
  | running
  | ended
  | waiting
  | leaving
  | returned
deriving DecidableEq

/-- `strays` counts the children that run although the supervisor has let go of them. -/
structure Supervisor where
  phase : Phase
  childAlive : Bool
  strays : Nat
  marker : Bool
deriving DecidableEq

/-- The calls that a supervisor makes on its child. -/
inductive ChildCall where
  | tryWait
  | kill
  | wait
deriving DecidableEq

/-- A marker is created; the supervisor looks for it and removes one that it finds if it can, tries
to spawn the child, sees it exit, fails in a call on it, ends its back-off with a last look, or
returns. A child that was let go exits. -/
inductive Event where
  | create
  | look (removes : Bool)
  | spawn (succeeds : Bool)
  | exit (success : Bool)
  | fail (call : ChildCall) (alive : Bool)
  | elapse (removes : Bool)
  | leave
  | vanish
deriving DecidableEq

namespace Supervisor

def acknowledgeStopRequest (supervisor : Supervisor) (removes : Bool) : Supervisor :=
  { supervisor with phase := .leaving, marker := !removes }

/-- Stop if the marker is there, and go on otherwise. -/
def heed (supervisor : Supervisor) (removes : Bool) (next : Phase) : Supervisor :=
  if supervisor.marker then supervisor.acknowledgeStopRequest removes
  else { supervisor with phase := next }

def letGo (supervisor : Supervisor) (alive : Bool) (next : Phase) : Supervisor :=
  { supervisor with phase := next, childAlive := false, strays := supervisor.strays + alive.toNat }

def advance (supervisor : Supervisor) : Event → Option Supervisor
  | .create => if supervisor.phase = .returned then none else some { supervisor with marker := true }
  | .look removes =>
    match supervisor.phase with
    | .starting => some (supervisor.heed removes .spawning)
    | .running =>
      -- the child is killed and awaited before the request is acknowledged
      some (if supervisor.marker then
        { supervisor with childAlive := false }.acknowledgeStopRequest removes else supervisor)
    | .ended => some (supervisor.heed removes .waiting)
    | .waiting => some (supervisor.heed removes .waiting)
    | _ => none
  | .elapse removes =>
    if supervisor.phase = .waiting then some (supervisor.heed removes .starting) else none
  | .spawn succeeds =>
    if supervisor.phase = .spawning then
      some { supervisor with
        phase := if succeeds then .running else .ended
        childAlive := succeeds }
    else none
  | .exit success =>
    if supervisor.phase = .running then
      some { supervisor with
        phase := if success then .leaving else .ended
        childAlive := false }
    else none
  | .fail call alive =>
    if supervisor.phase = .running then
      match call with
      -- reported like an exit, so that another child is started
      | .tryWait => some (supervisor.letGo alive .ended)
      -- `return 1`, without acknowledging the marker
      | .kill | .wait => if supervisor.marker then some (supervisor.letGo alive .leaving) else none
    else none
  | .leave =>
    if supervisor.phase = .leaving then some { supervisor with phase := .returned } else none
  | .vanish =>
    if supervisor.strays = 0 then none
    else some { supervisor with strays := supervisor.strays - 1 }

def run (supervisor : Supervisor) (events : List Event) : Option Supervisor :=
  events.foldlM advance supervisor

/-- Nothing that was started runs, and no marker is left. -/
def Clean (supervisor : Supervisor) : Prop :=
  supervisor.childAlive = false ∧ supervisor.strays = 0 ∧ supervisor.marker = false

/-! ### Markers and strays -/

/-- A marker has been created since the last look that could remove it. -/
def unseen (marker : Bool) : Event → Bool
  | .create => true
  | .look removes | .elapse removes => marker && !removes
  | _ => marker

/-- The children that were alive when a call on them failed, without those that have exited. -/
def straying (strays : Nat) : Event → Nat
  | .fail _ alive => strays + alive.toNat
  | .vanish => strays - 1
  | _ => strays

variable {supervisor after : Supervisor} {event : Event} {events : List Event}

/-- Only a running child is owned. -/
def Owns (supervisor : Supervisor) : Prop :=
  supervisor.childAlive = true → supervisor.phase = .running

/-- What a step does to the marker and the strays. -/
structure Follows (supervisor : Supervisor) (event : Event) (after : Supervisor) : Prop where
  marker : after.marker = unseen supervisor.marker event
  strays : after.strays = straying supervisor.strays event
  owns : supervisor.Owns → after.Owns

theorem heed_spec (idle : supervisor.phase ≠ .running) (removes : Bool) (next : Phase) :
    (supervisor.heed removes next).marker = (supervisor.marker && !removes) ∧
      (supervisor.heed removes next).strays = supervisor.strays ∧
      (supervisor.Owns → (supervisor.heed removes next).Owns) := by
  have none : supervisor.Owns → supervisor.childAlive ≠ true := fun owns alive => idle (owns alive)
  rw [heed]
  cases found : supervisor.marker with
  | true => exact ⟨rfl, rfl, fun owns alive => absurd alive (none owns)⟩
  | false => exact ⟨rfl, rfl, fun owns alive => absurd alive (none owns)⟩

theorem advance_spec (advanced : supervisor.advance event = some after) :
    Follows supervisor event after := by
  cases event with
  | create =>
    rw [advance, Option.ite_none_left_eq_some] at advanced
    cases advanced.2
    exact ⟨rfl, rfl, id⟩
  | look removes =>
    rw [advance] at advanced
    split at advanced
    case h_2 isRunning =>
      cases advanced
      cases found : supervisor.marker with
      | true => exact ⟨by rw [unseen, found]; rfl, rfl, fun _ => nofun⟩
      | false => exact ⟨by rw [unseen, found]; exact found, rfl, id⟩
    case h_5 => cases advanced
    all_goals
      cases advanced
      obtain ⟨marker, strays, owns⟩ := @heed_spec supervisor (by simp [*]) removes _
      exact ⟨marker, strays, owns⟩
  | spawn succeeds =>
    rw [advance, Option.ite_none_right_eq_some] at advanced
    cases advanced.2
    exact ⟨rfl, rfl, fun _ alive => if_pos alive⟩
  | exit success =>
    rw [advance, Option.ite_none_right_eq_some] at advanced
    cases advanced.2
    exact ⟨rfl, rfl, fun _ => nofun⟩
  | fail call alive =>
    unfold advance at advanced
    rw [Option.ite_none_right_eq_some] at advanced
    cases call with
    | tryWait =>
      cases advanced.2
      exact ⟨rfl, rfl, fun _ => nofun⟩
    | kill | wait =>
      cases (Option.ite_none_right_eq_some.mp advanced.2).2
      exact ⟨rfl, rfl, fun _ => nofun⟩
  | elapse removes =>
    rw [advance, Option.ite_none_right_eq_some] at advanced
    cases advanced.2
    obtain ⟨marker, strays, owns⟩ := @heed_spec supervisor (by simp [advanced.1]) removes .starting
    exact ⟨marker, strays, owns⟩
  | leave =>
    rw [advance, Option.ite_none_right_eq_some] at advanced
    cases advanced.2
    exact ⟨rfl, rfl, fun owns alive => absurd (advanced.1.symm.trans (owns alive)) nofun⟩
  | vanish =>
    rw [advance, Option.ite_none_left_eq_some] at advanced
    cases advanced.2
    exact ⟨rfl, rfl, id⟩

theorem run_spec (ran : supervisor.run events = some after) :
    after.marker = events.foldl unseen supervisor.marker ∧
      after.strays = events.foldl straying supervisor.strays ∧ (supervisor.Owns → after.Owns) := by
  induction events generalizing supervisor with
  | nil =>
    cases ran
    exact ⟨rfl, rfl, id⟩
  | cons event events ih =>
    obtain ⟨next, advanced, later⟩ := Option.bind_eq_some_iff.mp ran
    obtain ⟨marker, strays, owns⟩ := advance_spec advanced
    obtain ⟨markerLater, straysLater, ownsLater⟩ := ih later
    rw [marker] at markerLater
    rw [strays] at straysLater
    exact ⟨markerLater, straysLater, ownsLater ∘ owns⟩

/-- When the supervisor returns nothing is left exactly if no marker was created after its last
look, or could not be removed there, and no child that a failed call let go runs on. -/
theorem supervise_clean_iff {marker : Bool}
    (ran : run ⟨.starting, false, 0, marker⟩ events = some after)
    (returns : after.phase = .returned) :
    after.Clean ↔ events.foldl straying 0 = 0 ∧ events.foldl unseen marker = false := by
  obtain ⟨isMarker, isStrays, owns⟩ := run_spec ran
  have gone : after.childAlive = false := by
    by_contra still
    have runs := owns nofun (Bool.not_eq_false _ ▸ still)
    rw [returns] at runs
    cases runs
  rw [Clean, gone, isMarker, isStrays]
  exact and_iff_right rfl

/-- A child whose status could not be read exits while its successor is being stopped. -/
theorem supervise_clean_stopped : (Supervisor.mk .returned false 0 false).Clean :=
  (@supervise_clean_iff _ [.look true, .spawn true, .fail .tryWait true, .look true, .elapse true,
    .look true, .spawn true, .create, .look true, .vanish, .leave] false rfl rfl).mpr ⟨rfl, rfl⟩

/-- The marker is created while the child exits successfully. -/
theorem supervise_marker_left :
    run ⟨.starting, false, 0, false⟩
      [.look true, .spawn true, .look true, .create, .exit true, .leave] =
        some ⟨.returned, false, 0, true⟩ := rfl

end Supervisor

end Mcpace.Agent

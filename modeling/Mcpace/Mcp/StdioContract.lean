import Mcpace.Library.Checks
import Mcpace.Mcp.StdioServer

/-!
Contract: the stdio server answers every valid request line once and in order, never takes a
request id twice, and runs no handler before the session is ready.

`TurnEffect` says what one turn can do to the state; the invariant of a run, and with it the order
of the handshake, follows from that. That a request is answered is read off a single turn.
-/

namespace Mcpace.Mcp

open Library Json Checks List

/-! ### What a line is -/

section Lines

variable (parse : String → Except String JsonValue)

/-- The line holds a valid envelope. -/
structure IsEnvelope (turn : StdioTurn) (message : JsonValue) : Prop where
  message_eq : turn.message parse = some message
  valid : validateRequestEnvelope message = .ok ()

/-- One response that carries the id for a request, none for a notification. -/
def Answered (turn : StdioTurn) (answer : Option JsonValue) : Prop :=
  ∀ message, IsEnvelope parse turn message →
    match requestId message with
    | some id => ∃ response, answer = some response ∧ response.get "id" = some id
    | none => answer = none

/-- An `initialize` request that was answered with a result. -/
def AcceptedInitialize (entry : StdioTurn × TurnOutcome) : Prop :=
  ∃ message id value, IsEnvelope parse entry.1 message ∧
    message.get "method" = some (.string "initialize") ∧ requestId message = some id ∧
    entry.2.response = some ((Reply.result value).toResponse id)

/-- A `notifications/initialized` without an id. -/
def InitializedNotification (entry : StdioTurn × TurnOutcome) : Prop :=
  ∃ message, IsEnvelope parse entry.1 message ∧
    message.get "method" = some (.string "notifications/initialized") ∧ requestId message = none

/-- An accepted `initialize`, and after it a `notifications/initialized`. -/
def Ready (past : List (StdioTurn × TurnOutcome)) : Prop :=
  ∃ opening notified, [opening, notified].Sublist past ∧
    AcceptedInitialize parse opening ∧ InitializedNotification parse notified

end Lines

/-- The key that passed duplicate tracking in a turn. -/
def TurnOutcome.trackedKey (outcome : TurnOutcome) : Option String :=
  outcome.replay.bind Except.toOption

/-! ### Gates -/

section Gates

variable {state : StdioState} {message : JsonValue} {method admitted : Method}

/-- What a message that passes the lifecycle gate can rely on. -/
def Method.Open (state : StdioState) (method : Method) : Prop :=
  method = .initializeCall ∨ method = .ping ∨ (state.initializeSeen = true ∧
    (method = .initialized ∨ state.initializedNotificationSeen = true))

theorem lifecycleGate_some (id : JsonValue) :
    (∃ reply, lifecycleGate state method (some id) = .refused id reply) ∨
      (lifecycleGate state method (some id) = .admitted method ∧ method.Open state) := by
  rw [lifecycleGate, Method.Open]
  split
  · exact Or.inl ⟨_, rfl⟩
  · split
    · exact Or.inl ⟨_, rfl⟩
    · grind

theorem lifecycleGate_none : lifecycleGate state method none = .ignored ∨
      (lifecycleGate state method none = .admitted method ∧ method.Open state) := by
  rw [lifecycleGate, Method.Open]
  split
  · exact Or.inl rfl
  · split
    · exact Or.inl rfl
    · grind

theorem messageMethod_of_valid (valid : validateRequestEnvelope message = .ok ()) :
    ∃ name, message.get "method" = some (.string name) ∧
      messageMethod message = some (Method.parse name) := by
  simp only [validateRequestEnvelope, bind_eq_ok] at valid
  obtain ⟨_, _, _, _, _, method, _⟩ := valid
  rw [validateMethod] at method
  rw [messageMethod, JsonValue.stringAtPath, JsonValue.valueAtPath_singleton]
  cases found : message.get "method" with
  | none =>
    rw [found] at method
    cases method
  | some value =>
    cases value with
    | string name => exact ⟨name, rfl, rfl⟩
    | _ =>
      rw [found] at method
      cases method

/-- A valid request is refused under its own id, or it is admitted with an id that is no
notification's. -/
theorem admit_request (valid : validateRequestEnvelope message = .ok ()) {id : JsonValue}
    (request : requestId message = some id) :
    (∃ reply, admitMessage state message = .refused id reply) ∨
      ∃ name, message.get "method" = some (.string name) ∧
        admitMessage state message = .admitted (Method.parse name) ∧
        (Method.parse name).Open state ∧ (Method.parse name).isNotification = false := by
  obtain ⟨name, isName, method⟩ := messageMethod_of_valid valid
  simp only [admitMessage, valid, method, request, idGate]
  split
  · exact Or.inl ⟨_, rfl⟩
  · rename_i notNotification
    split
    · exact Or.inl ⟨_, rfl⟩
    · rcases @lifecycleGate_some state (Method.parse name) id with refused | ⟨passed, isOpen⟩
      · exact Or.inl refused
      · exact Or.inr ⟨name, isName, passed, isOpen, Bool.eq_false_of_not_eq_true notNotification⟩

/-- A valid notification is never answered by a gate. -/
theorem admit_notification (valid : validateRequestEnvelope message = .ok ())
    (notification : requestId message = none) :
    admitMessage state message = .ignored ∨ ∃ name, message.get "method" = some (.string name) ∧
        admitMessage state message = .admitted (Method.parse name) ∧ (Method.parse name).Open state := by
  obtain ⟨name, isName, method⟩ := messageMethod_of_valid valid
  simp only [admitMessage, valid, method, notification]
  rcases @lifecycleGate_none state (Method.parse name) with ignored | ⟨passed, isOpen⟩
  · exact Or.inl ignored
  · exact Or.inr ⟨name, isName, passed, isOpen⟩

/-- What is known of a message that gets to the replay check. -/
structure Admitted (state : StdioState) (message : JsonValue) (method : Method) : Prop where
  valid : validateRequestEnvelope message = .ok ()
  name : message.get "method" = some (.string method.name)
  isOpen : method.Open state
  request : ∀ id, requestId message = some id → method.isNotification = false

theorem admitted_of_admit (passed : admitMessage state message = .admitted method) :
    Admitted state message method := by
  have valid : validateRequestEnvelope message = .ok () := by
    rw [admitMessage] at passed
    split at passed
    · cases passed
    · assumption
  cases request : requestId message with
  | none =>
    rcases @admit_notification state message valid request with
      ignored | ⟨name, isName, admitted, isOpen⟩
    · rw [ignored] at passed
      cases passed
    · rw [admitted] at passed
      cases passed
      exact ⟨valid, by rw [Method.name_parse, isName], isOpen,
        fun _ impossible => by rw [request] at impossible; cases impossible⟩
  | some id =>
    rcases @admit_request state message valid id request with
      ⟨reply, refused⟩ | ⟨name, isName, admitted, isOpen, notNotification⟩
    · rw [refused] at passed
      cases passed
    · rw [admitted] at passed
      cases passed
      exact ⟨valid, by rw [Method.name_parse, isName], isOpen, fun _ _ => notNotification⟩

end Gates

/-! ### Dispatch -/

section Dispatch

variable {state : StdioState} {adapter : Adapter} {message : JsonValue} {method : Method}

theorem isSome_reply_dispatch (notNotification : method.isNotification = false)
    (id : JsonValue) : (dispatch state adapter message method (some id)).reply.isSome = true := by
  have handled : ∀ initializeParams, method ∈ [.toolsList, .promptsList, .promptsGet,
      .resourcesList, .resourcesTemplatesList, .resourcesRead, .toolsCall] →
      (handle adapter initializeParams message method).isSome = true := by
    intro initializeParams member
    simp only [mem_cons, not_mem_nil, or_false] at member
    rcases member with rfl | rfl | rfl | rfl | rfl | rfl | rfl <;> rw [handle] <;>
      repeat' (first | rfl | split)
  cases method with
  | initialized => exact absurd notNotification (by decide)
  | cancelled => exact absurd notNotification (by decide)
  | initializeCall =>
    rw [dispatch]
    split <;> rfl
  | ping => rfl
  | other name => rfl
  | _ =>
    have answered := handled state.initializeParams (by decide)
    simp only [dispatch]
    split
    · rfl
    · split
      · rfl
      · rename_i none
        rw [none] at answered
        cases answered

variable {id : Option JsonValue}

/-- Handlers run for requests to methods other than the ones of the handshake. -/
theorem handler_dispatch {call : HandlerCall}
    (ran : (dispatch state adapter message method id).handler = some call) :
    method ≠ .initializeCall ∧ method ≠ .ping ∧ method ≠ .initialized := by
  refine ⟨?_, ?_, ?_⟩
  · rintro rfl
    cases id with
    | none => cases ran
    | some id =>
      rw [dispatch] at ran
      split at ran <;> cases ran
  · rintro rfl
    cases id <;> cases ran
  · rintro rfl
    cases ran

/-- The methods of the handshake are the only ones that change the state. -/
theorem state_dispatch (notOpening : method ≠ .initializeCall)
    (notReadying : method ≠ .initialized) :
    (dispatch state adapter message method id).state = state := by
  cases method with
  | initializeCall => exact absurd rfl notOpening
  | initialized => exact absurd rfl notReadying
  | _ =>
    cases id with
    | none => rfl
    | some id =>
      simp only [dispatch]
      try
        split
        · rfl
        · split <;> rfl

end Dispatch

/-! ### One turn -/

section Turn

variable {parse : String → Except String JsonValue} {turn : StdioTurn} {state next : StdioState}
  {message : JsonValue}

/-- A turn that goes on has written what it had to write. -/
theorem finish_eq_some {outcome : TurnOutcome} {after : Option StdioState}
    (moved : (finish turn outcome after).2 = some next) :
    finish turn outcome after = (outcome, after) ∧ after = some next := by
  rw [finish] at moved ⊢
  split at moved
  · cases moved
  · rename_i written
    rw [if_neg written]
    exact ⟨rfl, moved⟩

theorem finish_of_accepts (accepts : turn.stdoutAccepts = true) (outcome : TurnOutcome)
    (after : Option StdioState) : finish turn outcome after = (outcome, after) := by
  rw [finish, accepts, if_neg]
  exact fun both => by cases both.2

theorem handler_finish (outcome : TurnOutcome) (after : Option StdioState) :
    (finish turn outcome after).1.handler = outcome.handler := by
  rw [finish]
  split <;> rfl

theorem replay_finish (outcome : TurnOutcome) (after : Option StdioState) :
    (finish turn outcome after).1.replay = outcome.replay := by
  rw [finish]
  split <;> rfl

/-- A key is taken only if it is new, and it is the key of the id. -/
theorem trackStdioRequestId_eq_ok {seen : Finset String} {id : JsonValue} {key : String}
    (taken : trackStdioRequestId seen id = .ok key) : key ∉ seen ∧ requestIdKey id = some key := by
  rw [trackStdioRequestId] at taken
  split at taken
  · cases taken
  · split at taken
    · cases taken
    · split at taken
      · cases taken
      · rename_i found
        split at taken
        · cases taken
        · rename_i new
          split at taken
          · cases taken
          · cases taken
            exact ⟨new, found⟩

/-- A line that holds a message is served by it. -/
theorem serveTurn_of_message (found : turn.message parse = some message) :
    serveTurn parse state turn = serveMessage turn state message := by
  rw [StdioTurn.message] at found
  rw [serveTurn]
  split at found
  · rename_i text isLine
    simp only [isLine]
    split at found
    · cases found
    · rename_i notEmpty
      rw [serveLine, if_neg notEmpty]
      cases parsed : parse (Text.trim text) with
      | error error =>
        rw [parsed] at found
        cases found
      | ok value =>
        rw [parsed] at found
        cases found
        rfl
  · cases found

/-- Lines that can be read, and a stdout that takes what is written. -/
structure StdioTurn.Plain (turn : StdioTurn) : Prop where
  line : ∃ text, turn.read = .line text
  accepts : turn.stdoutAccepts = true

/-- At most an answer: no key is tracked, no handler runs, and the state stays. -/
structure Idle (turn : StdioTurn) (state : StdioState)
    (served : TurnOutcome × Option StdioState) : Prop where
  replay : served.1.replay = none
  handler : served.1.handler = none
  stays : ∀ next, served.2 = some next → next = state
  goesOn : turn.Plain → served.2 ≠ none

theorem Idle.trackedKey {served : TurnOutcome × Option StdioState} (idle : Idle turn state served) :
    served.1.trackedKey = none := by
  rw [TurnOutcome.trackedKey, idle.replay]
  rfl

theorem idle_finish {outcome : TurnOutcome} (replay : outcome.replay = none)
    (handler : outcome.handler = none) : Idle turn state (finish turn outcome (some state)) where
  replay := (replay_finish _ _).trans replay
  handler := (handler_finish _ _).trans handler
  stays := fun _ moved => (Option.some.inj (finish_eq_some moved).2).symm
  goesOn := by
    intro plain
    rw [finish_of_accepts plain.accepts]
    exact nofun

/-- A turn serves a message that was admitted, or it is idle. -/
theorem serveTurn_cases (parse : String → Except String JsonValue) (turn : StdioTurn)
    (state : StdioState) :
    (∃ message method, turn.message parse = some message ∧ Admitted state message method ∧
        serveTurn parse state turn = serveAdmitted turn state message method) ∨
      Idle turn state (serveTurn parse state turn) := by
  have silent : Idle turn state (.silent, some state) :=
    ⟨rfl, rfl, fun _ same => (Option.some.inj same).symm, fun _ => nofun⟩
  cases found : turn.message parse with
  | some message =>
    rw [serveTurn_of_message found, serveMessage]
    cases passed : admitMessage state message with
    | refused id reply => exact Or.inr (idle_finish rfl rfl)
    | ignored => exact Or.inr silent
    | admitted method => exact Or.inl ⟨message, method, rfl, admitted_of_admit passed, rfl⟩
  | none =>
    right
    rw [StdioTurn.message] at found
    rw [serveTurn]
    cases read : turn.read with
    | line text =>
      simp only [read] at found
      simp only [serveLine]
      split
      · exact silent
      · rename_i notEmpty
        rw [if_neg notEmpty] at found
        cases parsed : parse (Text.trim text) with
        | ok value =>
          rw [parsed] at found
          cases found
        | error error => exact idle_finish rfl rfl
    | _ =>
      refine ⟨rfl, rfl, nofun, fun plain => ?_⟩
      obtain ⟨text, isLine⟩ := plain.line
      rw [read] at isLine
      cases isLine

theorem replay_refuseReplay (id : JsonValue) (error : RequestIdReplayError) :
    (refuseReplay turn state id error).1.replay = some (.error error) ∧
      (refuseReplay turn state id error).1.handler = none ∧
      ∀ next, (refuseReplay turn state id error).2 = some next → next = state := by
  rw [refuseReplay]
  dsimp only
  split
  · refine ⟨replay_finish _ _, handler_finish _ _, ?_⟩
    intro next moved
    cases (finish_eq_some moved).2
  · refine ⟨replay_finish _ _, handler_finish _ _, ?_⟩
    intro next moved
    exact (Option.some.inj (finish_eq_some moved).2).symm

/-- Keys are taken and handlers run only for requests that were admitted. -/
theorem serveTurn_tracked (parse : String → Except String JsonValue) (turn : StdioTurn)
    (state : StdioState) :
    ((serveTurn parse state turn).1.trackedKey = none ∧
        (serveTurn parse state turn).1.handler = none) ∨
      ∃ message id method key, IsEnvelope parse turn message ∧ requestId message = some id ∧
        Admitted state message method ∧ trackStdioRequestId state.seenRequestIds id = .ok key ∧
        (serveTurn parse state turn).1.trackedKey = some key ∧
        (serveTurn parse state turn).1.handler =
          (dispatch { state with seenRequestIds := insert key state.seenRequestIds }
            turn.adapter message method (some id)).handler := by
  rcases serveTurn_cases parse turn state with ⟨message, method, found, admitted, served⟩ | idle
  · rw [served, serveAdmitted]
    cases request : requestId message with
    | none => exact Or.inl ⟨rfl, rfl⟩
    | some id =>
      cases tracked : trackStdioRequestId state.seenRequestIds id with
      | error error =>
        obtain ⟨replay, handler, _⟩ := @replay_refuseReplay turn state id error
        simp only [TurnOutcome.trackedKey, tracked, replay, handler]
        exact Or.inl ⟨rfl, trivial⟩
      | ok key =>
        refine Or.inr ⟨message, id, method, key, ⟨found, admitted.valid⟩, request, admitted,
          tracked, ?_, ?_⟩
        · simp only [TurnOutcome.trackedKey, tracked, replay_finish]
          rfl
        · simp only [tracked, handler_finish]
  · exact Or.inl ⟨idle.trackedKey, idle.handler⟩

/-- Handlers run for requests, and only when both flags of the handshake are up. -/
theorem ready_of_handler {call : HandlerCall}
    (ran : (serveTurn parse state turn).1.handler = some call) :
    (∃ message id, IsEnvelope parse turn message ∧ requestId message = some id) ∧
      state.initializeSeen = true ∧ state.initializedNotificationSeen = true := by
  rcases serveTurn_tracked parse turn state with
    ⟨_, none⟩ | ⟨message, id, method, key, envelope, request, admitted, _, _, handler⟩
  · rw [none] at ran
    cases ran
  · rw [handler] at ran
    obtain ⟨notOpening, notPing, notReadying⟩ := handler_dispatch ran
    have isOpen := admitted.isOpen
    rw [Method.Open] at isOpen
    refine ⟨⟨message, id, envelope, request⟩, ?_⟩
    simpa [notOpening, notPing, notReadying] using isOpen

/-- A key that passes tracking is the key of the line's id, and it is new. -/
theorem new_of_trackedKey {key : String}
    (taken : (serveTurn parse state turn).1.trackedKey = some key) :
    key ∉ state.seenRequestIds ∧ ∃ message id, IsEnvelope parse turn message ∧
      requestId message = some id ∧ requestIdKey id = some key := by
  rcases serveTurn_tracked parse turn state with
    ⟨none, _⟩ | ⟨message, id, method, found, envelope, request, _, tracked, isTaken, _⟩
  · rw [none] at taken
    cases taken
  · rw [isTaken] at taken
    cases taken
    obtain ⟨new, isKey⟩ := trackStdioRequestId_eq_ok tracked
    exact ⟨new, message, id, envelope, request, isKey⟩

/-- What a turn that goes on can do to the state. -/
inductive TurnEffect (parse : String → Except String JsonValue) (turn : StdioTurn)
    (state : StdioState) (outcome : TurnOutcome) : StdioState → Prop where
  | unchanged (untracked : outcome.trackedKey = none) : TurnEffect parse turn state outcome state
  | tracked {key : String} (taken : outcome.trackedKey = some key) :
      TurnEffect parse turn state outcome
        { state with seenRequestIds := insert key state.seenRequestIds }
  | opened {key : String} {params : Option JsonValue} (taken : outcome.trackedKey = some key)
      (accepted : AcceptedInitialize parse (turn, outcome)) :
      TurnEffect parse turn state outcome
        { state with
          initializeSeen := true, initializeParams := params,
          seenRequestIds := insert key state.seenRequestIds }
  | readied (untracked : outcome.trackedKey = none) (opening : state.initializeSeen = true)
      (notified : InitializedNotification parse (turn, outcome)) :
      TurnEffect parse turn state outcome { state with initializedNotificationSeen := true }

theorem turnEffect_admitted {method : Method} (found : turn.message parse = some message)
    (admitted : Admitted state message method)
    (moved : (serveAdmitted turn state message method).2 = some next) :
    TurnEffect parse turn state (serveAdmitted turn state message method).1 next := by
  have envelope : IsEnvelope parse turn message := ⟨found, admitted.valid⟩
  rw [serveAdmitted] at moved ⊢
  cases request : requestId message with
  | none =>
    simp only [request, Option.some.injEq] at moved ⊢
    rw [← moved]
    by_cases readies : method = .initialized
    · have opening : state.initializeSeen = true := by
        have isOpen := admitted.isOpen
        rw [readies, Method.Open] at isOpen
        simpa using isOpen
      rw [readies]
      refine .readied rfl opening ⟨message, envelope, ?_, request⟩
      rw [admitted.name, readies, Method.name]
    · have same : (dispatch state turn.adapter message method none).state = state := by
        cases method <;> first | exact absurd rfl readies | rfl
      rw [same]
      exact .unchanged rfl
  | some id =>
    simp only [request] at moved ⊢
    cases tracked : trackStdioRequestId state.seenRequestIds id with
    | error error =>
      simp only [tracked] at moved ⊢
      obtain ⟨replay, _, stays⟩ := @replay_refuseReplay turn state id error
      rw [stays next moved]
      exact .unchanged (by rw [TurnOutcome.trackedKey, replay]; rfl)
    | ok key =>
      simp only [tracked] at moved ⊢
      obtain ⟨written, isNext⟩ := finish_eq_some moved
      rw [written, ← Option.some.inj isNext]
      by_cases opens : method = .initializeCall
      · subst opens
        rw [dispatch]
        split
        · exact .tracked rfl
        · refine .opened rfl ⟨message, id, initializeResult turn.adapter message, envelope,
            admitted.name, request, rfl⟩
      · have notReadying : method ≠ .initialized := by
          rintro rfl
          exact absurd (admitted.request id request) (by decide)
        rw [state_dispatch opens notReadying]
        exact .tracked rfl

/-- Every turn that goes on has one of these effects. -/
theorem turnEffect (moved : (serveTurn parse state turn).2 = some next) :
    TurnEffect parse turn state (serveTurn parse state turn).1 next := by
  rcases serveTurn_cases parse turn state with ⟨message, method, found, admitted, served⟩ | idle
  · rw [served] at moved ⊢
    exact turnEffect_admitted found admitted moved
  · rw [idle.stays next moved]
    exact .unchanged idle.trackedKey

/-! ### Answers -/

theorem response_refuseReplay (accepts : turn.stdoutAccepts = true) (id : JsonValue)
    (error : RequestIdReplayError) :
    (refuseReplay turn state id error).1.response =
      some ((Reply.error errorInvalidRequest (replayMessage error) none).toResponse id) := by
  rw [refuseReplay]
  dsimp only
  split <;> rw [finish_of_accepts accepts]

/-- A valid line is answered once if it is a request and not at all if it is a notification. -/
theorem answered_of_accepts (parse : String → Except String JsonValue) (state : StdioState)
    (accepts : turn.stdoutAccepts = true) :
    Answered parse turn (serveTurn parse state turn).1.response := by
  intro message envelope
  rw [serveTurn_of_message envelope.message_eq, serveMessage]
  cases request : requestId message with
  | none =>
    rcases @admit_notification state message envelope.valid request with
      ignored | ⟨name, _, admitted, _⟩
    · rw [ignored]
      rfl
    · simp only [admitted, serveAdmitted, request]
      rfl
  | some id =>
    rcases @admit_request state message envelope.valid id request with
      ⟨reply, refused⟩ | ⟨name, _, admitted, _, notNotification⟩
    · simp only [refused, finish_of_accepts accepts]
      exact ⟨_, rfl, get_id_toResponse id reply⟩
    · simp only [admitted, serveAdmitted, request]
      cases tracked : trackStdioRequestId state.seenRequestIds id with
      | error error =>
        exact ⟨_, response_refuseReplay accepts id error, get_id_toResponse id _⟩
      | ok key =>
        obtain ⟨reply, isReply⟩ := Option.isSome_iff_exists.mp (@isSome_reply_dispatch
          { state with seenRequestIds := insert key state.seenRequestIds } turn.adapter
          message _ notNotification id)
        simp only [finish_of_accepts accepts, isReply]
        exact ⟨_, rfl, get_id_toResponse id reply⟩

/-- On such a line the server only stops because the request-id window is exhausted. -/
theorem full_of_stopped (plain : turn.Plain) (stopped : (serveTurn parse state turn).2 = none) :
    (serveTurn parse state turn).1.replay = some (.error .full) := by
  rcases serveTurn_cases parse turn state with ⟨message, method, _, _, served⟩ | idle
  · rw [served, serveAdmitted] at stopped ⊢
    cases request : requestId message with
    | none =>
      simp only [request] at stopped
      cases stopped
    | some id =>
      simp only [request] at stopped ⊢
      cases tracked : trackStdioRequestId state.seenRequestIds id with
      | ok key =>
        simp only [tracked, finish_of_accepts plain.accepts] at stopped
        cases stopped
      | error error =>
        simp only [tracked, (replay_refuseReplay id error).1] at stopped ⊢
        rw [refuseReplay] at stopped
        dsimp only at stopped
        split at stopped
        · rename_i isFull
          rw [isFull]
        · rw [finish_of_accepts plain.accepts] at stopped
          cases stopped
  · exact absurd stopped (idle.goesOn plain)

end Turn

/-! ### Whole runs -/

section Runs

variable {parse : String → Except String JsonValue}

/-- What the flags and the window of the state say about the past. -/
structure StdioInvariant (parse : String → Except String JsonValue)
    (past : List (StdioTurn × TurnOutcome)) (state : StdioState) : Prop where
  taken : ∀ key ∈ past.filterMap (fun entry => entry.2.trackedKey), key ∈ state.seenRequestIds
  opened : state.initializeSeen = true → ∃ opening ∈ past, AcceptedInitialize parse opening
  ready : state.initializedNotificationSeen = true → Ready parse past

variable {past : List (StdioTurn × TurnOutcome)}

theorem Ready.append (ready : Ready parse past) (entry : StdioTurn × TurnOutcome) :
    Ready parse (past ++ [entry]) := by
  obtain ⟨opening, notified, listed, facts⟩ := ready
  exact ⟨opening, notified, listed.trans (sublist_append_left past [entry]), facts⟩

theorem StdioInvariant.step {state next : StdioState} {turn : StdioTurn} {outcome : TurnOutcome}
    (invariant : StdioInvariant parse past state)
    (effect : TurnEffect parse turn state outcome next) :
    StdioInvariant parse (past ++ [(turn, outcome)]) next := by
  have opened : state.initializeSeen = true →
      ∃ opening ∈ past ++ [(turn, outcome)], AcceptedInitialize parse opening := by
    intro seen
    obtain ⟨opening, member, accepted⟩ := invariant.opened seen
    exact ⟨opening, mem_append_left _ member, accepted⟩
  have ready : state.initializedNotificationSeen = true →
      Ready parse (past ++ [(turn, outcome)]) := fun seen => (invariant.ready seen).append _
  have untaken : outcome.trackedKey = none →
      ∀ key ∈ (past ++ [(turn, outcome)]).filterMap (fun entry => entry.2.trackedKey),
        key ∈ state.seenRequestIds := by
    intro untracked key member
    simp only [filterMap_append, filterMap_cons, untracked, filterMap_nil, append_nil] at member
    exact invariant.taken key member
  have taken : ∀ found, outcome.trackedKey = some found →
      ∀ key ∈ (past ++ [(turn, outcome)]).filterMap (fun entry => entry.2.trackedKey),
        key ∈ insert found state.seenRequestIds := by
    intro found tracked key member
    simp only [filterMap_append, filterMap_cons, tracked, filterMap_nil,
      mem_append, mem_singleton] at member
    rcases member with earlier | same
    · exact Finset.mem_insert_of_mem (invariant.taken key earlier)
    · rw [same]
      exact Finset.mem_insert_self _ _
  cases effect with
  | unchanged untracked => exact ⟨untaken untracked, opened, ready⟩
  | tracked isTaken => exact ⟨taken _ isTaken, opened, ready⟩
  | opened isTaken accepted =>
    exact ⟨taken _ isTaken,
      fun _ => ⟨_, mem_append_right _ (mem_singleton_self _), accepted⟩, ready⟩
  | readied untracked opening notified =>
    refine ⟨untaken untracked, opened, fun _ => ?_⟩
    -- the accepted request is in the past, and this turn comes after it
    obtain ⟨first, member, accepted⟩ := invariant.opened opening
    exact ⟨first, (turn, outcome),
      (singleton_sublist.mpr member).append (List.Sublist.refl [(turn, outcome)]),
      accepted, notified⟩

/-- The run rule at work: the invariant holds of the state in which any turn is served. -/
theorem stdioInvariant (parse : String → Except String JsonValue) :
    Trace.Invariant (serveTurn parse) StdioState.start (StdioInvariant parse) where
  initial := ⟨nofun,
    fun seen => absurd seen Bool.false_ne_true, fun seen => absurd seen Bool.false_ne_true⟩
  preserved := fun _ _ _ _ held moved => held.step (turnEffect moved)

def stdoutOf (served : List (StdioTurn × TurnOutcome)) : List JsonValue :=
  served.filterMap (fun entry => entry.2.response)

/-- The trace contract: every line is answered as it must be and in order, no key passes
duplicate tracking twice, and handlers run only for requests to a ready session. -/
theorem stdio_contract (parse : String → Except String JsonValue) (turns : List StdioTurn)
    (plain : ∀ turn ∈ turns, turn.Plain)
    (window : ∀ entry ∈ serve parse turns, entry.2.replay ≠ some (.error .full)) :
    (∃ answers, List.Forall₂ (Answered parse) turns answers ∧
        stdoutOf (serve parse turns) = answers.reduceOption) ∧
      ((serve parse turns).filterMap (fun entry => entry.2.trackedKey)).Nodup ∧
      (∀ entry ∈ serve parse turns, ∀ key, entry.2.trackedKey = some key →
        ∃ message id, IsEnvelope parse entry.1 message ∧ requestId message = some id ∧
          requestIdKey id = some key) ∧
      ∀ past entry rest, serve parse turns = past ++ entry :: rest → entry.2.handler ≠ none →
        (∃ message id, IsEnvelope parse entry.1 message ∧ requestId message = some id) ∧
          Ready parse past := by
  have visible : ∀ state, ∀ turn ∈ turns, (serveTurn parse state turn).2 = none →
      (serveTurn parse state turn).1.replay = some (.error .full) :=
    fun _ turn member stopped => full_of_stopped (plain turn member) stopped
  have inputs : (serve parse turns).map Prod.fst = turns :=
    @Trace.map_fst_trace _ _ _ _ _
      (fun outcome : TurnOutcome => outcome.replay = some (.error .full)) turns visible window
  have made : ∀ entry ∈ serve parse turns, ∃ past state, StdioInvariant parse past state ∧
      (serveTurn parse state entry.1).1 = entry.2 := by
    intro entry member
    obtain ⟨past, rest, split⟩ := append_of_mem member
    exact ⟨past, (stdioInvariant parse).of_entry split⟩
  refine ⟨⟨(serve parse turns).map (fun entry => entry.2.response), ?_, ?_⟩, ?_, ?_, ?_⟩
  · have answered : List.Forall₂ (Answered parse) ((serve parse turns).map Prod.fst)
        ((serve parse turns).map (fun entry => entry.2.response)) := by
      rw [forall₂_map_left_iff, forall₂_map_right_iff, forall₂_same]
      intro entry member
      obtain ⟨_, state, _, isOutcome⟩ := made entry member
      have isTurn : entry.1 ∈ turns := inputs ▸ List.mem_map_of_mem member
      rw [← isOutcome]
      exact answered_of_accepts parse state (plain entry.1 isTurn).accepts
    rwa [inputs] at answered
  · rw [stdoutOf, List.reduceOption, filterMap_map]
    rfl
  · apply Trace.nodup_filterMap
    intro past entry rest split key taken again
    obtain ⟨state, invariant, isOutcome⟩ := (stdioInvariant parse).of_entry split
    rw [← isOutcome] at taken
    exact (new_of_trackedKey taken).1 (invariant.taken key again)
  · intro entry member key taken
    obtain ⟨_, state, _, isOutcome⟩ := made entry member
    rw [← isOutcome] at taken
    exact (new_of_trackedKey taken).2
  · intro past entry rest split ran
    obtain ⟨state, invariant, isOutcome⟩ := (stdioInvariant parse).of_entry split
    obtain ⟨call, isCall⟩ := Option.ne_none_iff_exists'.mp ran
    rw [← isOutcome] at isCall
    obtain ⟨request, _, notified⟩ := ready_of_handler isCall
    exact ⟨request, invariant.ready notified⟩

end Runs

/-! ### A handshake -/

def call (id : Option JsonValue) (method : String) : JsonValue :=
  .object ((id.map (fun id => ("id", id))).toList ++
    [("jsonrpc", .string "2.0"), ("method", .string method)])

def openLine : String := "\x7b\"id\":1,\"jsonrpc\":\"2.0\",\"method\":\"initialize\"\x7d"

def readyLine : String := "\x7b\"jsonrpc\":\"2.0\",\"method\":\"notifications/initialized\"\x7d"

def listLine : String := "\x7b\"id\":2,\"jsonrpc\":\"2.0\",\"method\":\"tools/list\"\x7d"

/-- A parser that knows the messages of the handshake. -/
def handshakeParse (text : String) : Except String JsonValue :=
  if text = openLine then .ok (call (some (.number "1")) "initialize")
  else if text = readyLine then .ok (call none "notifications/initialized")
  else if text = listLine then .ok (call (some (.number "2")) "tools/list")
  else .error "expected value"

def emptyAdapter : Adapter where
  capabilities := .object []
  instructions := ""
  version := "0"
  toolListResult := fun _ _ => .object []
  listPrompts := fun _ => .object []
  getPrompt := fun _ _ => .error "unknown prompt"
  listResources := fun _ => .object []
  listResourceTemplates := fun _ => .object []
  readResource := fun _ => .error "unknown resource"
  executeTool := fun _ _ _ => .ok (.object [])

/-- A list request before the handshake, the handshake, and the request under a used id. -/
def handshakeTurns : List StdioTurn :=
  [openLine, listLine, readyLine, listLine, listLine].map
    (fun text => ⟨.line text, true, emptyAdapter⟩)

theorem plain_handshakeTurns : ∀ turn ∈ handshakeTurns, turn.Plain := by
  intro turn member
  obtain ⟨text, _, rfl⟩ := List.mem_map.mp member
  exact ⟨⟨text, rfl⟩, rfl⟩

/-- Only the fourth line runs a handler: the second comes too early and the last repeats its id. -/
theorem stdio_contract_handshake :
    (serve handshakeParse handshakeTurns).map (fun entry => entry.2.handler) =
        [none, none, none, some (.toolListResult none), none] ∧
      (stdoutOf (serve handshakeParse handshakeTurns)).map (JsonValue.get "id") =
        [some (.number "1"), some (.number "2"), some (.number "2"), some (.number "2")] ∧
      ((serve handshakeParse handshakeTurns).filterMap (fun entry => entry.2.trackedKey)).Nodup ∧
      Ready handshakeParse ((serve handshakeParse handshakeTurns).take 3) := by
  have handlers : (serve handshakeParse handshakeTurns).map (fun entry => entry.2.handler) =
      [none, none, none, some (.toolListResult none), none] := by decide
  have ids : (stdoutOf (serve handshakeParse handshakeTurns)).map (JsonValue.get "id") =
      [some (.number "1"), some (.number "2"), some (.number "2"), some (.number "2")] := by
    decide
  have window : ∀ entry ∈ serve handshakeParse handshakeTurns,
      entry.2.replay ≠ some (.error .full) := by
    have checked : ∀ replay ∈ (serve handshakeParse handshakeTurns).map
        (fun entry => entry.2.replay.map (fun result => match result with
          | .ok _ => true
          | .error error => decide (error ≠ .full))), replay ≠ some false := by decide
    intro entry member exhausted
    apply checked _ (List.mem_map_of_mem member)
    rw [exhausted]
    rfl
  obtain ⟨_, distinct, _, gated⟩ := stdio_contract handshakeParse handshakeTurns
    plain_handshakeTurns window
  refine ⟨handlers, ids, distinct, ?_⟩
  have length : (serve handshakeParse handshakeTurns).length = 5 := by
    rw [← List.length_map, handlers]
    rfl
  have split : serve handshakeParse handshakeTurns = (serve handshakeParse handshakeTurns).take 3 ++
        (serve handshakeParse handshakeTurns).get ⟨3, by omega⟩ ::
          (serve handshakeParse handshakeTurns).drop 4 := by
    simp
  refine (gated _ _ _ split ?_).2
  have fourth := congrArg (fun handlers => handlers[3]?) handlers
  simp only [List.getElem?_map, List.getElem?_cons_succ, List.getElem?_cons_zero] at fourth
  obtain ⟨entry, isEntry, ran⟩ := Option.map_eq_some_iff.mp fourth
  rw [get_eq_getElem, (List.getElem?_eq_some_iff.mp isEntry).2, ran]
  exact Option.some_ne_none _

end Mcpace.Mcp

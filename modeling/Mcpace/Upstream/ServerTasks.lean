import Mcpace.Json.Value
import Mcpace.Library.Interleaving

/-!
Owns the workers of `run_server_tasks` of `src/upstream/server_config.rs`: they take servers from
one iterator and send what their tasks return, or a record of the panic, over one channel. A panic
is caught only where panics unwind; the `release` and `perf` profiles of `Cargo.toml` abort instead,
and then the whole process ends at the first panic.

Does not own: lists of at most one server, whose task runs on the caller's thread, and the choice of
the worker limit.
-/

namespace Mcpace.Upstream.ServerTasks

open Json Library Interleaving List Function

/-- What a panic does, by the profile of the build. -/
inductive PanicStrategy where
  | unwind
  | abort
deriving DecidableEq

variable {S : Type} (strategy : PanicStrategy) (name : S → String) (task : S → Option JsonValue)
  (servers : List S)

/-! ### Workers -/

def upstreamWorkerPanicResult (name : String) : JsonValue :=
  .ofEntries [("name", .string name), ("ok", .bool false), ("status", .string "worker-panicked"),
    ("error", .string "internal upstream discovery worker panicked")]

/-- What a worker sends for a server; a task without a value panics. -/
def taskResult (server : S) : JsonValue :=
  (task server).getD (upstreamWorkerPanicResult (name server))

inductive Worker (S : Type) where
  | idle
  | running (index : Nat) (server : S)
  | stopped

/-- The position of the iterator, the channel, and whether the process has been aborted. -/
structure Queue where
  next : Nat
  sent : List (Nat × JsonValue)
  aborted : Bool

def advance (queue : Queue) (worker : Worker S) (_ : Unit) : Option (Worker S × Queue) :=
  if queue.aborted then none
  else match worker with
    | .idle =>
      match servers[queue.next]? with
      | some server => some (.running queue.next server, { queue with next := queue.next + 1 })
      | none => some (.stopped, queue)
    | .running index server =>
      if strategy = .abort ∧ (task server).isNone then
        some (.stopped, { queue with aborted := true })
      else
        some (.idle, { queue with sent := queue.sent ++ [(index, taskResult name task server)] })
    | .stopped => none

/-- The threads before the first that cannot be spawned, or the caller's if there is none. -/
def workerCount (workerLimit : Nat) (spawns : Nat → Bool) : Nat :=
  max ((range workerLimit).takeWhile spawns).length 1

def start (n : Nat) : World (Fin n) Queue (Worker S) := ⟨⟨0, [], false⟩, fun _ => .idle⟩

/-- The received results in the order of the servers. -/
def collect (sent : List (Nat × JsonValue)) : List JsonValue :=
  let results := sent.foldl (fun slots message => slots.set message.1 (some message.2))
    (replicate servers.length none)
  zipWith (fun server slot => slot.getD (upstreamWorkerPanicResult (name server))) servers results

/-! ### Every run ends -/

def Worker.work : Worker S → Nat
  | .idle => 1
  | .running _ _ => 2
  | .stopped => 0

def work {n : Nat} (world : World (Fin n) Queue (Worker S)) : Nat :=
  2 * (servers.length - world.shared.next) + ∑ worker, (world.process worker).work

variable {strategy name task servers} {n : Nat} {world next : World (Fin n) Queue (Worker S)}
  {queue queueAfter : Queue} {worker workerAfter : Worker S}

/-- What a step can do. -/
inductive Moves (strategy : PanicStrategy) (name : S → String) (task : S → Option JsonValue)
    (servers : List S) (queue : Queue) : Worker S → Worker S → Queue → Prop where
  | take {server : S} (found : servers[queue.next]? = some server) :
      Moves strategy name task servers queue .idle (.running queue.next server)
        { queue with next := queue.next + 1 }
  | stop (ended : servers[queue.next]? = none) :
      Moves strategy name task servers queue .idle .stopped queue
  | send (index : Nat) (server : S) (sends : strategy = .unwind ∨ (task server).isSome = true) :
      Moves strategy name task servers queue (.running index server) .idle
        { queue with sent := queue.sent ++ [(index, taskResult name task server)] }
  | abort (index : Nat) (server : S) (aborts : strategy = .abort) (panics : task server = none) :
      Moves strategy name task servers queue (.running index server) .stopped
        { queue with aborted := true }

theorem moves_of_advance
    (advanced : advance strategy name task servers queue worker () =
      some (workerAfter, queueAfter)) :
    queue.aborted = false ∧ Moves strategy name task servers queue worker workerAfter queueAfter := by
  unfold advance at advanced
  split at advanced
  · cases advanced
  · rename_i alive
    refine ⟨Bool.eq_false_of_not_eq_true alive, ?_⟩
    cases worker with
    | idle =>
      dsimp only at advanced
      split at advanced
      · rename_i server found
        cases advanced
        exact .take found
      · rename_i ended
        cases advanced
        exact .stop ended
    | running index server =>
      dsimp only at advanced
      split at advanced
      · rename_i panics
        cases advanced
        exact .abort index server panics.1 (Option.isNone_iff_eq_none.mp panics.2)
      · rename_i sends
        cases advanced
        refine .send index server ?_
        cases strategy with
        | unwind => exact .inl rfl
        | abort => exact .inr (Option.isSome_iff_ne_none.mpr (by simpa using sends))
    | stopped => cases advanced

theorem Moves.work_lt
    (moves : Moves strategy name task servers queue worker workerAfter queueAfter) :
    2 * (servers.length - queueAfter.next) + workerAfter.work <
      2 * (servers.length - queue.next) + worker.work := by
  cases moves with
  | take found =>
    have inside := (List.getElem?_eq_some_iff.mp found).1
    simp only [Worker.work]
    omega
  | stop | send | abort => simp [Worker.work]

theorem work_step {action : Fin n × Unit}
    (moved : step (advance strategy name task servers) world action = some next) :
    work servers next < work servers world := by
  obtain ⟨worker, queue, advanced, rfl⟩ := step_eq_some moved
  have less := (moves_of_advance advanced).2.work_lt
  have others : ∑ other ∈ Finset.univ.erase action.1,
      (update world.process action.1 worker other).work =
        ∑ other ∈ Finset.univ.erase action.1, (world.process other).work := by
    apply Finset.sum_congr rfl
    intro other member
    rw [update_of_ne (Finset.ne_of_mem_erase member)]
  simp only [work]
  rw [← Finset.add_sum_erase _ _ (Finset.mem_univ action.1), update_self, others,
    ← Finset.add_sum_erase _ (fun other => (world.process other).work) (Finset.mem_univ action.1)]
  omega

/-! ### Every result arrives -/

/-- The servers that were taken are with a worker or sent, and what is sent is their result. -/
structure Delivered (strategy : PanicStrategy) (name : S → String) (task : S → Option JsonValue)
    (servers : List S) (world : World (Fin n) Queue (Worker S)) : Prop where
  taken : ∀ index < world.shared.next, (∃ result, (index, result) ∈ world.shared.sent) ∨
    ∃ worker server, world.process worker = .running index server
  running : ∀ worker index server, world.process worker = .running index server →
    servers[index]? = some server
  sent : ∀ message ∈ world.shared.sent, ∃ server, servers[message.1]? = some server ∧
    taskResult name task server = message.2 ∧ (strategy = .unwind ∨ (task server).isSome = true)
  ended : ∀ worker, world.process worker = .stopped → servers.length ≤ world.shared.next

/-- A world that was not aborted has lost nothing, and only a panic aborts one. -/
def Sound (strategy : PanicStrategy) (name : S → String) (task : S → Option JsonValue)
    (servers : List S) (world : World (Fin n) Queue (Worker S)) : Prop :=
  if world.shared.aborted then strategy = .abort ∧ ∃ server ∈ servers, task server = none
  else Delivered strategy name task servers world

theorem sound_of_reaches
    (reached : Reaches (advance strategy name task servers) (fun _ _ _ => True) (start n) world) :
    Sound strategy name task servers world := by
  apply reached.invariant
  · exact ⟨nofun, nofun, nofun, nofun⟩
  · intro world thread event workerAfter queueAfter sound advanced _
    obtain ⟨alive, moves⟩ := moves_of_advance advanced
    rw [Sound, if_neg (by rw [alive]; exact Bool.false_ne_true)] at sound
    generalize isWorker : world.process thread = worker at moves
    obtain ⟨taken, running, sent, ended⟩ := sound
    have kept : ∀ {index other server}, world.process other = .running index server →
        worker = .running index server ∨ ∃ other server,
          update world.process thread workerAfter other = .running index server := by
      intro index other server isRunning
      by_cases same : other = thread
      · exact .inl (isWorker.symm.trans (same ▸ isRunning))
      · exact .inr ⟨other, server, (update_of_ne same _ _).trans isRunning⟩
    cases moves with
    | take found =>
      rw [Sound, if_neg (by simp [alive])]
      refine ⟨fun index early => ?_, by grind [update_apply], sent, by grind [update_apply]⟩
      rcases Nat.lt_succ_iff_lt_or_eq.mp early with before | rfl
      · rcases taken index before with isSent | ⟨other, server, isRunning⟩
        · exact .inl isSent
        · exact .inr ((kept isRunning).resolve_left nofun)
      · exact .inr ⟨thread, _, update_self ..⟩
    | stop absent =>
      rw [Sound, if_neg (by simp [alive])]
      refine ⟨fun index early => ?_, by grind [update_apply], sent,
        fun _ _ => List.getElem?_eq_none_iff.mp absent⟩
      rcases taken index early with isSent | ⟨other, server, isRunning⟩
      · exact .inl isSent
      · exact .inr ((kept isRunning).resolve_left nofun)
    | send own server sends =>
      have isServer := running thread own server isWorker
      rw [Sound, if_neg (by simp [alive])]
      refine ⟨fun index early => ?_, by grind [update_apply], ?_, by grind [update_apply]⟩
      · rcases taken index early with ⟨result, isSent⟩ | ⟨other, _, isRunning⟩
        · exact .inl ⟨result, mem_append_left _ isSent⟩
        · rcases kept isRunning with same | stays
          · cases same
            exact .inl ⟨_, mem_append_right _ mem_cons_self⟩
          · exact .inr stays
      · intro message member
        rcases mem_append.mp member with earlier | last
        · exact sent message earlier
        · rw [mem_singleton.mp last]
          exact ⟨server, isServer, rfl, sends⟩
    | abort own server aborts panics =>
      rw [Sound, if_pos rfl]
      exact ⟨aborts, server, mem_of_getElem? (running thread own server isWorker), panics⟩

/-- A slot holds what was sent for it. -/
theorem getElem?_foldl_set {α : Type} (result : Nat → Option α) {sent : List (Nat × α)}
    (results : ∀ message ∈ sent, result message.1 = some message.2) {index : Nat}
    {slots : List (Option α)} (inside : index < slots.length) :
    (sent.foldl (fun slots message => slots.set message.1 (some message.2)) slots)[index]? =
      if index ∈ sent.map Prod.fst then some (result index) else slots[index]? := by
  induction sent generalizing slots with
  | nil => simp
  | cons message sent ih =>
    rw [foldl_cons, ih (forall_mem_cons.mp results).2 (by simpa)]
    have first := results message mem_cons_self
    grind

theorem Delivered.sent_of_stopped (delivered : Delivered strategy name task servers world)
    (finished : ∀ worker, world.process worker = .stopped) (some : 0 < n) {index : Nat}
    (inside : index < servers.length) : ∃ result, (index, result) ∈ world.shared.sent := by
  have all := delivered.ended ⟨0, some⟩ (finished _)
  apply (delivered.taken index (by omega)).resolve_right
  rintro ⟨worker, server, isRunning⟩
  rw [finished] at isRunning
  cases isRunning

theorem Delivered.collect_eq (delivered : Delivered strategy name task servers world)
    (finished : ∀ worker, world.process worker = .stopped) (some : 0 < n) :
    collect name servers world.shared.sent = servers.map (taskResult name task) := by
  apply ext_getElem?
  intro index
  rw [collect, getElem?_zipWith, getElem?_map]
  cases found : servers[index]? with
  | none => rfl
  | some server =>
    have inside := (List.getElem?_eq_some_iff.mp found).1
    obtain ⟨result, isSent⟩ := delivered.sent_of_stopped finished some inside
    have results : ∀ message ∈ world.shared.sent,
        (servers[message.1]?).map (taskResult name task) = Option.some message.2 := by
      intro message member
      obtain ⟨other, isOther, isResult, -⟩ := delivered.sent message member
      rw [isOther, Option.map_some, isResult]
    rw [getElem?_foldl_set (fun index => (servers[index]?).map (taskResult name task)) results
      (by simpa using inside), if_pos (mem_map_of_mem isSent), found]
    rfl

/-- One result for each server in order: the value of its task, or the record that names it. -/
structure Complete (name : S → String) (task : S → Option JsonValue) (servers : List S)
    (results : List JsonValue) : Prop where
  length : results.length = servers.length
  returned : ∀ (index : Nat) server value, servers[index]? = some server → task server = some value →
    results[index]? = some value
  panicked : ∀ (index : Nat) server, servers[index]? = some server → task server = none →
    results[index]? = some (.ofEntries [("name", .string (name server)), ("ok", .bool false),
      ("status", .string "worker-panicked"),
      ("error", .string "internal upstream discovery worker panicked")])

theorem complete_map_taskResult : Complete name task servers
    (servers.map (taskResult name task)) where
  length := length_map ..
  returned := by
    intro index server value found returns
    rw [getElem?_map, found, Option.map_some, taskResult, returns, Option.getD_some]
  panicked := by
    intro index server found panics
    rw [getElem?_map, found, Option.map_some, taskResult, panics]
    rfl

/-- Every step of the workers brings the end nearer. Where no worker can go on, the call returns one
result for each server exactly if panics unwind or no task panics. -/
theorem runServerTasks_complete_iff (strategy : PanicStrategy) (name : S → String)
    (task : S → Option JsonValue) (servers : List S) (workerLimit : Nat) (spawns : Nat → Bool) :
    (∀ (world next : World (Fin (workerCount workerLimit spawns)) Queue (Worker S)) action,
        step (advance strategy name task servers) world action = some next →
          work servers next < work servers world) ∧
      ∀ world : World (Fin (workerCount workerLimit spawns)) Queue (Worker S),
        Reaches (advance strategy name task servers) (fun _ _ _ => True) (start _) world →
          (∀ action, step (advance strategy name task servers) world action = none) →
            (world.shared.aborted = false ∧
                Complete name task servers (collect name servers world.shared.sent) ↔
              strategy = .unwind ∨ ∀ server ∈ servers, (task server).isSome = true) := by
  refine ⟨fun _ _ _ moved => work_step moved, fun world reached stuck => ?_⟩
  have some : 0 < workerCount workerLimit spawns := Nat.lt_of_lt_of_le Nat.one_pos (le_max_right ..)
  have sound := sound_of_reaches reached
  rw [Sound] at sound
  cases aborted : world.shared.aborted with
  | true =>
    rw [if_pos aborted] at sound
    obtain ⟨aborts, server, member, panics⟩ := sound
    refine iff_of_false nofun ?_
    rintro (unwinds | returns)
    · rw [aborts] at unwinds
      cases unwinds
    · have returned := returns server member
      rw [panics] at returned
      cases returned
  | false =>
    rw [aborted, if_neg Bool.false_ne_true] at sound
    have finished : ∀ worker, world.process worker = .stopped := by
      intro worker
      have ended := Option.map_eq_none_iff.mp (stuck (worker, ()))
      unfold advance at ended
      rw [if_neg (by rw [aborted]; exact Bool.false_ne_true)] at ended
      cases state : world.process worker with
      | idle =>
        simp only [state] at ended
        split at ended <;> cases ended
      | running =>
        simp only [state] at ended
        split at ended <;> cases ended
      | stopped => rfl
    rw [sound.collect_eq finished some]
    refine iff_of_true ⟨rfl, complete_map_taskResult⟩ ?_
    by_contra bad
    push Not at bad
    obtain ⟨aborts, server, member, panics⟩ := bad
    obtain ⟨index, found⟩ := List.getElem?_of_mem member
    obtain ⟨result, isSent⟩ :=
      sound.sent_of_stopped finished some (List.getElem?_eq_some_iff.mp found).1
    obtain ⟨other, isOther, -, sends⟩ := sound.sent _ isSent
    rw [found, Option.some_inj] at isOther
    rcases sends with unwinds | returns
    · exact aborts unwinds
    · exact panics (isOther ▸ returns)

/-- The first task returns and the second panics. -/
def mixedTask : String → Option JsonValue := fun server => if server = "a" then some .null else none

/-- Five steps of the only thread that could be spawned. -/
def mixedRun (strategy : PanicStrategy) :
    Option (World (Fin (workerCount 4 (· = 0))) Queue (Worker String)) :=
  runChecked (advance strategy id mixedTask ["a", "b"]) (fun _ _ _ => True) (start _)
    (replicate 5 (⟨0, by decide⟩, ()))

theorem runServerTasks_complete_unwind : ∃ world, mixedRun .unwind = some world ∧
    Complete id mixedTask ["a", "b"] (collect id ["a", "b"] world.shared.sent) ∧
    collect id ["a", "b"] world.shared.sent = [.null, upstreamWorkerPanicResult "b"] := by
  have ran : mixedRun .unwind = some ((mixedRun .unwind).getD (start _)) := rfl
  refine ⟨_, ran, (((runServerTasks_complete_iff .unwind id mixedTask ["a", "b"] 4 (· = 0)).2 _
    (reaches_of_runChecked ran) ?_).mpr (.inl rfl)).2, rfl⟩
  rintro ⟨⟨worker, only⟩, ⟨⟩⟩
  obtain rfl : worker = 0 := Nat.lt_one_iff.mp only
  rfl

/-- Where panics abort, the second task ends the process before its result is sent. -/
theorem runServerTasks_aborted : ∃ world, Reaches (advance .abort id mixedTask ["a", "b"])
      (fun _ _ _ => True) (start (workerCount 4 (· = 0))) world ∧
    world.shared.aborted = true ∧ world.shared.sent = [(0, .null)] ∧
    ∀ action, step (advance .abort id mixedTask ["a", "b"]) world action = none := by
  have ran : runChecked (advance .abort id mixedTask ["a", "b"]) (fun _ _ _ => True)
    (start (workerCount 4 (· = 0))) (replicate 4 (⟨0, by decide⟩, ())) = some _ := rfl
  exact ⟨_, reaches_of_runChecked ran, rfl, rfl, fun _ => rfl⟩

end Mcpace.Upstream.ServerTasks

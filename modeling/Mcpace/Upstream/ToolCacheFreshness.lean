import Mcpace.Upstream.ToolCacheReceipts

/-!
Contract: how old a list from the tool cache can be when a call returns it.

An entry that a load has put into memory counts its age from the load, and a file carries the time
of its load. An entry promoted from a file counts from the promotion, so its list can be served from
memory when its file would no longer be: for up to twice the lifetime.

Beside that the source does not count the time between an arrival and the stamps, the time between
a lookup and the return, and fractions of a millisecond. `Counted` bounds the two times by a slack,
and keeps lookups by that much away from the end of a lifetime.
-/

namespace Mcpace.Upstream.ToolCache

open Library Json Interleaving Option

/-! ### The condition -/

/-- A list that arrived is stored, and one that was found is returned, within the slack. -/
def Phase.Held (slack now : Nat) : Phase → Prop
  | .stamping _ receipt | .writing _ receipt _ | .remembering _ receipt =>
    now ≤ receipt.receivedAt + slack
  | .promoting _ _ _ since | .serving _ _ _ since => now ≤ since + slack
  | _ => True

/-- Lookups find no entry that was promoted from a file, and neither lookups nor reads of files come
in the last moments of a lifetime: twice the slack, and for files a millisecond more. -/
def LooksEarly (setting : Setting) (slack : Nat) (shared : Shared) (thread : Thread) : Prop :=
  match thread.phase with
  | .looking call => ∀ entry ∈ OrderedMap.get call.key (shared.memory thread.home),
      entry.fileStampMs = none ∧ (shared.now - entry.storedAt + 2 * slack ≤ toolListCacheTtlNs ∨
        toolListCacheTtlNs < shared.now - entry.storedAt)
  | .judging _ file => ∀ nowMs ∈ setting.unixTimeMs shared.now,
      (nowMs + 1 - file.stampMs) * 1000000 + 2 * slack ≤ toolListCacheTtlNs ∨
        file.stampMs + toolListCacheTtlMs < nowMs
  | _ => True

def Counted (setting : Setting) (slack : Nat) {T : Type} (world : CacheWorld T) (action : T × Event)
    (_next : CacheWorld T) : Prop :=
  Attributed setting world action ∧
    (world.process action.1).phase.Held slack world.shared.now ∧
    LooksEarly setting slack world.shared (world.process action.1)

/-! ### Ages -/

/-- The stamp of a file was made within the slack after the arrival of its list. -/
def CacheFile.Timely (setting : Setting) (slack : Nat) (file : CacheFile) : Prop :=
  ∃ moment ≤ file.receipt.receivedAt + slack, setting.unixTimeMs moment = some file.stampMs ∧
    file.document.valueAtPath ["storedAtUnixMs"] = some (.string (toString file.stampMs))

structure AgeFacts (setting : Setting) (slack : Nat) (shared : Shared) : Prop where
  memory : ∀ home key entry, OrderedMap.get key (shared.memory home) = some entry →
    entry.fileStampMs = none → entry.storedAt ≤ entry.receipt.receivedAt + slack
  disk : ∀ path file, shared.disk path = some file → file.Timely setting slack

/-- The list can be held for the slack without getting too old. -/
def Receipt.Young (receipt : Receipt) (slack now : Nat) : Prop :=
  now + slack ≤ receipt.receivedAt + toolListCacheTtlNs

def Phase.Timely (setting : Setting) (slack : Nat) : Phase → Prop
  | .judging _ file => file.Timely setting slack
  | .promoting _ _ file since => file.receipt.Young slack since
  | .serving _ _ receipt since => receipt.Young slack since
  | .writing _ receipt stampMs =>
    ∃ moment ≤ receipt.receivedAt + slack, setting.unixTimeMs moment = some stampMs
  | .returned _ (.ok answer) =>
    answer.cached = true → answer.returnedAt ≤ answer.receipt.receivedAt + toolListCacheTtlNs
  | _ => True

section Ages

variable {setting : Setting} {slack home : Nat} {shared sharedAfter : Shared}
  {phase phaseAfter : Phase} {event : Event}

/-- A file is accepted only while its stamp is not older than the lifetime. -/
theorem inTime_of_judge {key : ToolListCacheKey} {now : Nat} {value tools : JsonValue}
    (judged : judge setting home key now value = .fresh tools) :
    ∃ storedAt nowMs, u128AtPath value ["storedAtUnixMs"] = some storedAt ∧
      setting.unixTimeMs now = some nowMs ∧
      nowMs ≤ Machine.saturatingAdd 128 storedAt toolListCacheTtlMs := by
  unfold judge at judged
  split_ifs at judged
  split at judged
  · rename_i storedAt nowMs stored clock
    split_ifs at judged with expired
    exact ⟨storedAt, nowMs, stored, clock, Nat.not_lt.mp (not_or.mp expired).2⟩
  · cases judged

/-- A file that is accepted, and not in its last moments, has a young list. -/
theorem CacheFile.Timely.young {file : CacheFile} {call : Call} {tools : JsonValue}
    (timely : file.Timely setting slack)
    (judged : judge setting home call.key shared.now
      (JsonValue.reload setting.renumber file.document) = .fresh tools)
    (early : LooksEarly setting slack shared ⟨home, .judging call file⟩) :
    file.receipt.Young slack shared.now := by
  obtain ⟨moment, near, stamp, written⟩ := timely
  obtain ⟨storedAt, nowMs, stored, clock, inTime⟩ := inTime_of_judge judged
  rw [u128AtPath, JsonValue.valueAtPath_reload, written, map_some, JsonValue.reload] at stored
  dsimp only at stored
  rw [Text.parseUnsigned_toString_eq] at stored
  split_ifs at stored
  rw [Option.some.injEq] at stored
  have bound : Machine.saturatingAdd 128 storedAt toolListCacheTtlMs ≤
    storedAt + toolListCacheTtlMs := min_le_left _ _
  have soon := (early nowMs clock).resolve_right (by omega)
  unfold Setting.unixTimeMs at stamp clock
  split_ifs at stamp clock
  rw [Option.some.injEq] at stamp clock
  unfold toolListCacheTtlNs at soon
  unfold Receipt.Young toolListCacheTtlNs
  omega

/-- An entry of a load that is found, and not in its last moments, has a young list. -/
theorem AgeFacts.hit {call : Call} {entry : CachedToolList} (facts : AgeFacts setting slack shared)
    (found : OrderedMap.get call.key (shared.memory home) = some entry)
    (inTime : shared.now - entry.storedAt ≤ toolListCacheTtlNs)
    (early : LooksEarly setting slack shared ⟨home, .looking call⟩) :
    entry.receipt.Young slack shared.now := by
  obtain ⟨loaded, margin⟩ := early entry found
  have stored := facts.memory home call.key entry found loaded
  unfold Receipt.Young
  omega

theorem Phase.Held.stored {key : ToolListCacheKey} {entry : CachedToolList}
    (held : phase.Held slack shared.now)
    (stores : storedEntry shared.now phase event = some (key, entry))
    (loaded : entry.fileStampMs = none) : entry.storedAt ≤ entry.receipt.receivedAt + slack := by
  unfold storedEntry at stores
  split at stores
  · cases stores
    cases loaded
  · cases stores
    exact held
  · cases stores

theorem Phase.Timely.written {path : CachePath} {file : CacheFile}
    (timely : phase.Timely setting slack)
    (writes : writtenFile setting home phase event = some (path, file)) :
    file.Timely setting slack := by
  unfold writtenFile at writes
  split at writes
  · rename_i call receipt stampMs
    cases writes
    obtain ⟨moment, near, stamp⟩ := timely
    refine ⟨moment, near, stamp, ?_⟩
    rw [JsonValue.valueAtPath_singleton, Setting.envelope, JsonValue.get_ofEntries]
    rfl
  · cases writes

theorem AgeFacts.step (facts : AgeFacts setting slack shared) (timely : phase.Timely setting slack)
    (held : phase.Held slack shared.now)
    (moves : Moves setting home shared phase event phaseAfter sharedAfter) :
    AgeFacts setting slack sharedAfter where
  memory := by
    intro other key entry found
    rcases moves.memory found with ⟨old, -⟩ | ⟨-, stores⟩
    · exact facts.memory other key entry old
    · exact held.stored stores
  disk := by
    intro path file found
    rcases moves.disk found with ⟨old, -⟩ | writes
    · exact facts.disk path file old
    · exact timely.written writes

theorem Phase.Timely.step (timely : phase.Timely setting slack)
    (facts : AgeFacts setting slack shared) (held : phase.Held slack shared.now)
    (early : LooksEarly setting slack shared ⟨home, phase⟩)
    (moves : Moves setting home shared phase event phaseAfter sharedAfter) :
    phaseAfter.Timely setting slack := by
  cases moves with
  | hit found inTime => exact facts.hit found inTime early
  | read found => exact facts.disk _ _ found
  | accept judged => exact CacheFile.Timely.young timely judged early
  | serve =>
    intro _
    unfold Phase.Timely Receipt.Young at timely
    unfold Phase.Held at held
    dsimp only
    omega
  | stamp clock => exact ⟨shared.now, held, clock⟩
  | release call outcome =>
    rcases outcome with _ | _ | receipt
    · trivial
    · trivial
    · intro impossible
      cases impossible
  | tick | lose | promote => exact timely
  | _ => trivial

end Ages

/-! ### Freshness -/

section Runs

variable {setting : Setting} {slack : Nat} {T : Type} [DecidableEq T] {start world : CacheWorld T}

theorem timely_of_reaches (initial : Initial start)
    (reached : Reaches (advance setting) (Counted setting slack) start world) :
    AgeFacts setting slack world.shared ∧
      ∀ thread, (world.process thread).phase.Timely setting slack := by
  apply Reaches.each (AgeFacts setting slack) (fun _ thread => thread.phase.Timely setting slack)
    _ _ reached
  · refine ⟨⟨?_, ?_⟩, ?_⟩
    · simp [initial.memory]
    · simp [initial.disk]
    · intro thread
      rw [initial.idle]
      trivial
  · intro world thread event threadAfter sharedAfter facts timely advanced counted
    obtain ⟨-, held, early⟩ := counted
    obtain ⟨_, moves⟩ := moves_of_advance advanced
    exact ⟨facts.step (timely thread) held moves, (timely thread).step facts held early moves,
      timely⟩

/-- In every run that keeps to a slack, a list returned from a cache was received for the call's key
no more than thirty seconds before. -/
theorem cachedList_fresh (initial : Initial start)
    (reached : Reaches (advance setting) (Counted setting slack) start world) {thread : T}
    {call : Call} {answer : Answer}
    (returned : (world.process thread).phase = .returned call (.ok answer))
    (cached : answer.cached = true) :
    Genuine setting world.shared.history call.key answer.tools answer.receipt ∧
      answer.returnedAt ≤ answer.receipt.receivedAt + 30 * 1000000000 := by
  have genuine := (genuine_of_reaches (fun _ _ _ counted => counted.1) initial reached).2 thread
  have timely := (timely_of_reaches initial reached).2 thread
  rw [returned] at genuine timely
  exact ⟨genuine, timely cached⟩

end Runs

/-! ### Concrete runs -/

section Concrete

variable {T : Type}

instance (slack now : Nat) (phase : Phase) : Decidable (phase.Held slack now) := by
  unfold Phase.Held
  split <;> infer_instance

instance (setting : Setting) (world : CacheWorld T) (action : T × Event) :
    Decidable (Attributed setting world action) :=
  inferInstanceAs (Decidable (∀ accepted ∈ acceptedFile _ _ _ _, _))

instance (setting : Setting) (slack : Nat) (shared : Shared) (thread : Thread) :
    Decidable (LooksEarly setting slack shared thread) := by
  unfold LooksEarly
  split <;> infer_instance

instance (setting : Setting) (slack : Nat) (world : CacheWorld T) (action : T × Event)
    (next : CacheWorld T) : Decidable (Counted setting slack world action next) :=
  inferInstanceAs (Decidable (_ ∧ _))

/-- Files in the root directory, and a wall clock that starts with the instants. -/
def plainSetting : Setting where
  wallOffset := 0
  renumber := some
  cacheDir := fun _ root => root
  version := fun _ => "0.8.2"

def demoKey : ToolListCacheKey := ⟨"/r", "demo", 0, 0, ""⟩

/-- An upstream's result with one tool. -/
def oneTool (name : String) : JsonValue :=
  .ofEntries [("tools", .array [.ofEntries [("name", .string name), ("inputSchema", .object [])]])]

def emptyWorld (home : T → Nat) : CacheWorld T where
  shared := ⟨0, fun _ => [], fun _ => ∅, fun _ => none, []⟩
  process := fun thread => ⟨home thread, .idle⟩

theorem emptyWorld_initial (home : T → Nat) : Initial (emptyWorld home) :=
  ⟨fun _ => rfl, fun _ => rfl, fun _ => rfl, rfl⟩

def Deed.arrival? : Deed → Option Nat
  | .received receipt => some receipt.receivedAt
  | _ => none

def Phase.answer? : Phase → Option (Call × Answer)
  | .returned call (.ok answer) => some (call, answer)
  | _ => none

theorem Phase.eq_returned {phase : Phase} {call : Call} {answer : Answer}
    (answered : phase.answer? = some (call, answer)) :
    phase = .returned call (.ok answer) := by
  unfold Phase.answer? at answered
  split at answered
  · cases answered
    rfl
  · cases answered

def proceeds (thread : T) (steps : Nat) : List (T × Event) :=
  List.replicate steps (thread, .proceed)

end Concrete

/-- A call that finds nothing and loads a list. -/
def loadingCall {T : Type} (thread : T) (name : String) : List (T × Event) :=
  [(thread, .call demoKey false)] ++ proceeds thread 3 ++
    [(thread, .receive (.ok (oneTool name)))] ++ proceeds thread 4

/-- The list takes a second to be stored. The second call comes ten seconds later, in the same
process, and takes a second to return what it has found. -/
def slowRun : List (Nat × Event) :=
  [(0, .call demoKey false)] ++ proceeds 0 3 ++
    [(0, .receive (.ok (oneTool "a"))), (1, .tick 1000000000)] ++ proceeds 0 4 ++
    [(0, .tick 10000000000), (1, .call demoKey false)] ++ proceeds 1 1 ++ [(0, .tick 1000000000)] ++
    proceeds 1 1

theorem cachedList_fresh_slowRun : ∃ world : CacheWorld Nat, ∃ call answer,
      Reaches (advance plainSetting) (Counted plainSetting 1000000000) (emptyWorld (fun _ => 0))
        world ∧
      (world.process 1).phase = .returned call (.ok answer) ∧ answer.cached = true ∧
      Genuine plainSetting world.shared.history call.key answer.tools answer.receipt ∧
      answer.returnedAt ≤ answer.receipt.receivedAt + 30 * 1000000000 := by
  have ran : ((runChecked (advance plainSetting) (Counted plainSetting 1000000000)
      (emptyWorld (fun _ => 0)) slowRun).bind (fun world => (world.process 1).phase.answer?)).map
        (fun returned => returned.2.cached) = some true := by decide
  obtain ⟨⟨call, answer⟩, answered, cached⟩ := map_eq_some_iff.mp ran
  obtain ⟨world, reachedBy, answered⟩ := bind_eq_some_iff.mp answered
  have reached := reaches_of_runChecked reachedBy
  have returned := Phase.eq_returned answered
  have fresh := cachedList_fresh (emptyWorld_initial _) reached returned cached
  exact ⟨world, call, answer, reached, returned, cached, fresh⟩

/-- The process of thread 1 reads the file of the other process thirty seconds after the load, and
serves the list from memory after another thirty. -/
def promotedRun : List (Nat × Event) :=
  loadingCall 0 "a" ++ [(0, .tick 30000000000), (1, .call demoKey false)] ++ proceeds 1 5 ++
    [(0, .tick 30000000000), (1, .call demoKey false)] ++ proceeds 1 2

/-- A run without uncounted delays in which the list returned is sixty seconds old; it is the only
one that was ever received. -/
theorem promotedRun_stale : ∃ world : CacheWorld Nat, ∃ call answer,
      Reaches (advance plainSetting) (fun world action _ => Attributed plainSetting world action ∧
        (world.process action.1).phase.Held 0 world.shared.now) (emptyWorld id) world ∧
      (world.process 1).phase = .returned call (.ok answer) ∧ answer.cached = true ∧
      ∀ receipt, .received receipt ∈ world.shared.history →
        receipt.receivedAt + 60 * 1000000000 ≤ answer.returnedAt := by
  have ran : ((runChecked (advance plainSetting) (fun world action _ =>
      Attributed plainSetting world action ∧
        (world.process action.1).phase.Held 0 world.shared.now)
      (emptyWorld id) promotedRun).bind (fun world =>
        (world.process 1).phase.answer?.map (fun returned =>
          (returned.2.cached, world.shared.history.filterMap Deed.arrival?,
            returned.2.returnedAt)))) =
      some (true, [0], 60000000000) := by decide +kernel
  obtain ⟨world, reachedBy, ran⟩ := bind_eq_some_iff.mp ran
  obtain ⟨⟨call, answer⟩, answered, shown⟩ := map_eq_some_iff.mp ran
  rw [Prod.mk.injEq, Prod.mk.injEq] at shown
  refine ⟨world, call, answer, reaches_of_runChecked reachedBy, Phase.eq_returned answered,
    shown.1, ?_⟩
  intro receipt member
  have listed : receipt.receivedAt ∈ world.shared.history.filterMap Deed.arrival? :=
    List.mem_filterMap.mpr ⟨_, member, rfl⟩
  rw [shown.2.1, List.mem_singleton] at listed
  have late := shown.2.2
  dsimp only at late
  omega

end Mcpace.Upstream.ToolCache

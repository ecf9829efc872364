import Mcpace.Upstream.ToolCache

/-!
Contract: a list that a call returns is one that came from an upstream.

Owns what a step of the tool cache can do, and the receipts: every list in memory, in a file or in
the hands of a call is one received for the same key.

Files are found by a hash of the key, so another key's file can be taken for the own one.
`Attributed` says that a step does not do that.
-/

namespace Mcpace.Upstream.ToolCache

open Library Json Interleaving List Function JsonValue OrderedMap

/-! ### What a step can do -/

/-- The steps of a thread of the process `home`, one constructor for each branch. -/
inductive Moves (setting : Setting) (home : Nat) (shared : Shared) :
    Phase → Event → Phase → Shared → Prop where
  | tick (phase : Phase) (elapsed : Nat) : Moves setting home shared phase (.tick elapsed) phase
        { shared with now := shared.now + elapsed }
  | lose (phase : Phase) (path : CachePath) : Moves setting home shared phase (.lose path) phase
        { shared with disk := update shared.disk path none }
  | refreshing (phase : Phase) (key : ToolListCacheKey) :
      Moves setting home shared phase (.call key true)
        (.acquiring ⟨key, true, shared.history.length⟩) shared
  | asking (phase : Phase) (key : ToolListCacheKey) :
      Moves setting home shared phase (.call key false)
        (.looking ⟨key, false, shared.history.length⟩) shared
  | hit {call : Call} {entry : CachedToolList}
      (found : get call.key (shared.memory home) = some entry)
      (inTime : shared.now - entry.storedAt ≤ toolListCacheTtlNs) :
      Moves setting home shared (.looking call) .proceed
        (.serving call entry.tools entry.receipt shared.now) shared
  | miss (call : Call) :
      Moves setting home shared (.looking call) .proceed (.readingFile call) shared
  | expire (call : Call) : Moves setting home shared (.looking call) .proceed (.readingFile call)
        { shared with
          memory := update shared.memory home
            (remove call.key (shared.memory home)) }
  | read {call : Call} {file : CacheFile}
      (found : shared.disk (setting.cachePath home call.key) = some file) :
      Moves setting home shared (.readingFile call) .proceed (.judging call file) shared
  | absent (call : Call) :
      Moves setting home shared (.readingFile call) .proceed (.acquiring call) shared
  | unread (call : Call) :
      Moves setting home shared (.readingFile call) .fails (.acquiring call) shared
  | reject (call : Call) (file : CacheFile) :
      Moves setting home shared (.judging call file) .proceed (.acquiring call) shared
  | outdate (call : Call) (file : CacheFile) :
      Moves setting home shared (.judging call file) .proceed (.discarding call) shared
  | accept {call : Call} {file : CacheFile} {tools : JsonValue}
      (judged : judge setting home call.key shared.now
        (reload setting.renumber file.document) = .fresh tools) :
      Moves setting home shared (.judging call file) .proceed
        (.promoting call tools file shared.now) shared
  | discard (call : Call) : Moves setting home shared (.discarding call) .proceed (.acquiring call)
        { shared with
          disk := update shared.disk (setting.cachePath home call.key) none }
  | keep (call : Call) :
      Moves setting home shared (.discarding call) .fails (.acquiring call) shared
  | promote (call : Call) (tools : JsonValue) (file : CacheFile) (since : Nat) :
      Moves setting home shared (.promoting call tools file since) .proceed
        (.serving call tools file.receipt since)
        (writeMemory home call.key ⟨shared.now, tools, file.receipt, some file.stampMs⟩ shared)
  | serve (call : Call) (tools : JsonValue) (receipt : Receipt) (since : Nat) :
      Moves setting home shared (.serving call tools receipt since) .proceed
        (.returned call (.ok ⟨tools, true, receipt, shared.now⟩)) shared
  | await (call : Call) :
      Moves setting home shared (.acquiring call) .proceed (.waiting call) shared
  | acquire (call : Call) : Moves setting home shared (.acquiring call) .proceed (.loading call)
        { shared with
          inFlight := update shared.inFlight home
            (insert call.key (shared.inFlight home)) }
  | wake (call : Call) : Moves setting home shared (.waiting call) .proceed (.looking call) shared
  | receive (call : Call) (result : Except String JsonValue) (tools : JsonValue) :
      Moves setting home shared (.loading call) (.receive result)
        (.stamping call ⟨shared.history.length, call.key, shared.now, tools⟩)
        { shared with
          history := shared.history ++
            [.received ⟨shared.history.length, call.key, shared.now, tools⟩] }
  | refuse (call : Call) (result : Except String JsonValue) (error : String) :
      Moves setting home shared (.loading call) (.receive result)
        (.releasing call (some (.error error))) shared
  | panic (call : Call) :
      Moves setting home shared (.loading call) .panic (.releasing call none) shared
  | stamp {call : Call} {receipt : Receipt} {stampMs : Nat}
      (clock : setting.unixTimeMs shared.now = some stampMs) :
      Moves setting home shared (.stamping call receipt) .proceed
        (.writing call receipt stampMs) shared
  | unstamped (call : Call) (receipt : Receipt) :
      Moves setting home shared (.stamping call receipt) .proceed (.remembering call receipt)
        shared
  | unreachable (call : Call) (receipt : Receipt) :
      Moves setting home shared (.stamping call receipt) .fails (.remembering call receipt) shared
  | write (call : Call) (receipt : Receipt) (stampMs : Nat) :
      Moves setting home shared (.writing call receipt stampMs) .proceed
        (.remembering call receipt)
        { shared with
          disk := update shared.disk (setting.cachePath home call.key)
            (some ⟨setting.envelope home call.key receipt.tools stampMs, receipt, stampMs⟩)
          history := shared.history ++ [.wrote (setting.cachePath home call.key) receipt] }
  | unwritten (call : Call) (receipt : Receipt) (stampMs : Nat) :
      Moves setting home shared (.writing call receipt stampMs) .fails
        (.remembering call receipt) shared
  | remember (call : Call) (receipt : Receipt) :
      Moves setting home shared (.remembering call receipt) .proceed
        (.releasing call (some (.ok receipt)))
        (writeMemory home call.key ⟨shared.now, receipt.tools, receipt, none⟩ shared)
  | release (call : Call) (outcome : Option (Except String Receipt)) :
      Moves setting home shared (.releasing call outcome) .proceed
        (match outcome with
          | none => .crashed
          | some (.error error) => .returned call (.error error)
          | some (.ok receipt) =>
            .returned call (.ok ⟨receipt.tools, false, receipt, shared.now⟩))
        { shared with
          inFlight := update shared.inFlight home
            ((shared.inFlight home).erase call.key)
          history := shared.history ++
            [.released home call.key (outcome.bind Except.toOption)] }

section Inversion

variable {setting : Setting} {home : Nat} {shared sharedAfter : Shared} {phase phaseAfter : Phase}

theorem moves_look (call : Call) :
    Moves setting home shared (.looking call) .proceed (look home shared call).1
      (look home shared call).2 := by
  unfold look
  split
  · exact .miss call
  · rename_i entry found
    split
    · rename_i inTime
      exact .hit found inTime
    · exact .expire call

theorem moves_proceed (moved : proceed setting home shared phase = some (phaseAfter, sharedAfter)) :
    Moves setting home shared phase .proceed phaseAfter sharedAfter := by
  cases phase with
  | looking call =>
    have looked := Option.some.inj moved
    have moves : Moves setting home shared (.looking call) .proceed _ _ := moves_look call
    rwa [looked] at moves
  | readingFile call =>
    cases moved
    split
    · exact .absent call
    · rename_i file found
      exact .read found
  | judging call file =>
    cases moved
    split
    · exact .reject call file
    · exact .outdate call file
    · rename_i tools judged
      exact .accept judged
  | discarding call =>
    cases moved
    exact .discard call
  | promoting call tools file since =>
    cases moved
    exact .promote call tools file since
  | serving call tools receipt since =>
    cases moved
    exact .serve call tools receipt since
  | acquiring call =>
    simp only [proceed] at moved
    split at moved
    · cases moved
      exact .await call
    · cases moved
      exact .acquire call
  | waiting call =>
    simp only [proceed] at moved
    split at moved
    · cases moved
    · cases moved
      exact .wake call
  | stamping call receipt =>
    cases moved
    split
    · rename_i stampMs _ clock
      exact .stamp clock
    · exact .unstamped call receipt
  | writing call receipt stampMs =>
    cases moved
    exact .write call receipt stampMs
  | remembering call receipt =>
    cases moved
    exact .remember call receipt
  | releasing call outcome =>
    cases moved
    exact .release call outcome
  | idle | loading _ | returned _ _ | crashed => cases moved

theorem moves_failing (moved : failing shared phase = some (phaseAfter, sharedAfter)) :
    Moves setting home shared phase .fails phaseAfter sharedAfter := by
  cases phase with
  | readingFile call =>
    cases moved
    exact .unread call
  | discarding call =>
    cases moved
    exact .keep call
  | stamping call receipt =>
    cases moved
    exact .unreachable call receipt
  | writing call receipt stampMs =>
    cases moved
    exact .unwritten call receipt stampMs
  | _ => cases moved

theorem moves_receiving {result : Except String JsonValue}
    (moved : receiving shared result phase = some (phaseAfter, sharedAfter)) :
    Moves setting home shared phase (.receive result) phaseAfter sharedAfter := by
  cases phase with
  | loading call =>
    simp only [receiving] at moved
    split at moved
    · rename_i error _
      cases moved
      exact .refuse call result error
    · rename_i tools _
      cases moved
      exact .receive call result tools
  | _ => cases moved

theorem moves_calling {key : ToolListCacheKey} {refresh : Bool}
    (moved : calling shared key refresh phase = some (phaseAfter, sharedAfter)) :
    Moves setting home shared phase (.call key refresh) phaseAfter sharedAfter := by
  have called : some (if refresh then Phase.acquiring ⟨key, refresh, shared.history.length⟩
      else .looking ⟨key, refresh, shared.history.length⟩, shared) =
        some (phaseAfter, sharedAfter) := by
    cases phase with
    | idle | returned _ _ => exact moved
    | _ => cases moved
  cases refresh with
  | false =>
    cases called
    exact .asking phase key
  | true =>
    cases called
    exact .refreshing phase key

variable {event : Event}

theorem moves_of_move
    (moved : move setting home shared phase event = some (phaseAfter, sharedAfter)) :
    Moves setting home shared phase event phaseAfter sharedAfter := by
  cases event with
  | tick elapsed =>
    cases moved
    exact .tick phase elapsed
  | lose path =>
    cases moved
    exact .lose phase path
  | call key refresh => exact moves_calling moved
  | proceed => exact moves_proceed moved
  | fails => exact moves_failing moved
  | receive result => exact moves_receiving moved
  | panic =>
    cases phase with
    | loading call =>
      cases moved
      exact .panic call
    | _ => cases moved

theorem moves_of_advance {thread threadAfter : Thread}
    (advanced : advance setting shared thread event = some (threadAfter, sharedAfter)) :
    threadAfter.home = thread.home ∧
      Moves setting thread.home shared thread.phase event threadAfter.phase sharedAfter := by
  obtain ⟨⟨phaseAfter, after⟩, moved, same⟩ := Option.map_eq_some_iff.mp advanced
  cases same
  exact ⟨rfl, moves_of_move moved⟩

end Inversion

/-! ### What a step leaves in the caches -/

variable {key : ToolListCacheKey} {entry : CachedToolList}
  {cache : List (ToolListCacheKey × CachedToolList)}

theorem get_of_get_remove {other : ToolListCacheKey}
    (found : get key (remove other cache) = some entry) :
    get key cache = some entry := by
  by_cases same : key = other
  · rw [same, OrderedMap.get_remove_self] at found
    cases found
  · rwa [OrderedMap.get_remove_of_ne same] at found

theorem get_of_get_pruneToolListCache {turns : Nat}
    (found : get key (pruneToolListCache turns cache) = some entry) :
    get key cache = some entry := by
  induction turns generalizing cache with
  | zero => exact found
  | succ turns ih =>
    unfold pruneToolListCache at found
    split at found
    · split at found
      · exact get_of_get_remove (ih found)
      · exact found
    · exact found

variable {home : Nat}

/-- An entry found after a write was there before under another key, or is the one written. -/
theorem get_writeMemory {other : Nat} {wanted : ToolListCacheKey} {written : CachedToolList}
    {shared : Shared}
    (found : get wanted ((writeMemory home key written shared).memory other) = some entry) :
    (get wanted (shared.memory other) = some entry ∧ ¬(other = home ∧ wanted = key)) ∨
      (other = home ∧ wanted = key ∧ entry = written) := by
  simp only [writeMemory] at found
  by_cases here : other = home
  · subst here
    rw [update_self] at found
    have inserted := get_of_get_pruneToolListCache found
    by_cases same : wanted = key
    · rw [same, OrderedMap.get_insert, if_pos rfl, Option.some.injEq] at inserted
      exact .inr ⟨rfl, same, inserted.symm⟩
    · rw [OrderedMap.get_insert_of_ne same] at inserted
      exact .inl ⟨inserted, fun both => same both.2⟩
  · rw [update_of_ne here] at found
    exact .inl ⟨found, fun both => here both.1⟩

/-- The entry a step writes into the memory of its process. -/
def storedEntry (now : Nat) : Phase → Event → Option (ToolListCacheKey × CachedToolList)
  | .promoting call tools file _, .proceed =>
    some (call.key, ⟨now, tools, file.receipt, some file.stampMs⟩)
  | .remembering call receipt, .proceed => some (call.key, ⟨now, receipt.tools, receipt, none⟩)
  | _, _ => none

def writtenFile (setting : Setting) (home : Nat) : Phase → Event → Option (CachePath × CacheFile)
  | .writing call receipt stampMs, .proceed => some (setting.cachePath home call.key,
      ⟨setting.envelope home call.key receipt.tools stampMs, receipt, stampMs⟩)
  | _, _ => none

variable {phase : Phase} {event : Event}

theorem storedEntry_of_ne {now : Nat} (other : event ≠ .proceed) :
    storedEntry now phase event = none := by
  unfold storedEntry
  split
  · exact absurd rfl other
  · exact absurd rfl other
  · rfl

variable {setting : Setting}

theorem writtenFile_of_ne (other : event ≠ .proceed) :
    writtenFile setting home phase event = none := by
  unfold writtenFile
  split
  · exact absurd rfl other
  · rfl

theorem forall_of_eq_none {α : Type} {value : Option α} {holds : α → Prop} (absent : value = none) :
    ∀ item ∈ value, holds item := by
  rw [absent]
  exact fun item member => absurd member (Option.not_mem_none item)

section Effects

variable {setting : Setting} {home : Nat} {shared sharedAfter : Shared} {phase phaseAfter : Phase}
  {event : Event} (moves : Moves setting home shared phase event phaseAfter sharedAfter)

include moves

/-- An entry in memory was there before the step and not overwritten, or the step wrote it. -/
theorem Moves.memory {other : Nat} {key : ToolListCacheKey} {entry : CachedToolList}
    (found : get key (sharedAfter.memory other) = some entry) :
    (get key (shared.memory other) = some entry ∧
        ∀ stored ∈ storedEntry shared.now phase event, ¬(other = home ∧ key = stored.1)) ∨
      (other = home ∧ storedEntry shared.now phase event = some (key, entry)) := by
  cases moves with
  | expire call =>
    refine .inl ⟨?_, forall_of_eq_none rfl⟩
    by_cases here : other = home
    · subst here
      simp only [update_self] at found
      exact get_of_get_remove found
    · simp only [update_of_ne here] at found
      exact found
  | promote | remember =>
    rcases get_writeMemory found with ⟨old, apart⟩ | ⟨rfl, rfl, rfl⟩
    · refine .inl ⟨old, ?_⟩
      intro stored written
      cases written
      exact apart
    · exact .inr ⟨rfl, rfl⟩
  | tick | lose | refreshing | asking =>
    exact .inl ⟨found, forall_of_eq_none (storedEntry_of_ne (by simp))⟩
  | _ => exact .inl ⟨found, forall_of_eq_none rfl⟩

/-- A file was there before the step and not overwritten, or the step wrote it. -/
theorem Moves.disk {path : CachePath} {file : CacheFile}
    (found : sharedAfter.disk path = some file) :
    (shared.disk path = some file ∧
        ∀ written ∈ writtenFile setting home phase event, path ≠ written.1) ∨
      writtenFile setting home phase event = some (path, file) := by
  cases moves with
  | lose phase lost =>
    refine .inl ⟨?_, forall_of_eq_none (writtenFile_of_ne nofun)⟩
    by_cases same : path = lost
    · simp [same] at found
    · simp only [update_of_ne same] at found
      exact found
  | discard call =>
    refine .inl ⟨?_, forall_of_eq_none rfl⟩
    by_cases same : path = setting.cachePath home call.key
    · simp [same] at found
    · simp only [update_of_ne same] at found
      exact found
  | write call receipt stampMs =>
    by_cases same : path = setting.cachePath home call.key
    · subst same
      simp only [update_self, Option.some.injEq] at found
      exact .inr (by rw [writtenFile, found])
    · simp only [update_of_ne same] at found
      refine .inl ⟨found, ?_⟩
      intro written isFile
      cases isFile
      exact same
  | tick | refreshing | asking =>
    exact .inl ⟨found, forall_of_eq_none (writtenFile_of_ne nofun)⟩
  | _ => exact .inl ⟨found, forall_of_eq_none rfl⟩

theorem Moves.history : shared.history <+: sharedAfter.history := by
  cases moves with
  | promote | receive | write | remember | release => exact prefix_append _ _
  | _ => exact prefix_rfl

/-- The step that recorded the deed. -/
def Deed.DoneBy (setting : Setting) (home now : Nat) (after : List Deed) (phase : Phase)
    (event : Event) : Deed → Prop
  | .received receipt => after[receipt.index]? = some (.received receipt)
  | .remembered other key receipt => other = home ∧
      ∃ entry, storedEntry now phase event = some (key, entry) ∧ entry.receipt = receipt
  | .wrote path receipt =>
    ∃ file, writtenFile setting home phase event = some (path, file) ∧ file.receipt = receipt
  | .released other key (some receipt) => other = home ∧
      ∃ call, phase = .releasing call (some (.ok receipt)) ∧ call.key = key
  | _ => True

theorem Moves.deed {deed : Deed} (member : deed ∈ sharedAfter.history) :
    deed ∈ shared.history ∨ deed.DoneBy setting home shared.now sharedAfter.history phase event := by
  cases moves with
  | promote | remember =>
    rcases mem_append.mp member with old | new
    · exact .inl old
    · cases mem_singleton.mp new
      exact .inr ⟨rfl, _, rfl, rfl⟩
  | write =>
    rcases mem_append.mp member with old | new
    · exact .inl old
    · cases mem_singleton.mp new
      exact .inr ⟨_, rfl, rfl⟩
  | receive =>
    rcases mem_append.mp member with old | new
    · exact .inl old
    · cases mem_singleton.mp new
      exact .inr List.getElem?_concat_length
  | release call outcome =>
    rcases mem_append.mp member with old | new
    · exact .inl old
    · cases mem_singleton.mp new
      rcases outcome with _ | _ | receipt
      · exact .inr trivial
      · exact .inr trivial
      · exact .inr ⟨rfl, call, rfl, rfl⟩
  | _ => exact .inl member

end Effects

/-! ### Receipts -/

/-- The list was received for the key. From a file, its numbers may be printed anew. -/
structure Genuine (setting : Setting) (history : List Deed) (key : ToolListCacheKey)
    (tools : JsonValue) (receipt : Receipt) : Prop where
  received : .received receipt ∈ history
  sameKey : receipt.key = key
  sameTools : tools = receipt.tools ∨ tools = reload setting.renumber receipt.tools

/-- The file holds a list that was received. -/
structure GenuineFile (history : List Deed) (file : CacheFile) : Prop where
  received : .received file.receipt ∈ history
  holds : file.document.valueAtPath ["tools"] = some file.receipt.tools

def Phase.Genuine (setting : Setting) (history : List Deed) : Phase → Prop
  | .judging _ file => GenuineFile history file
  | .promoting call tools file _ => ToolCache.Genuine setting history call.key tools file.receipt
  | .serving call tools receipt _ => ToolCache.Genuine setting history call.key tools receipt
  | .stamping call receipt | .writing call receipt _ | .remembering call receipt
  | .releasing call (some (.ok receipt)) =>
    ToolCache.Genuine setting history call.key receipt.tools receipt
  | .returned call (.ok answer) =>
    ToolCache.Genuine setting history call.key answer.tools answer.receipt
  | _ => True

structure ReceiptFacts (setting : Setting) (shared : Shared) : Prop where
  placed : ∀ receipt, .received receipt ∈ shared.history →
    shared.history[receipt.index]? = some (.received receipt)
  memory : ∀ home key entry, get key (shared.memory home) = some entry →
    Genuine setting shared.history key entry.tools entry.receipt
  disk : ∀ path file, shared.disk path = some file → GenuineFile shared.history file

/-- The file from which a step takes a list, and the call it is for. -/
def acceptedFile (setting : Setting) (shared : Shared) (thread : Thread) (event : Event) :
    Option (Call × CacheFile) :=
  match thread.phase, event with
  | .judging call file, .proceed =>
    match judge setting thread.home call.key shared.now
        (reload setting.renumber file.document) with
    | .fresh _ => some (call, file)
    | _ => none
  | _, _ => none

/-- A file from which a list is taken was written for the key it is taken for. -/
def Attributed (setting : Setting) {T : Type} (world : CacheWorld T) (action : T × Event) : Prop :=
  ∀ accepted ∈ acceptedFile setting world.shared (world.process action.1) action.2,
    accepted.2.receipt.key = accepted.1.key

theorem valueAtPath_of_judge {now : Nat} {value tools : JsonValue}
    (judged : judge setting home key now value = .fresh tools) :
    value.valueAtPath ["tools"] = some tools := by
  unfold judge at judged
  split_ifs at judged
  split at judged
  · split_ifs at judged
    split at judged
    · rename_i holds
      cases judged
      exact holds
    · cases judged
  · cases judged

theorem valueAtPath_envelope (setting : Setting) (home : Nat) (key : ToolListCacheKey)
    (tools : JsonValue) (stampMs : Nat) :
    (setting.envelope home key tools stampMs).valueAtPath ["tools"] = some tools := by
  rw [valueAtPath_singleton, Setting.envelope, get_ofEntries]
  rfl

section Receipts

variable {setting : Setting} {history later : List Deed} {key : ToolListCacheKey}
  {tools : JsonValue} {receipt : Receipt}

theorem Genuine.mono (genuine : Genuine setting history key tools receipt)
    (extends' : history <+: later) : Genuine setting later key tools receipt :=
  { genuine with received := extends'.subset genuine.received }

variable {file : CacheFile}

theorem GenuineFile.mono (genuine : GenuineFile history file) (extends' : history <+: later) :
    GenuineFile later file :=
  { genuine with received := extends'.subset genuine.received }

theorem Phase.Genuine.mono {phase : Phase} (genuine : phase.Genuine setting history)
    (extends' : history <+: later) : phase.Genuine setting later := by
  cases phase with
  | judging => exact GenuineFile.mono genuine extends'
  | promoting | serving | stamping | writing | remembering =>
    exact ToolCache.Genuine.mono genuine extends'
  | releasing call outcome =>
    rcases outcome with _ | _ | receipt
    · trivial
    · trivial
    · exact ToolCache.Genuine.mono genuine extends'
  | returned call outcome =>
    cases outcome with
    | error => trivial
    | ok answer => exact ToolCache.Genuine.mono genuine extends'
  | _ => trivial

/-- A list taken from a file was received for the call's key. -/
theorem GenuineFile.accept {home now : Nat} {file : CacheFile}
    (genuine : GenuineFile history file) (attributed : file.receipt.key = key)
    (judged : judge setting home key now (reload setting.renumber file.document) = .fresh tools) :
    Genuine setting history key tools file.receipt := by
  have holds := valueAtPath_of_judge judged
  rw [valueAtPath_reload, genuine.holds, Option.map_some, Option.some.injEq] at holds
  exact ⟨genuine.received, attributed, .inr holds.symm⟩

variable {home : Nat} {shared sharedAfter : Shared} {phase phaseAfter : Phase} {event : Event}

/-- A new receipt is written down at its index. -/
theorem ReceiptFacts.placed_step (facts : ReceiptFacts setting shared)
    (moves : Moves setting home shared phase event phaseAfter sharedAfter) (receipt : Receipt)
    (member : .received receipt ∈ sharedAfter.history) :
    sharedAfter.history[receipt.index]? = some (.received receipt) := by
  rcases moves.deed member with earlier | new
  · have ⟨new, appended⟩ := moves.history
    have there := facts.placed receipt earlier
    have ⟨within, _⟩ := List.getElem?_eq_some_iff.mp there
    rw [← appended, List.getElem?_append_left within]
    exact there
  · exact new

theorem Phase.Genuine.stored (genuine : phase.Genuine setting history) {now : Nat}
    {entry : CachedToolList} (stores : storedEntry now phase event = some (key, entry)) :
    ToolCache.Genuine setting history key entry.tools entry.receipt := by
  unfold storedEntry at stores
  split at stores
  · cases stores
    exact genuine
  · cases stores
    exact genuine
  · cases stores

theorem Phase.Genuine.written (genuine : phase.Genuine setting history) {path : CachePath}
    (writes : writtenFile setting home phase event = some (path, file)) :
    GenuineFile history file := by
  unfold writtenFile at writes
  split at writes
  · rename_i call receipt stampMs
    cases writes
    have received : ToolCache.Genuine setting history call.key receipt.tools receipt := genuine
    exact ⟨received.received, valueAtPath_envelope _ _ _ _ _⟩
  · cases writes

theorem ReceiptFacts.step (facts : ReceiptFacts setting shared)
    (genuine : phase.Genuine setting shared.history)
    (moves : Moves setting home shared phase event phaseAfter sharedAfter) :
    ReceiptFacts setting sharedAfter where
  placed := facts.placed_step moves
  memory := by
    intro other key entry found
    rcases moves.memory found with ⟨old, -⟩ | ⟨-, stores⟩
    · exact (facts.memory other key entry old).mono moves.history
    · exact (genuine.stored stores).mono moves.history
  disk := by
    intro path file found
    rcases moves.disk found with ⟨old, -⟩ | writes
    · exact (facts.disk path file old).mono moves.history
    · exact (genuine.written writes).mono moves.history

theorem Phase.Genuine.step (genuine : phase.Genuine setting shared.history)
    (facts : ReceiptFacts setting shared)
    (attributed : ∀ accepted ∈ acceptedFile setting shared ⟨home, phase⟩ event,
      accepted.2.receipt.key = accepted.1.key)
    (moves : Moves setting home shared phase event phaseAfter sharedAfter) :
    phaseAfter.Genuine setting sharedAfter.history := by
  cases moves with
  | hit found _ => exact facts.memory _ _ _ found
  | read found => exact facts.disk _ _ found
  | @accept call file tools judged =>
    have taken : acceptedFile setting shared ⟨home, .judging call file⟩ .proceed =
        some (call, file) := by
      simp only [acceptedFile, judged]
    rw [taken] at attributed
    exact GenuineFile.accept genuine (attributed _ rfl) judged
  | promote | write | remember => exact ToolCache.Genuine.mono genuine (prefix_append _ _)
  | receive call result tools =>
    exact ⟨mem_append_right _ (mem_singleton_self _), rfl, .inl rfl⟩
  | release call outcome =>
    rcases outcome with _ | _ | receipt
    · trivial
    · trivial
    · exact ToolCache.Genuine.mono genuine (prefix_append _ _)
  | tick | lose | serve | stamp | unstamped | unreachable | unwritten => exact genuine
  | _ => trivial

end Receipts

/-- In every run that attributes files rightly, every list was received for the key it is
under. -/
theorem genuine_of_reaches {T : Type} [DecidableEq T]
    {allowed : CacheWorld T → T × Event → CacheWorld T → Prop} {start world : CacheWorld T}
    (attributed : ∀ world action next, allowed world action next → Attributed setting world action)
    (initial : Initial start) (reached : Reaches (advance setting) allowed start world) :
    ReceiptFacts setting world.shared ∧
      ∀ thread, (world.process thread).phase.Genuine setting world.shared.history := by
  apply Reaches.each (ReceiptFacts setting)
    (fun shared thread => thread.phase.Genuine setting shared.history) _ _ reached
  · refine ⟨⟨?_, ?_, ?_⟩, ?_⟩
    · simp [initial.history]
    · simp [initial.memory]
    · simp [initial.disk]
    · intro thread
      rw [initial.idle]
      trivial
  · intro world thread event threadAfter sharedAfter facts genuine advanced admitted
    obtain ⟨_, moves⟩ := moves_of_advance advanced
    have rightly := attributed _ _ _ admitted
    refine ⟨facts.step (genuine thread) moves, (genuine thread).step facts rightly moves, ?_⟩
    intro other
    exact (genuine other).mono moves.history

end Mcpace.Upstream.ToolCache

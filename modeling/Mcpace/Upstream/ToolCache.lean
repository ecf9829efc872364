import Mcpace.Client.Pathing
import Mcpace.Library.Checks
import Mcpace.Library.Interleaving
import Mcpace.Library.Machine
import Mcpace.Mcp.Request

/-!
Owns the cache of tool lists: `src/upstream/tool_cache.rs`, as threads of several processes that
share the files of the cache and, within a process, its memory and its set of loads in flight.

One step is one access to what is shared: a lookup under the lock of the memory cache, the read of
a file, its judgement by the clock, a write, an access to the set of loads in flight. Time may pass
and files may vanish between any two steps; that covers the pruning of the cache directory.

What goes on is written down beside the state, in `history` and in the receipts that lists carry.
No step reads it.

Does not own: how a list is fetched, and the syntax of the files.
-/

namespace Mcpace.Upstream.ToolCache

open Library Json Checks Machine Function Text

def toolListCacheTtlNs : Nat := 30 * 1000000000
def toolListCacheTtlMs : Nat := 30 * 1000
def futureToleranceMs : Nat := 5 * 60 * 1000
def toolListCacheMaxEntries : Nat := 128
def toolListDiskCacheSchemaVersion : Nat := 3

/-! ### Keys -/

structure ToolListCacheKey where
  rootPath : String
  serverName : String
  settingsModifiedMs : Nat
  settingsLen : Nat
  serverFingerprint : String
deriving Repr

namespace ToolListCacheKey

/-- The fields in the order of the derived comparison. -/
def fields (key : ToolListCacheKey) : String ×ₗ String ×ₗ Nat ×ₗ Nat ×ₗ String :=
  toLex (key.rootPath, toLex (key.serverName, toLex (key.settingsModifiedMs,
    toLex (key.settingsLen, key.serverFingerprint))))

theorem fields_injective : Function.Injective fields := by
  intro left right same
  cases left
  cases right
  simpa [fields] using same

instance : LinearOrder ToolListCacheKey := LinearOrder.lift' fields fields_injective

end ToolListCacheKey

def feedStableHash (hash : Nat) (text : String) : Nat :=
  let fed := (Utf8.encode text.toList).foldl
    (fun hash byte => (hash ^^^ byte.toNat) * 0x100000001b3 % 2 ^ 64) hash
  (fed ^^^ 0xff) * 0x100000001b3 % 2 ^ 64

def diskCacheKeyHash (version : String) (key : ToolListCacheKey) : String :=
  let hash := [key.rootPath, key.serverName, toString key.settingsModifiedMs,
    toString key.settingsLen, key.serverFingerprint, version,
    Mcp.currentProtocolVersion].foldl feedStableHash 0xcbf29ce484222325
  let digits := Nat.toDigits 16 hash
  String.ofList (List.replicate (16 - digits.length) '0' ++ digits)

def safeCacheFileStem (value : String) : String :=
  let chars := (value.toList.map (fun char =>
    if isAsciiAlphanumeric char || char = '-' || char = '_' ||
      char = '.' then char else '_')).take 48
  let stem := trimMatches
    (fun char => char = '.' || char = '_' || char = '-')
    (String.ofList chars)
  if stem = "" then "server" else stem

def diskCacheFileName (version : String) (key : ToolListCacheKey) : String :=
  safeCacheFileStem key.serverName ++ "-" ++ diskCacheKeyHash version key ++ ".json"

/-! ### Validation -/

/-- The loop over the tools, with the names seen so far. -/
def validateTools (serverName : String) : Nat → Finset String → List JsonValue → Except String Unit
  | _, _, [] => .ok ()
  | index, names, tool :: rest => do
      let name ← ((tool.stringAtPath ["name"]).bind trimNonEmpty).elim
        (.error ("upstream server '" ++ serverName ++ "' tools/list item " ++ toString index ++
          " has no non-empty name")) .ok
      require (name ∉ names) ("upstream server '" ++ serverName ++
        "' tools/list returned duplicate tool name '" ++ name ++ "'")
      require ((tool.objectAtPath ["inputSchema"]).isSome = true) ("upstream server '" ++
        serverName ++ "' tool '" ++ name ++ "' has no object inputSchema")
      validateTools serverName (index + 1) (insert name names) rest

def validateToolsListResult (serverName : String) (result : JsonValue) :
    Except String JsonValue :=
  match result.arrayAtPath ["tools"] with
  | none => .error ("upstream server '" ++ serverName ++
      "' tools/list result must contain a tools array")
  | some tools => (validateTools serverName 0 ∅ tools).map (fun _ => .array tools)

/-! ### State -/

/-- A list that came from an upstream: when it came, for which key, and its place in the
history. -/
structure Receipt where
  index : Nat
  key : ToolListCacheKey
  receivedAt : Nat
  tools : JsonValue
deriving DecidableEq, Repr

/-- An entry of the memory cache. The receipt, and the stamp of the file the list was read from,
are written down only. -/
structure CachedToolList where
  storedAt : Nat
  tools : JsonValue
  receipt : Receipt
  fileStampMs : Option Nat
deriving DecidableEq, Repr

/-- A cache file. The receipt and the stamp are written down only. -/
structure CacheFile where
  document : JsonValue
  receipt : Receipt
  stampMs : Nat
deriving DecidableEq, Repr

abbrev CachePath := String × String

inductive Deed where
  | received (receipt : Receipt)
  | wrote (path : CachePath) (receipt : Receipt)
  | remembered (home : Nat) (key : ToolListCacheKey) (receipt : Receipt)
  | released (home : Nat) (key : ToolListCacheKey) (receipt : Option Receipt)
deriving DecidableEq, Repr

/-- `memory` and `inFlight` are those of each process; `now` is in nanoseconds. -/
structure Shared where
  now : Nat
  memory : Nat → List (ToolListCacheKey × CachedToolList)
  inFlight : Nat → Finset ToolListCacheKey
  disk : CachePath → Option CacheFile
  history : List Deed

/-- `began` is the length of the history when the call began. -/
structure Call where
  key : ToolListCacheKey
  refresh : Bool
  began : Nat
deriving DecidableEq, Repr

/-- What a call returned, with the receipt of its list and the time. -/
structure Answer where
  tools : JsonValue
  cached : Bool
  receipt : Receipt
  returnedAt : Nat
deriving DecidableEq, Repr

/-- `since` is when the list was found. -/
inductive Phase where
  | idle
  | looking (call : Call)
  | readingFile (call : Call)
  | judging (call : Call) (file : CacheFile)
  | discarding (call : Call)
  | promoting (call : Call) (tools : JsonValue) (file : CacheFile) (since : Nat)
  | serving (call : Call) (tools : JsonValue) (receipt : Receipt) (since : Nat)
  | acquiring (call : Call)
  | waiting (call : Call)
  | loading (call : Call)
  | stamping (call : Call) (receipt : Receipt)
  | writing (call : Call) (receipt : Receipt) (stampMs : Nat)
  | remembering (call : Call) (receipt : Receipt)
  | releasing (call : Call) (outcome : Option (Except String Receipt))
  | returned (call : Call) (outcome : Except String Answer)
  | crashed

/-- A thread of the process `home`. -/
structure Thread where
  home : Nat
  phase : Phase

/-- `fails` is a failing access to a file; `panic` is a panic of a load. -/
inductive Event where
  | tick (elapsed : Nat)
  | lose (path : CachePath)
  | call (key : ToolListCacheKey) (refresh : Bool)
  | proceed
  | fails
  | receive (result : Except String JsonValue)
  | panic

/-- What does not change: the wall clock at instant zero in nanoseconds, the number type of the
serializer, and the cache directory and the version of each process. -/
structure Setting where
  wallOffset : Int
  renumber : String → Option String
  cacheDir : Nat → String → String
  version : Nat → String

namespace Setting

variable (setting : Setting)

def unixTimeMs (now : Nat) : Option Nat :=
  if 0 ≤ setting.wallOffset + now then
    some ((setting.wallOffset + now).toNat / 1000000)
  else none

def cachePath (home : Nat) (key : ToolListCacheKey) : CachePath :=
  (setting.cacheDir home key.rootPath, diskCacheFileName (setting.version home) key)

def envelope (home : Nat) (key : ToolListCacheKey) (tools : JsonValue) (stampMs : Nat) :
    JsonValue :=
  .ofEntries [ ("schemaVersion", .ofNat toolListDiskCacheSchemaVersion),
    ("storedAtUnixMs", .string (toString stampMs)),
    ("keyHash", .string (diskCacheKeyHash (setting.version home) key)),
    ("serverName", .string key.serverName),
    ("mcpaceVersion", .string (setting.version home)),
    ("mcpProtocolVersion", .string Mcp.currentProtocolVersion),
    ("toolCount", .ofNat ((tools.asArray.getD []).length)),
    ("tools", tools)]

end Setting

/-! ### Files -/

inductive Judgement where
  | unusable
  | expired
  | fresh (tools : JsonValue)
deriving DecidableEq, Repr

def u128AtPath (value : JsonValue) (path : List String) : Option Nat :=
  match value.valueAtPath path with
  | some (.number text) | some (.string text) => parseUnsigned 128 text
  | _ => none

/-- `read_disk_cached_tools`, from the parsed file on. -/
def judge (setting : Setting) (home : Nat) (key : ToolListCacheKey) (now : Nat)
    (value : JsonValue) : Judgement :=
  if (value.valueAtPath ["schemaVersion"]).bind JsonValue.asI64 ≠
      some (toolListDiskCacheSchemaVersion : Int) then .unusable
  else if value.stringAtPath ["keyHash"] ≠ some (diskCacheKeyHash (setting.version home) key) then
    .unusable
  else if value.stringAtPath ["serverName"] ≠ some key.serverName then .unusable
  else
    match u128AtPath value ["storedAtUnixMs"], setting.unixTimeMs now with
    | some storedAt, some nowMs =>
      if storedAt > saturatingAdd 128 nowMs futureToleranceMs ∨
          saturatingAdd 128 storedAt toolListCacheTtlMs < nowMs then .expired
      else
        match value.valueAtPath ["tools"] with
        | some (.array tools) => .fresh (.array tools)
        | _ => .unusable
    | _, _ => .unusable

/-! ### Memory -/

/-- The turns are the number of entries. -/
def pruneToolListCache : Nat → List (ToolListCacheKey × CachedToolList) →
    List (ToolListCacheKey × CachedToolList)
  | 0, cache => cache
  | turns + 1, cache =>
    if cache.length > toolListCacheMaxEntries then
      match cache.argmin (fun entry => entry.2.storedAt) with
      | some oldest => pruneToolListCache turns (OrderedMap.remove oldest.1 cache)
      | none => cache
    else cache

def writeMemory (home : Nat) (key : ToolListCacheKey) (entry : CachedToolList)
    (shared : Shared) : Shared :=
  let cache := OrderedMap.insert key entry (shared.memory home)
  { shared with
    memory := update shared.memory home (pruneToolListCache cache.length cache)
    history := shared.history ++ [.remembered home key entry.receipt] }

/-! ### Steps -/

section Steps

variable (setting : Setting) (home : Nat) (shared : Shared)

/-- `read_memory_cached_tools`. -/
def look (call : Call) : Phase × Shared :=
  match OrderedMap.get call.key (shared.memory home) with
  | none => (.readingFile call, shared)
  | some entry =>
    if shared.now - entry.storedAt ≤ toolListCacheTtlNs then
      (.serving call entry.tools entry.receipt shared.now, shared)
    else (.readingFile call, { shared with
      memory := update shared.memory home
        (OrderedMap.remove call.key (shared.memory home)) })

/-- The next step of a thread that is not held up. -/
def proceed : Phase → Option (Phase × Shared)
  | .looking call => some (look home shared call)
  | .readingFile call =>
    some (match shared.disk (setting.cachePath home call.key) with
      | none => .acquiring call
      | some file => .judging call file, shared)
  | .judging call file =>
    some (match judge setting home call.key shared.now
        (JsonValue.reload setting.renumber file.document) with
      | .unusable => .acquiring call
      | .expired => .discarding call
      | .fresh tools => .promoting call tools file shared.now, shared)
  | .discarding call =>
    some (.acquiring call, { shared with
      disk := update shared.disk (setting.cachePath home call.key) none })
  | .promoting call tools file since =>
    some (.serving call tools file.receipt since,
      writeMemory home call.key ⟨shared.now, tools, file.receipt, some file.stampMs⟩ shared)
  | .serving call tools receipt _ =>
    some (.returned call (.ok ⟨tools, true, receipt, shared.now⟩), shared)
  | .acquiring call =>
    if call.key ∈ shared.inFlight home then some (.waiting call, shared)
    else some (.loading call, { shared with
      inFlight := update shared.inFlight home
        (insert call.key (shared.inFlight home)) })
  | .waiting call =>
    if call.key ∈ shared.inFlight home then none else some (.looking call, shared)
  | .stamping call receipt =>
    some (match receipt.tools.asArray, setting.unixTimeMs shared.now with
      | some _, some stampMs => .writing call receipt stampMs
      | _, _ => .remembering call receipt, shared)
  | .writing call receipt stampMs =>
    some (.remembering call receipt, { shared with
      disk := update shared.disk (setting.cachePath home call.key)
        (some ⟨setting.envelope home call.key receipt.tools stampMs, receipt, stampMs⟩)
      history := shared.history ++ [.wrote (setting.cachePath home call.key) receipt] })
  | .remembering call receipt =>
    some (.releasing call (some (.ok receipt)),
      writeMemory home call.key ⟨shared.now, receipt.tools, receipt, none⟩ shared)
  | .releasing call outcome =>
    some (match outcome with
      | none => .crashed
      | some (.error error) => .returned call (.error error)
      | some (.ok receipt) =>
        .returned call (.ok ⟨receipt.tools, false, receipt, shared.now⟩),
      { shared with
        inFlight := update shared.inFlight home
          ((shared.inFlight home).erase call.key)
        history := shared.history ++ [.released home call.key
          (outcome.bind Except.toOption)] })
  | .idle | .loading _ | .returned _ _ | .crashed => none

/-- An access to a file fails; all these failures are ignored by the source. -/
def failing : Phase → Option (Phase × Shared)
  | .readingFile call | .discarding call => some (.acquiring call, shared)
  | .stamping call receipt | .writing call receipt _ => some (.remembering call receipt, shared)
  | _ => none

/-- The result of a load arrives. A list that is not valid is an error. -/
def receiving (result : Except String JsonValue) : Phase → Option (Phase × Shared)
  | .loading call =>
    match result.bind (validateToolsListResult call.key.serverName) with
    | .error error => some (.releasing call (some (.error error)), shared)
    | .ok tools =>
      let receipt : Receipt := ⟨shared.history.length, call.key, shared.now, tools⟩
      some (.stamping call receipt,
        { shared with history := shared.history ++ [.received receipt] })
  | _ => none

/-- A refreshing call does not look first. -/
def calling (key : ToolListCacheKey) (refresh : Bool) : Phase → Option (Phase × Shared)
  | .idle | .returned _ _ =>
    let call : Call := ⟨key, refresh, shared.history.length⟩
    some (if refresh then .acquiring call else .looking call, shared)
  | _ => none

/-- A load that panics drops its permit on the way out. -/
def panicking : Phase → Option (Phase × Shared)
  | .loading call => some (.releasing call none, shared)
  | _ => none

def move (phase : Phase) : Event → Option (Phase × Shared)
  | .tick elapsed => some (phase, { shared with now := shared.now + elapsed })
  | .lose path => some (phase, { shared with disk := update shared.disk path none })
  | .call key refresh => calling shared key refresh phase
  | .proceed => proceed setting home shared phase
  | .fails => failing shared phase
  | .receive result => receiving shared result phase
  | .panic => panicking shared phase

end Steps

def advance (setting : Setting) (shared : Shared) (thread : Thread) (event : Event) :
    Option (Thread × Shared) :=
  (move setting thread.home shared thread.phase event).map (fun moved =>
    (⟨thread.home, moved.1⟩, moved.2))

abbrev CacheWorld (T : Type) := Interleaving.World T Shared Thread

/-- No call has been made, and both caches are empty. -/
structure Initial {T : Type} (world : CacheWorld T) : Prop where
  idle : ∀ thread, (world.process thread).phase = .idle
  memory : ∀ home, world.shared.memory home = []
  disk : ∀ path, world.shared.disk path = none
  history : world.shared.history = []

end Mcpace.Upstream.ToolCache

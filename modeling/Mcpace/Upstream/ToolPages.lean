import Mcpace.Json.Value
import Mcpace.Library.Checks
import Mcpace.Library.Machine

/-!
Owns the listing of an upstream server's tools page by page: `ToolListPagination` of
`src/upstream.rs`, and the loops of `run_stdio_tools_list`, `run_http_tools_list` and the pooled
`list_tools` around it.

The three loops differ in how they number their requests and in what comes before the first one.
The upstream server is any function of the requests it was sent; an exchange that fails, also for
want of time, is an error of that function. The compact printer is a parameter.

`BoundedListing` is what holds of every run. A page ends the list if its `nextCursor` is missing,
null or blank.
-/

namespace Mcpace.Upstream

open Library Json Checks Machine List

def upstreamToolListMaxPages : Nat := 100
def upstreamToolListMaxTools : Nat := 10000
def upstreamToolListMaxBytes : Nat := 32 * 1024 * 1024
def maxCursorBytes : Nat := 4096

/-! ### One page -/

structure ToolListPagination where
  tools : List JsonValue
  seenCursors : Finset String
  pages : Nat
  bytes : Nat

/-- The start of every message about a server's list. -/
def toolsListError (serverName reason : String) : String :=
  "upstream server '" ++ serverName ++ "' tools/list " ++ reason

namespace ToolListPagination

def new : ToolListPagination := ⟨[], ∅, 0, 0⟩

/-- The loop over the tools of a page. -/
def addTools (compact : JsonValue → String) (serverName : String) :
    List JsonValue → ToolListPagination → Except String ToolListPagination
  | [], pagination => .ok pagination
  | tool :: rest, pagination =>
    let bytes := saturatingAdd 64 pagination.bytes (compact tool).utf8ByteSize
    if bytes > upstreamToolListMaxBytes then
      .error (toolsListError serverName ("exceeded the " ++ toString upstreamToolListMaxBytes ++
        "-byte cumulative safety limit"))
    else addTools compact serverName rest
      { pagination with bytes := bytes, tools := pagination.tools ++ [tool] }

def nextCursor (serverName : String) (result : JsonValue) : Except String (Option String) :=
  match result.valueAtPath ["nextCursor"] with
  | none | some .null => .ok none
  | some (.string value) =>
    if Text.trim value = "" then .ok none
    else if value.utf8ByteSize ≤ maxCursorBytes then .ok (some value)
    else .error (toolsListError serverName "returned an oversized nextCursor")
  | some _ => .error (toolsListError serverName "returned a non-string nextCursor")

/-- The end of `add_page`, for a page that was counted. -/
def follow (serverName : String) (pagination : ToolListPagination) :
    Option String → Except String (Option String × ToolListPagination)
  | none => .ok (none, pagination)
  | some cursor =>
    if pagination.pages ≥ upstreamToolListMaxPages then
      .error (toolsListError serverName ("exceeded the " ++ toString upstreamToolListMaxPages ++
        "-page safety limit"))
    else if cursor ∈ pagination.seenCursors then
      .error (toolsListError serverName ("repeated pagination cursor '" ++ cursor ++ "'"))
    else .ok (some cursor,
      { pagination with seenCursors := insert cursor pagination.seenCursors })

def pageTools (serverName : String) (result : JsonValue) : Except String (List JsonValue) :=
  match result.arrayAtPath ["tools"] with
  | some tools => .ok tools
  | none => .error (toolsListError serverName "result must contain a tools array")

def addPage (compact : JsonValue → String) (serverName : String)
    (pagination : ToolListPagination) (result : JsonValue) :
    Except String (Option String × ToolListPagination) := do
  let tools ← pageTools serverName result
  require (saturatingAdd 64 pagination.tools.length tools.length ≤ upstreamToolListMaxTools)
    (toolsListError serverName ("exceeded the " ++ toString upstreamToolListMaxTools ++
      "-tool safety limit"))
  let added ← addTools compact serverName tools pagination
  let cursor ← nextCursor serverName result
  follow serverName { added with pages := saturatingAdd 64 added.pages 1 } cursor

def finish (pagination : ToolListPagination) : JsonValue :=
  .ofEntries [("tools", .array pagination.tools)]

end ToolListPagination

/-! ### Loops -/

structure ToolsListRequest where
  id : Int
  cursor : Option String
deriving DecidableEq, Repr

def ToolsListRequest.message (request : ToolsListRequest) : JsonValue :=
  .ofEntries ([("jsonrpc", .string "2.0"), ("id", .number (toString request.id)),
    ("method", .string "tools/list")] ++
      (request.cursor.map (fun cursor =>
        ("params", JsonValue.ofEntries [("cursor", .string cursor)]))).toList)

/-- What was sent, and what the caller got; nothing if the loop is still running. -/
structure ListingRun where
  sent : List ToolsListRequest
  outcome : Option (Except String JsonValue)

/-- A server's answers to what it was sent so far. -/
abbrev PageServer := List JsonValue → Except String JsonValue

section Loop

variable (compact : JsonValue → String) (serverName : String) (number : Nat → Int)
  (server : PageServer)

/-- The common loop; `number` numbers its requests. -/
def pageLoop : Nat → List ToolsListRequest → ToolListPagination → Option String → ListingRun
  | 0, sent, _, _ => ⟨sent, none⟩
  | fuel + 1, earlier, pagination, cursor =>
    let sent := earlier ++ [⟨number earlier.length, cursor⟩]
    match server (sent.map ToolsListRequest.message) with
    | .error error => ⟨sent, some (.error error)⟩
    | .ok page =>
      match pagination.addPage compact serverName page with
      | .error error => ⟨sent, some (.error error)⟩
      | .ok (none, last) => ⟨sent, some (.ok last.finish)⟩
      | .ok (some next, more) => pageLoop fuel sent more (some next)

/-- Turns that are enough for every server. -/
def listPages : ListingRun :=
  pageLoop compact serverName number server upstreamToolListMaxPages [] .new none

end Loop

def initializeId : Int := 1
def methodId : Int := 2

def saturatingI64 (value : Int) : Int := max (-(2 ^ 63)) (min value (2 ^ 63 - 1))

/-- The ids of a connection that serves one listing. -/
def freshNumber (page : Nat) : Int := saturatingI64 (methodId + page)

/-- The ids of a pooled session, which counts over all its requests. -/
def pooledNumber (first : Int) : Nat → Int
  | 0 => first
  | page + 1 =>
    let next := saturatingI64 (pooledNumber first page + 1)
    if next ≤ initializeId then methodId else next

/-- A listing that may already fail before its first request. -/
def listAfter (started : Except String Unit) (run : ListingRun) : ListingRun :=
  match started with
  | .error error => ⟨[], some (.error error)⟩
  | .ok () => run

/-- `started` says how starting the process and the handshake with it went. -/
def runStdioToolsList (compact : JsonValue → String) (serverName : String)
    (started : Except String Unit) (server : PageServer) : ListingRun :=
  listAfter started (listPages compact serverName freshNumber server)

/-- `started` says how the handshake went. The session is closed afterwards either way. -/
def runHttpToolsList (compact : JsonValue → String) (serverName : String)
    (started : Except String Unit) (server : PageServer) : ListingRun :=
  listAfter started (listPages compact serverName freshNumber server)

def pooledListTools (compact : JsonValue → String) (serverName : String) (nextRequestId : Int)
    (server : PageServer) : ListingRun :=
  listPages compact serverName (pooledNumber nextRequestId) server

/-! ### What a listing is -/

/-- The answers in the order of the requests. -/
def answersTo (server : PageServer) (sent : List ToolsListRequest) :
    List (Except String JsonValue) :=
  (List.range sent.length).map (fun index =>
    server ((sent.take (index + 1)).map ToolsListRequest.message))

theorem answersTo_append (server : PageServer) (sent : List ToolsListRequest)
    (request : ToolsListRequest) :
    answersTo server (sent ++ [request]) =
      answersTo server sent ++ [server ((sent ++ [request]).map ToolsListRequest.message)] := by
  have earlier : ∀ index ∈ List.range sent.length,
      server (((sent ++ [request]).take (index + 1)).map ToolsListRequest.message) =
        server ((sent.take (index + 1)).map ToolsListRequest.message) := by
    intro index member
    have within : index + 1 ≤ sent.length := mem_range.mp member
    rw [take_append_of_le_length within]
  have whole : (sent ++ [request]).take (sent.length + 1) = sent ++ [request] :=
    take_of_length_le (by simp)
  rw [answersTo, List.length_append, List.length_singleton, range_succ, map_append,
    map_congr_left earlier, map_singleton, whole, answersTo]

def Continues (page : JsonValue) (cursor : String) : Prop :=
  page.valueAtPath ["nextCursor"] = some (.string cursor) ∧ Text.trim cursor ≠ ""

/-- The page ends the list: its `nextCursor` is missing, null or blank. -/
def Ends (page : JsonValue) : Prop :=
  page.valueAtPath ["nextCursor"] = none ∨ page.valueAtPath ["nextCursor"] = some .null ∨
    ∃ blank, page.valueAtPath ["nextCursor"] = some (.string blank) ∧ Text.trim blank = ""

def printedBytes (compact : JsonValue → String) (tools : List JsonValue) : Nat :=
  (tools.map (fun tool => (compact tool).utf8ByteSize)).sum

/-- The pages are the answers to what was sent, `tools` are the tools of each, and each page after
the first was asked for with the cursor of the one before. -/
structure Listed (compact : JsonValue → String) (server : PageServer)
    (sent : List ToolsListRequest) (before : List JsonValue) (last : JsonValue)
    (cursors : List String) (tools : List (List JsonValue)) : Prop where
  answers : answersTo server sent = (before ++ [last]).map .ok
  tools_eq : (before ++ [last]).map (fun page => page.arrayAtPath ["tools"]) = tools.map some
  continues : List.Forall₂ Continues before cursors
  asked : sent.map ToolsListRequest.cursor = none :: cursors.map some
  ends : Ends last
  tools_le : tools.flatten.length ≤ 10000
  bytes_le : printedBytes compact tools.flatten ≤ 32 * 1024 * 1024

structure BoundedListing (compact : JsonValue → String) (server : PageServer) (run : ListingRun) :
    Prop where
  returns : run.outcome ≠ none
  requests_le : run.sent.length ≤ 100
  distinct : (run.sent.map ToolsListRequest.cursor).Nodup
  complete : ∀ value, run.outcome = some (.ok value) →
    ∃ before last cursors tools, Listed compact server run.sent before last cursors tools ∧
      value = .ofEntries [("tools", .array tools.flatten)]

/-! ### What a page adds -/

namespace ToolListPagination

variable {compact : JsonValue → String} {serverName : String} {server : PageServer}
  {before : ToolListPagination} {after : ToolListPagination}

theorem addTools_eq_ok {tools : List JsonValue}
    (added : addTools compact serverName tools before = .ok after)
    (start : before.bytes ≤ upstreamToolListMaxBytes) :
    after = { before with
      tools := before.tools ++ tools
      bytes := before.bytes + printedBytes compact tools } ∧
    after.bytes ≤ upstreamToolListMaxBytes := by
  induction tools generalizing before with
  | nil =>
    cases added
    exact ⟨by simp [printedBytes], start⟩
  | cons tool rest ih =>
    unfold addTools at added
    dsimp only at added
    split at added
    · cases added
    · rename_i within
      have within := Nat.le_of_not_gt within
      have exactly := saturatingAdd_of_le (by decide) within
      have ⟨rest_eq, rest_le⟩ := ih added within
      refine ⟨?_, rest_le⟩
      rw [rest_eq]
      simp [printedBytes, exactly, Nat.add_assoc]

variable {page : JsonValue} {cursor : Option String}

theorem nextCursor_eq_ok (read : nextCursor serverName page = .ok cursor) :
    (cursor = none ∧ Ends page) ∨ ∃ next, cursor = some next ∧ Continues page next := by
  unfold nextCursor at read
  split at read
  · rename_i missing
    cases read
    exact .inl ⟨rfl, .inl missing⟩
  · rename_i isNull
    cases read
    exact .inl ⟨rfl, .inr (.inl isNull)⟩
  · rename_i value isString
    split at read
    · rename_i blank
      cases read
      exact .inl ⟨rfl, .inr (.inr ⟨value, isString, blank⟩)⟩
    · rename_i filled
      split at read
      · cases read
        exact .inr ⟨value, rfl, isString, filled⟩
      · cases read
  · cases read

/-- The pagination after a page. -/
def withPage (compact : JsonValue → String) (before : ToolListPagination)
    (tools : List JsonValue) : ToolListPagination :=
  { before with
    tools := before.tools ++ tools
    bytes := before.bytes + printedBytes compact tools
    pages := saturatingAdd 64 before.pages 1 }

/-- A page that was taken kept all limits, and it ended the list or asked to go on. -/
theorem addPage_eq_ok (added : before.addPage compact serverName page = .ok (cursor, after))
    (start : before.bytes ≤ upstreamToolListMaxBytes) :
    ∃ tools, page.arrayAtPath ["tools"] = some tools ∧
      before.tools.length + tools.length ≤ upstreamToolListMaxTools ∧
      before.bytes + printedBytes compact tools ≤ upstreamToolListMaxBytes ∧
      ((cursor = none ∧ Ends page ∧ after = before.withPage compact tools) ∨
        ∃ next, cursor = some next ∧ Continues page next ∧ next ∉ before.seenCursors ∧
          saturatingAdd 64 before.pages 1 < upstreamToolListMaxPages ∧
          after = { before.withPage compact tools with
            seenCursors := insert next before.seenCursors }) := by
  have ⟨tools, found, added⟩ := bind_eq_ok.mp added
  have ⟨fits, added⟩ := require_bind_eq_ok.mp added
  have ⟨grown, grew, added⟩ := bind_eq_ok.mp added
  have ⟨read, readOk, followed⟩ := bind_eq_ok.mp added
  have ⟨grown_eq, grown_le⟩ := addTools_eq_ok grew start
  subst grown_eq
  have found : page.arrayAtPath ["tools"] = some tools := by
    unfold pageTools at found
    split at found
    · rename_i listed
      cases found
      exact listed
    · cases found
  have exactly := saturatingAdd_of_le (by decide) fits
  refine ⟨tools, found, exactly ▸ fits, grown_le, ?_⟩
  rcases nextCursor_eq_ok readOk with ⟨rfl, ends⟩ | ⟨next, rfl, continues⟩
  · cases followed
    exact .inl ⟨rfl, ends, rfl⟩
  · simp only [follow] at followed
    split at followed
    · cases followed
    · rename_i room
      split at followed
      · cases followed
      · rename_i fresh
        cases followed
        exact .inr ⟨next, rfl, continues, fresh, Nat.lt_of_not_ge room, rfl⟩

end ToolListPagination

/-! ### What holds between two pages -/

/-- What the pages before a request left behind. -/
structure Progress (compact : JsonValue → String) (server : PageServer)
    (sent : List ToolsListRequest) (pagination : ToolListPagination) (cursor : Option String)
    (pages : List JsonValue) (cursors : List String) (tools : List (List JsonValue)) : Prop where
  answers : answersTo server sent = pages.map .ok
  tools_eq : pages.map (fun page => page.arrayAtPath ["tools"]) = tools.map some
  continues : List.Forall₂ Continues pages cursors
  asked : sent.map ToolsListRequest.cursor ++ [cursor] = none :: cursors.map some
  listed : pagination.tools = tools.flatten
  bytes_eq : pagination.bytes = printedBytes compact tools.flatten
  bytes_le : pagination.bytes ≤ upstreamToolListMaxBytes
  seen : ∀ value, value ∈ pagination.seenCursors ↔ value ∈ cursors
  distinct : cursors.Nodup
  pages_eq : pagination.pages = sent.length
  room : sent.length < upstreamToolListMaxPages

theorem printedBytes_append (compact : JsonValue → String) (left right : List JsonValue) :
    printedBytes compact (left ++ right) =
      printedBytes compact left + printedBytes compact right := by
  simp [printedBytes]

section Loop

variable {compact : JsonValue → String} {serverName : String} {server : PageServer}
  {sent : List ToolsListRequest} {pagination : ToolListPagination} {cursor : Option String}
  {pages : List JsonValue} {cursors : List String} {tools : List (List JsonValue)}
  {page : JsonValue}

theorem progress_start : Progress compact server [] .new none [] [] [] where
  answers := rfl
  tools_eq := rfl
  continues := .nil
  asked := rfl
  listed := rfl
  bytes_eq := rfl
  bytes_le := Nat.zero_le _
  seen := by simp [ToolListPagination.new]
  distinct := nodup_nil
  pages_eq := rfl
  room := by decide

namespace Progress

/-- The cursors sent with the next request differ. -/
theorem distinct_sent
    (progress : Progress compact server sent pagination cursor pages cursors tools) (number : Int) :
    ((sent ++ [ToolsListRequest.mk number cursor]).map ToolsListRequest.cursor).Nodup := by
  rw [map_append, map_singleton, progress.asked, nodup_cons]
  refine ⟨by simp, ?_⟩
  exact progress.distinct.map (Option.some_injective _)

variable {number : Int}

/-- The answer to the next request is one more page. -/
theorem answers_append
    (progress : Progress compact server sent pagination cursor pages cursors tools)
    (answered : server ((sent ++ [ToolsListRequest.mk number cursor]).map
      ToolsListRequest.message) = .ok page) :
    answersTo server (sent ++ [ToolsListRequest.mk number cursor]) = (pages ++ [page]).map .ok := by
  rw [answersTo_append, answered, progress.answers, map_append, map_singleton]

variable {pageTools : List JsonValue}
  (progress : Progress compact server sent pagination cursor pages cursors tools)

include progress

theorem tools_append (found : page.arrayAtPath ["tools"] = some pageTools) :
    (pages ++ [page]).map (fun page => page.arrayAtPath ["tools"]) =
      (tools ++ [pageTools]).map some := by
  rw [map_append, map_append, progress.tools_eq, map_singleton, map_singleton, found]

theorem bytes_append (pageTools : List JsonValue) :
    pagination.bytes + printedBytes compact pageTools =
      printedBytes compact (tools ++ [pageTools]).flatten := by
  rw [flatten_append, flatten_singleton, printedBytes_append, progress.bytes_eq]

section

variable (answered : server ((sent ++ [ToolsListRequest.mk number cursor]).map
  ToolsListRequest.message) = .ok page) (found : page.arrayAtPath ["tools"] = some pageTools)

include answered found

theorem ended
    (tools_le : pagination.tools.length + pageTools.length ≤ upstreamToolListMaxTools)
    (bytes_le : pagination.bytes + printedBytes compact pageTools ≤ upstreamToolListMaxBytes)
    (ends : Ends page) :
    Listed compact server (sent ++ [ToolsListRequest.mk number cursor]) pages page cursors
      (tools ++ [pageTools]) where
  answers := progress.answers_append answered
  tools_eq := progress.tools_append found
  continues := progress.continues
  asked := by rw [map_append, map_singleton, progress.asked]
  ends := ends
  tools_le := by
    rw [flatten_append, flatten_singleton, List.length_append, ← progress.listed]
    exact tools_le
  bytes_le := progress.bytes_append pageTools ▸ bytes_le

theorem next {nextCursor : String}
    (bytes_le : pagination.bytes + printedBytes compact pageTools ≤ upstreamToolListMaxBytes)
    (continues : Continues page nextCursor) (fresh : nextCursor ∉ pagination.seenCursors)
    (room : saturatingAdd 64 pagination.pages 1 < upstreamToolListMaxPages) :
    Progress compact server (sent ++ [ToolsListRequest.mk number cursor])
      { pagination.withPage compact pageTools with
        seenCursors := insert nextCursor pagination.seenCursors }
      (some nextCursor) (pages ++ [page]) (cursors ++ [nextCursor]) (tools ++ [pageTools]) := by
  have pages_eq : saturatingAdd 64 pagination.pages 1 =
      (sent ++ [ToolsListRequest.mk number cursor]).length := by
    rw [saturatingAdd_of_le (by decide) room.le, progress.pages_eq, List.length_append,
      List.length_singleton]
  exact {
    answers := progress.answers_append answered
    tools_eq := progress.tools_append found
    continues := rel_append progress.continues (.cons continues .nil)
    asked := by
      rw [map_append, map_singleton, progress.asked, map_append, map_singleton, cons_append]
    listed := by
      show pagination.tools ++ pageTools = _
      rw [progress.listed, flatten_append, flatten_singleton]
    bytes_eq := progress.bytes_append pageTools
    bytes_le := bytes_le
    seen := by
      intro value
      show value ∈ insert nextCursor pagination.seenCursors ↔ _
      rw [Finset.mem_insert, progress.seen, mem_append, mem_singleton, or_comm]
    distinct := by
      have unseen : nextCursor ∉ cursors := fun member => fresh ((progress.seen _).mpr member)
      rw [nodup_append_comm]
      exact nodup_cons.mpr ⟨unseen, progress.distinct⟩
    pages_eq := pages_eq
    room := pages_eq ▸ room }

end

end Progress

theorem boundedListing_error {error : String} (requests_le : sent.length ≤ 100)
    (distinct : (sent.map ToolsListRequest.cursor).Nodup) :
    BoundedListing compact server ⟨sent, some (.error error)⟩ where
  returns := nofun
  requests_le := requests_le
  distinct := distinct
  complete := nofun

/-- With a turn left for each page that may still be asked for, the loop returns. -/
theorem boundedListing_pageLoop (number : Nat → Int) {fuel : Nat}
    (progress : Progress compact server sent pagination cursor pages cursors tools)
    (enough : upstreamToolListMaxPages ≤ sent.length + fuel) :
    BoundedListing compact server
      (pageLoop compact serverName number server fuel sent pagination cursor) := by
  induction fuel generalizing sent pagination cursor pages cursors tools with
  | zero => exact absurd progress.room (Nat.not_lt.mpr enough)
  | succ fuel ih =>
    have distinct := progress.distinct_sent (number sent.length)
    have requests_le :
        (sent ++ [ToolsListRequest.mk (number sent.length) cursor]).length ≤ 100 := by
      rw [List.length_append, List.length_singleton]
      exact progress.room
    unfold pageLoop
    dsimp only
    split
    · exact boundedListing_error requests_le distinct
    · rename_i page answered
      split
      · exact boundedListing_error requests_le distinct
      · -- the page ended the list
        rename_i last added
        have ⟨pageTools, found, tools_le, bytes_le, ended⟩ :=
          ToolListPagination.addPage_eq_ok added progress.bytes_le
        rcases ended with ⟨_, ends, rfl⟩ | ⟨_, impossible, _⟩
        · refine ⟨nofun, requests_le, distinct, ?_⟩
          intro value returned
          cases returned
          refine ⟨_, _, _, _, progress.ended answered found tools_le bytes_le ends, ?_⟩
          rw [flatten_append, flatten_singleton, ← progress.listed]
          rfl
        · cases impossible
      · -- the page asked to go on
        rename_i next more added
        have ⟨pageTools, found, _, bytes_le, ended⟩ :=
          ToolListPagination.addPage_eq_ok added progress.bytes_le
        rcases ended with ⟨impossible, _⟩ | ⟨_, same, continues, fresh, room, rfl⟩
        · cases impossible
        · cases same
          apply ih (progress.next answered found bytes_le continues fresh room)
          rw [List.length_append, List.length_singleton]
          omega

theorem boundedListing_listPages (number : Nat → Int) :
    BoundedListing compact server (listPages compact serverName number server) :=
  boundedListing_pageLoop number progress_start (Nat.le_refl _)

theorem boundedListing_listAfter (number : Nat → Int) (started : Except String Unit) :
    BoundedListing compact server
      (listAfter started (listPages compact serverName number server)) := by
  cases started with
  | error error => exact boundedListing_error (Nat.zero_le _) nodup_nil
  | ok _ => exact boundedListing_listPages number

end Loop

/-- Whatever the server answers, each of the three loops returns after at most a hundred requests,
asks for no cursor twice and lists all tools up to a page that ends the list, or fails. -/
theorem toolsList_bounded (compact : JsonValue → String) (serverName : String)
    (started : Except String Unit) (nextRequestId : Int) (server : PageServer) :
    BoundedListing compact server (runStdioToolsList compact serverName started server) ∧
      BoundedListing compact server (runHttpToolsList compact serverName started server) ∧
      BoundedListing compact server (pooledListTools compact serverName nextRequestId server) :=
  ⟨boundedListing_listAfter freshNumber started, boundedListing_listAfter freshNumber started,
    boundedListing_listPages (pooledNumber nextRequestId)⟩

/-- A page without tools whose `nextCursor` is a space. -/
def blankPage : JsonValue :=
  .ofEntries [("nextCursor", .string " "), ("tools", .array [])]

def blankServer : PageServer := fun _ => .ok blankPage

/-- All three loops return the list although its only page has a `nextCursor`. -/
theorem toolsList_blankCursor : blankPage.valueAtPath ["nextCursor"] = some (.string " ") ∧
      ∀ compact : JsonValue → String,
        (runStdioToolsList compact "demo" (.ok ()) blankServer).outcome =
          some (.ok (.ofEntries [("tools", .array [])])) ∧
        (runHttpToolsList compact "demo" (.ok ()) blankServer).outcome =
          some (.ok (.ofEntries [("tools", .array [])])) ∧
        (pooledListTools compact "demo" 2 blankServer).outcome =
          some (.ok (.ofEntries [("tools", .array [])])) :=
  ⟨rfl, fun _ => ⟨rfl, rfl, rfl⟩⟩

end Mcpace.Upstream

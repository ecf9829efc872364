import Mcpace.Library.Machine
import Mcpace.Library.OrderedMap
import Mcpace.Library.SlidingWindow
import Mcpace.Library.Text

/-!
Owns the rate limiter of the dashboard server: `HttpRateLimiter` of
`src/dashboard/rate_limit.rs`, and how far it limits what a client is allowed.

Instants are nanoseconds after the earliest instant that the platform can represent; going back
beyond it fails. The order in which the table of clients is iterated is part of a check.

A client's record is complete as long as no check forgets requests that still count: by removing
a client with such requests from a full table, or by a clock less than a window old. `Forgets`
names the two.

`retryAfterSecs` is the header of a refusal, of `handle_connection` in `src/dashboard.rs`.

Does not own: the JSON snapshot.
-/

namespace Mcpace.Dashboard

open Library Machine OrderedMap List

/-! ### The limiter -/

structure ClientWindow where
  requests : List Nat
  lastSeen : Nat
deriving DecidableEq, Repr

structure RateLimitedEvent where
  clientKey : String
  retryAfter : Nat
deriving DecidableEq, Repr

structure RateLimitDecision where
  allowed : Bool
  retryAfter : Nat
  clientKey : String
deriving DecidableEq, Repr

structure HttpRateLimiter where
  window : Nat
  maxRequests : Nat
  maxClients : Nat
  clients : List (String × ClientWindow)
  allowedTotal : Nat
  limitedTotal : Nat
  evictedClients : Nat
  recentLimited : List RateLimitedEvent

/-- A call of `check`. -/
structure RateCheck where
  clientKey : String
  now : Nat
  rank : String → Nat

def maxTrackedRateLimitClients : Nat := 1024
def recentRateLimitExportLimit : Nat := 25
def millisecond : Nat := 1000000
def second : Nat := 1000000000
def maxDuration : Nat := (2 ^ 64 - 1) * second + 999999999

/-- `Instant::checked_sub`. -/
def checkedSub (now duration : Nat) : Option Nat :=
  if duration ≤ now then some (now - duration) else none

/-- `Duration::checked_mul` by two. -/
def checkedDouble (duration : Nat) : Option Nat :=
  if duration * 2 ≤ maxDuration then some (duration * 2) else none

def pruneWindow (requests : List Nat) (windowStart : Nat) : List Nat :=
  requests.dropWhile (fun instant => decide (instant ≤ windowStart))

def ClientWindow.prune (client : ClientWindow) (windowStart : Nat) : ClientWindow :=
  ⟨pruneWindow client.requests windowStart, client.lastSeen⟩

namespace HttpRateLimiter

def new (window maxRequests : Nat) : HttpRateLimiter where
  window := max window millisecond
  maxRequests := max maxRequests 1
  maxClients := maxTrackedRateLimitClients
  clients := []
  allowedTotal := 0
  limitedTotal := 0
  evictedClients := 0
  recentLimited := []

def windowStart (limiter : HttpRateLimiter) (now : Nat) : Nat :=
  (checkedSub now limiter.window).getD now

def idleCutoff (limiter : HttpRateLimiter) (now : Nat) : Nat :=
  (checkedSub now ((checkedDouble limiter.window).getD limiter.window)).getD now

def prunedClients (limiter : HttpRateLimiter) (now : Nat) : List (String × ClientWindow) :=
  limiter.clients.map (fun entry => (entry.1, entry.2.prune (limiter.windowStart now)))

def pruneIdle (limiter : HttpRateLimiter) (now : Nat) : HttpRateLimiter :=
  let kept := retain (fun _ client =>
    decide (client.lastSeen > limiter.idleCutoff now) || !client.requests.isEmpty)
    (limiter.prunedClients now)
  { limiter with
    clients := kept
    evictedClients := saturatingAdd 64 limiter.evictedClients
      (limiter.clients.length - kept.length) }

/-- The client that `min_by_key` finds when the table is iterated in the order of `rank`. -/
def oldestClient (rank : String → Nat) (limiter : HttpRateLimiter) :
    Option (String × ClientWindow) :=
  limiter.clients.argmin (fun entry => toLex (entry.2.lastSeen, rank entry.1))

def evictOldestClient (rank : String → Nat) (limiter : HttpRateLimiter) : HttpRateLimiter :=
  match limiter.oldestClient rank with
  | none => limiter
  | some victim =>
    { limiter with
      clients := remove victim.1 limiter.clients
      evictedClients := saturatingAdd 64 limiter.evictedClients 1 }

def Full (limiter : HttpRateLimiter) (clientKey : String) : Prop :=
  (get clientKey limiter.clients).isNone = true ∧ limiter.maxClients ≤ limiter.clients.length

instance (limiter : HttpRateLimiter) (clientKey : String) : Decidable (limiter.Full clientKey) :=
  inferInstanceAs (Decidable (_ ∧ _))

/-- The limiter when the client's entry is looked up. -/
def makeRoom (limiter : HttpRateLimiter) (check : RateCheck) : HttpRateLimiter :=
  let pruned := limiter.pruneIdle check.now
  if pruned.Full check.clientKey then pruned.evictOldestClient check.rank else pruned

def recorded (limiter : HttpRateLimiter) (clientKey : String) : List Nat :=
  ((get clientKey limiter.clients).map ClientWindow.requests).getD []

def recordLimited (limiter : HttpRateLimiter) (clientKey : String) (retryAfter : Nat) :
    List RateLimitedEvent :=
  (if limiter.recentLimited.length ≥ recentRateLimitExportLimit then limiter.recentLimited.drop 1
    else limiter.recentLimited) ++ [⟨clientKey, retryAfter⟩]

/-- How long a client has to wait that has the requests on record. -/
def retryAfter (limiter : HttpRateLimiter) (requests : List Nat) (now : Nat) : Nat :=
  max ((requests.head?.map (fun oldest => limiter.window - (now - oldest))).getD limiter.window)
    second

def setClient (limiter : HttpRateLimiter) (clientKey : String) (client : ClientWindow) :
    HttpRateLimiter :=
  { limiter with clients := OrderedMap.insert clientKey client limiter.clients }

def check (limiter : HttpRateLimiter) (request : RateCheck) : RateLimitDecision × HttpRateLimiter :=
  let roomy := limiter.makeRoom request
  let requests := pruneWindow (roomy.recorded request.clientKey) (limiter.windowStart request.now)
  if requests.length ≥ limiter.maxRequests then
    let retryAfter := limiter.retryAfter requests request.now
    (⟨false, retryAfter, request.clientKey⟩,
      { roomy.setClient request.clientKey ⟨requests, request.now⟩ with
        limitedTotal := saturatingAdd 64 roomy.limitedTotal 1
        recentLimited := roomy.recordLimited request.clientKey retryAfter })
  else
    (⟨true, 0, request.clientKey⟩,
      { roomy.setClient request.clientKey ⟨requests ++ [request.now], request.now⟩ with
        allowedTotal := saturatingAdd 64 roomy.allowedTotal 1 })

def serve : HttpRateLimiter → List RateCheck → List (RateCheck × RateLimitDecision)
  | _, [] => []
  | limiter, request :: rest =>
    (request, (limiter.check request).1) :: serve (limiter.check request).2 rest

def allowedTimes (clientKey : String) (served : List (RateCheck × RateLimitDecision)) : List Nat :=
  (served.filter (fun entry => entry.2.allowed && entry.1.clientKey = clientKey)).map
    (fun entry => entry.1.now)

/-! ### What a check forgets -/

/-- Requests that still count are dropped: with the client that makes room, or because the clock
does not go back a whole window. -/
def Forgets (limiter : HttpRateLimiter) (request : RateCheck) : Prop :=
  (request.now < limiter.window ∧ ∃ entry ∈ limiter.clients, entry.2.requests ≠ []) ∨
    ((limiter.pruneIdle request.now).Full request.clientKey ∧
      ∃ victim, (limiter.pruneIdle request.now).oldestClient request.rank = some victim ∧
        victim.2.requests ≠ [])

/-- No check of the run forgets. -/
def Remembers : HttpRateLimiter → List RateCheck → Prop
  | _, [] => True
  | limiter, request :: rest =>
    ¬limiter.Forgets request ∧ Remembers (limiter.check request).2 rest

/-! ### What stays on record -/

section Record

variable {limiter : HttpRateLimiter} {request : RateCheck}

section

variable (sorted : Sorted limiter.clients)

include sorted

theorem sorted_prunedClients (now : Nat) : Sorted (limiter.prunedClients now) := by
  apply sorted_of_keys_eq ?_ sorted
  simp [OrderedMap.keys, prunedClients]

theorem sorted_pruneIdle (now : Nat) : Sorted (limiter.pruneIdle now).clients := by
  simp only [pruneIdle]
  exact sorted_retain (sorted_prunedClients sorted now)

/-- Pruning the table leaves a client the requests that still count. -/
theorem recorded_pruneIdle (now : Nat) (clientKey : String) :
    (limiter.pruneIdle now).recorded clientKey =
      pruneWindow (limiter.recorded clientKey) (limiter.windowStart now) := by
  simp only [recorded, pruneIdle]
  rw [get_retain (sorted_prunedClients sorted now), prunedClients,
    get_map_values (fun client : ClientWindow => client.prune (limiter.windowStart now))]
  cases get clientKey limiter.clients with
  | none => rfl
  | some client =>
    rw [Option.map_some, Option.filter_some]
    split
    · rfl
    · -- A client that is dropped has nothing left on record.
      rename_i dropped
      simp only [Bool.or_eq_true, Bool.not_eq_true', not_or, Bool.not_eq_false,
        List.isEmpty_iff] at dropped
      exact dropped.2.symm

end

/-- Only a full table that has an oldest client loses it. -/
theorem makeRoom_cases (limiter : HttpRateLimiter) (request : RateCheck) :
    let pruned := limiter.pruneIdle request.now
    ((pruned.Full request.clientKey → pruned.oldestClient request.rank = none) ∧
        (limiter.makeRoom request).clients = pruned.clients) ∨
      pruned.Full request.clientKey ∧ ∃ victim, pruned.oldestClient request.rank = some victim ∧
        victim ∈ pruned.clients ∧
        (limiter.makeRoom request).clients = remove victim.1 pruned.clients := by
  rw [makeRoom]
  split
  · rename_i full
    rw [evictOldestClient]
    cases found : (limiter.pruneIdle request.now).oldestClient request.rank with
    | none => exact Or.inl ⟨fun _ => found, rfl⟩
    | some victim => exact Or.inr ⟨full, victim, found, argmin_mem found, rfl⟩
  · exact Or.inl ⟨fun full => absurd full ‹_›, rfl⟩

theorem sorted_makeRoom (sorted : Sorted limiter.clients) :
    Sorted (limiter.makeRoom request).clients := by
  have pruned := sorted_pruneIdle sorted request.now
  rcases makeRoom_cases limiter request with ⟨_, same⟩ | ⟨_, victim, _, _, removed⟩
  · rw [same]
    exact pruned
  · rw [removed]
    exact sorted_remove pruned

/-- Making room drops what is out of the window, and what a client has that is removed for it. -/
theorem recorded_makeRoom_cases (sorted : Sorted limiter.clients) (clientKey : String) :
    (limiter.makeRoom request).recorded clientKey =
        pruneWindow (limiter.recorded clientKey) (limiter.windowStart request.now) ∨
      (limiter.makeRoom request).recorded clientKey = [] ∧ clientKey ≠ request.clientKey ∧
        (pruneWindow (limiter.recorded clientKey) (limiter.windowStart request.now) ≠ [] →
          limiter.Forgets request) := by
  have pruned := sorted_pruneIdle sorted request.now
  rw [← recorded_pruneIdle sorted]
  rcases makeRoom_cases limiter request with ⟨_, same⟩ | ⟨full, victim, oldest, member, removed⟩
  · exact Or.inl (by rw [recorded, same, recorded])
  · simp only [recorded, removed]
    by_cases isVictim : clientKey = victim.1
    · have found := get_of_mem pruned member
      rw [isVictim, get_remove_self, found]
      refine Or.inr ⟨rfl, ?_, fun counted => Or.inr ⟨full, victim, oldest, counted⟩⟩
      intro own
      have absent := full.1
      rw [← own, found] at absent
      cases absent
    · exact Or.inl (by rw [get_remove_of_ne isVictim])

theorem recorded_makeRoom (sorted : Sorted limiter.clients)
    (remembers : ¬limiter.Forgets request) (clientKey : String) :
    (limiter.makeRoom request).recorded clientKey =
      pruneWindow (limiter.recorded clientKey) (limiter.windowStart request.now) := by
  rcases recorded_makeRoom_cases sorted clientKey with same | ⟨forgotten, _, forgets⟩
  · exact same
  · rw [forgotten]
    by_contra counted
    exact remembers (forgets (Ne.symm counted))

theorem recorded_setClient (limiter : HttpRateLimiter) (clientKey other : String)
    (client : ClientWindow) :
    (limiter.setClient clientKey client).recorded other =
      if other = clientKey then client.requests else limiter.recorded other := by
  simp only [recorded, setClient]
  rw [get_insert]
  split <;> rfl

/-- What is on record for the client of a check when it is decided. -/
def counted (limiter : HttpRateLimiter) (request : RateCheck) : List Nat :=
  pruneWindow ((limiter.makeRoom request).recorded request.clientKey)
    (limiter.windowStart request.now)

theorem allowed_check : (limiter.check request).1.allowed = true ↔
    (limiter.counted request).length < limiter.maxRequests := by
  simp only [check, counted]
  split
  · simp only [Bool.false_eq_true, false_iff, not_lt]
    assumption
  · simp only [true_iff]
    omega

theorem recorded_check (limiter : HttpRateLimiter) (request : RateCheck) (clientKey : String) :
    (limiter.check request).2.recorded clientKey =
      if clientKey = request.clientKey then
        limiter.counted request ++
          (if (limiter.check request).1.allowed = true then [request.now] else [])
      else (limiter.makeRoom request).recorded clientKey := by
  by_cases allowed : (limiter.check request).1.allowed = true
  · have room := allowed_check.mp allowed
    rw [if_pos allowed]
    simp only [check, counted] at room ⊢
    rw [if_neg (by omega)]
    exact recorded_setClient _ _ _ _
  · have full := mt allowed_check.mpr allowed
    rw [if_neg allowed, append_nil]
    simp only [check, counted] at full ⊢
    rw [if_pos (by omega)]
    exact recorded_setClient _ _ _ _

theorem clients_check_sorted (sorted : Sorted limiter.clients) :
    Sorted (limiter.check request).2.clients := by
  have inserted : ∀ client, Sorted
      (OrderedMap.insert request.clientKey client (limiter.makeRoom request).clients) :=
    fun client => sorted_insert (sorted_makeRoom sorted)
  rw [check]
  dsimp only
  split
  · exact inserted _
  · exact inserted _

theorem makeRoom_limits : (limiter.makeRoom request).window = limiter.window ∧
    (limiter.makeRoom request).maxRequests = limiter.maxRequests ∧
    (limiter.makeRoom request).maxClients = limiter.maxClients := by
  simp only [makeRoom, evictOldestClient]
  split
  · split <;> exact ⟨rfl, rfl, rfl⟩
  · exact ⟨rfl, rfl, rfl⟩

theorem check_limits : (limiter.check request).2.window = limiter.window ∧
    (limiter.check request).2.maxRequests = limiter.maxRequests ∧
    (limiter.check request).2.maxClients = limiter.maxClients := by
  have limits := @makeRoom_limits limiter request
  rw [check]
  dsimp only
  split <;> exact limits

end Record

/-! ### Runs that remember -/

open SlidingWindow

/-- What was allowed so far: within the limits, and either on record or out of the window. -/
structure Account (limiter : HttpRateLimiter) (clock : Nat) (history : String → List Nat) :
    Prop where
  sorted : Sorted limiter.clients
  limited : ∀ clientKey, Limited limiter.window limiter.maxRequests (history clientKey)
  ordered : ∀ clientKey, (history clientKey).Pairwise (· ≤ ·)
  past : ∀ clientKey, ∀ time ∈ history clientKey, time ≤ clock
  complete : ∀ clientKey, ∃ dropped, history clientKey = dropped ++ limiter.recorded clientKey ∧
    ∀ time ∈ dropped, time + limiter.window ≤ clock

section Runs

variable {limiter : HttpRateLimiter} {request : RateCheck} {clock : Nat}
  {history : String → List Nat}

theorem pruneWindow_split (requests : List Nat) (start : Nat) :
    ∃ removed, requests = removed ++ pruneWindow requests start ∧ ∀ time ∈ removed, time ≤ start := by
  refine ⟨_, List.takeWhile_append_dropWhile.symm, ?_⟩
  intro time member
  have kept := mem_takeWhile_imp member
  simpa using kept

theorem recorded_eq_nil (empty : ∀ entry ∈ limiter.clients, entry.2.requests = [])
    (clientKey : String) : limiter.recorded clientKey = [] := by
  rw [recorded]
  cases found : get clientKey limiter.clients with
  | none => rfl
  | some client => exact empty _ (mem_of_get found)

/-- Making room keeps the account up to the clock of the check. -/
theorem Account.complete_makeRoom (account : Account limiter clock history)
    (later : clock ≤ request.now) (remembers : ¬limiter.Forgets request) (clientKey : String) :
    ∃ dropped, history clientKey = dropped ++ (limiter.makeRoom request).recorded clientKey ∧
      ∀ time ∈ dropped, time + limiter.window ≤ request.now := by
  obtain ⟨dropped, isHistory, old⟩ := account.complete clientKey
  obtain ⟨removed, isRecord, older⟩ :=
    pruneWindow_split (limiter.recorded clientKey) (limiter.windowStart request.now)
  refine ⟨dropped ++ removed, ?_, ?_⟩
  · rw [recorded_makeRoom account.sorted remembers, List.append_assoc, ← isRecord]
    exact isHistory
  · intro time member
    rcases mem_append.mp member with early | late
    · exact (old time early).trans later
    · by_cases reaches : limiter.window ≤ request.now
      · have start : limiter.windowStart request.now = request.now - limiter.window := by
          rw [windowStart, checkedSub, if_pos reaches]
          rfl
        have bound := older time late
        rw [start] at bound
        omega
      · -- The clock does not go back a window, so nothing was on record.
        have empty : ∀ entry ∈ limiter.clients, entry.2.requests = [] := by
          intro entry isClient
          by_contra counted
          exact remembers (Or.inl ⟨by omega, entry, isClient, counted⟩)
        have onRecord : time ∈ limiter.recorded clientKey := by
          rw [isRecord]
          exact mem_append_left _ late
        rw [recorded_eq_nil empty] at onRecord
        cases onRecord

theorem counted_eq (sorted : Sorted limiter.clients) (remembers : ¬limiter.Forgets request) :
    limiter.counted request = (limiter.makeRoom request).recorded request.clientKey := by
  rw [counted, recorded_makeRoom sorted remembers, pruneWindow, pruneWindow, dropWhile_idempotent]

/-- What a check adds to the history of a client. -/
def granted (limiter : HttpRateLimiter) (request : RateCheck) (clientKey : String) : List Nat :=
  if (limiter.check request).1.allowed = true ∧ clientKey = request.clientKey then [request.now]
  else []

/-- A request that is allowed finds fewer than the limit in its window. -/
theorem Account.room (account : Account limiter clock history) (later : clock ≤ request.now)
    (remembers : ¬limiter.Forgets request) (allowed : (limiter.check request).1.allowed = true) :
    (history request.clientKey).countP
      (fun earlier => decide (request.now < earlier + limiter.window)) < limiter.maxRequests := by
  obtain ⟨dropped, isHistory, old⟩ :=
    account.complete_makeRoom later remembers request.clientKey
  have none : dropped.countP
      (fun earlier => decide (request.now < earlier + limiter.window)) = 0 := by
    apply List.countP_eq_zero.mpr
    intro time member
    have bound := old time member
    simp only [decide_eq_true_eq, not_lt]
    exact bound
  have room := allowed_check.mp allowed
  rw [counted_eq account.sorted remembers] at room
  rw [isHistory, countP_append, none, Nat.zero_add]
  exact lt_of_le_of_lt countP_le_length room

theorem Account.check (account : Account limiter clock history) (later : clock ≤ request.now)
    (remembers : ¬limiter.Forgets request) :
    Account (limiter.check request).2 request.now
      (fun clientKey => history clientKey ++ limiter.granted request clientKey) where
  sorted := clients_check_sorted account.sorted
  limited := by
    intro clientKey
    rw [check_limits.1, check_limits.2.1, granted]
    split
    · rename_i own
      rw [own.2]
      exact limited_append (account.limited request.clientKey) (account.room later remembers own.1)
    · rw [append_nil]
      exact account.limited clientKey
  ordered := by
    intro clientKey
    rw [granted]
    split
    · rw [pairwise_append]
      refine ⟨account.ordered clientKey, pairwise_singleton _ _, ?_⟩
      intro earlier member time isNow
      rw [mem_singleton.mp isNow]
      exact (account.past clientKey earlier member).trans later
    · rw [append_nil]
      exact account.ordered clientKey
  past := by
    intro clientKey time member
    rcases mem_append.mp member with earlier | last
    · exact (account.past clientKey time earlier).trans later
    · rw [granted] at last
      split at last
      · exact (mem_singleton.mp last).le
      · cases last
  complete := by
    intro clientKey
    obtain ⟨dropped, isHistory, old⟩ := account.complete_makeRoom later remembers clientKey
    refine ⟨dropped, ?_, ?_⟩
    · rw [isHistory, List.append_assoc, append_cancel_left_eq, recorded_check, granted]
      by_cases own : clientKey = request.clientKey
      · rw [if_pos own, counted_eq account.sorted remembers, own]
        simp only [and_true]
      · rw [if_neg own, if_neg (fun both => own both.2), append_nil]
    · rw [check_limits.1]
      exact old

theorem allowedTimes_serve_cons (limiter : HttpRateLimiter) (request : RateCheck)
    (rest : List RateCheck) (clientKey : String) :
    allowedTimes clientKey (limiter.serve (request :: rest)) = limiter.granted request clientKey ++
        allowedTimes clientKey ((limiter.check request).2.serve rest) := by
  rw [serve, allowedTimes, filter_cons, granted]
  by_cases own : (limiter.check request).1.allowed = true ∧ clientKey = request.clientKey
  · rw [if_pos own, if_pos (by simp [own])]
    rfl
  · have other : ¬((limiter.check request).1.allowed &&
        decide (request.clientKey = clientKey)) = true := by
      simp only [Bool.and_eq_true, decide_eq_true_eq]
      exact fun both => own ⟨both.1, both.2.symm⟩
    rw [if_neg own, if_neg other]
    rfl

/-- A run that remembers keeps the account of every client. -/
theorem Account.serve (account : Account limiter clock history) (checks : List RateCheck)
    (ordered : checks.Pairwise (fun earlier later => earlier.now ≤ later.now))
    (later : ∀ request ∈ checks, clock ≤ request.now) (remembers : limiter.Remembers checks)
    (clientKey : String) :
    Limited limiter.window limiter.maxRequests
        (history clientKey ++ allowedTimes clientKey (limiter.serve checks)) ∧
      (history clientKey ++ allowedTimes clientKey (limiter.serve checks)).Pairwise (· ≤ ·) := by
  induction checks generalizing limiter clock history with
  | nil =>
    rw [HttpRateLimiter.serve, allowedTimes]
    simp only [filter_nil, map_nil, append_nil]
    exact ⟨account.limited clientKey, account.ordered clientKey⟩
  | cons request rest ih =>
    obtain ⟨here, restRemembers⟩ := remembers
    obtain ⟨first, restOrdered⟩ := pairwise_cons.mp ordered
    have next := account.check (later request mem_cons_self) here
    have rest := ih next restOrdered first restRemembers
    rw [check_limits.1, check_limits.2.1] at rest
    rw [allowedTimes_serve_cons, ← List.append_assoc]
    exact rest

theorem account_new (window maxRequests : Nat) :
    Account (new window maxRequests) 0 (fun _ => []) where
  sorted := sorted_nil
  limited := by
    intro clientKey past time rest split
    cases past <;> cases split
  ordered := fun _ => List.Pairwise.nil
  past := nofun
  complete := fun _ => ⟨[], rfl, nofun⟩

end Runs

/-! ### Contract -/

/-- In a run that remembers, each client is allowed at most the limit in every half-open interval
of the window's length. -/
theorem serve_limited (window maxRequests : Nat) (checks : List RateCheck)
    (ordered : checks.Pairwise (fun earlier later => earlier.now ≤ later.now))
    (remembers : (new window maxRequests).Remembers checks) (clientKey : String) (start : Nat) :
    let limiter := new window maxRequests
    let allowed := allowedTimes clientKey (limiter.serve checks)
    allowed.countP (fun time => decide (start ≤ time ∧ time < start + limiter.window)) ≤
        limiter.maxRequests ∧
      allowed.countP (fun time => decide (start < time ∧ time ≤ start + limiter.window)) ≤
        limiter.maxRequests := by
  intro limiter allowed
  obtain ⟨limited, sorted⟩ := (account_new window maxRequests).serve checks ordered
    (fun _ _ => Nat.zero_le _) remembers clientKey
  rw [nil_append] at limited sorted
  constructor
  all_goals
    apply limited.countP_le sorted
    intro earlier later earlierInside laterInside _
    simp only [decide_eq_true_eq] at earlierInside laterInside
    show later < earlier + limiter.window
    omega

/-- A client with one request per second is allowed its second request when the first one is out
of the window. -/
theorem serve_limited_oneClient :
    let checks := [second, second + 5, second + second].map (fun now =>
      (⟨"client", now, fun _ => 0⟩ : RateCheck))
    allowedTimes "client" ((new second 1).serve checks) = [second, second + second] ∧
      (allowedTimes "client" ((new second 1).serve checks)).countP
        (fun time => decide (second ≤ time ∧ time < second + second)) ≤ 1 := by
  intro checks
  have remembers : (new second 1).Remembers checks := by
    refine ⟨?_, ?_, ?_, trivial⟩
    all_goals
      rintro (⟨early, _⟩ | ⟨⟨_, full⟩, _⟩)
      · exact absurd early (by decide)
      · exact absurd full (by decide)
  refine ⟨by decide, ?_⟩
  exact (serve_limited second 1 checks (by decide) remembers "client" second).1

/-! ### A crowd of clients -/

def after (limiter : HttpRateLimiter) (checks : List RateCheck) : HttpRateLimiter :=
  checks.foldl (fun limiter request => (limiter.check request).2) limiter

theorem serve_append (limiter : HttpRateLimiter) (checks more : List RateCheck) :
    limiter.serve (checks ++ more) = limiter.serve checks ++ (limiter.after checks).serve more := by
  induction checks generalizing limiter with
  | nil => rfl
  | cons request rest ih =>
    rw [cons_append, serve, serve, ih]
    rfl

/-- One client was seen at `start`, and each of the others once, after it; all of it counts. -/
structure Crowd (limiter : HttpRateLimiter) (first : String) (start now : Nat)
    (names : List String) : Prop where
  sorted : Sorted limiter.clients
  counts : limiter.windowStart now < start
  later : start < now
  positive : 1 ≤ limiter.maxRequests
  first_eq : get first limiter.clients = some ⟨[start], start⟩
  others : ∀ entry ∈ limiter.clients, entry = (first, ⟨[start], start⟩) ∨
    (entry.1 ∈ names ∧ entry.2 = ⟨[now], now⟩)
  length_eq : limiter.clients.length = names.length + 1

section Crowd

variable {limiter : HttpRateLimiter} {first name : String} {start now : Nat}
  {names : List String}

theorem clients_check_of_absent {request : RateCheck}
    (absent : get request.clientKey (limiter.makeRoom request).clients = none)
    (positive : 1 ≤ limiter.maxRequests) :
    (limiter.check request).1.allowed = true ∧
      (limiter.check request).2.clients = OrderedMap.insert request.clientKey
        ⟨[request.now], request.now⟩ (limiter.makeRoom request).clients := by
  have none : (limiter.makeRoom request).recorded request.clientKey = [] := by
    rw [recorded, absent]
    rfl
  have room : ¬(pruneWindow [] (limiter.windowStart request.now)).length ≥
      limiter.maxRequests := by
    show ¬0 ≥ limiter.maxRequests
    omega
  simp only [HttpRateLimiter.check, none, if_neg room]
  exact ⟨trivial, rfl⟩

section

variable (crowd : Crowd limiter first start now names)

include crowd

theorem Crowd.clients_pruneIdle : (limiter.pruneIdle now).clients = limiter.clients := by
  have counts := crowd.counts
  have later := crowd.later
  have kept : ∀ entry ∈ limiter.clients,
      entry.2.prune (limiter.windowStart now) = entry.2 ∧ entry.2.requests ≠ [] := by
    intro entry member
    have single : ∀ time, limiter.windowStart now < time →
        pruneWindow [time] (limiter.windowStart now) = [time] := by
      intro time inside
      rw [pruneWindow, dropWhile_cons, if_neg (by simpa using inside)]
    rcases crowd.others entry member with rfl | ⟨_, isClient⟩
    · exact ⟨by rw [ClientWindow.prune, single start counts], by simp⟩
    · rw [isClient]
      exact ⟨by rw [ClientWindow.prune, single now (by omega)], by simp⟩
  have pruned : limiter.prunedClients now = limiter.clients := by
    rw [prunedClients]
    conv_rhs => rw [← List.map_id limiter.clients]
    apply map_congr_left
    intro entry member
    rw [(kept entry member).1]
    rfl
  simp only [pruneIdle, pruned]
  apply filter_eq_self.mpr
  intro entry member
  have busy := (kept entry member).2
  simp [busy]

variable (new : name ∉ names) (other : name ≠ first)

include new other

theorem Crowd.get_eq_none : get name limiter.clients = none := by
  cases found : get name limiter.clients with
  | none => rfl
  | some client =>
    rcases crowd.others _ (mem_of_get found) with isFirst | ⟨isName, _⟩
    · exact absurd (congrArg Prod.fst isFirst) other
    · exact absurd isName new

theorem Crowd.check (room : names.length + 1 < limiter.maxClients) (rank : String → Nat) :
    Crowd (limiter.check ⟨name, now, rank⟩).2 first start now (name :: names) := by
  have clients := crowd.clients_pruneIdle
  have absent := crowd.get_eq_none new other
  have roomy : (limiter.makeRoom ⟨name, now, rank⟩).clients = limiter.clients := by
    rcases makeRoom_cases limiter ⟨name, now, rank⟩ with ⟨_, same⟩ | ⟨⟨_, full⟩, _⟩
    · exact same.trans clients
    · rw [clients, crowd.length_eq] at full
      exact absurd full (Nat.not_le_of_lt room)
  obtain ⟨_, inserted⟩ := @clients_check_of_absent limiter ⟨name, now, rank⟩
    (by rw [roomy]; exact absent) crowd.positive
  rw [roomy] at inserted
  refine ⟨clients_check_sorted crowd.sorted, ?_, crowd.later, ?_, ?_, ?_, ?_⟩
  · rw [windowStart, check_limits.1]
    exact crowd.counts
  · rw [check_limits.2.1]
    exact crowd.positive
  · rw [inserted, get_insert_of_ne (Ne.symm other)]
    exact crowd.first_eq
  · rw [inserted]
    refine forall_mem_insert (Or.inr ⟨mem_cons_self, rfl⟩) ?_
    intro entry old
    rcases crowd.others entry old with isFirst | ⟨isName, isClient⟩
    · exact Or.inl isFirst
    · exact Or.inr ⟨mem_cons_of_mem _ isName, isClient⟩
  · rw [inserted, length_insert_of_get_eq_none absent, crowd.length_eq, length_cons]

/-- One client more than the table holds makes the limiter forget the first. -/
theorem Crowd.forgets (full : limiter.maxClients ≤ names.length + 1) (rank : String → Nat) :
    get first (limiter.check ⟨name, now, rank⟩).2.clients = none := by
  have clients := crowd.clients_pruneIdle
  have isFull : (limiter.pruneIdle now).Full name := by
    refine ⟨?_, ?_⟩
    · rw [clients, crowd.get_eq_none new other]
      rfl
    · rw [clients, crowd.length_eq]
      exact full
  have member : (first, (⟨[start], start⟩ : ClientWindow)) ∈ limiter.clients :=
    mem_of_get crowd.first_eq
  have roomy : (limiter.makeRoom ⟨name, now, rank⟩).clients = remove first limiter.clients := by
    rcases makeRoom_cases limiter ⟨name, now, rank⟩ with
      ⟨none, _⟩ | ⟨_, victim, oldest, isClient, removed⟩
    · have empty := none isFull
      rw [oldestClient, clients, argmin_eq_none] at empty
      rw [empty] at member
      cases member
    · rw [oldestClient, clients] at oldest
      rw [clients] at isClient removed
      rcases crowd.others victim isClient with rfl | ⟨_, isLate⟩
      · exact removed
      · -- A later client is not the oldest one.
        have order := le_of_mem_argmin member oldest
        rw [isLate, Prod.Lex.toLex_le_toLex] at order
        have later := crowd.later
        rcases order with before | ⟨same, _⟩
        · simp only at before
          omega
        · simp only at same
          omega
  have absent : get name (limiter.makeRoom ⟨name, now, rank⟩).clients = none := by
    rw [roomy, get_remove_of_ne other]
    exact crowd.get_eq_none new other
  obtain ⟨_, inserted⟩ := @clients_check_of_absent limiter ⟨name, now, rank⟩ absent crowd.positive
  rw [inserted, roomy, get_insert_of_ne (Ne.symm other), get_remove_self]

end

theorem after_maxClients (limiter : HttpRateLimiter) (checks : List RateCheck) :
    (limiter.after checks).maxClients = limiter.maxClients := by
  induction checks generalizing limiter with
  | nil => rfl
  | cons request rest ih =>
    exact (ih _).trans check_limits.2.2

/-- The checks of clients that come one after another. -/
def arrivals (names : List String) (now : Nat) : List RateCheck :=
  names.map (fun name => ⟨name, now, fun _ => 0⟩)

theorem Crowd.arrivals (crowd : Crowd limiter first start now names) {more : List String}
    (distinct : more.Nodup) (new : ∀ name ∈ more, name ∉ names ∧ name ≠ first)
    (room : names.length + more.length < limiter.maxClients) :
    Crowd (limiter.after (arrivals more now)) first start now (more.reverse ++ names) := by
  induction more generalizing limiter names with
  | nil => exact crowd
  | cons name rest ih =>
    obtain ⟨unused, other⟩ := new name mem_cons_self
    obtain ⟨apart, restDistinct⟩ := nodup_cons.mp distinct
    rw [length_cons] at room
    have next := crowd.check unused other (by omega) (fun _ => 0)
    rw [reverse_cons, List.append_assoc]
    apply ih next restDistinct
    · intro later member
      obtain ⟨laterUnused, laterOther⟩ := new later (mem_cons_of_mem _ member)
      refine ⟨?_, laterOther⟩
      rw [mem_cons, not_or]
      exact ⟨fun same => apart (same ▸ member), laterUnused⟩
    · rw [check_limits.2.2, length_cons]
      omega

end Crowd

theorem allowedTimes_append (clientKey : String)
    (left right : List (RateCheck × RateLimitDecision)) :
    allowedTimes clientKey (left ++ right) =
      allowedTimes clientKey left ++ allowedTimes clientKey right := by
  rw [allowedTimes, filter_append, map_append]
  rfl

/-- A client that the table does not know is allowed its request. -/
theorem allowedTimes_unknown {limiter : HttpRateLimiter} {request : RateCheck}
    (sorted : Sorted limiter.clients)
    (unknown : get request.clientKey limiter.clients = none)
    (positive : 1 ≤ limiter.maxRequests) :
    allowedTimes request.clientKey (limiter.serve [request]) = [request.now] := by
  have pruned : get request.clientKey (limiter.pruneIdle request.now).clients = none := by
    simp only [pruneIdle]
    rw [get_retain (sorted_prunedClients sorted request.now), prunedClients, get_map_values
        (fun client : ClientWindow => client.prune (limiter.windowStart request.now)), unknown]
    rfl
  have absent : get request.clientKey (limiter.makeRoom request).clients = none := by
    rcases makeRoom_cases limiter request with ⟨_, same⟩ | ⟨_, victim, _, _, removed⟩
    · rw [same]
      exact pruned
    · rw [removed]
      by_cases own : request.clientKey = victim.1
      · rw [own, get_remove_self]
      · rw [get_remove_of_ne own]
        exact pruned
  have allowed := (clients_check_of_absent absent positive).1
  rw [allowedTimes_serve_cons, granted, if_pos ⟨allowed, rfl⟩]
  rfl

/-- A client comes, then as many others as the table holds, and the first client again. -/
def crowdedRun (first last : String) (names : List String) (start : Nat) : List RateCheck :=
  ⟨first, start, fun _ => 0⟩ :: (arrivals names (start + 1) ++
    ([⟨last, start + 1, fun _ => 0⟩] ++ [⟨first, start + 1, fun _ => 0⟩]))

section CrowdedRun

variable {first last : String} {names : List String} {start : Nat}

theorem crowdedRun_ordered (first last : String) (names : List String) (start : Nat) :
    (crowdedRun first last names start).Pairwise
      (fun earlier later => earlier.now ≤ later.now) := by
  have same : ∀ request ∈ arrivals names (start + 1) ++
      ([⟨last, start + 1, fun _ => 0⟩] ++ [⟨first, start + 1, fun _ => 0⟩]),
      request.now = start + 1 := by
    intro request member
    simp only [arrivals, mem_append, List.mem_map, mem_singleton] at member
    rcases member with ⟨name, _, rfl⟩ | rfl | rfl <;> rfl
  rw [crowdedRun, pairwise_cons]
  constructor
  · intro request member
    rw [same request member]
    exact Nat.le_succ start
  · apply pairwise_of_forall_mem_list
    intro earlier earlierMember later laterMember
    rw [same earlier earlierMember, same later laterMember]

theorem crowd_start {window : Nat} (reaches : max window millisecond ≤ start)
    (first : String) (maxRequests : Nat) :
    Crowd ((new window maxRequests).check ⟨first, start, fun _ => 0⟩).2 first start (start + 1)
      [] := by
  have positive : 1 ≤ max maxRequests 1 := le_max_right _ _
  have size : millisecond = 1000000 := rfl
  obtain ⟨_, inserted⟩ := @clients_check_of_absent (new window maxRequests)
    ⟨first, start, fun _ => 0⟩ rfl positive
  have clients : ((new window maxRequests).check ⟨first, start, fun _ => 0⟩).2.clients =
      [(first, ⟨[start], start⟩)] := inserted
  refine ⟨clients_check_sorted sorted_nil, ?_, Nat.lt_succ_self start, ?_, ?_, ?_, ?_⟩
  · rw [windowStart, check_limits.1]
    show (checkedSub (start + 1) (max window millisecond)).getD (start + 1) < start
    rw [checkedSub, if_pos (by omega)]
    show start + 1 - max window millisecond < start
    omega
  · rw [check_limits.2.1]
    exact positive
  · rw [clients]
    exact if_pos rfl
  · rw [clients]
    exact fun entry member => Or.inl (mem_singleton.mp member)
  · rw [clients]
    rfl

/-- Whatever the limit, the first client is allowed a request again although its first one
counts. -/
theorem crowdedRun_allowed {window : Nat} (reaches : max window millisecond ≤ start)
    (maxRequests : Nat) (distinct : names.Nodup) (apart : ∀ name ∈ names, name ≠ first)
    (full : names.length + 1 = maxTrackedRateLimitClients) (lastNew : last ∉ names)
    (lastApart : last ≠ first) :
    [start, start + 1].Sublist (allowedTimes first
      ((new window maxRequests).serve (crowdedRun first last names start))) := by
  have positive : 1 ≤ max maxRequests 1 := le_max_right _ _
  have crowd := (crowd_start reaches first maxRequests).arrivals distinct
    (fun name member => ⟨not_mem_nil, apart name member⟩) (by
      rw [check_limits.2.2, length_nil]
      show 0 + names.length < maxTrackedRateLimitClients
      omega)
  have forgotten := crowd.forgets (by rwa [append_nil, mem_reverse]) lastApart (by
    rw [after_maxClients, check_limits.2.2, append_nil, length_reverse]
    exact full.ge) (fun _ => 0)
  have again := @allowedTimes_unknown _ ⟨first, start + 1, fun _ => 0⟩
    (clients_check_sorted crowd.sorted) forgotten (by
      rw [check_limits.2.1]
      exact crowd.positive)
  have opening : (new window maxRequests).granted ⟨first, start, fun _ => 0⟩ first = [start] := by
    rw [granted, if_pos ⟨(@clients_check_of_absent (new window maxRequests)
      ⟨first, start, fun _ => 0⟩ rfl positive).1, rfl⟩]
  rw [crowdedRun, allowedTimes_serve_cons, serve_append, serve_append, allowedTimes_append,
    allowedTimes_append, opening]
  show ([start] ++ [start + 1]).Sublist _
  apply (List.Sublist.refl [start]).append
  apply List.Sublist.trans ?_ (sublist_append_right _ _)
  apply List.Sublist.trans ?_ (sublist_append_right _ _)
  rw [← again]
  exact List.Sublist.refl _

end CrowdedRun

/-- The limit is one request per second; client `0` is allowed two within two nanoseconds. -/
theorem crowdedRun_exceeds :
    let checks := crowdedRun (toString 0) (toString 1024) ((List.range' 1 1023).map toString)
      second
    checks.Pairwise (fun earlier later => earlier.now ≤ later.now) ∧
      (new second 1).maxRequests = 1 ∧ (new second 1).window = second ∧
      1 < (allowedTimes (toString 0) ((new second 1).serve checks)).countP
        (fun time => decide (second ≤ time ∧ time < second + second)) := by
  intro checks
  have different : ∀ {left right : Nat}, left ≠ right → toString left ≠ toString right :=
    fun apart same => apart (Text.toString_injective same)
  refine ⟨crowdedRun_ordered _ _ _ _, rfl, rfl, ?_⟩
  have allowed : [second, second + 1].Sublist
      (allowedTimes (toString 0) ((new second 1).serve checks)) := by
    apply crowdedRun_allowed (by decide)
    · exact List.Nodup.map Text.toString_injective nodup_range'
    · intro name member
      obtain ⟨index, inRange, rfl⟩ := List.mem_map.mp member
      have positive := (mem_range'_1.mp inRange).1
      exact different (by omega)
    · rw [List.length_map, length_range']
      rfl
    · intro member
      obtain ⟨index, inRange, same⟩ := List.mem_map.mp member
      have bound := (mem_range'_1.mp inRange).2
      exact different (by omega) same
    · exact different (by decide)
  exact lt_of_lt_of_le (by decide) allowed.countP_le

/-! ### The Retry-After header -/

/-- The seconds that `handle_connection` sends with a refusal: `as_secs` cuts off a fraction. -/
def retryAfterSecs (decision : RateLimitDecision) : Nat := max (decision.retryAfter / second) 1

structure Bounded (limiter : HttpRateLimiter) (clock : Nat) : Prop where
  sorted : Sorted limiter.clients
  positive : 1 ≤ limiter.maxRequests
  past : ∀ clientKey, ∀ time ∈ limiter.recorded clientKey, time ≤ clock
  length_le : ∀ clientKey, (limiter.recorded clientKey).length ≤ limiter.maxRequests

section RetryAfter

variable {limiter : HttpRateLimiter} {request : RateCheck} {clock : Nat}

section

variable (sorted : Sorted limiter.clients)

include sorted

theorem recorded_makeRoom_suffix (clientKey : String) :
    (limiter.makeRoom request).recorded clientKey <:+ limiter.recorded clientKey := by
  rcases recorded_makeRoom_cases sorted clientKey with pruned | ⟨forgotten, _, _⟩
  · rw [pruned]
    exact dropWhile_suffix _
  · rw [forgotten]
    exact nil_suffix

theorem counted_eq_pruneWindow : limiter.counted request =
    pruneWindow (limiter.recorded request.clientKey) (limiter.windowStart request.now) := by
  have own := (recorded_makeRoom_cases sorted request.clientKey).resolve_right
    (fun other => other.2.1 rfl)
  rw [counted, own, pruneWindow, pruneWindow, dropWhile_idempotent]

theorem counted_suffix : limiter.counted request <:+ limiter.recorded request.clientKey := by
  rw [counted_eq_pruneWindow sorted]
  exact dropWhile_suffix _

/-- What is on record after a run is the end of what was on record before it and was allowed in
it. -/
theorem after_keeps (checks : List RateCheck) (clientKey : String) :
    Sorted (limiter.after checks).clients ∧ (limiter.after checks).window = limiter.window ∧
      (limiter.after checks).maxRequests = limiter.maxRequests ∧
      (limiter.after checks).recorded clientKey <:+
        limiter.recorded clientKey ++ allowedTimes clientKey (limiter.serve checks) := by
  induction checks generalizing limiter with
  | nil => exact ⟨sorted, rfl, rfl, (append_nil _).symm ▸ suffix_rfl⟩
  | cons request rest ih =>
    obtain ⟨restSorted, window, maxRequests, kept⟩ := ih (clients_check_sorted sorted)
    refine ⟨restSorted, window.trans check_limits.1, maxRequests.trans check_limits.2.1, ?_⟩
    rw [allowedTimes_serve_cons, ← List.append_assoc]
    refine kept.trans (suffix_append_self_iff.mpr ?_)
    rw [recorded_check, granted]
    split
    · simp only [‹clientKey = _›, and_true]
      exact suffix_append_self_iff.mpr (counted_suffix sorted)
    · simp only [‹¬clientKey = _›, and_false, if_false, append_nil]
      exact recorded_makeRoom_suffix sorted clientKey

end

theorem Bounded.check (bounded : Bounded limiter clock) (later : clock ≤ request.now) :
    Bounded (limiter.check request).2 request.now := by
  have own : limiter.counted request <:+ _ := counted_suffix bounded.sorted
  have other := @recorded_makeRoom_suffix limiter request bounded.sorted
  refine ⟨clients_check_sorted bounded.sorted, ?_, ?_, ?_⟩
  · rw [check_limits.2.1]
    exact bounded.positive
  · intro clientKey time member
    rw [recorded_check] at member
    split at member
    · rcases mem_append.mp member with earlier | last
      · exact (bounded.past _ time (own.subset earlier)).trans later
      · split at last
        · exact (mem_singleton.mp last).le
        · cases last
    · exact (bounded.past _ time ((other clientKey).subset member)).trans later
  · intro clientKey
    rw [recorded_check, check_limits.2.1]
    split
    · split
      · rw [length_append]
        exact allowed_check.mp ‹_›
      · rw [append_nil]
        exact own.length_le.trans (bounded.length_le _)
    · exact (other clientKey).length_le.trans (bounded.length_le _)

theorem Bounded.after (bounded : Bounded limiter clock) (checks : List RateCheck)
    (ordered : (checks ++ [request]).Pairwise (fun earlier later => earlier.now ≤ later.now))
    (later : ∀ check ∈ checks ++ [request], clock ≤ check.now) :
    Bounded (limiter.after checks) request.now := by
  induction checks generalizing limiter clock with
  | nil =>
    have past := bounded.past
    exact { bounded with
      past := fun _ _ member => (past _ _ member).trans (later request mem_cons_self) }
  | cons first rest ih =>
    obtain ⟨before, restOrdered⟩ := pairwise_cons.mp ordered
    exact ih (bounded.check (later first mem_cons_self)) restOrdered before

/-- A refused client is allowed again as soon as its oldest request that counts, as many from the
last as the limit says, is out of the window. -/
theorem allowed_of_refused (bounded : Bounded limiter request.now)
    (refused : (limiter.check request).1.allowed = false) :
    ∃ oldest ≤ request.now, limiter.window ≤ request.now ∧
      (∃ rest, oldest :: rest <:+ limiter.recorded request.clientKey ∧
        (oldest :: rest).length = limiter.maxRequests) ∧
      (limiter.check request).1.retryAfter =
        max (limiter.window - (request.now - oldest)) second ∧
      ∀ next rank, request.now ≤ next →
        (((limiter.check request).2.check ⟨request.clientKey, next, rank⟩).1.allowed = true ↔
          oldest + limiter.window ≤ next) := by
  have kept : limiter.counted request = _ := counted_eq_pruneWindow bounded.sorted
  have inside : limiter.counted request <:+ _ := counted_suffix bounded.sorted
  have positive := bounded.positive
  have full := mt allowed_check.mpr (Bool.eq_false_iff.mp refused)
  cases isCounted : limiter.counted request with
  | nil =>
    rw [isCounted, length_nil] at full
    omega
  | cons oldest rest =>
    rw [isCounted, length_cons] at full
    rw [isCounted] at inside
    have past := bounded.past _ oldest (inside.subset mem_cons_self)
    have short := inside.length_le.trans (bounded.length_le _)
    rw [length_cons] at short
    -- The oldest request that counts is not out of the window.
    have young : limiter.windowStart request.now < oldest := by
      have stopped := head?_dropWhile_not
        (fun instant => decide (instant ≤ limiter.windowStart request.now))
        (limiter.recorded request.clientKey)
      rw [← pruneWindow, ← kept, isCounted] at stopped
      simpa using stopped
    have reaches : limiter.window ≤ request.now := by
      by_contra early
      rw [windowStart, checkedSub, if_neg early] at young
      exact absurd past (not_le.mpr young)
    refine ⟨oldest, past, reaches, ⟨rest, inside, by rw [length_cons]; omega⟩, ?_, ?_⟩
    · rw [counted] at isCounted
      simp only [HttpRateLimiter.check, isCounted, length_cons, if_pos (not_lt.mp full),
        retryAfter, head?_cons, Option.map_some, Option.getD_some]
    · intro next rank later
      rw [allowed_check, counted_eq_pruneWindow (clients_check_sorted bounded.sorted),
        recorded_check, if_pos rfl, refused, if_neg (by simp), append_nil, isCounted,
        windowStart, check_limits.1, check_limits.2.1, checkedSub, if_pos (reaches.trans later),
        Option.getD_some, pruneWindow, dropWhile_cons]
      dsimp only
      have fewer := (dropWhile_sublist
        (fun instant => decide (instant ≤ next - limiter.window)) (l := rest)).length_le
      by_cases gone : oldest + limiter.window ≤ next
      · rw [if_pos (decide_eq_true (by omega))]
        omega
      · rw [if_neg (by simp; omega), length_cons]
        omega

/-- A refused client is allowed again after the advertised seconds exactly if its oldest request
that counts leaves the window within a second or after a whole number of seconds. -/
theorem retryAfter_sufficient_iff (window maxRequests : Nat) (checks : List RateCheck)
    (request : RateCheck) (rank : String → Nat)
    (ordered : (checks ++ [request]).Pairwise (fun earlier later => earlier.now ≤ later.now))
    (refused : (((new window maxRequests).after checks).check request).1.allowed = false) :
    let limiter := new window maxRequests
    let answered := (limiter.after checks).check request
    let allowed := allowedTimes request.clientKey (limiter.serve checks)
    ∃ oldest, allowed[allowed.length - limiter.maxRequests]? = some oldest ∧
      ((answered.2.check ⟨request.clientKey, request.now + retryAfterSecs answered.1 * second,
          rank⟩).1.allowed = true ↔
        oldest + limiter.window ≤ request.now + second ∨
          second ∣ oldest + limiter.window - request.now) := by
  intro limiter answered allowed
  have start : Bounded limiter 0 :=
    ⟨sorted_nil, Nat.le_max_right _ _, nofun, fun _ => Nat.zero_le _⟩
  obtain ⟨_, sameWindow, sameLimit, recorded⟩ :=
    @after_keeps limiter sorted_nil checks request.clientKey
  obtain ⟨oldest, past, reaches, ⟨rest, last, full⟩, wait, next⟩ := allowed_of_refused
    (start.after checks ordered (fun _ _ => Nat.zero_le _)) refused
  rw [sameWindow] at reaches wait
  simp only [sameWindow] at next
  refine ⟨oldest, ?_, (next _ rank (Nat.le_add_right _ _)).trans ?_⟩
  · obtain ⟨front, isAllowed⟩ := last.trans recorded
    change front ++ oldest :: rest = allowed at isAllowed
    rw [← sameLimit, ← full, ← isAllowed, length_append, Nat.add_sub_cancel, getElem?_append_right
      le_rfl, Nat.sub_self]
    rfl
  · change answered.1.retryAfter = _ at wait
    rw [Nat.dvd_iff_mod_eq_zero, retryAfterSecs]
    simp only [second] at wait ⊢
    omega

end RetryAfter

def loneRequest (now : Nat) : RateCheck := ⟨"client", now, fun _ => 0⟩

/-- The second of two requests at one instant has to wait for a minute. -/
theorem retryAfter_sufficient_wholeWindow :
    let limiter := (new (60 * second) 1).after [loneRequest (100 * second)]
    let answered := limiter.check (loneRequest (100 * second))
    answered.1.allowed = false ∧
      (answered.2.check (loneRequest (160 * second))).1.allowed = true := by
  refine ⟨by decide, ?_⟩
  obtain ⟨oldest, isOldest, again⟩ := retryAfter_sufficient_iff (60 * second) 1
    [loneRequest (100 * second)] (loneRequest (100 * second)) (fun _ => 0) (by decide) (by decide)
  cases isOldest
  exact again.mpr (.inr ⟨60, by decide⟩)

/-- Half a second later it has to wait for 59.5 seconds, and returns after 59. -/
theorem retryAfter_refusedAgain :
    let limiter := (new (60 * second) 1).after [loneRequest (100 * second)]
    let answered := limiter.check (loneRequest (100 * second + 500 * millisecond))
    answered.1.allowed = false ∧ retryAfterSecs answered.1 = 59 ∧
      (answered.2.check (loneRequest (159 * second + 500 * millisecond))).1.allowed = false := by
  decide

/-! ### Refusals have a cause -/

theorem lt_of_mem_pruneWindow {requests : List Nat} (ordered : requests.Pairwise (· ≤ ·))
    {start time : Nat} (member : time ∈ pruneWindow requests start) : start < time := by
  induction requests with
  | nil => cases member
  | cons oldest rest ih =>
    rw [pruneWindow, dropWhile_cons] at member
    split at member
    · exact ih ordered.of_cons member
    · have later := (pairwise_cons.mp ordered).1
      grind

theorem map_fst_serve (limiter : HttpRateLimiter) (checks : List RateCheck) :
    (limiter.serve checks).map Prod.fst = checks := by
  induction checks generalizing limiter with
  | nil => rfl
  | cons request rest ih => rw [serve, map_cons, ih]

/-- Nobody is refused for what others do: whoever is refused was allowed as often as the limit says
in the window that ends with the refusal. -/
theorem allowed_before_refused (window maxRequests : Nat) (checks : List RateCheck)
    (request : RateCheck)
    (ordered : checks.Pairwise (fun earlier later => earlier.now ≤ later.now))
    (refused : (((new window maxRequests).after checks).check request).1.allowed = false) :
    let limiter := new window maxRequests
    limiter.maxRequests ≤ (allowedTimes request.clientKey (limiter.serve checks)).countP
      (fun time => request.now < time + limiter.window) := by
  intro limiter
  obtain ⟨sorted, sameWindow, sameLimit, recorded⟩ :=
    @after_keeps limiter sorted_nil checks request.clientKey
  rw [← map_fst_serve limiter checks, pairwise_map] at ordered
  have times := (pairwise_map.mpr (ordered.sublist filter_sublist)).sublist recorded.sublist
  have full := mt allowed_check.mpr (Bool.eq_false_iff.mp refused)
  rw [not_lt, sameLimit] at full
  refine full.trans ?_
  rw [← countP_eq_length.mpr]
  · exact ((counted_suffix sorted).trans recorded).sublist.countP_le
  · intro time member
    rw [counted_eq_pruneWindow sorted] at member
    have young := lt_of_mem_pruneWindow times member
    rw [windowStart, sameWindow, checkedSub] at young
    apply decide_eq_true
    split at young <;> simp only [Option.getD_some, Option.getD_none] at young <;> omega

/-- The second of two requests is refused for the first. -/
theorem allowed_before_refused_second :
    1 ≤ (allowedTimes "client" ((new second 1).serve [loneRequest second])).countP
      (fun time => second < time + second) :=
  allowed_before_refused second 1 [loneRequest second] (loneRequest second) (by decide) (by decide)

end HttpRateLimiter

end Mcpace.Dashboard

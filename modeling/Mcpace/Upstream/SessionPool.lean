import Mcpace.Library.Groups
import Mcpace.Library.Interleaving

/-!
Owns the pool of upstream sessions: `checkout`, the drops of a checkout and of the
initialization guard, `purge_idle_and_exited` and capacity eviction of
`src/upstream/session_pool.rs`.

A section under the pool-state mutex is one step. Everything else is one step per atomic
load or store, so that other threads act between a flag and the removal that depends on it.
A worker is named by the number of its creation, which stands for the identity of its `Arc`.

Does not own: what a session does while it is checked out, and how long a checkout waits.
-/

namespace Mcpace.Upstream.SessionPool

open Library Interleaving

/-! ### State -/

/-- A worker; its session is known by the process id of its child. -/
structure Worker where
  session : Option Nat
  busy : Bool
  initialized : Bool
  lastUsedMs : Nat
  idleTtlMs : Nat
deriving DecidableEq, Repr

def Worker.reserved (idleTtlMs nowMs : Nat) : Worker where
  session := none
  busy := true
  initialized := false
  lastUsedMs := nowMs
  idleTtlMs := max idleTtlMs 1

/-- The registered workers by key, and every worker ever created. -/
structure Pool (κ : Type*) where
  groups : List (κ × List Nat)
  worker : Nat → Worker
  nextWorker : Nat

/-- The limits that hold throughout: `max_sessions`, and the worker limit every checkout of a
key passes. -/
structure Settings (κ : Type*) where
  maxSessions : Nat
  workerLimit : κ → Nat

namespace Settings

variable {κ : Type*} (settings : Settings κ)

def capacity : Nat := max settings.maxSessions 1

def limit (key : κ) : Nat := max (settings.workerLimit key) 1

end Settings

/-- What `checkout` is called with. -/
structure Invocation (κ : Type*) where
  key : κ
  idleTtlMs : Nat
deriving DecidableEq, Repr

/-- What trying the session lock of a worker gives. -/
inductive SessionProbe where
  | wouldBlock
  | poisoned
  | opened (exited : Bool)
deriving DecidableEq, Repr

def SessionProbe.exitedOrMissing (session : Option Nat) : SessionProbe → Bool
  | .wouldBlock => false
  | .poisoned => true
  | .opened exited => if session.isSome then exited else true

/-- The next load in the judgement of a candidate. -/
inductive Reading where
  | busy
  | lastUsed
  | idleTtl (lastUsedMs : Nat)
  | session (idle : Bool)
deriving DecidableEq, Repr

/-- Where a thread is. A purge goes on to the checkout it was made for, if any. -/
inductive Phase (κ : Type*) where
  | resting
  | collecting (nowMs : Nat) (next : Option (Invocation κ))
  | judging (nowMs : Nat) (candidates stale : List Nat) (reading : Reading)
      (next : Option (Invocation κ))
  | choosing (call : Invocation κ)
  | waiting (call : Invocation κ)
  | initializing (key : κ) (worker : Nat)
  | publishing (key : κ) (worker : Nat)
  | held (key : κ) (worker : Nat)
  | returning (key : κ) (worker : Nat)
  | clearing (key : κ) (worker : Nat)
  | unregistering (key : κ) (worker : Nat)
  | freeing (worker : Nat)
deriving DecidableEq, Repr

inductive Event (κ : Type*) where
  | purge (nowMs : Nat)
  | checkout (call : Invocation κ) (nowMs : Nat)
  | collect
  | load (probe : SessionProbe)
  | remove
  | leaseLost
  | select (nowMs : Nat)
  | timeOut
  | wake (nowMs : Nat)
  | initializationFails
  | storeSession (child : Nat)
  | publish
  | drop (failed : Bool) (nowMs : Nat)
  | giveBack
  | clear
  | unregister
  | free
deriving DecidableEq, Repr

namespace Pool

variable {κ : Type*}

def update (pool : Pool κ) (worker : Nat) (change : Worker → Worker) : Pool κ :=
  { pool with worker := Function.update pool.worker worker (change (pool.worker worker)) }

@[simp] theorem groups_update (pool : Pool κ) (worker : Nat) (change : Worker → Worker) :
    (pool.update worker change).groups = pool.groups := rfl

@[simp] theorem nextWorker_update (pool : Pool κ) (worker : Nat) (change : Worker → Worker) :
    (pool.update worker change).nextWorker = pool.nextWorker := rfl

@[simp] theorem worker_update_self (pool : Pool κ) (worker : Nat) (change : Worker → Worker) :
    (pool.update worker change).worker worker = change (pool.worker worker) :=
  Function.update_self ..

theorem worker_update_of_ne {worker other : Nat} (different : other ≠ worker) (pool : Pool κ)
    (change : Worker → Worker) :
    (pool.update worker change).worker other = pool.worker other :=
  Function.update_of_ne different ..

theorem update_id (pool : Pool κ) (worker : Nat) : pool.update worker id = pool := by
  rw [update, id, Function.update_eq_self]

variable [LinearOrder κ]

/-- The first of the group's workers, up to the limit, that is not busy. -/
def idleWorker (pool : Pool κ) (key : κ) (limit : Nat) : Option Nat :=
  ((Groups.group key pool.groups).take limit).find? (fun worker => !(pool.worker worker).busy)

/-- The workers that are not busy, with their place and the time they were last used. -/
def idleWorkers (pool : Pool κ) : List (κ × Nat × Nat) :=
  pool.groups.flatMap (fun entry => entry.2.zipIdx.filterMap (fun place =>
    if (pool.worker place.1).busy then none
    else some (entry.1, place.2, (pool.worker place.1).lastUsedMs)))

/-- The idle worker that was used least recently, the first of them among equals. -/
def removeOldestIdleWorker (pool : Pool κ) : Option (Pool κ) :=
  (pool.idleWorkers.argmin (fun place => place.2.2)).map (fun place =>
    { pool with groups := Groups.eraseIdx place.1 place.2.1 pool.groups })

/-- `remove_worker`. -/
def removeWorker (pool : Pool κ) (key : κ) (worker : Nat) : Pool κ :=
  { pool with groups := Groups.erase key worker pool.groups }

/-- `remove_workers`: the candidates that are not busy at the time of the removal. -/
def removeWorkers (pool : Pool κ) (candidates : List Nat) : Pool κ :=
  let keep := fun worker => !(candidates.contains worker && !(pool.worker worker).busy)
  { pool with groups := Groups.filterItems keep pool.groups }

end Pool

/-! ### Steps -/

section Steps

variable {κ : Type*} [LinearOrder κ] (settings : Settings κ)

/-- What the thread does after a purge. -/
def afterPurge : Option (Invocation κ) → Phase κ
  | none => .resting
  | some call => .choosing call

/-- The locked section of one pass of `checkout`. -/
def selectWorker (pool : Pool κ) (call : Invocation κ) (nowMs : Nat) : Phase κ × Pool κ :=
  let idleTtlMs := max call.idleTtlMs 1
  match pool.idleWorker call.key (settings.limit call.key) with
  | some worker =>
    (if (pool.worker worker).initialized then .held call.key worker
      else .initializing call.key worker,
      pool.update worker (fun taken => { taken with busy := true, idleTtlMs := idleTtlMs }))
  | none =>
    if (Groups.group call.key pool.groups).length < settings.limit call.key ∧
        Groups.total pool.groups < settings.capacity then
      (.initializing call.key pool.nextWorker,
        { groups := Groups.push call.key pool.nextWorker pool.groups
          worker := Function.update pool.worker pool.nextWorker
            (Worker.reserved idleTtlMs nowMs)
          nextWorker := pool.nextWorker + 1 })
    else if Groups.total pool.groups ≥ settings.capacity then
      match pool.removeOldestIdleWorker with
      | some evicted => (.choosing call, evicted)
      | none => (.waiting call, pool)
    else (.waiting call, pool)

/-- One load in the judgement of a candidate. -/
def judge (worker : Worker) (nowMs candidate : Nat) (candidates stale : List Nat)
    (next : Option (Invocation κ)) (probe : SessionProbe) : Reading → Phase κ
  | .busy =>
    if worker.busy then .judging nowMs candidates stale .busy next
    else .judging nowMs (candidate :: candidates) stale .lastUsed next
  | .lastUsed => .judging nowMs (candidate :: candidates) stale (.idleTtl worker.lastUsedMs) next
  | .idleTtl lastUsedMs =>
    .judging nowMs (candidate :: candidates) stale
      (.session (decide (nowMs - lastUsedMs > worker.idleTtlMs))) next
  | .session idle =>
    .judging nowMs candidates
      (if idle || probe.exitedOrMissing worker.session then stale ++ [candidate] else stale)
      .busy next

def advance (pool : Pool κ) : Phase κ → Event κ → Option (Phase κ × Pool κ)
  | .resting, .purge nowMs => some (.collecting nowMs none, pool)
  | .resting, .checkout call nowMs => some (.collecting nowMs (some call), pool)
  | .collecting nowMs next, .collect =>
    some (.judging nowMs (pool.groups.flatMap Prod.snd) [] .busy next, pool)
  | .judging nowMs (candidate :: candidates) stale reading next, .load probe =>
    some (judge (pool.worker candidate) nowMs candidate candidates stale next probe reading, pool)
  | .judging _ [] stale _ next, .remove => some (afterPurge next, pool.removeWorkers stale)
  | .choosing _, .leaseLost => some (.resting, pool)
  | .choosing call, .select nowMs => some (selectWorker settings pool call nowMs)
  | .waiting _, .timeOut => some (.resting, pool)
  | .waiting call, .wake nowMs => some (.collecting nowMs (some call), pool)
  | .initializing key worker, .initializationFails => some (.clearing key worker, pool)
  | .initializing key worker, .storeSession child =>
    some (.publishing key worker,
      pool.update worker (fun current => { current with session := some child }))
  | .publishing key worker, .publish =>
    some (.held key worker,
      pool.update worker (fun current => { current with initialized := true }))
  | .held key worker, .drop failed nowMs =>
    some (if failed then .clearing key worker else .returning key worker,
      pool.update worker (fun current => { current with lastUsedMs := nowMs }))
  | .returning _ worker, .giveBack =>
    some (.resting, pool.update worker (fun current => { current with busy := false }))
  | .clearing key worker, .clear =>
    some (.unregistering key worker,
      pool.update worker (fun current => { current with initialized := false }))
  | .unregistering key worker, .unregister =>
    some (.freeing worker, pool.removeWorker key worker)
  | .freeing worker, .free =>
    some (.resting, pool.update worker (fun current => { current with busy := false }))
  | _, _ => none

end Steps

end Mcpace.Upstream.SessionPool

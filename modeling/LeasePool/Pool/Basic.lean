import LeasePool.Pool.Call

/-!
# Pools

The state of a pool between two steps of its calls. Every call in progress is in
exactly one place: it holds the lock, it is queued for the lock, it sleeps, it
has been roused from its sleep, or it runs an errand.
-/

namespace LeasePool

/-- The state of a pool. -/
structure Pool where
  id : PoolId
  books : Books
  generations : Generations
  /-- The number of the next connection. -/
  nextConnection : ConnectionId
  /-- The number of the next call. -/
  nextCall : CallId
  /-- How many callers are counted as waiting for a connection. -/
  waiting : Nat
  /-- The call that holds the lock, with its work. -/
  holder : Option (CallId × Work)
  /-- The calls that want the lock, in the order in which they get it. -/
  queue : List (CallId × Intent)
  /-- The callers that sleep, in the order in which they fell asleep. -/
  sleepers : List Sleeper
  /-- The callers that have been roused but have not yet asked for the lock. -/
  roused : List Sleeper
  /-- The errands that are run without the lock. -/
  errands : List (CallId × Errand)

namespace Pool

/-- A new pool. -/
def opened (id : PoolId) (source : DataSource) (policy : Policy) : Pool where
  id := id
  books := .opened policy source
  generations := .initial
  nextConnection := 1
  nextCall := 0
  waiting := 0
  holder := none
  queue := []
  sleepers := []
  roused := []
  errands := []

/-- Whether some call holds the lock. -/
def isLocked (p : Pool) : Bool := p.holder.isSome

/-- The statistics of a pool. -/
def snapshot (p : Pool) : Snapshot := p.books.snapshot p.waiting

/-- The inspection text of a pool. -/
def inspection (p : Pool) : String :=
  "ConnectionPool \x7b waiting: " ++ toString p.waiting ++ ", .. \x7d"

/-- What a call in progress waits for. -/
def awaited? (p : Pool) (id : CallId) : Option Awaited :=
  match p.holder with
  | some (holder, work) => if holder = id then some (work.awaited p.books.source) else elsewhere
  | none => elsewhere
where
  /-- What a call that does not hold the lock waits for. -/
  elsewhere : Option Awaited :=
    if p.queue.any fun q => q.1 == id then some .lock
    else
      match p.sleepers.find? fun s => s.id == id with
      | some s => some (.wakeUp s.limit)
      | none =>
        if p.roused.any fun s => s.id == id then some .turn
        else (p.errands.lookup id).map Errand.awaited

end Pool

end LeasePool

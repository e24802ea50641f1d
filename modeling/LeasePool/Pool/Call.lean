import LeasePool.Pool.Acquisition
import LeasePool.Pool.Checkup
import LeasePool.Pool.Reset

/-!
# Calls

What callers ask of a pool, and what a call in progress is doing. All changes
of the books happen under the lock of the pool, so a call first has an
*intent*, with which it queues for the lock, and then some *work*, which it
does while it holds the lock and waits for physical connections. A caller that
finds no connection gives the lock back and *sleeps*. An *errand* is a request
to a physical connection that needs no lock.
-/

namespace LeasePool

/-- The number of a call among the calls of its pool. -/
abbrev CallId := Nat

/-- An operation that is done as soon as the lock is held. -/
inductive Inquiry where
  | policy
  | source
  | snapshot
  /-- The tolerance for bad connections is changed. -/
  | tolerate (n : UInt64)

/-- What a caller asks of a pool. -/
inductive Op where
  /-- A connection, within a time if one is given. -/
  | acquire (login : Login) (timeout : Option Duration)
  /-- That a handle is taken back. -/
  | release (h : Handle)
  | reset (r : Reset)
  | inquire (q : Inquiry)
  /-- That the connection of a handle answers a query. -/
  | probe (h : Handle) (query : String)
  /-- That the connection of a handle undoes uncommitted work. -/
  | rollback (h : Handle)

/-- What changes one part of the policy. Only the tolerance for bad connections is
    changed without a reset. -/
def Op.configure : Policy.Change → Op
  | .badConnectionTolerance n => .inquire (.tolerate n)
  | change => .reset (.configure change)

/-- What a call is going to do as soon as it holds the lock. -/
inductive Intent where
  /-- To look for a connection. -/
  | acquire (a : Acquisition)
  /-- To look again, after it has slept. -/
  | awaken (a : Acquisition) (asleepSince : Instant)
  | release (h : Handle)
  | reset (r : Reset)
  | inquire (q : Inquiry)

/-- What the call that holds the lock is doing. -/
inductive Work where
  /-- It has not begun yet. -/
  | begin (intent : Intent)
  /-- It opens a connection, having looked at the books at the given time. -/
  | connect (a : Acquisition) (lookedAt : Instant)
  /-- It rolls back a connection whose lease it has taken away. -/
  | reclaim (a : Acquisition) (e : Entry) (lookedAt : Instant)
  /-- It tests its candidate. -/
  | examine (a : Acquisition) (e : Entry) (p : Checkup)
  /-- It rolls back its candidate before handing it out. -/
  | prepare (a : Acquisition) (e : Entry)
  /-- It closes a candidate that it has rejected. -/
  | discard (a : Acquisition) (e : Entry)
  /-- It rolls back a connection that was returned at the given time, to keep
      it or to close it. -/
  | undo (e : Entry) (keep : Bool) (returnedAt : Instant)
  /-- It closes a connection that was returned, because it is not to be kept or
      because of an error. -/
  | close (e : Entry) (cause : Option PoolError)
  /-- It rolls back one of the connections that a reset closes, with the others
      still to come. -/
  | resetUndo (e : Entry) (rest : List Entry)
  /-- It closes one of the connections that a reset closes, with the others
      still to come. -/
  | resetClose (e : Entry) (rest : List Entry)

/-- A caller that sleeps until a connection is returned. -/
structure Sleeper where
  id : CallId
  acquisition : Acquisition
  asleepSince : Instant
  /-- How long it sleeps at most. -/
  limit : Option Duration

/-- A request to a physical connection that needs no lock. -/
inductive Errand where
  /-- The caller of a handle waits for the request. -/
  | ofHandle (request : Request)
  /-- Nobody waits for the connection to be closed. -/
  | discard (physical : Physical) (begun : Bool)

/-- How a call ends. -/
inductive Outcome where
  /-- A connection is handed out. -/
  | leased (h : Handle)
  | done
  | failed (e : PoolError)
  | policy (p : Policy)
  | source (s : DataSource)
  | snapshot (s : Snapshot)

/-- What a call in progress learns. -/
inductive Signal where
  /-- It is its turn. -/
  | proceed
  /-- The factory has answered. -/
  | connected (result : Except PoolError Physical)
  /-- The connection has answered. -/
  | answered (result : Except PoolError Unit)
  /-- It has slept as long as it wanted to. -/
  | timeUp

/-- What a call in progress waits for. -/
inductive Awaited where
  /-- For nothing but its turn. -/
  | turn
  /-- For the lock. -/
  | lock
  /-- For an answer. -/
  | answer (request : Request)
  /-- For a connection to be returned, but not for longer than the limit. -/
  | wakeUp (limit : Option Duration)

/-- The request on which work waits. -/
def Work.awaited (source : DataSource) : Work → Awaited
  | .begin _ => .turn
  | .connect _ _ => .answer (.connect source)
  | .reclaim _ e _ => .answer (.rollback e.physical)
  | .examine _ _ p => .answer p.request
  | .prepare _ e => .answer (.rollback e.physical)
  | .discard _ e => .answer (.close e.physical)
  | .undo e _ _ => .answer (.rollback e.physical)
  | .close e _ => .answer (.close e.physical)
  | .resetUndo e _ => .answer (.rollback e.physical)
  | .resetClose e _ => .answer (.close e.physical)

/-- The request on which an errand waits. -/
def Errand.awaited : Errand → Awaited
  | .ofHandle request => .answer request
  | .discard _ false => .turn
  | .discard physical true => .answer (.close physical)

end LeasePool

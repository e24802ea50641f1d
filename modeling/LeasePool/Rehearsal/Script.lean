import LeasePool.Pool.Call
import LeasePool.Rehearsal.Behaviour

/-!
# Scripts and reports

A script is a list of steps. A step calls a pool, lets time pass, or changes the
surroundings of the pools. The report of a step is its reply, the time, what has
happened since the step before, and the statistics of the pool.
-/

namespace LeasePool.Rehearsal

/-- What a step asks of a pool or of a handle. Handles are known by names. -/
inductive Action where
  /-- To acquire a connection and to keep the handle under a name. -/
  | get (name : String) (login : Login) (timeout : Option Duration)
  /-- To return a handle to its own pool. -/
  | close (name : String)
  /-- To return a handle to the pool of the step. -/
  | release (name : String)
  | probe (name query : String)
  | rollback (name : String)
  | inspect (name : String)
  /-- To forget a handle without returning it. -/
  | forget (name : String)
  /-- An operation of the pool of the step that is about no handle. -/
  | call (op : Op)
  /-- The inspection text of the pool. -/
  | inspectPool
  /-- Something that no pool knows. -/
  | unknown

/-- Whether the script waits for an action. -/
inductive Mode where
  /-- It does, and if a number of milliseconds is given, it cancels the action
      after that time. -/
  | foreground (cancelAfter : Option Nat)
  /-- It does not; the action has a name by which it can be cancelled. -/
  | background (name : String)

/-- What a step does. -/
inductive Deed where
  | act (action : Action) (mode : Mode)
  | sleep (ms : Nat)
  /-- The given parts of the factory are replaced. -/
  | factory (fallback : Option Behaviour) (plan : Option (List Behaviour))
  /-- The behaviour of a connection is changed. -/
  | connection (number : Nat) (traits : List Trait)
  | newPool (source : DataSource) (policy : Policy)
  /-- The pool of the step gets one more number. -/
  | clonePool
  /-- A background action is cancelled. -/
  | abort (name : String)

/-- A step of a script. -/
structure Step where
  /-- The number of the pool that the step is about. -/
  pool : Nat
  deed : Deed

/-- What can be seen of a handle. -/
structure Inspection where
  handle : Handle
  isValid : Bool
  isClosed : Except PoolError Bool
  isAutoCommit : Except PoolError Bool
  checkoutTime : Duration
  idleTime : Duration
  text : String

/-- The reply to a step. -/
inductive Reply where
  | done
  | spawned
  | outcome (o : Outcome)
  | inspection (i : Inspection)
  | text (s : String)
  | pool (number : Nat)
  | cancelled
  | noHandle
  | noConnection
  | badRequest
  /-- The script would wait forever. -/
  | stalled

/-- Something that happens in a rehearsal. -/
inductive Event where
  | notice (n : Notice)
  | request (r : Request)
  /-- A background action has ended. -/
  | finished (name : String) (reply : Reply)

/-- The report of a step. -/
structure Report where
  reply : Reply
  /-- The time after the step. -/
  time : Instant
  events : List (Instant × Event)
  /-- The statistics of the pool, unless it is locked. -/
  snapshot : Option Snapshot

end LeasePool.Rehearsal

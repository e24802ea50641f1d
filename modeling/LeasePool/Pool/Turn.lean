import LeasePool.Pool.Basic

/-!
# Turns

A step of a call is a *turn*: it changes the pool, tells the log about it, and
makes other calls runnable, in this order among themselves. A turn is put
together from the few changes that are defined here.
-/

namespace LeasePool

/-- What a step of a call brings about. -/
structure Turn where
  /-- The pool after the step. -/
  pool : Pool
  /-- What the log is told. -/
  notices : List Notice := []
  /-- The calls that became runnable. -/
  woken : List CallId := []
  /-- How the call ended, if it did. -/
  outcome : Option Outcome := none

/-- The turn that has not done anything yet. -/
def Pool.turn (p : Pool) : Turn := { pool := p }

namespace Turn

variable (t : Turn)

/-- The log is told. -/
def tell (n : Notice) : Turn := { t with notices := t.notices ++ [n] }

/-- The log is told several things. -/
def tellAll (ns : List Notice) : Turn := { t with notices := t.notices ++ ns }

/-- The books are changed. -/
def setBooks (b : Books) : Turn := { t with pool := { t.pool with books := b } }

/-- A connection enters its next generation, so that all its handles become
    invalid. -/
def advance (id : ConnectionId) : Turn :=
  { t with pool := { t.pool with generations := t.pool.generations.advance id } }

/-- The call holds the lock and goes on with some work. -/
def work (id : CallId) (w : Work) : Turn :=
  { t with pool := { t.pool with holder := some (id, w) } }

/-- The lock is given to the first call in the queue, which becomes runnable. -/
def unlock : Turn :=
  match t.pool.queue with
  | [] => { t with pool := { t.pool with holder := none } }
  | (id, intent) :: queue =>
    { t with
      pool := { t.pool with holder := some (id, .begin intent), queue := queue }
      woken := t.woken ++ [id] }

/-- The call gets the lock if it is free, and queues for it otherwise. -/
def lock (id : CallId) (intent : Intent) : Turn :=
  match t.pool.holder with
  | none => t.work id (.begin intent)
  | some _ => { t with pool := { t.pool with queue := t.pool.queue ++ [(id, intent)] } }

/-- All sleeping callers are roused. -/
def wakeSleepers : Turn :=
  { t with
    pool := { t.pool with sleepers := [], roused := t.pool.roused ++ t.pool.sleepers }
    woken := t.woken ++ t.pool.sleepers.map Sleeper.id }

/-- A caller falls asleep and counts as waiting from then on. -/
def sleep (s : Sleeper) : Turn :=
  { t with pool := { t.pool with
      sleepers := t.pool.sleepers ++ [s], waiting := t.pool.waiting + 1 } }

/-- One caller counts as waiting no longer. -/
def stopWaiting : Turn := { t with pool := { t.pool with waiting := t.pool.waiting - 1 } }

/-- An errand of a call begins or goes on. -/
def errand (id : CallId) (e : Errand) : Turn :=
  { t with pool := { t.pool with
      errands := (t.pool.errands.filter fun q => q.1 != id) ++ [(id, e)] } }

/-- A new call is going to close a connection that nobody waits for. It is assumed
    that there is a runtime for it. -/
def discardLater (physical : Physical) : Turn :=
  { t with
    pool := { t.pool with
      nextCall := t.pool.nextCall + 1
      errands := t.pool.errands ++ [(t.pool.nextCall, .discard physical false)] }
    woken := t.woken ++ [t.pool.nextCall] }

/-- The call ends. -/
def finish (o : Outcome) : Turn := { t with outcome := some o }

end Turn

end LeasePool

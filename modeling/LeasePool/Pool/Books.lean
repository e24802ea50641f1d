import LeasePool.Policy
import LeasePool.Pool.Entry
import LeasePool.Snapshot

/-!
# The books of a pool

Everything that a pool changes under its lock: its policy and data source, the
idle connections with the longest unused one in front, the leased connections
with the oldest lease in front, and what it counts and times.

An operation that may find nothing returns an option, and the books after it.
-/

namespace LeasePool

/-- What a pool counts and times during its life. -/
structure Counters where
  /-- The checkouts, and the time they took. -/
  requests : Nat := 0
  requestTime : Duration := .zero
  /-- The acquisitions that found no connection at once, and the time that
      callers slept. -/
  waits : Nat := 0
  waitTime : Duration := .zero
  /-- The time for which connections were checked out. -/
  checkoutTime : Duration := .zero
  /-- The reclaimed leases, and the time for which they had been checked out. -/
  overdue : Nat := 0
  overdueTime : Duration := .zero
  /-- The bad connections that were met. -/
  bad : Nat := 0
  deriving DecidableEq, Inhabited

/-- What a pool changes under its lock. -/
structure Books where
  policy : Policy
  source : DataSource
  /-- The signature that a returned connection must bear to be kept. -/
  expected : Signature
  /-- The idle connections; the front was unused for the longest time. -/
  idle : List Entry
  /-- The leased connections in the order of their checkout. -/
  active : List Entry
  counters : Counters

namespace Books

/-- The books of a new pool. -/
def opened (policy : Policy) (source : DataSource) : Books where
  policy := policy
  source := source
  expected := source.signature
  idle := []
  active := []
  counters := {}

variable (b : Books)

/-- The idle connection that was unused for the longest time. -/
def takeIdle? : Option (Entry × Books) :=
  match b.idle with
  | [] => none
  | e :: rest => some (e, { b with idle := rest })

/-- Whether one more connection may be checked out. -/
def canOpen : Bool := b.active.length < b.policy.maxActive.toNat

/-- Whether one more idle connection may be kept. -/
def hasIdleCapacity : Bool := b.idle.length < b.policy.maxIdle.toNat

/-- The oldest lease, if it has been held for too long. Leases are compared by
    their position, not by their times. -/
def claimOverdue? (now : Instant) : Option (Entry × Books) :=
  match b.active with
  | [] => none
  | e :: rest =>
    let held := e.checkoutTime now
    if held ≤ b.policy.maxCheckout then none
    else some (e, { b with
      active := rest
      counters := { b.counters with
        overdue := b.counters.overdue + 1
        overdueTime := b.counters.overdueTime + held
        checkoutTime := b.counters.checkoutTime + held } })

/-- The lease that was issued for a connection in a generation. -/
def removeActive? (id : ConnectionId) (generation : Nat) : Option (Entry × Books) :=
  match b.active.find? fun e => e.id == id && e.generation == generation with
  | none => none
  | some e =>
    some (e, { b with
      active := b.active.eraseP fun e => e.id == id && e.generation == generation })

/-- The books without their connections. -/
def emptied : Books := { b with idle := [], active := [] }

/-- All connections of the books, leased ones first. -/
def entries : List Entry := b.active ++ b.idle

/-- A connection is kept for reuse. -/
def keep (e : Entry) : Books := { b with idle := b.idle ++ [e] }

/-- A connection is leased by an acquisition that took some time. -/
def lease (e : Entry) (took : Duration) : Books :=
  { b with
    active := b.active ++ [e]
    counters := { b.counters with
      requests := b.counters.requests + 1
      requestTime := b.counters.requestTime + took } }

/-- A bad connection is counted. -/
def countBad : Books := { b with counters := { b.counters with bad := b.counters.bad + 1 } }

/-- An acquisition that has to wait is counted. -/
def countWait : Books := { b with counters := { b.counters with waits := b.counters.waits + 1 } }

/-- The time that a caller has waited is added. -/
def addWaitTime (d : Duration) : Books :=
  { b with counters := { b.counters with waitTime := b.counters.waitTime + d } }

/-- The time that a returned connection was checked out is added. -/
def addCheckoutTime (d : Duration) : Books :=
  { b with counters := { b.counters with checkoutTime := b.counters.checkoutTime + d } }

/-- The statistics of a pool with the given number of waiting callers. -/
def snapshot (waiting : Nat) : Snapshot where
  idle := .ofNat b.idle.length
  active := .ofNat b.active.length
  waiting := .ofNat waiting
  requestCount := .ofNat b.counters.requests
  requestTime := b.counters.requestTime
  hadToWaitCount := .ofNat b.counters.waits
  waitTime := b.counters.waitTime
  checkoutTime := b.counters.checkoutTime
  claimedOverdueCount := .ofNat b.counters.overdue
  overdueCheckoutTime := b.counters.overdueTime
  badConnectionCount := .ofNat b.counters.bad

end Books

end LeasePool

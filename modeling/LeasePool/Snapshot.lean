import LeasePool.Text.Quoted
import LeasePool.Time.Text

/-!
# Statistics of a pool

A snapshot of a pool: how many connections and callers it has at the moment,
and what has been counted and timed since it was made. Counts are words of 64
bits. An average is the quotient of whole nanoseconds, cut to 64 bits.
-/

namespace LeasePool

/-- A snapshot of a pool and its history. -/
structure Snapshot where
  /-- The idle connections. -/
  idle : UInt64 := 0
  /-- The connections that are checked out. -/
  active : UInt64 := 0
  /-- The callers that wait for a connection. -/
  waiting : UInt64 := 0
  /-- The checkouts so far. -/
  requestCount : UInt64 := 0
  /-- The time that all checkouts took. -/
  requestTime : Duration := .zero
  /-- The acquisitions that found the pool exhausted. -/
  hadToWaitCount : UInt64 := 0
  /-- The time that all callers waited. -/
  waitTime : Duration := .zero
  /-- The time for which all connections were checked out. -/
  checkoutTime : Duration := .zero
  /-- The leases that were reclaimed. -/
  claimedOverdueCount : UInt64 := 0
  /-- The time for which reclaimed leases had been checked out. -/
  overdueCheckoutTime : Duration := .zero
  /-- The bad connections that were met. -/
  badConnectionCount : UInt64 := 0
  deriving DecidableEq

namespace Snapshot

variable (s : Snapshot)

/-- All connections of the pool. -/
def total : UInt64 := s.idle + s.active

/-- The time per item: zero without items, and otherwise the quotient in whole
    nanoseconds, of which the low 64 bits are kept. -/
def average (time : Duration) (count : UInt64) : Duration :=
  if count = 0 then .zero else ⟨time.nanos / count.toNat % UInt64.size⟩

/-- The time per checkout. -/
def averageRequestTime : Duration := average s.requestTime s.requestCount

/-- The time that a caller waited, among those that had to. -/
def averageWaitTime : Duration := average s.waitTime s.hadToWaitCount

/-- The time per checkout for which a connection was checked out. -/
def averageCheckoutTime : Duration := average s.checkoutTime s.requestCount

/-- The time for which a reclaimed lease had been checked out. -/
def averageOverdueCheckoutTime : Duration := average s.overdueCheckoutTime s.claimedOverdueCount

/-- The part of all connections that is checked out, zero when there are none. -/
def utilization : Float :=
  if s.total = 0 then 0.0 else s.active.toFloat / s.total.toFloat

/-- The statistics in lines for a user. -/
def report : String :=
  "\n".intercalate
    ["===POOL STATS===",
     " active connections          " ++ toString s.active,
     " idle connections            " ++ toString s.idle,
     " waiting callers             " ++ toString s.waiting,
     " requests                    " ++ toString s.requestCount,
     " average request time        " ++ s.averageRequestTime.text,
     " had to wait                 " ++ toString s.hadToWaitCount,
     " average wait time           " ++ s.averageWaitTime.text,
     " average checkout time       " ++ s.averageCheckoutTime.text,
     " claimed overdue             " ++ toString s.claimedOverdueCount,
     " average overdue checkout    " ++ s.averageOverdueCheckoutTime.text,
     " bad connections             " ++ toString s.badConnectionCount]

/-- The inspection text of the statistics. -/
def inspection : String :=
  Text.record "PoolStats"
    [("idle", toString s.idle),
     ("active", toString s.active),
     ("waiting", toString s.waiting),
     ("request_count", toString s.requestCount),
     ("accumulated_request_time", s.requestTime.text),
     ("had_to_wait_count", toString s.hadToWaitCount),
     ("accumulated_wait_time", s.waitTime.text),
     ("accumulated_checkout_time", s.checkoutTime.text),
     ("claimed_overdue_count", toString s.claimedOverdueCount),
     ("accumulated_overdue_checkout_time", s.overdueCheckoutTime.text),
     ("bad_connection_count", toString s.badConnectionCount)]

end Snapshot

end LeasePool

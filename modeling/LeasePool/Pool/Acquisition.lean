import LeasePool.Pool.Physical

/-!
# Acquisitions

What an acquisition wants and what it has met so far: for whom it is, until when
it may sleep, how many candidates it has rejected and why. An acquisition with a
deadline sleeps only before the deadline, and then no longer than until it.
-/

namespace LeasePool

/-- For whom a connection is handed out. -/
inductive Login where
  /-- For the user of the data source. -/
  | dataSource
  /-- For another user. -/
  | as (username password : String)
  deriving DecidableEq

/-- An acquisition: for whom, until when and since when, and what it has met so
    far. -/
structure Acquisition where
  login : Login
  /-- The moment from which on it does not go to sleep any more. -/
  deadline : Option Instant
  startedAt : Instant
  /-- Whether it is counted among those that had to wait. -/
  hasWaited : Bool := false
  /-- How many candidates it has rejected. -/
  rejected : Nat := 0
  deriving DecidableEq

/-- Why a candidate is rejected. -/
inductive Rejection where
  | invalidated
  | closed
  | checkupFailed (cause : PoolError)
  | rollbackFailed (cause : PoolError)

/-- The error that a rejection amounts to. -/
def Rejection.error : Rejection → PoolError
  | invalidated => .validation "connection was invalidated"
  | closed => .validation "connection is closed"
  | checkupFailed cause => .validation ("ping failed: " ++ cause.message)
  | rollbackFailed cause => .validation ("rollback before checkout failed: " ++ cause.message)

namespace Acquisition

/-- The signature of a connection that is handed out for a data source. -/
def signature (a : Acquisition) (source : DataSource) : Signature :=
  match a.login with
  | .dataSource => source.signature
  | .as username password => Signature.of source.url (some username) (some password)

/-- The time that is left until the deadline, if there is one. -/
def remaining (a : Acquisition) (now : Instant) : Option Duration :=
  a.deadline.map fun deadline => deadline.since now

/-- How long a caller sleeps before it looks again: as long as it waits at most
    and no longer than the time that is left. A zero `maxWait` is no limit. -/
def sleepLimit (maxWait : Duration) (remaining : Option Duration) : Option Duration :=
  if maxWait.isZero then remaining
  else some (match remaining with
    | some r => maxWait.min r
    | none => maxWait)

end Acquisition

end LeasePool

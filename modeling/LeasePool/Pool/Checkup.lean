import LeasePool.Policy
import LeasePool.Pool.Notice

/-!
# Testing a connection

Before an unused connection is handed out, it is seen whether it is closed,
and, when it was unused for long enough, whether it answers the ping query. What
the query left uncommitted is rolled back. If either fails, the connection is
closed. A test never fails itself: it ends with an outcome.

A test that waits for the connection is a value of type `Checkup`; `Checkup.begin`
and `Checkup.resume` say how it goes on.
-/

namespace LeasePool

/-- Where a test stands. -/
inductive Checkup.Phase where
  /-- The query is being answered. -/
  | probing
  /-- What the query left is being rolled back. -/
  | rollingBack
  /-- The connection is being closed, because of an error. -/
  | closing (cause : PoolError)
  deriving DecidableEq

/-- A test that waits for the connection. -/
structure Checkup where
  /-- The connection under test. -/
  physical : Physical
  /-- The query it must answer. -/
  query : String
  /-- When the query was asked. -/
  startedAt : Instant
  phase : Checkup.Phase
  deriving DecidableEq

namespace Checkup

/-- How a test ends. -/
inductive Outcome where
  /-- The connection is open and need not be tested. -/
  | skipped
  /-- The connection has answered within a time. -/
  | alive (latency : Duration)
  /-- The connection is closed. -/
  | closed
  /-- The connection has failed to answer and has been closed. -/
  | failed (cause : PoolError)
  deriving DecidableEq

/-- Whether a connection may be handed out after its test. -/
def Outcome.isUsable : Outcome → Bool
  | skipped | alive _ => true
  | closed | failed _ => false

/-- The inspection text of an outcome. -/
def Outcome.inspection : Outcome → String
  | skipped => "Skipped"
  | alive latency => "Alive(" ++ latency.text ++ ")"
  | closed => "Closed"
  | failed cause => "Failed(" ++ Text.quoted cause.message ++ ")"

/-- What a test does next, after some notices: it ends, or it waits. -/
structure Turn where
  notices : List Notice
  next : Outcome ⊕ Checkup

/-- The request on which a test waits. -/
def request (p : Checkup) : Request :=
  match p.phase with
  | .probing => .probe p.physical p.query
  | .rollingBack => .rollback p.physical
  | .closing _ => .close p.physical

/-- The test of a connection that was unused for a time. -/
def begin (policy : Policy) (physical : Physical) (idleFor : Duration) (m : Moment) : Turn :=
  if m.isClosed physical then ⟨[], .inl .closed⟩
  else if policy.pingDue idleFor then
    ⟨[.testing (idleFor.millis % UInt64.size)], .inr ⟨physical, policy.pingQuery, m.now, .probing⟩⟩
  else ⟨[], .inl .skipped⟩

/-- The test goes on when its request has been answered. -/
def resume (p : Checkup) (result : Except PoolError Unit) (m : Moment) : Turn :=
  match p.phase, result with
  | .closing cause, _ => ⟨[], .inl (.failed cause)⟩
  | _, .error e => ⟨[.checkupFailed p.query e], .inr { p with phase := .closing e }⟩
  | .probing, .ok () =>
    if m.isAutoCommit p.physical then ⟨[], .inl (.alive (m.now.since p.startedAt))⟩
    else ⟨[], .inr { p with phase := .rollingBack }⟩
  | .rollingBack, .ok () => ⟨[], .inl (.alive (m.now.since p.startedAt))⟩

end Checkup

end LeasePool

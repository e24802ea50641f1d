import LeasePool.Pool.Turn

/-!
# Acquiring a connection

An acquisition holds the lock and looks at the books: it takes the idle
connection that was unused for the longest time; without one it opens a
connection, if one more may be checked out; otherwise it takes away the oldest
lease, if that has been held for too long; otherwise it gives the lock back and
sleeps until a connection is returned, and then looks again.

What it has taken is its *candidate*. The candidate is tested and rolled back.
If that fails, the candidate is rejected and closed and the acquisition looks
again, unless it has rejected more candidates than it may.
-/

namespace LeasePool.Turn

variable (t : Turn) (id : CallId) (m : Moment) (a : Acquisition)

/-- The candidate is handed out. -/
def lease (e : Entry) : Turn :=
  let e := { e with
    signature := a.signature t.pool.books.source, checkoutAt := m.now, lastUsedAt := m.now }
  let t := t.setBooks (t.pool.books.lease e (m.now.since a.startedAt))
  t.unlock.finish (.leased { e with pool := t.pool.id })

/-- After a rejection the acquisition looks again, or it gives up. -/
def afterRejection : Turn :=
  if t.pool.books.policy.badConnectionLimit < a.rejected then
    (t.tell .noGoodConnection).unlock.finish (.failed .noGoodConnection)
  else t.work id (.begin (.acquire a))

/-- The candidate is rejected: it becomes invalid and is closed. -/
def reject (e : Entry) (why : Rejection) : Turn :=
  let a := { a with rejected := a.rejected + 1 }
  let t := t.tell (.rejected e.id why.error)
  let t := (t.setBooks t.pool.books.countBad).advance e.id
  if m.isClosed e.physical then t.afterRejection id a else t.work id (.discard a e)

/-- The candidate has passed its test: what is uncommitted is rolled back before
    it is handed out. -/
def prepare (e : Entry) : Turn :=
  if m.isAutoCommit e.physical then t.lease m a e else t.work id (.prepare a e)

/-- The test of the candidate goes on or has ended. -/
def afterCheckup (e : Entry) (checkup : Checkup.Turn) : Turn :=
  let t := t.tellAll checkup.notices
  match checkup.next with
  | .inr p => t.work id (.examine a e p)
  | .inl .closed => t.reject id m a e .closed
  | .inl (.failed cause) => t.reject id m a e (.checkupFailed cause)
  | .inl .skipped => t.prepare id m a e
  | .inl (.alive _) => t.prepare id m a e

/-- A candidate, taken when the books were looked at, is examined. -/
def examine (e : Entry) (lookedAt : Instant) : Turn :=
  if e.isCurrent t.pool.generations then
    t.afterCheckup id m a e (Checkup.begin t.pool.books.policy e.physical (e.idleTime lookedAt) m)
  else t.reject id m a e .invalidated

/-- A connection has been opened and becomes the candidate. -/
def connected (physical : Physical) (lookedAt : Instant) : Turn :=
  let e := Entry.fresh t.pool.nextConnection physical t.pool.books.expected m.now
  let t := { t with pool := { t.pool with nextConnection := t.pool.nextConnection + 1 } }
  (t.tell (.created e.id)).examine id m a e lookedAt

/-- A lease has been taken away and its connection becomes the candidate. -/
def claimed (e : Entry) (lookedAt : Instant) : Turn :=
  let t := t.advance e.id
  (t.tell (.claimedOverdue e.id)).examine id m a (e.renewed t.pool.generations) lookedAt

/-- There is no connection to be had: the caller falls asleep, or it gives up
    because its deadline has passed. -/
def wait : Turn :=
  let t := if a.hasWaited then t else t.setBooks t.pool.books.countWait
  let a := { a with hasWaited := true }
  let remaining := a.remaining m.now
  if remaining.any Duration.isZero then
    t.unlock.finish (.failed (.noConnectionInTime t.pool.books.active.length))
  else
    let limit := Acquisition.sleepLimit t.pool.books.policy.maxWait remaining
    let t := t.tell (.waiting (limit.map Duration.millis))
    (t.sleep ⟨id, a, m.now, limit⟩).unlock

/-- The acquisition looks at the books. -/
def look : Turn :=
  match t.pool.books.takeIdle? with
  | some (e, books) =>
    ((t.setBooks books).tell (.checkedOut e.id)).examine id m a e m.now
  | none =>
    if t.pool.books.canOpen then t.work id (.connect a m.now)
    else
      match t.pool.books.claimOverdue? m.now with
      | some (e, books) =>
        let t := t.setBooks books
        if m.isAutoCommit e.physical then t.claimed id m a e m.now
        else t.work id (.reclaim a e m.now)
      | none => t.wait id m a

/-- The acquisition looks again after it has slept. -/
def awaken (asleepSince : Instant) : Turn :=
  let t := t.stopWaiting
  (t.setBooks (t.pool.books.addWaitTime (m.now.since asleepSince))).look id m a

/-- The rollback of a connection whose lease was taken away has ended. Whether
    it failed shows in the test of the candidate. -/
def afterReclaim (e : Entry) (lookedAt : Instant) (result : Except PoolError Unit) : Turn :=
  match result with
  | .ok () => t.claimed id m a e lookedAt
  | .error cause => (t.tell (.reclaimRollbackFailed e.id cause)).claimed id m a e lookedAt

/-- The rollback of the candidate has ended. -/
def afterPrepare (e : Entry) (result : Except PoolError Unit) : Turn :=
  match result with
  | .ok () => t.lease m a e
  | .error cause => t.reject id m a e (.rollbackFailed cause)

/-- The factory has answered. -/
def afterConnect (lookedAt : Instant) (result : Except PoolError Physical) : Turn :=
  match result with
  | .ok physical => t.connected id m a physical lookedAt
  | .error e => (t.tell (.openFailed e)).unlock.finish (.failed e)

/-- The acquisition is cancelled while it holds a candidate that has not been
    rejected: the candidate becomes invalid and is closed by a call of its
    own. There must be somebody to run that call: it is assumed that calls are
    dropped only while their runtime is still there, as without one the candidate
    would become invalid but would not be closed. -/
def abandon (e : Entry) : Turn :=
  (((t.advance e.id).tell (.acquireCancelled e.id)).discardLater e.physical).unlock

end LeasePool.Turn

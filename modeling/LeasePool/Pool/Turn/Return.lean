import LeasePool.Pool.Turn

/-!
# Returning a connection

A returned connection is rolled back. It is kept, if it was handed out for the
data source as it is now and one more idle connection may be kept; otherwise it
is closed. A handle that is no longer valid, and a connection that is already
closed, are only counted as bad. A connection that cannot be rolled back is
closed, and the caller is told.

All sleeping callers are roused after the lock has been given back.
-/

namespace LeasePool.Turn

variable (t : Turn) (id : CallId) (m : Moment)

/-- The release has taken a lease out of the books and ends. -/
def releaseDone (o : Outcome) : Turn := t.unlock.wakeSleepers.finish o

/-- The handle is not valid any more. -/
def returnStale (h : Handle) : Turn :=
  let t := t.tell (.staleReturned h.id)
  (t.setBooks t.pool.books.countBad).unlock.finish .done

/-- The connection was closed while it was leased. -/
def returnClosed (e : Entry) : Turn :=
  let t := t.tell (.closedReturned e.id)
  ((t.setBooks t.pool.books.countBad).advance e.id).releaseDone .done

/-- The returned connection has been rolled back: it is kept, or closed. -/
def afterUndo (e : Entry) (keep : Bool) (returnedAt : Instant)
    (result : Except PoolError Unit) : Turn :=
  let t := t.advance e.id
  match result with
  | .error cause => t.work id (.close e (some cause))
  | .ok () =>
    if keep then
      let e := { e.renewed t.pool.generations with lastUsedAt := returnedAt }
      ((t.tell (.returned e.id)).setBooks (t.pool.books.keep e)).releaseDone .done
    else t.work id (.close e none)

/-- The returned connection has been closed. -/
def afterClose (e : Entry) (cause : Option PoolError) (result : Except PoolError Unit) : Turn :=
  match cause with
  | some cause =>
    (t.tell (.returnRollbackFailed e.id cause)).releaseDone (.failed (.rollback cause.message))
  | none =>
    let t := match result with
      | .ok () => t
      | .error problem => t.tell (.closeFailed e.id problem)
    (t.tell (.closed e.id)).releaseDone .done

/-- The lease of a handle has been taken out of the books. -/
def returned (e : Entry) : Turn :=
  if m.isClosed e.physical then t.returnClosed e
  else
    let books := t.pool.books.addCheckoutTime (e.checkoutTime m.now)
    let keep := decide (e.signature = books.expected) && books.hasIdleCapacity
    let t := t.setBooks books
    if m.isAutoCommit e.physical then t.afterUndo id e keep m.now (.ok ())
    else t.work id (.undo e keep m.now)

/-- A handle is taken back. -/
def release (h : Handle) : Turn :=
  match t.pool.books.removeActive? h.id h.generation with
  | none => t.returnStale h
  | some (e, books) =>
    let t := t.setBooks books
    if e.isCurrent t.pool.generations then t.returned id m e else t.returnStale h

end LeasePool.Turn

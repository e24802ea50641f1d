import LeasePool.Pool.Turn

/-!
# Resetting a pool

The connections that a reset closes leave the books at once. Then they are rolled
back and closed one after the other, leased ones first, and their errors are
ignored.

All sleeping callers are roused before the lock is given back.
-/

namespace LeasePool.Turn

variable (t : Turn) (id : CallId) (m : Moment)

/-- The connections that are left are closed, each in turn. -/
def closeEach : List Entry → Turn
  | [] => ((t.wakeSleepers).tell .allClosed).unlock.finish .done
  | e :: rest =>
    let t := t.advance e.id
    if m.isAutoCommit e.physical then t.work id (.resetClose e rest)
    else t.work id (.resetUndo e rest)

/-- The books are changed and emptied, and their connections are closed. -/
def reset (r : Reset) : Turn :=
  match r.apply t.pool.books with
  | .error e => t.unlock.finish (.failed e)
  | .ok books =>
    let entries := books.entries
    (t.setBooks { books.emptied with expected := books.source.signature }).closeEach id m entries

end LeasePool.Turn

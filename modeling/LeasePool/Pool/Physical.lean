import LeasePool.DataSource
import LeasePool.PoolError

/-!
# Physical connections

What a pool knows of the connections it manages: it asks a factory to open
them, and asks each of them to roll back, to answer a query or to close. Such a
request takes time and may fail. Whether a connection is closed, and whether it
commits on its own, can be read at any moment.
-/

namespace LeasePool

/-- The name that the factory gives a connection it has opened. -/
structure Physical where
  number : Nat
  deriving DecidableEq, Repr, Inhabited

/-- What is asked of the factory or of a connection. -/
inductive Request where
  /-- To open a connection to a data source. -/
  | connect (source : DataSource)
  /-- To undo uncommitted work. -/
  | rollback (c : Physical)
  /-- To answer a query. -/
  | probe (c : Physical) (query : String)
  /-- To close for good. -/
  | close (c : Physical)

/-- What can be read without waiting at one moment of a run. -/
structure Moment where
  /-- The time. -/
  now : Instant
  /-- Whether a connection is closed. -/
  isClosed : Physical → Bool
  /-- Whether a connection commits every statement on its own. -/
  isAutoCommit : Physical → Bool

end LeasePool

/-!
# Transaction isolation levels
-/

namespace LeasePool

/-- How far a transaction is kept apart from others. -/
inductive IsolationLevel where
  | readUncommitted
  | readCommitted
  | repeatableRead
  | serializable
  deriving DecidableEq, Repr

namespace IsolationLevel

/-- The levels from the weakest to the strongest. -/
def all : List IsolationLevel := [readUncommitted, readCommitted, repeatableRead, serializable]

/-- The spelling in SQL. -/
def sql : IsolationLevel → String
  | readUncommitted => "READ UNCOMMITTED"
  | readCommitted => "READ COMMITTED"
  | repeatableRead => "REPEATABLE READ"
  | serializable => "SERIALIZABLE"

/-- The spelling in documents. -/
def key : IsolationLevel → String
  | readUncommitted => "read_uncommitted"
  | readCommitted => "read_committed"
  | repeatableRead => "repeatable_read"
  | serializable => "serializable"

/-- The spelling in inspection texts. -/
def inspection : IsolationLevel → String
  | readUncommitted => "ReadUncommitted"
  | readCommitted => "ReadCommitted"
  | repeatableRead => "RepeatableRead"
  | serializable => "Serializable"

/-- The level that a document spells so. -/
def ofKey? (key : String) : Option IsolationLevel := all.find? fun level => level.key == key

theorem ofKey?_key (level : IsolationLevel) : ofKey? level.key = some level := by
  cases level <;> decide

end IsolationLevel

end LeasePool

import LeasePool.Pool.Entry

/-!
# Notices

What a pool tells its log, as data. `Notice.text` is the line of a notice: its
level, its wording, and its values.
-/

namespace LeasePool

/-- What a pool tells its log. -/
inductive Notice where
  /-- An operation that changes the whole pool begins. -/
  | begins (operation : String)
  | checkedOut (id : ConnectionId)
  | created (id : ConnectionId)
  | openFailed (e : PoolError)
  | reclaimRollbackFailed (id : ConnectionId) (e : PoolError)
  | claimedOverdue (id : ConnectionId)
  /-- A caller goes to sleep, for so many milliseconds if there is a limit. -/
  | waiting (ms : Option Nat)
  | rejected (id : ConnectionId) (e : PoolError)
  | noGoodConnection
  | acquireCancelled (id : ConnectionId)
  /-- A connection that was idle for so many milliseconds is tested. -/
  | testing (idleMs : Nat)
  | checkupFailed (query : String) (e : PoolError)
  | staleReturned (id : ConnectionId)
  | closedReturned (id : ConnectionId)
  | returnRollbackFailed (id : ConnectionId) (e : PoolError)
  | returned (id : ConnectionId)
  | closeFailed (id : ConnectionId) (e : PoolError)
  | closed (id : ConnectionId)
  | allClosed
  deriving DecidableEq

namespace Notice

/-- The value that names a connection. -/
def ofId (id : ConnectionId) : String := " connection_id=" ++ toString id

/-- The value that gives an error. -/
def ofError (e : PoolError) : String := " error=" ++ e.message

/-- The line of a notice. -/
def text : Notice → String
  | begins operation => "SPAN " ++ operation
  | checkedOut id => "DEBUG checked out connection from pool" ++ ofId id
  | created id => "DEBUG created connection" ++ ofId id
  | openFailed e => "ERROR failed to open connection" ++ ofError e
  | reclaimRollbackFailed id e =>
    "DEBUG bad connection, could not roll back" ++ ofId id ++ ofError e
  | claimedOverdue id => "DEBUG claimed overdue connection" ++ ofId id
  | waiting none => "DEBUG waiting for connection"
  | waiting (some ms) => "DEBUG waiting for connection wait_ms=" ++ toString ms
  | rejected id e =>
    "DEBUG a bad connection was returned from the pool, getting another connection" ++
      ofId id ++ ofError e
  | noGoodConnection => "DEBUG could not get a good connection to the database"
  | acquireCancelled id =>
    "DEBUG acquire cancelled, discarding candidate connection" ++ ofId id
  | testing idleMs => "DEBUG testing connection idle_ms=" ++ toString idleMs
  | checkupFailed query e => "WARN execution of ping query failed query=" ++ query ++ ofError e
  | staleReturned id =>
    "WARN a bad connection attempted to return to the pool, discarding connection" ++ ofId id
  | closedReturned id =>
    "WARN a closed connection attempted to return to the pool, discarding connection" ++ ofId id
  | returnRollbackFailed id e =>
    "WARN rollback on return failed, closed connection" ++ ofId id ++ ofError e
  | returned id => "DEBUG returned connection to pool" ++ ofId id
  | closeFailed id e => "DEBUG error closing connection" ++ ofId id ++ ofError e
  | closed id => "DEBUG closed connection" ++ ofId id
  | allClosed => "DEBUG forcefully closed and removed all connections"

end Notice

end LeasePool

import LeasePool.Text.Quoted

/-!
# Errors of the pool and of connections

An error is its cause. `PoolError.message` is the only place where the wording
of an error is decided.
-/

namespace LeasePool

/-- What can go wrong with a connection, a pool or its policy. -/
inductive PoolError where
  /-- No physical connection could be opened. -/
  | connection (text : String)
  /-- One acquisition met too many bad connections. -/
  | exhausted (text : String)
  /-- A connection failed the check before it is handed out. -/
  | validation (text : String)
  /-- Uncommitted work could not be rolled back. -/
  | rollback (text : String)
  /-- The handle was released or reclaimed, or its pool was reset. -/
  | invalidConnection
  /-- A query failed. -/
  | query (text : String)
  /-- What was configured or asked for is not acceptable. -/
  | configuration (text : String)
  /-- No connection became available in time. -/
  | timeout (text : String)
  /-- The operating system reported a failure. -/
  | io (text : String)
  deriving DecidableEq, Repr

namespace PoolError

/-- The name of the kind of an error. -/
def kind : PoolError → String
  | connection _ => "Connection"
  | exhausted _ => "Exhausted"
  | validation _ => "Validation"
  | rollback _ => "Rollback"
  | invalidConnection => "InvalidConnection"
  | query _ => "Query"
  | configuration _ => "Configuration"
  | timeout _ => "Timeout"
  | io _ => "Io"

/-- The error of the named kind, with the given text where the kind has one. -/
def ofKind? (kind text : String) : Option PoolError :=
  match kind with
  | "Connection" => some (connection text)
  | "Exhausted" => some (exhausted text)
  | "Validation" => some (validation text)
  | "Rollback" => some (rollback text)
  | "InvalidConnection" => some invalidConnection
  | "Query" => some (query text)
  | "Configuration" => some (configuration text)
  | "Timeout" => some (timeout text)
  | "Io" => some (io text)
  | _ => none

/-- The sentence that tells a user what went wrong. -/
def message : PoolError → String
  | connection t => "Connection error: " ++ t
  | exhausted t => "Pool exhausted: " ++ t
  | validation t => "Validation error: " ++ t
  | rollback t => "Rollback error: " ++ t
  | invalidConnection => "Connection is invalid"
  | query t => "Query error: " ++ t
  | configuration t => "Configuration error: " ++ t
  | timeout t => "Timeout: " ++ t
  | io t => "IO error: " ++ t

/-- The text that a kind of error carries, if it carries one. -/
def text? : PoolError → Option String
  | connection t | exhausted t | validation t | rollback t
  | query t | configuration t | timeout t | io t => some t
  | invalidConnection => none

/-- The inspection text of an error: its kind and its quoted text. A failure
    of the operating system has none, since what it shows is not the pool's to
    decide. -/
def inspection? (e : PoolError) : Option String :=
  match e, e.text? with
  | io _, _ => none
  | _, none => some e.kind
  | _, some t => some (e.kind ++ "(" ++ Text.quoted t ++ ")")

/-- The error of a policy that would allow no connection at all. -/
def noActiveConnections : PoolError := configuration "max_active must be greater than 0"

/-- The error of a data source without an address. -/
def emptyUrl : PoolError := configuration "data source url must not be empty"

/-- The error of a release to a pool that did not issue the handle. -/
def foreignHandle : PoolError := configuration "connection belongs to a different pool"

/-- The error of an acquisition whose deadline has passed while `active`
    connections were checked out. -/
def noConnectionInTime (active : Nat) : PoolError :=
  timeout ("Timed out waiting for connection (" ++ toString active ++ " active)")

/-- The error of an acquisition that met more bad connections than it may. -/
def noGoodConnection : PoolError := exhausted "Could not get a good connection to the database"

end PoolError

end LeasePool

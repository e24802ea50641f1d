import LeasePool.Pool.Books

/-!
# Resets

A reset changes the policy or the data source, or nothing, and then closes every
connection of the pool. A policy that would allow no connection is refused, and
then nothing is changed at all.
-/

namespace LeasePool

/-- An operation that closes all connections. -/
inductive Reset where
  /-- Nothing else is changed. -/
  | closeAll
  /-- The policy is replaced. -/
  | replace (policy : Policy)
  /-- One part of the policy is changed. -/
  | configure (change : Policy.Change)
  /-- One part of the data source is changed. -/
  | redirect (change : DataSource.Change)

/-- The name of a reset in the log, if it has one. -/
def Reset.operation? : Reset → Option String
  | closeAll => some "force_close_all"
  | replace _ => some "reconfigure"
  | configure _ => none
  | redirect _ => some "update_settings"

/-- The books with the change of a reset. -/
def Reset.apply (b : Books) : Reset → Except PoolError Books
  | closeAll => .ok b
  | replace policy => .ok { b with policy := policy }
  | configure change =>
    let policy := b.policy.apply change
    match policy.validate with
    | .ok () => .ok { b with policy := policy }
    | .error e => .error e
  | redirect change => .ok { b with source := b.source.apply change }

end LeasePool

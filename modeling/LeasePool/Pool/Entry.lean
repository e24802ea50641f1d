import LeasePool.Pool.Physical

/-!
# Entries, handles and generations

A pool knows each of its connections by a number. Whenever a connection changes
hands, it enters a new *generation*: when it is returned, when its lease is
reclaimed, when it is given up. An entry of the books and the handle of a caller
both bear the generation in which they were made, and a handle is valid as long
as its generation is the current one.

* `Generations.current_advance`: only the advanced connection changes its
  generation, and by one;
* `Generations.current_le_current_advance`: generations only grow.
-/

namespace LeasePool

/-- The number by which a pool knows a connection. -/
abbrev ConnectionId := Nat

/-- The number of a pool among the pools of a program. -/
abbrev PoolId := Nat

/-- A connection as it stands in the books of a pool. -/
structure Entry where
  id : ConnectionId
  /-- The generation in which the entry was made. -/
  generation : Nat
  /-- The connection itself. -/
  physical : Physical
  createdAt : Instant
  lastUsedAt : Instant
  checkoutAt : Instant
  /-- What the connection was handed out for. -/
  signature : Signature
  deriving DecidableEq

namespace Entry

/-- The entry of a connection that has just been opened. -/
def fresh (id : ConnectionId) (physical : Physical) (signature : Signature) (now : Instant) :
    Entry where
  id := id
  generation := 0
  physical := physical
  createdAt := now
  lastUsedAt := now
  checkoutAt := now
  signature := signature

/-- For how long a connection has been checked out. -/
def checkoutTime (e : Entry) (now : Instant) : Duration := now.since e.checkoutAt

/-- For how long a connection has not been used. -/
def idleTime (e : Entry) (now : Instant) : Duration := now.since e.lastUsedAt

end Entry

/-- The current generation of every connection of a pool. -/
structure Generations where
  current : ConnectionId → Nat

namespace Generations

/-- All connections in their first generation. -/
def initial : Generations := ⟨fun _ => 0⟩

/-- A connection enters its next generation. -/
def advance (g : Generations) (id : ConnectionId) : Generations :=
  ⟨fun i => if i = id then g.current i + 1 else g.current i⟩

theorem current_advance (g : Generations) (id i : ConnectionId) :
    (g.advance id).current i = if i = id then g.current i + 1 else g.current i := rfl

@[simp] theorem current_advance_self (g : Generations) (id : ConnectionId) :
    (g.advance id).current id = g.current id + 1 := by simp [advance]

theorem current_advance_of_ne (g : Generations) {id i : ConnectionId} (h : i ≠ id) :
    (g.advance id).current i = g.current i := by simp [advance, h]

/-- Generations only grow. -/
theorem current_le_current_advance (g : Generations) (id i : ConnectionId) :
    g.current i ≤ (g.advance id).current i := by
  rw [current_advance]
  split <;> omega

end Generations

/-- Whether an entry was made in the current generation of its connection. -/
def Entry.isCurrent (e : Entry) (g : Generations) : Bool := g.current e.id == e.generation

/-- The entry with the current generation of its connection. -/
def Entry.renewed (e : Entry) (g : Generations) : Entry := { e with generation := g.current e.id }

/-- What a caller holds of a connection: the entry at the time it was handed
    out, and the pool it belongs to. -/
structure Handle extends Entry where
  pool : PoolId
  deriving DecidableEq

namespace Handle

/-- Whether a handle still owns its connection. -/
def isValid (h : Handle) (g : Generations) : Bool := h.toEntry.isCurrent g

/-- Whether the connection of a handle is closed. -/
def isClosed (h : Handle) (g : Generations) (m : Moment) : Except PoolError Bool :=
  if h.isValid g then .ok (m.isClosed h.physical) else .error .invalidConnection

/-- Whether the connection of a handle commits every statement on its own. -/
def isAutoCommit (h : Handle) (g : Generations) (m : Moment) : Except PoolError Bool :=
  if h.isValid g then .ok (m.isAutoCommit h.physical) else .error .invalidConnection

/-- The inspection text of a handle. -/
def inspection (h : Handle) (g : Generations) : String :=
  Text.record "PooledConnection"
    [("id", toString h.id),
     ("generation", toString h.generation),
     ("valid", Text.truth (h.isValid g)),
     ("type_signature", h.signature.inspection)]

end Handle

end LeasePool

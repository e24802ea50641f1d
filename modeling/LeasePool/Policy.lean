import LeasePool.PoolError
import LeasePool.Time.Text

/-!
# The policy of a pool

How many connections a pool hands out and keeps, how long a lease and a wait
may take, how many bad connections one acquisition may meet, and when an unused
connection is tested before it is handed out.
-/

namespace LeasePool

/-- How a pool deals with its connections and callers. -/
structure Policy where
  /-- How many connections may be checked out at once. -/
  maxActive : UInt64
  /-- How many idle connections are kept. -/
  maxIdle : UInt64
  /-- After how many milliseconds a lease may be reclaimed. -/
  maxCheckoutMs : UInt64 := 20000
  /-- For how many milliseconds a caller sleeps before it looks again; zero is
      without limit. -/
  maxWaitMs : UInt64 := 20000
  /-- How many bad connections one acquisition may meet on top of `maxIdle`. -/
  badConnectionTolerance : UInt64 := 3
  /-- Whether unused connections are tested at all. -/
  pingEnabled : Bool := false
  /-- The query of a test. -/
  pingQuery : String := "NO PING QUERY SET"
  /-- A connection that was unused for longer than this many milliseconds is
      tested; without it none is. -/
  pingIdleThresholdMs : Option UInt64 := some 0
  deriving DecidableEq

namespace Policy

/-- The policy of which nothing is said. -/
def default : Policy := { maxActive := 10, maxIdle := 5 }

instance : Inhabited Policy := ⟨default⟩

/-- A policy with the given limits, unless it would allow no connection; then the
    text of the refusal. -/
def ofLimits (maxActive maxIdle : UInt64) : Except String Policy :=
  if maxActive = 0 then
    .error ("max_active must be greater than 0, got " ++ toString maxActive)
  else .ok { maxActive := maxActive, maxIdle := maxIdle }

/-- Whether a policy allows any connection at all. -/
def validate (p : Policy) : Except PoolError Unit :=
  if p.maxActive = 0 then .error .noActiveConnections else .ok ()

/-- How long a connection may be checked out before it may be reclaimed. -/
def maxCheckout (p : Policy) : Duration := .ofMillis p.maxCheckoutMs.toNat

/-- How long a caller sleeps before it looks again. -/
def maxWait (p : Policy) : Duration := .ofMillis p.maxWaitMs.toNat

/-- How many bad connections one acquisition may meet: the sum of two words, as a
    word. -/
def badConnectionLimit (p : Policy) : Nat := (p.maxIdle + p.badConnectionTolerance).toNat

/-- A connection that was unused for longer than this is tested. -/
def pingIdleThreshold (p : Policy) : Option Duration :=
  p.pingIdleThresholdMs.map fun ms => .ofMillis ms.toNat

/-- Whether a connection that was unused for `idleFor` must be tested. -/
def pingDue (p : Policy) (idleFor : Duration) : Bool :=
  p.pingEnabled &&
    match p.pingIdleThreshold with
    | some threshold => decide (threshold < idleFor)
    | none => false

/-- A new value for one part of a policy. -/
inductive Change where
  | maxActive (n : UInt64)
  | maxIdle (n : UInt64)
  | maxCheckoutMs (ms : UInt64)
  | maxWaitMs (ms : UInt64)
  | badConnectionTolerance (n : UInt64)
  | pingEnabled (enabled : Bool)
  | pingQuery (query : String)
  | pingIdleThresholdMs (ms : Option UInt64)
  deriving DecidableEq

/-- The policy with one part changed. -/
def apply (p : Policy) : Change → Policy
  | .maxActive n => { p with maxActive := n }
  | .maxIdle n => { p with maxIdle := n }
  | .maxCheckoutMs ms => { p with maxCheckoutMs := ms }
  | .maxWaitMs ms => { p with maxWaitMs := ms }
  | .badConnectionTolerance n => { p with badConnectionTolerance := n }
  | .pingEnabled enabled => { p with pingEnabled := enabled }
  | .pingQuery query => { p with pingQuery := query }
  | .pingIdleThresholdMs ms => { p with pingIdleThresholdMs := ms }

/-- The parts of a policy. -/
inductive Part where
  | maxActive
  | maxIdle
  | maxCheckoutMs
  | maxWaitMs
  | badConnectionTolerance
  | pingEnabled
  | pingQuery
  | pingIdleThresholdMs

/-- Of what kind the values of a part are. -/
def Part.Value : Part → Type
  | maxActive | maxIdle | maxCheckoutMs | maxWaitMs | badConnectionTolerance => UInt64
  | pingEnabled => Bool
  | pingQuery => String
  | pingIdleThresholdMs => Option UInt64

/-- The value of a part. -/
def read (p : Policy) : (x : Part) → x.Value
  | .maxActive => p.maxActive
  | .maxIdle => p.maxIdle
  | .maxCheckoutMs => p.maxCheckoutMs
  | .maxWaitMs => p.maxWaitMs
  | .badConnectionTolerance => p.badConnectionTolerance
  | .pingEnabled => p.pingEnabled
  | .pingQuery => p.pingQuery
  | .pingIdleThresholdMs => p.pingIdleThresholdMs

/-- A policy is nothing but its parts. -/
theorem eq_of_read {p q : Policy} (h : ∀ x, p.read x = q.read x) : p = q := by
  cases p
  cases q
  exact mk.injEq .. ▸ ⟨h .maxActive, h .maxIdle, h .maxCheckoutMs, h .maxWaitMs,
    h .badConnectionTolerance, h .pingEnabled, h .pingQuery, h .pingIdleThresholdMs⟩

namespace Change

/-- The part that a change is for. -/
def part : Change → Part
  | maxActive _ => .maxActive
  | maxIdle _ => .maxIdle
  | maxCheckoutMs _ => .maxCheckoutMs
  | maxWaitMs _ => .maxWaitMs
  | badConnectionTolerance _ => .badConnectionTolerance
  | pingEnabled _ => .pingEnabled
  | pingQuery _ => .pingQuery
  | pingIdleThresholdMs _ => .pingIdleThresholdMs

/-- The new value of that part. -/
def value : (c : Change) → c.part.Value
  | maxActive n => n
  | maxIdle n => n
  | maxCheckoutMs ms => ms
  | maxWaitMs ms => ms
  | badConnectionTolerance n => n
  | pingEnabled enabled => enabled
  | pingQuery query => query
  | pingIdleThresholdMs ms => ms

/-- A change makes the policy `q` of the policy `p`: its part has the new value, and
    every other part has the value that it had. -/
structure Makes (c : Change) (p q : Policy) : Prop where
  changed : q.read c.part = c.value
  kept : ∀ x, x ≠ c.part → q.read x = p.read x

/-- There is one policy that a change makes of another. -/
theorem makes_iff {c : Change} {p q : Policy} : c.Makes p q ↔ q = p.apply c := by
  constructor
  · rintro ⟨changed, kept⟩
    refine eq_of_read fun x => ?_
    cases c <;> cases x <;> first | exact changed | exact kept _ nofun
  · rintro rfl
    refine ⟨by cases c <;> rfl, fun x other => ?_⟩
    cases c <;> cases x <;> first | rfl | exact absurd rfl other

end Change

/-- The policy with several parts changed, one after the other. -/
def applyAll (p : Policy) (changes : List Change) : Policy := changes.foldl apply p

/-- The inspection text of a policy. -/
def inspection (p : Policy) : String :=
  Text.record "PoolConfig"
    [("max_active", toString p.maxActive),
     ("max_idle", toString p.maxIdle),
     ("max_checkout_time_ms", toString p.maxCheckoutMs),
     ("max_wait_ms", toString p.maxWaitMs),
     ("bad_connection_tolerance", toString p.badConnectionTolerance),
     ("ping_enabled", Text.truth p.pingEnabled),
     ("ping_query", Text.quoted p.pingQuery),
     ("ping_idle_threshold_ms", Text.optional toString p.pingIdleThresholdMs)]

end Policy

end LeasePool

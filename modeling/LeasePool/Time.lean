/-!
# Durations and instants

Time is counted in whole nanoseconds. An instant is a number of nanoseconds
since the start of a run, a duration is the distance between two instants.
Neither has an upper bound: adding durations never wraps, and there is an instant
at every distance from another. A timeout that would end after the last instant of
a clock is left out.

* `Duration.nanos_add`: durations add as their nanoseconds do;
* `Duration.ofParts_secs_subsecNanos`: a duration is its seconds and the rest;
* `Instant.nanos_after`, `Instant.nanos_since`: how far instants are apart.
-/

namespace LeasePool

/-- A span of time, in whole nanoseconds. -/
structure Duration where
  /-- The number of nanoseconds. -/
  nanos : Nat
  deriving DecidableEq, Repr

namespace Duration

/-- The empty span of time. -/
def zero : Duration := ⟨0⟩

instance : Inhabited Duration := ⟨zero⟩

instance : Add Duration := ⟨fun a b => ⟨a.nanos + b.nanos⟩⟩

instance : LE Duration := ⟨fun a b => a.nanos ≤ b.nanos⟩

instance : LT Duration := ⟨fun a b => a.nanos < b.nanos⟩

instance (a b : Duration) : Decidable (a ≤ b) := inferInstanceAs (Decidable (a.nanos ≤ b.nanos))

instance (a b : Duration) : Decidable (a < b) := inferInstanceAs (Decidable (a.nanos < b.nanos))

/-- The shorter of two durations. -/
def min (a b : Duration) : Duration := ⟨Nat.min a.nanos b.nanos⟩

/-- A span of whole milliseconds. -/
def ofMillis (ms : Nat) : Duration := ⟨ms * 1000000⟩

/-- A span given as whole seconds and further nanoseconds. -/
def ofParts (secs nanos : Nat) : Duration := ⟨secs * 1000000000 + nanos⟩

/-- The whole milliseconds in a duration. -/
def millis (d : Duration) : Nat := d.nanos / 1000000

/-- The whole seconds in a duration. -/
def secs (d : Duration) : Nat := d.nanos / 1000000000

/-- The nanoseconds that are left after the whole seconds. -/
def subsecNanos (d : Duration) : Nat := d.nanos % 1000000000

/-- Whether a duration is empty. -/
def isZero (d : Duration) : Bool := d.nanos == 0

@[simp] theorem nanos_zero : zero.nanos = 0 := rfl

@[simp] theorem nanos_add (a b : Duration) : (a + b).nanos = a.nanos + b.nanos := rfl

theorem le_iff {a b : Duration} : a ≤ b ↔ a.nanos ≤ b.nanos := Iff.rfl

theorem lt_iff {a b : Duration} : a < b ↔ a.nanos < b.nanos := Iff.rfl

/-- Seconds and the rest make up the whole duration. -/
theorem ofParts_secs_subsecNanos (d : Duration) : ofParts d.secs d.subsecNanos = d := by
  cases d
  simp only [ofParts, secs, subsecNanos]
  congr 1
  omega

end Duration

/-- A moment of a run, in nanoseconds since its start. -/
structure Instant where
  /-- The nanoseconds since the start of the run. -/
  nanos : Nat
  deriving DecidableEq, Repr, Inhabited

namespace Instant

/-- The moment that lies `d` after `t`. -/
def after (t : Instant) (d : Duration) : Instant := ⟨t.nanos + d.nanos⟩

/-- The time from `earlier` to `t`, which is zero if `earlier` lies after `t`. -/
def since (t earlier : Instant) : Duration := ⟨t.nanos - earlier.nanos⟩

/-- The whole milliseconds since the start of the run. -/
def millis (t : Instant) : Nat := t.nanos / 1000000

instance : LE Instant := ⟨fun a b => a.nanos ≤ b.nanos⟩

instance (a b : Instant) : Decidable (a ≤ b) := inferInstanceAs (Decidable (a.nanos ≤ b.nanos))

@[simp] theorem nanos_after (t : Instant) (d : Duration) :
    (t.after d).nanos = t.nanos + d.nanos := rfl

@[simp] theorem nanos_since (t earlier : Instant) :
    (t.since earlier).nanos = t.nanos - earlier.nanos := rfl

theorem le_iff {a b : Instant} : a ≤ b ↔ a.nanos ≤ b.nanos := Iff.rfl

end Instant

end LeasePool

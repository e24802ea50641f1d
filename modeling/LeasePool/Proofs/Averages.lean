import LeasePool.Proofs.Documents

/-!
# How far averages are right

The average of a total over a count should be the quotient in whole nanoseconds, rounded down.
Only the low 64 bits of the quotient are kept. So an average is right as long as its quotient fits
into them, which is so up to an average of some 584 years; a longer one comes out too short, by a
multiple of `2 ^ 64` nanoseconds. The totals in a document can be that long.

* `Average.isFloor_iff_div`, `Average.nanos_value`: what an average should be and what it is, as
  quotients;
* `averages_right_iff`: an average is right exactly where its quotient fits, and otherwise it falls
  short of it by what does not fit.
-/

namespace LeasePool

theorem Duration.eq_zero_iff {d : Duration} : d = zero ↔ d.nanos = 0 := by
  cases d
  simp [zero]

namespace Snapshot

/-- What snapshots have averages of. -/
inductive Average where
  /-- The time that a checkout takes. -/
  | request
  /-- The time that a caller waits. -/
  | wait
  /-- The time for which a connection is checked out. -/
  | checkout
  /-- The time for which a reclaimed lease had been checked out. -/
  | overdue
  deriving DecidableEq

namespace Average

/-- The average, as a snapshot tells it. -/
def value (s : Snapshot) : Average → Duration
  | request => s.averageRequestTime
  | wait => s.averageWaitTime
  | checkout => s.averageCheckoutTime
  | overdue => s.averageOverdueCheckoutTime

/-- The time that is shared out. -/
def total (s : Snapshot) : Average → Duration
  | request => s.requestTime
  | wait => s.waitTime
  | checkout => s.checkoutTime
  | overdue => s.overdueCheckoutTime

/-- The number of those among whom it is shared out. -/
def count (s : Snapshot) : Average → UInt64
  | request => s.requestCount
  | wait => s.hadToWaitCount
  | checkout => s.requestCount
  | overdue => s.claimedOverdueCount

/-- The average is zero if there is nobody to share with, and otherwise the greatest number of
    whole nanoseconds that everybody can have. -/
def IsFloor (s : Snapshot) (a : Average) : Prop :=
  if a.count s = 0 then a.value s = .zero
  else (a.value s).nanos * (a.count s).toNat ≤ (a.total s).nanos ∧
    (a.total s).nanos < ((a.value s).nanos + 1) * (a.count s).toNat

variable (s : Snapshot) (a : Average)

/-- All four averages are made in the same way. -/
theorem value_eq : a.value s = average (a.total s) (a.count s) := by
  cases a <;> rfl

/-- An average is what is kept of the quotient, which is zero where the count is. -/
theorem nanos_value :
    (a.value s).nanos = (a.total s).nanos / (a.count s).toNat % UInt64.size := by
  rw [value_eq, average]
  split
  · next nobody => simp [nobody]
  · rfl

variable {s a}

theorem count_pos (somebody : a.count s ≠ 0) : 0 < (a.count s).toNat :=
  Nat.pos_of_ne_zero fun zero => somebody (UInt64.toNat_inj.1 zero)

/-- An average is right if it is the whole quotient. -/
theorem isFloor_iff_div :
    a.IsFloor s ↔ (a.value s).nanos = (a.total s).nanos / (a.count s).toNat := by
  rw [IsFloor]
  split
  · next nobody => rw [Duration.eq_zero_iff, nobody, UInt64.toNat_zero, Nat.div_zero]
  · next somebody =>
    have pos := count_pos somebody
    rw [eq_comm, Nat.div_eq_iff pos, Nat.succ_mul]
    omega

end Average

/-- An average is right exactly where there is nobody to share with, or where the quotient fits into
    64 bits. In every case what is missing from the quotient is a multiple of what does not fit. -/
theorem averages_right_iff (s : Snapshot) (a : Average) :
    (a.IsFloor s ↔ a.count s = 0 ∨ (a.total s).nanos < UInt64.size * (a.count s).toNat) ∧
      ∃ lost, (a.total s).nanos / (a.count s).toNat = (a.value s).nanos + UInt64.size * lost := by
  refine ⟨?_, _, by rw [Average.nanos_value, Nat.mod_add_div]⟩
  rw [Average.isFloor_iff_div, Average.nanos_value, Nat.mod_eq_iff_lt (by decide)]
  by_cases nobody : a.count s = 0
  · simp [nobody]
  · rw [Nat.div_lt_iff_lt_mul (Average.count_pos nobody)]
    simp [nobody]

/-- Statistics of a single checkout that took `2 ^ 64` nanoseconds. -/
def wrapped : Snapshot :=
  { requestCount := 1, requestTime := .ofParts 18446744073 709551616 }

/-- The document of such statistics is read, and tells that a checkout takes no time at all. -/
theorem average_wrapped :
    parseJson? wrapped.toJson.compact = some wrapped ∧ wrapped.averageRequestTime = .zero ∧
      ¬ Average.request.IsFloor wrapped := by
  have fits : wrapped.Fits := ⟨by decide, by decide, by decide, by decide⟩
  refine ⟨?_, by decide, ?_⟩
  · rw [parseJson?, Json.parse_compact wrapped.plain_toJson, Option.bind_eq_bind, Option.bind_some,
      ofJson?_toJson fits]
  · rw [Average.isFloor_iff_div]
    decide

end Snapshot

end LeasePool

import LeasePool.Json.Printer
import LeasePool.Json.Reader
import LeasePool.Json.Record
import LeasePool.Snapshot

/-!
# Documents of statistics

Statistics as a JSON document, in which every field must be given.
-/

namespace LeasePool

namespace Duration

/-- The names of the fields of a duration. -/
def fieldNames : List String := ["secs", "nanos"]

/-- The JSON form of a duration. -/
def toJson (d : Duration) : Json :=
  Json.record [("secs", .nat d.secs), ("nanos", .nat d.subsecNanos)]

/-- The duration that a JSON value stands for. Its nanoseconds are a word of 32
    bits and may amount to whole seconds, as long as all seconds fit into a word
    of 64 bits. -/
def ofJson? (j : Json) : Option Duration := do
  let fields ← j.exactFields? fieldNames
  let secs ← fields.required "secs" Json.uint64?
  let nanos ← fields.required "nanos" Json.uint64?
  let d := ofParts secs.toNat nanos.toNat
  if nanos.toNat < UInt32.size ∧ d.secs < UInt64.size then return d else none

end Duration

namespace Snapshot

/-- The names of the fields in documents, in their declared order. -/
def fieldNames : List String :=
  ["idle", "active", "waiting", "request_count", "accumulated_request_time", "had_to_wait_count",
   "accumulated_wait_time", "accumulated_checkout_time", "claimed_overdue_count",
   "accumulated_overdue_checkout_time", "bad_connection_count"]

/-- The JSON form of statistics. -/
def toJson (s : Snapshot) : Json :=
  Json.record
    [("idle", .nat s.idle.toNat),
     ("active", .nat s.active.toNat),
     ("waiting", .nat s.waiting.toNat),
     ("request_count", .nat s.requestCount.toNat),
     ("accumulated_request_time", s.requestTime.toJson),
     ("had_to_wait_count", .nat s.hadToWaitCount.toNat),
     ("accumulated_wait_time", s.waitTime.toJson),
     ("accumulated_checkout_time", s.checkoutTime.toJson),
     ("claimed_overdue_count", .nat s.claimedOverdueCount.toNat),
     ("accumulated_overdue_checkout_time", s.overdueCheckoutTime.toJson),
     ("bad_connection_count", .nat s.badConnectionCount.toNat)]

/-- The statistics that a JSON value stands for. -/
def ofJson? (j : Json) : Option Snapshot := do
  let fields ← j.fields? fieldNames
  return {
    idle := ← fields.required "idle" Json.uint64?
    active := ← fields.required "active" Json.uint64?
    waiting := ← fields.required "waiting" Json.uint64?
    requestCount := ← fields.required "request_count" Json.uint64?
    requestTime := ← fields.required "accumulated_request_time" Duration.ofJson?
    hadToWaitCount := ← fields.required "had_to_wait_count" Json.uint64?
    waitTime := ← fields.required "accumulated_wait_time" Duration.ofJson?
    checkoutTime := ← fields.required "accumulated_checkout_time" Duration.ofJson?
    claimedOverdueCount := ← fields.required "claimed_overdue_count" Json.uint64?
    overdueCheckoutTime := ← fields.required "accumulated_overdue_checkout_time" Duration.ofJson?
    badConnectionCount := ← fields.required "bad_connection_count" Json.uint64? }

/-- The statistics that a JSON document describes. -/
def parseJson? (source : String) : Option Snapshot := Json.parse source >>= ofJson?

end Snapshot

end LeasePool

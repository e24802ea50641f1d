import LeasePool.Json.Printer
import LeasePool.Json.Reader
import LeasePool.Json.Record
import LeasePool.Policy
import LeasePool.Toml.Reader

/-!
# Documents of policies

A policy as a JSON or TOML document. A part that is left out has its default. A
TOML document must describe a policy that allows connections.
-/

namespace LeasePool.Policy

/-- The names of the fields in documents, in their declared order. -/
def fieldNames : List String :=
  ["max_active", "max_idle", "max_checkout_time_ms", "max_wait_ms", "bad_connection_tolerance",
   "ping_enabled", "ping_query", "ping_idle_threshold_ms"]

/-- The JSON form of a policy. -/
def toJson (p : Policy) : Json :=
  Json.record
    [("max_active", .nat p.maxActive.toNat),
     ("max_idle", .nat p.maxIdle.toNat),
     ("max_checkout_time_ms", .nat p.maxCheckoutMs.toNat),
     ("max_wait_ms", .nat p.maxWaitMs.toNat),
     ("bad_connection_tolerance", .nat p.badConnectionTolerance.toNat),
     ("ping_enabled", .bool p.pingEnabled),
     ("ping_query", .text p.pingQuery),
     ("ping_idle_threshold_ms", Json.ofOption (fun ms => .nat ms.toNat) p.pingIdleThresholdMs)]

/-- The policy that a JSON value stands for. -/
def ofJson? (j : Json) : Option Policy := do
  let fields ← j.fields? fieldNames
  return {
    maxActive := ← fields.withDefault "max_active" default.maxActive Json.uint64?
    maxIdle := ← fields.withDefault "max_idle" default.maxIdle Json.uint64?
    maxCheckoutMs :=
      ← fields.withDefault "max_checkout_time_ms" default.maxCheckoutMs Json.uint64?
    maxWaitMs := ← fields.withDefault "max_wait_ms" default.maxWaitMs Json.uint64?
    badConnectionTolerance :=
      ← fields.withDefault "bad_connection_tolerance" default.badConnectionTolerance Json.uint64?
    pingEnabled := ← fields.withDefault "ping_enabled" default.pingEnabled Json.bool?
    pingQuery := ← fields.withDefault "ping_query" default.pingQuery Json.text?
    pingIdleThresholdMs :=
      ← fields.withDefault "ping_idle_threshold_ms" default.pingIdleThresholdMs
        (Json.nullable? Json.uint64?) }

/-- The policy that a JSON document describes, valid or not. -/
def parseJson? (source : String) : Option Policy := Json.parse source >>= ofJson?

/-- The policy that a TOML table stands for, valid or not. -/
def ofToml? (t : Toml.Table) : Option Policy := do
  return {
    maxActive := ← t.withDefault "max_active" default.maxActive Toml.Value.uint64?
    maxIdle := ← t.withDefault "max_idle" default.maxIdle Toml.Value.uint64?
    maxCheckoutMs :=
      ← t.withDefault "max_checkout_time_ms" default.maxCheckoutMs Toml.Value.uint64?
    maxWaitMs := ← t.withDefault "max_wait_ms" default.maxWaitMs Toml.Value.uint64?
    badConnectionTolerance :=
      ← t.withDefault "bad_connection_tolerance" default.badConnectionTolerance Toml.Value.uint64?
    pingEnabled := ← t.withDefault "ping_enabled" default.pingEnabled Toml.Value.boolean?
    pingQuery := ← t.withDefault "ping_query" default.pingQuery Toml.Value.string?
    pingIdleThresholdMs :=
      ← t.withDefault "ping_idle_threshold_ms" default.pingIdleThresholdMs
        fun v => v.uint64?.map some }

/-- The valid policy that a TOML document describes. The error is `none`
    when the text is no document of a policy at all. -/
def parseToml (source : String) : Except (Option PoolError) Policy :=
  match Toml.parse source >>= ofToml? with
  | none => .error none
  | some p =>
    match p.validate with
    | .error e => .error (some e)
    | .ok () => .ok p

end LeasePool.Policy

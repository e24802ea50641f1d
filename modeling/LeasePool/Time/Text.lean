import LeasePool.Text.Digits
import LeasePool.Time

/-!
# How a duration is written

A duration is written in the largest of the units second, millisecond,
microsecond and nanosecond of which it holds at least one. What is left below
the unit follows as a decimal fraction, exactly and without trailing zeros:
`1.5s`, `100ms`, `12.345µs`, `0ns`.
-/

namespace LeasePool.Duration

/-- The text of a duration that is counted in units of `10 ^ width`
    nanoseconds. -/
def textIn (width : Nat) (unit : String) (d : Duration) : String :=
  toString (d.nanos / Nat.pow 10 width) ++
    String.ofList (Text.fraction (Text.padded width (d.nanos % Nat.pow 10 width))) ++ unit

/-- The text of a duration. -/
def text (d : Duration) : String :=
  if 1000000000 ≤ d.nanos then textIn 9 "s" d
  else if 1000000 ≤ d.nanos then textIn 6 "ms" d
  else if 1000 ≤ d.nanos then textIn 3 "µs" d
  else toString d.nanos ++ "ns"

end LeasePool.Duration

import LeasePool.DataSource.IsolationLevel
import LeasePool.DataSource.Properties
import LeasePool.Signature
import LeasePool.Text.Quoted
import LeasePool.Time.Text

/-!
# Data sources

Where connections are opened, as whom, and in which mode they start. The
inspection text of a data source tells whether there is a password, but not
which.
-/

namespace LeasePool

/-- Where and as whom physical connections are opened. -/
structure DataSource where
  /-- The name of the driver. -/
  driver : String := ""
  /-- The address that the driver is given. -/
  url : String := ""
  username : Option String := none
  password : Option String := none
  /-- Whether new connections commit every statement on its own; without it the
      driver decides. -/
  autoCommit : Option Bool := none
  /-- The isolation level in which new connections start. -/
  isolationLevel : Option IsolationLevel := none
  /-- The network timeout of new connections, in milliseconds. -/
  networkTimeoutMs : Option UInt64 := none
  /-- Further properties for the driver. -/
  properties : Properties := .empty
  deriving DecidableEq, Inhabited

namespace DataSource

/-- The signature of connections with the data source's own credentials. -/
def signature (s : DataSource) : Signature := Signature.of s.url s.username s.password

/-- The network timeout as a duration. -/
def networkTimeout (s : DataSource) : Option Duration :=
  s.networkTimeoutMs.map fun ms => Duration.ofMillis ms.toNat

/-- A new value for one part of a data source. -/
inductive Change where
  | driver (driver : String)
  | url (url : String)
  | username (username : Option String)
  | password (password : Option String)
  | autoCommit (autoCommit : Option Bool)
  | isolationLevel (level : Option IsolationLevel)
  | networkTimeoutMs (ms : Option UInt64)
  | properties (properties : Properties)
  deriving DecidableEq

/-- The data source with one part changed. -/
def apply (s : DataSource) : Change → DataSource
  | .driver driver => { s with driver := driver }
  | .url url => { s with url := url }
  | .username username => { s with username := username }
  | .password password => { s with password := password }
  | .autoCommit autoCommit => { s with autoCommit := autoCommit }
  | .isolationLevel level => { s with isolationLevel := level }
  | .networkTimeoutMs ms => { s with networkTimeoutMs := ms }
  | .properties properties => { s with properties := properties }

/-- The parts of a data source. -/
inductive Part where
  | driver
  | url
  | username
  | password
  | autoCommit
  | isolationLevel
  | networkTimeoutMs
  | properties

/-- Of what kind the values of a part are. -/
def Part.Value : Part → Type
  | driver | url => String
  | username | password => Option String
  | autoCommit => Option Bool
  | isolationLevel => Option IsolationLevel
  | networkTimeoutMs => Option UInt64
  | properties => Properties

/-- The value of a part. -/
def read (s : DataSource) : (x : Part) → x.Value
  | .driver => s.driver
  | .url => s.url
  | .username => s.username
  | .password => s.password
  | .autoCommit => s.autoCommit
  | .isolationLevel => s.isolationLevel
  | .networkTimeoutMs => s.networkTimeoutMs
  | .properties => s.properties

/-- A data source is nothing but its parts. -/
theorem eq_of_read {s t : DataSource} (h : ∀ x, s.read x = t.read x) : s = t := by
  cases s
  cases t
  exact mk.injEq .. ▸ ⟨h .driver, h .url, h .username, h .password, h .autoCommit,
    h .isolationLevel, h .networkTimeoutMs, h .properties⟩

namespace Change

/-- The part that a change is for. -/
def part : Change → Part
  | driver _ => .driver
  | url _ => .url
  | username _ => .username
  | password _ => .password
  | autoCommit _ => .autoCommit
  | isolationLevel _ => .isolationLevel
  | networkTimeoutMs _ => .networkTimeoutMs
  | properties _ => .properties

/-- The new value of that part. -/
def value : (c : Change) → c.part.Value
  | driver name => name
  | url address => address
  | username user => user
  | password secret => secret
  | autoCommit commits => commits
  | isolationLevel level => level
  | networkTimeoutMs ms => ms
  | properties entries => entries

/-- A change makes the data source `t` of the data source `s`: its part has the new
    value, and every other part has the value that it had. -/
structure Makes (c : Change) (s t : DataSource) : Prop where
  changed : t.read c.part = c.value
  kept : ∀ x, x ≠ c.part → t.read x = s.read x

/-- There is one data source that a change makes of another. -/
theorem makes_iff {c : Change} {s t : DataSource} : c.Makes s t ↔ t = s.apply c := by
  constructor
  · rintro ⟨changed, kept⟩
    refine eq_of_read fun x => ?_
    cases c <;> cases x <;> first | exact changed | exact kept _ nofun
  · rintro rfl
    refine ⟨by cases c <;> rfl, fun x other => ?_⟩
    cases c <;> cases x <;> first | rfl | exact absurd rfl other

end Change

/-- The inspection text of a data source, in which a password is hidden. -/
def inspection (s : DataSource) : String :=
  Text.record "DataSourceSettings"
    [("driver", Text.quoted s.driver),
     ("url", Text.quoted s.url),
     ("username", Text.optional Text.quoted s.username),
     ("password", Text.optional (fun _ => Text.quoted "<redacted>") s.password),
     ("auto_commit", Text.optional Text.truth s.autoCommit),
     ("isolation_level", Text.optional IsolationLevel.inspection s.isolationLevel),
     ("network_timeout_ms", Text.optional toString s.networkTimeoutMs),
     ("properties", Text.mapping (s.properties.entries.map fun e =>
       (Text.quoted e.1, Text.quoted e.2)))]

end DataSource

end LeasePool

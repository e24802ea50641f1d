import LeasePool.DataSource
import LeasePool.Json.Printer
import LeasePool.Json.Reader
import LeasePool.Json.Record
import LeasePool.PoolError
import LeasePool.Toml.Reader

/-!
# Documents of data sources

A data source as a JSON or TOML document. Only the address must be given; a
TOML document must also give one that is not empty.

A table of properties in TOML that is given as a date or time is read as one
property, which holds its normalised text.
-/

namespace LeasePool

namespace IsolationLevel

/-- The JSON form of a level. -/
def toJson (level : IsolationLevel) : Json := .text level.key

/-- The level that a JSON value stands for: its name, or an object whose only
    member has the name as key and is `null`. -/
def ofJson? : Json → Option IsolationLevel
  | .text key => ofKey? key
  | .object [(some key, .null)] => ofKey? key
  | _ => none

/-- The level that a TOML value stands for: its name, or a table whose only
    entry has the name as key and holds nothing. -/
def ofToml? : Toml.Value → Option IsolationLevel
  | .string key => ofKey? key
  | .table [(key, v)] => if v.isVoid then ofKey? key else none
  | _ => none

end IsolationLevel

namespace Properties

/-- The JSON form of properties. -/
def toJson (p : Properties) : Json := Json.record (p.entries.map fun e => (e.1, .text e.2))

/-- The properties that a JSON object stands for, the last value for each
    name. -/
def ofJson? : Json → Option Properties
  | .object members => do
    let members ← Json.textKeys? members
    let pairs ← members.mapM fun m => m.2.text?.map fun v => (m.1, v)
    return ofList pairs
  | _ => none

/-- The name of the property that holds a date or time. -/
def momentName : String := "$__toml_private_datetime"

/-- The properties that a TOML value stands for. -/
def ofToml? : Toml.Value → Option Properties
  | .table entries => do
    let pairs ← entries.mapM fun e => e.2.string?.map fun v => (e.1, v)
    return ofList pairs
  | .moment text => some (ofList [(momentName, text)])
  | _ => none

end Properties

namespace DataSource

/-- The names of the fields in documents, in their declared order. -/
def fieldNames : List String :=
  ["driver", "url", "username", "password", "auto_commit", "isolation_level",
   "network_timeout_ms", "properties"]

/-- The JSON form of a data source. -/
def toJson (s : DataSource) : Json :=
  Json.record
    [("driver", .text s.driver),
     ("url", .text s.url),
     ("username", Json.ofOption .text s.username),
     ("password", Json.ofOption .text s.password),
     ("auto_commit", Json.ofOption .bool s.autoCommit),
     ("isolation_level", Json.ofOption IsolationLevel.toJson s.isolationLevel),
     ("network_timeout_ms", Json.ofOption (fun ms => .nat ms.toNat) s.networkTimeoutMs),
     ("properties", s.properties.toJson)]

/-- The data source that a JSON value stands for. -/
def ofJson? (j : Json) : Option DataSource := do
  let fields ← j.fields? fieldNames
  return {
    driver := ← fields.withDefault "driver" "" Json.text?
    url := ← fields.required "url" Json.text?
    username := ← fields.withDefault "username" none (Json.nullable? Json.text?)
    password := ← fields.withDefault "password" none (Json.nullable? Json.text?)
    autoCommit := ← fields.withDefault "auto_commit" none (Json.nullable? Json.bool?)
    isolationLevel :=
      ← fields.withDefault "isolation_level" none (Json.nullable? IsolationLevel.ofJson?)
    networkTimeoutMs :=
      ← fields.withDefault "network_timeout_ms" none (Json.nullable? Json.uint64?)
    properties := ← fields.withDefault "properties" .empty Properties.ofJson? }

/-- The data source that a JSON document describes. -/
def parseJson? (source : String) : Option DataSource := Json.parse source >>= ofJson?

/-- The data source that a TOML table stands for. -/
def ofToml? (t : Toml.Table) : Option DataSource := do
  return {
    driver := ← t.withDefault "driver" "" Toml.Value.string?
    url := ← t.required "url" Toml.Value.string?
    username := ← t.withDefault "username" none fun v => v.string?.map some
    password := ← t.withDefault "password" none fun v => v.string?.map some
    autoCommit := ← t.withDefault "auto_commit" none fun v => v.boolean?.map some
    isolationLevel :=
      ← t.withDefault "isolation_level" none fun v => (IsolationLevel.ofToml? v).map some
    networkTimeoutMs := ← t.withDefault "network_timeout_ms" none fun v => v.uint64?.map some
    properties := ← t.withDefault "properties" .empty Properties.ofToml? }

/-- The data source that a TOML document describes. The error is `none` when
    the text is no document of a data source at all. -/
def parseToml (source : String) : Except (Option PoolError) DataSource :=
  match Toml.parse source >>= ofToml? with
  | none => .error none
  | some s => if s.url.isEmpty then .error (some .emptyUrl) else .ok s

end DataSource

end LeasePool

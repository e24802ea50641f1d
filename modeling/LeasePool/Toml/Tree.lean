import LeasePool.Toml.Value

/-!
# Building TOML tables

A table of a document comes from a header, or it is implied by a longer header,
or by a dotted key. A header may define a table once, and it may take over one
that was only implied by a longer header; a dotted key may extend only tables
that dotted keys made, though it may pass through an implied one. No key of a
table is defined twice.

* `Entries.addPair`: a key with its value, the key possibly dotted;
* `Entries.addTable`, `Entries.addTableItem`: the table of a header.
-/

namespace LeasePool.Toml

/-- Where a table comes from. -/
inductive Origin where
  /-- It was defined by a header, or it is the document itself. -/
  | header
  /-- A longer header implies it. -/
  | implied
  /-- A dotted key implies it. -/
  | dotted
  deriving DecidableEq

/-- What a key of an unfinished table stands for. -/
inductive Node where
  | value (v : Value)
  | table (origin : Origin) (entries : List (String × Node))
  /-- The tables of an array of tables, the last one first. -/
  | tables (items : List (List (String × Node)))

/-- The entries of an unfinished table. -/
abbrev Entries := List (String × Node)

namespace Entries

/-- The entries with another node for a key that they have. -/
def replace (key : String) (node : Node) (entries : Entries) : Entries :=
  entries.map fun e => if e.1 = key then (key, node) else e

/-- Changes the table at a path below a table of the given origin, creating the
    tables on the way that do not exist. Of an array of tables the path enters
    the last one. A dotted path does not enter a table with a header. -/
def within (dotted : Bool) (change : Origin → Entries → Option Entries) :
    List String → Origin → Entries → Option Entries
  | [], origin, entries => change origin entries
  | key :: path, _, entries =>
    match entries.lookup key with
    | none => do
      let origin := if dotted then Origin.dotted else Origin.implied
      let inner ← within dotted change path origin []
      return entries ++ [(key, .table origin inner)]
    | some (.value _) => none
    | some (.tables []) => none
    | some (.tables (last :: before)) => do
      let inner ← within dotted change path .header last
      return replace key (.tables (inner :: before)) entries
    | some (.table origin inner) =>
      if dotted ∧ origin = .header then none
      else do
        let inner ← within dotted change path origin inner
        return replace key (.table origin inner) entries

/-- Adds a value under a dotted key, of which the last part is given apart. -/
def addPair (path : List String) (key : String) (v : Value) (entries : Entries) : Option Entries :=
  within true (fun origin entries =>
    if (origin == .dotted) == path.isEmpty then none
    else if (entries.lookup key).isSome then none
    else some (entries ++ [(key, .value v)])) path .header entries

/-- Defines the table of a header. `fill` adds the content of the table to what
    longer headers put there before. -/
def addTable (path : List String) (key : String) (fill : Entries → Option Entries)
    (entries : Entries) : Option Entries :=
  within false (fun _ entries =>
    match entries.lookup key with
    | none => do
      let inner ← fill []
      return entries ++ [(key, .table .header inner)]
    | some (.table .implied inner) => do
      let inner ← fill inner
      return replace key (.table .header inner) entries
    | _ => none) path .header entries

/-- Adds a table to the array of tables of a header. -/
def addTableItem (path : List String) (key : String) (fill : Entries → Option Entries)
    (entries : Entries) : Option Entries :=
  within false (fun _ entries =>
    match entries.lookup key with
    | none => do
      let inner ← fill []
      return entries ++ [(key, .tables [inner])]
    | some (.tables items) => do
      let inner ← fill []
      return replace key (.tables (inner :: items)) entries
    | _ => none) path .header entries

end Entries

mutual

/-- The value that a finished node stands for. -/
def Node.finish : Node → Value
  | .value v => v
  | .table _ entries => .table (finishEntries entries)
  | .tables items => .array (finishTables items).reverse

/-- The entries of a finished table. -/
def finishEntries : List (String × Node) → List (String × Value)
  | [] => []
  | (key, node) :: rest => (key, node.finish) :: finishEntries rest

/-- The finished tables of an array of tables. -/
def finishTables : List (List (String × Node)) → List Value
  | [] => []
  | entries :: rest => .table (finishEntries entries) :: finishTables rest

end

end LeasePool.Toml

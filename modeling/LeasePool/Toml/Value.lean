/-!
# TOML values

What a TOML document says, as a value. An array of tables is an array whose
items are tables. Of a number with a fraction or an exponent only the spelling
is kept, and of a date or time only its normalised text, since no setting is
of such a type.
-/

namespace LeasePool.Toml

/-- A TOML value. The entries of a table have distinct keys. -/
inductive Value where
  | string (s : String)
  | integer (n : Int)
  | float (spelling : String)
  | boolean (b : Bool)
  /-- A date, a time or both. -/
  | moment (text : String)
  | array (items : List Value)
  | table (entries : List (String × Value))
  deriving Inhabited

/-- The entries of a table. -/
abbrev Table := List (String × Value)

namespace Value

/-- A string. -/
def string? : Value → Option String
  | .string s => some s
  | _ => none

/-- A truth value. -/
def boolean? : Value → Option Bool
  | .boolean b => some b
  | _ => none

/-- An integer that is not negative, as a word. -/
def uint64? : Value → Option UInt64
  | .integer n => if 0 ≤ n ∧ n < UInt64.size then some (UInt64.ofNat n.toNat) else none
  | _ => none

/-- Whether a value is a table or an array that holds nothing. -/
def isVoid : Value → Bool
  | .table [] => true
  | .array [] => true
  | _ => false

end Value

/-- A field of a table that takes a given value when it is left out. -/
def Table.withDefault (t : Table) (key : String) (default : α) (read : Value → Option α) :
    Option α :=
  match t.lookup key with
  | some v => read v
  | none => some default

/-- A field of a table that must be given. -/
def Table.required (t : Table) (key : String) (read : Value → Option α) : Option α :=
  match t.lookup key with
  | some v => read v
  | none => none

end LeasePool.Toml

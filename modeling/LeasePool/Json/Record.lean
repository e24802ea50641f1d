import LeasePool.Json.Basic

/-!
# Records in JSON

A record is written as an object or as the array of its fields in their
declared order. In an object, members with other keys are passed over, and a
field that is given twice is an error; an array must not be longer than the
record has fields. Either form may leave fields out; `Json.Fields.required`
and `Json.Fields.withDefault` say what that means for each field.
-/

namespace LeasePool.Json

/-- The value of an unsigned integer that fits into 64 bits. -/
def uint64? : Json → Option UInt64
  | .nat n => if n < UInt64.size then some (UInt64.ofNat n) else none
  | _ => none

/-- A truth value. -/
def bool? : Json → Option Bool
  | .bool b => some b
  | _ => none

/-- A string that has a text. -/
def text? : Json → Option String
  | .text s => some s
  | _ => none

/-- A value that may also be `null`. -/
def nullable? (read : Json → Option α) : Json → Option (Option α)
  | .null => some none
  | j => (read j).map some

/-- The fields of a record that a document gives, by name. -/
abbrev Fields := String → Option Json

/-- The fields of a record that is declared with the given names. -/
def fields? (names : List String) : Json → Option Fields
  | .object members => do
    let members ← textKeys? members
    if names.all fun name => (members.filter fun m => m.1 == name).length ≤ 1 then
      return fun name => members.lookup name
    else none
  | .array items =>
    if items.length ≤ names.length then some fun name => (names.zip items).lookup name
    else none
  | _ => none

/-- The fields of a record that tolerates no others and of which none may be
    left out. -/
def exactFields? (names : List String) : Json → Option Fields
  | .object members => do
    let given ← textKeys? members
    if given.all fun m => names.contains m.1 then fields? names (.object members) else none
  | j => fields? names j

namespace Fields

variable (fields : Fields)

/-- A field that must be given. -/
def required (name : String) (read : Json → Option α) : Option α :=
  match fields name with
  | some j => read j
  | none => none

/-- A field that takes a given value when it is left out. -/
def withDefault (name : String) (default : α) (read : Json → Option α) : Option α :=
  match fields name with
  | some j => read j
  | none => some default

end Fields

end LeasePool.Json

/-!
# JSON values

A JSON document as a value. Only as much of a number is kept as a field can
use: the value of an unsigned integer literal, and the spelling of any other
number. An escape in a string may name one half of a surrogate pair without
the other; the grammar allows such a string, but it has no text, so it is a
value of its own, `Json.brokenText`, and a member whose key is written so has
the key `none`.
-/

namespace LeasePool

/-- A JSON value. The members of an object stand in the order of the document,
    with repeated keys. -/
inductive Json where
  | null
  | bool (b : Bool)
  /-- An integer literal without a sign. -/
  | nat (n : Nat)
  /-- A number with a sign, a fraction or an exponent, as it is spelled. -/
  | number (spelling : String)
  | text (s : String)
  /-- A string with an escape that names half a surrogate pair. -/
  | brokenText
  | array (items : List Json)
  | object (members : List (Option String × Json))
  deriving Inhabited

namespace Json

/-- An object whose keys are all proper texts. -/
def record (members : List (String × Json)) : Json :=
  .object (members.map fun m => (some m.1, m.2))

/-- An optional value, with `null` for none. -/
def ofOption (write : α → Json) : Option α → Json
  | none => .null
  | some a => write a

/-- The members of an object, provided that every key is a text. -/
def textKeys? (members : List (Option String × Json)) : Option (List (String × Json)) :=
  members.mapM fun m => m.1.map fun k => (k, m.2)

end Json

end LeasePool

/-!
# Inspection texts

The text that shows a value to a developer. A string stands between double
quotes and its control characters are written as escapes, so the text stays on
one line; a record is its name followed by its fields in braces; an optional
value is `None` or `Some(…)`.

Escapes are decided for ASCII. All other characters stand for themselves.
-/

namespace LeasePool.Text

/-- How a character is written inside a quoted string. -/
def quotedChar (c : Char) : List Char :=
  if c = '"' then ['\\', '"']
  else if c = '\\' then ['\\', '\\']
  else if c = '\t' then ['\\', 't']
  else if c = '\r' then ['\\', 'r']
  else if c = '\n' then ['\\', 'n']
  else if c.toNat = 0 then ['\\', '0']
  else if c.toNat < 32 ∨ c.toNat = 127 then
    ['\\', 'u', '\x7b'] ++ Nat.toDigits 16 c.toNat ++ ['\x7d']
  else [c]

/-- A string between double quotes, on one line. -/
def quoted (s : String) : String :=
  "\"" ++ String.ofList (s.toList.flatMap quotedChar) ++ "\""

/-- Texts joined by a comma and a blank. -/
def commaSeparated (parts : List String) : String := String.intercalate ", " parts

/-- A record: its name, then its fields in braces. -/
def record (name : String) (fields : List (String × String)) : String :=
  name ++ " \x7b " ++ commaSeparated (fields.map fun f => f.1 ++ ": " ++ f.2) ++ " \x7d"

/-- A map: its entries in braces. -/
def mapping (entries : List (String × String)) : String :=
  "\x7b" ++ commaSeparated (entries.map fun e => e.1 ++ ": " ++ e.2) ++ "\x7d"

/-- An optional value. -/
def optional (write : α → String) : Option α → String
  | none => "None"
  | some a => "Some(" ++ write a ++ ")"

/-- A truth value, in lower case. -/
def truth (b : Bool) : String := if b then "true" else "false"

end LeasePool.Text

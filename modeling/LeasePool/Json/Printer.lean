import LeasePool.Json.Basic
import LeasePool.Text.Digits

/-!
# Compact JSON text

A JSON value on one line without blanks. A string escapes the quote, the
backslash and the control characters below the blank, five of them by a letter
and the others by four lower-case hexadecimal digits; every other character
stands for itself.

`Json.sorted` puts the members of all objects in the order of their keys, for
texts that must not depend on the order in which members were written.
-/

namespace LeasePool.Json

/-- How a character is written inside a JSON string. -/
def escapedChar (c : Char) : List Char :=
  if c = '"' then ['\\', '"']
  else if c = '\\' then ['\\', '\\']
  else if c.toNat = 8 then ['\\', 'b']
  else if c.toNat = 12 then ['\\', 'f']
  else if c = '\n' then ['\\', 'n']
  else if c = '\r' then ['\\', 'r']
  else if c = '\t' then ['\\', 't']
  else if c.toNat < 32 then ['\\', 'u', '0', '0'] ++ Text.hexByte c.toNat
  else [c]

/-- A string between its quotes. -/
def writtenText (s : String) : List Char :=
  '"' :: (s.toList.flatMap escapedChar ++ ['"'])

/-- Half a surrogate pair between quotes. -/
def writtenHalf : List Char := ['"', '\\', 'u', 'd', '8', '0', '0', '"']

mutual

/-- The characters of a value. -/
def written : Json → List Char
  | .null => ['n', 'u', 'l', 'l']
  | .bool true => ['t', 'r', 'u', 'e']
  | .bool false => ['f', 'a', 'l', 's', 'e']
  | .nat n => Nat.toDigits 10 n
  | .number spelling => spelling.toList
  | .text s => writtenText s
  | .brokenText => writtenHalf
  | .array [] => ['[', ']']
  | .array (x :: xs) => '[' :: written x ++ writtenItems xs
  | .object [] => ['\x7b', '\x7d']
  | .object (m :: ms) => '\x7b' :: writtenMember m ++ writtenMembers ms

/-- The items of an array after the first one, and its end. -/
def writtenItems : List Json → List Char
  | [] => [']']
  | x :: xs => ',' :: written x ++ writtenItems xs

/-- A member: its key, a colon and its value. -/
def writtenMember : Option String × Json → List Char
  | (some key, v) => writtenText key ++ ':' :: written v
  | (none, v) => writtenHalf ++ ':' :: written v

/-- The members of an object after the first one, and its end. -/
def writtenMembers : List (Option String × Json) → List Char
  | [] => ['\x7d']
  | m :: ms => ',' :: writtenMember m ++ writtenMembers ms

end

/-- The compact text of a value. -/
def compact (j : Json) : String := String.ofList j.written

/-- Whether the first of two keys comes before the second or is equal to it. -/
def keyLe (a b : Option String × Json) : Bool :=
  match a.1, b.1 with
  | none, _ => true
  | some _, none => false
  | some x, some y => decide (x ≤ y)

mutual

/-- A value with the members of every object in the order of their keys. -/
def sorted : Json → Json
  | .array xs => .array (sortedItems xs)
  | .object ms => .object ((sortedMembers ms).mergeSort keyLe)
  | j => j

/-- The items of an array, each sorted within itself. -/
def sortedItems : List Json → List Json
  | [] => []
  | x :: xs => sorted x :: sortedItems xs

/-- The members of an object, each sorted within itself. -/
def sortedMembers : List (Option String × Json) → List (Option String × Json)
  | [] => []
  | (key, v) :: ms => (key, sorted v) :: sortedMembers ms

end

end LeasePool.Json

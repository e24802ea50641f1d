import LeasePool.Json.Basic
import LeasePool.Text.Digits

/-!
# Reading JSON

The strict grammar: blanks are the space, the tab, the line feed and the
carriage return; nothing may follow the value; a string holds no control
character below the blank; a number has no leading zero and no plus sign.

A reader takes the characters that are left and returns a value with the
characters after it. The readers of nested values take a bound on their depth,
which `Json.parse` sets to more than any text of that length can need.
-/

namespace LeasePool.Json

/-- Whether a character is a blank between the tokens. -/
def isBlank (c : Char) : Bool := c == ' ' || c == '\t' || c == '\n' || c == '\r'

/-- The text from its first character that is not a blank. -/
def skipBlanks (cs : List Char) : List Char := cs.dropWhile isBlank

/-- The number that four hexadecimal digits write. -/
def hexValues? (a b c d : Char) : Option Nat := do
  let w ← Text.hexValue? a
  let x ← Text.hexValue? b
  let y ← Text.hexValue? c
  let z ← Text.hexValue? d
  return ((w * 16 + x) * 16 + y) * 16 + z

/-- The character that an escape of one letter stands for. -/
def shortEscape? : Char → Option Char
  | '"' => some '"'
  | '\\' => some '\\'
  | '/' => some '/'
  | 'b' => some '\x08'
  | 'f' => some '\x0c'
  | 'n' => some '\n'
  | 'r' => some '\r'
  | 't' => some '\t'
  | _ => none

/-- A piece of a string: a character, or a unit of sixteen bits that was
    written as an escape. -/
inductive Piece where
  | char (c : Char)
  | unit (n : Nat)

/-- The pieces of a string up to its closing quote, and the text after it. -/
def readPieces : List Char → Option (List Piece × List Char)
  | [] => none
  | '"' :: rest => some ([], rest)
  | '\\' :: 'u' :: a :: b :: c :: d :: rest => do
    let n ← hexValues? a b c d
    let (ps, rest) ← readPieces rest
    return (.unit n :: ps, rest)
  | '\\' :: e :: rest => do
    let c ← shortEscape? e
    let (ps, rest) ← readPieces rest
    return (.char c :: ps, rest)
  | c :: rest =>
    if c.toNat < 32 ∨ c = '\\' then none
    else do
      let (ps, rest) ← readPieces rest
      return (.char c :: ps, rest)

/-- Whether a unit is the first half of a surrogate pair. -/
def isHighHalf (n : Nat) : Bool := 0xD800 ≤ n && n < 0xDC00

/-- Whether a unit is the second half of a surrogate pair. -/
def isLowHalf (n : Nat) : Bool := 0xDC00 ≤ n && n < 0xE000

/-- The characters that pieces stand for. Two halves of a surrogate pair make
    one character; a half on its own makes none. -/
def assemble? : List Piece → Option (List Char)
  | [] => some []
  | .char c :: ps => (assemble? ps).map (c :: ·)
  | .unit n :: ps =>
    if isHighHalf n then
      match ps with
      | .unit m :: ps =>
        if isLowHalf m then
          (assemble? ps).map (Char.ofNat (0x10000 + (n - 0xD800) * 0x400 + (m - 0xDC00)) :: ·)
        else none
      | _ => none
    else if isLowHalf n then none
    else (assemble? ps).map (Char.ofNat n :: ·)

/-- The text of a string after its opening quote, or `none` for a string that
    has no text, and what follows the closing quote. -/
def readText (cs : List Char) : Option (Option String × List Char) := do
  let (ps, rest) ← readPieces cs
  return ((assemble? ps).map String.ofList, rest)

/-- The longest run of decimal digits, and the text after it. -/
def readDigits (cs : List Char) : List Char × List Char :=
  (cs.takeWhile Char.isDigit, cs.dropWhile Char.isDigit)

/-- What follows an optional fraction. -/
def skipFraction? : List Char → Option (List Char)
  | '.' :: rest =>
    match readDigits rest with
    | ([], _) => none
    | (_, rest) => some rest
  | cs => some cs

/-- What follows an optional sign. -/
def skipSign : List Char → List Char
  | '+' :: rest => rest
  | '-' :: rest => rest
  | cs => cs

/-- What follows an optional exponent. -/
def skipExponent? : List Char → Option (List Char)
  | c :: rest =>
    if c = 'e' ∨ c = 'E' then
      match readDigits (skipSign rest) with
      | ([], _) => none
      | (_, rest) => some rest
    else some (c :: rest)
  | [] => some []

/-- The digits of an integer without leading zeros, and the text after it. -/
def readInteger (cs : List Char) : Option (List Char × List Char) :=
  match readDigits cs with
  | ([], _) => none
  | ('0' :: _ :: _, _) => none
  | found => some found

/-- A number, and the text after it. -/
def readNumber (cs : List Char) : Option (Json × List Char) := do
  let unsigned := match cs with
    | '-' :: rest => rest
    | cs => cs
  let (digits, afterInteger) ← readInteger unsigned
  let rest ← skipFraction? afterInteger >>= skipExponent?
  if unsigned.length = cs.length ∧ rest.length = afterInteger.length then
    return (.nat (Nat.ofDigitChars 10 digits 0), rest)
  else
    return (.number (String.ofList (cs.take (cs.length - rest.length))), rest)

/-- A string as a value. -/
def ofText? : Option String → Json
  | some s => .text s
  | none => .brokenText

mutual

/-- A value, and the text after it. -/
def readValue : Nat → List Char → Option (Json × List Char)
  | 0, _ => none
  | depth + 1, cs =>
    match skipBlanks cs with
    | 'n' :: 'u' :: 'l' :: 'l' :: rest => some (.null, rest)
    | 't' :: 'r' :: 'u' :: 'e' :: rest => some (.bool true, rest)
    | 'f' :: 'a' :: 'l' :: 's' :: 'e' :: rest => some (.bool false, rest)
    | '"' :: rest => do
      let (s, rest) ← readText rest
      return (ofText? s, rest)
    | '[' :: rest =>
      match skipBlanks rest with
      | ']' :: rest => some (.array [], rest)
      | rest => do
        let (xs, rest) ← readItems depth rest
        return (.array xs, rest)
    | '\x7b' :: rest =>
      match skipBlanks rest with
      | '\x7d' :: rest => some (.object [], rest)
      | rest => do
        let (ms, rest) ← readMembers depth rest
        return (.object ms, rest)
    | cs => readNumber cs

/-- The items of an array, of which there is at least one, and the text after
    its end. -/
def readItems : Nat → List Char → Option (List Json × List Char)
  | 0, _ => none
  | depth + 1, cs => do
    let (x, rest) ← readValue depth cs
    match skipBlanks rest with
    | ']' :: rest => return ([x], rest)
    | ',' :: rest =>
      let (xs, rest) ← readItems depth rest
      return (x :: xs, rest)
    | _ => none

/-- The members of an object, of which there is at least one, and the text
    after its end. -/
def readMembers : Nat → List Char → Option (List (Option String × Json) × List Char)
  | 0, _ => none
  | depth + 1, cs =>
    match skipBlanks cs with
    | '"' :: rest => do
      let (key, rest) ← readText rest
      match skipBlanks rest with
      | ':' :: rest =>
        let (v, rest) ← readValue depth rest
        match skipBlanks rest with
        | '\x7d' :: rest => return ([(key, v)], rest)
        | ',' :: rest =>
          let (ms, rest) ← readMembers depth rest
          return ((key, v) :: ms, rest)
        | _ => none
      | _ => none
    | _ => none

end

/-- The value that a text writes, if it is a JSON document. -/
def parse (s : String) : Option Json :=
  match readValue (2 * s.length + 2) s.toList with
  | some (j, rest) => if (skipBlanks rest).isEmpty then some j else none
  | none => none

end LeasePool.Json

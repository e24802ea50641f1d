import LeasePool.Text.Digits
import LeasePool.Toml.Layout

/-!
# TOML strings

A string is basic, between double quotes and with escapes, or literal, between
single quotes and without. Either may stand on one line or, between triple
quotes, on several. In a string of several lines a line end is a line feed, the
first one directly after the opening quotes does not count, and one or two
quotes may stand before the closing ones. A backslash at the end of a line of a
basic string removes the line end and all space after it.
-/

namespace LeasePool.Toml

/-- The character whose number hexadecimal digits write, unless they write the
    number of no character. -/
def scalar? (digits : List Char) : Option Char := do
  let values ← digits.mapM Text.hexValue?
  let n := values.foldl (fun n v => n * 16 + v) 0
  if n.isValidChar then return Char.ofNat n else none

/-- The character that an escape of one letter stands for. -/
def shortEscape? : Char → Option Char
  | 'b' => some '\x08'
  | 'f' => some '\x0c'
  | 'n' => some '\n'
  | 'r' => some '\r'
  | 't' => some '\t'
  | '"' => some '"'
  | '\\' => some '\\'
  | _ => none

/-- The character of the escape after a backslash, and the text after it. -/
def readEscape : List Char → Option (Char × List Char)
  | 'u' :: rest =>
    if rest.length < 4 then none else (scalar? (rest.take 4)).map fun c => (c, rest.drop 4)
  | 'U' :: rest =>
    if rest.length < 8 then none else (scalar? (rest.take 8)).map fun c => (c, rest.drop 8)
  | e :: rest => (shortEscape? e).map fun c => (c, rest)
  | [] => none

/-- Whether a character stands for itself in a basic string. -/
def isBasicChar (c : Char) : Bool := isCommentChar c && c != '"' && c != '\\'

/-- Whether a character may stand in a literal string. -/
def isLiteralChar (c : Char) : Bool := isCommentChar c && c != '\''

/-- The characters of a basic string up to its closing quote, and the text
    after it. The bound is on the number of characters. -/
def readBasic : Nat → List Char → Option (List Char × List Char)
  | 0, _ => none
  | _, [] => none
  | _, '"' :: rest => some ([], rest)
  | bound + 1, '\\' :: rest => do
    let (c, rest) ← readEscape rest
    let (s, rest) ← readBasic bound rest
    return (c :: s, rest)
  | bound + 1, c :: rest =>
    if isBasicChar c then (readBasic bound rest).map fun (s, rest) => (c :: s, rest) else none

/-- The characters of a literal string up to its closing quote, and the text
    after it. -/
def readLiteral : List Char → Option (List Char × List Char)
  | [] => none
  | '\'' :: rest => some ([], rest)
  | c :: rest =>
    if isLiteralChar c then (readLiteral rest).map fun (s, rest) => (c :: s, rest) else none

/-- Whether only blanks are left before the end of the line. -/
def atLineEnd (cs : List Char) : Bool :=
  match skipBlanks cs with
  | '\n' :: _ => true
  | '\r' :: '\n' :: _ => true
  | _ => false

/-- The characters of a basic string of several lines up to its closing quotes,
    and the text after them. The bound is on the number of characters. -/
def readBasicLines : Nat → List Char → Option (List Char × List Char)
  | 0, _ => none
  | _, [] => none
  | _, '"' :: '"' :: '"' :: '"' :: '"' :: rest => some (['"', '"'], rest)
  | _, '"' :: '"' :: '"' :: '"' :: rest => some (['"'], rest)
  | _, '"' :: '"' :: '"' :: rest => some ([], rest)
  | bound + 1, '\\' :: rest =>
    if atLineEnd rest then readBasicLines bound (skipSpace rest)
    else do
      let (c, rest) ← readEscape rest
      let (s, rest) ← readBasicLines bound rest
      return (c :: s, rest)
  | bound + 1, '\r' :: '\n' :: rest =>
    (readBasicLines bound rest).map fun (s, rest) => ('\n' :: s, rest)
  | bound + 1, c :: rest =>
    if c = '\n' ∨ c = '"' ∨ isBasicChar c then
      (readBasicLines bound rest).map fun (s, rest) => (c :: s, rest)
    else none

/-- The characters of a literal string of several lines up to its closing
    quotes, and the text after them. -/
def readLiteralLines : List Char → Option (List Char × List Char)
  | [] => none
  | '\'' :: '\'' :: '\'' :: '\'' :: '\'' :: rest => some (['\'', '\''], rest)
  | '\'' :: '\'' :: '\'' :: '\'' :: rest => some (['\''], rest)
  | '\'' :: '\'' :: '\'' :: rest => some ([], rest)
  | '\r' :: '\n' :: rest => (readLiteralLines rest).map fun (s, rest) => ('\n' :: s, rest)
  | c :: rest =>
    if c = '\n' ∨ c = '\'' ∨ isLiteralChar c then
      (readLiteralLines rest).map fun (s, rest) => (c :: s, rest)
    else none

/-- The text without a line end that it begins with. -/
def skipLineEnd : List Char → List Char
  | '\n' :: rest => rest
  | '\r' :: '\n' :: rest => rest
  | cs => cs

/-- A string on one line, and the text after it. -/
def readLineString : List Char → Option (String × List Char)
  | '"' :: rest => (readBasic (rest.length + 1) rest).map fun (s, rest) => (String.ofList s, rest)
  | '\'' :: rest => (readLiteral rest).map fun (s, rest) => (String.ofList s, rest)
  | _ => none

/-- A string, and the text after it. -/
def readString : List Char → Option (String × List Char)
  | '"' :: '"' :: '"' :: rest =>
    (readBasicLines (rest.length + 1) (skipLineEnd rest)).map fun (s, rest) =>
      (String.ofList s, rest)
  | '\'' :: '\'' :: '\'' :: rest =>
    (readLiteralLines (skipLineEnd rest)).map fun (s, rest) =>
      (String.ofList s, rest)
  | cs => readLineString cs

end LeasePool.Toml

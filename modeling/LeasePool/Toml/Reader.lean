import LeasePool.Toml.Calendar
import LeasePool.Toml.Numeral
import LeasePool.Toml.Quotation
import LeasePool.Toml.Tree

/-!
# Reading TOML documents

A document is read in two steps: its lines become sections, each with its header
and its pairs, and the sections make the tables. Main statement: `parse` is the
table of a document, if the text is one.

Arrays and inline tables nest to a depth below eighty, and a dotted key has
fewer than eighty parts.
-/

namespace LeasePool.Toml

/-- Arrays and inline tables may lie in this many others, at most, and a key
    may have this many parts. -/
def depthLimit : Nat := 79

/-- Whether a character may stand in a key without quotes. -/
def isKeyChar (c : Char) : Bool :=
  ('a' ≤ c && c ≤ 'z') || ('A' ≤ c && c ≤ 'Z') || ('0' ≤ c && c ≤ '9') || c == '-' || c == '_'

/-- One part of a key, and the text after it. -/
def readKeyPart (cs : List Char) : Option (String × List Char) :=
  match cs with
  | '"' :: _ => readLineString cs
  | '\'' :: _ => readLineString cs
  | _ =>
    match cs.takeWhile isKeyChar with
    | [] => none
    | part => some (String.ofList part, cs.dropWhile isKeyChar)

/-- The parts of a key, at most as many as the bound says: those before the
    last one, the last one, and the text after them. -/
def readKey : Nat → List Char → Option (List String × String × List Char)
  | 0, _ => none
  | bound + 1, cs => do
    let (part, rest) ← readKeyPart (skipBlanks cs)
    match skipBlanks rest with
    | '.' :: rest =>
      let (path, last, rest) ← readKey bound rest
      return (part :: path, last, rest)
    | rest => return ([], part, rest)

/-- A key with its value. -/
structure Pair where
  /-- The parts of the key before the last one. -/
  path : List String
  /-- The last part of the key. -/
  key : String
  value : Value

/-- A key, its value, and the text after them. -/
def readPair (value : List Char → Option (Value × List Char)) (cs : List Char) :
    Option (Pair × List Char) := do
  let (path, key, rest) ← readKey depthLimit cs
  match rest with
  | '=' :: rest =>
    let (v, rest) ← value (skipBlanks rest)
    return (⟨path, key, v⟩, rest)
  | _ => none

/-- The entries that pairs add to a table. -/
def fill (pairs : List Pair) (entries : Entries) : Option Entries :=
  pairs.foldlM (fun entries p => entries.addPair p.path p.key p.value) entries

/-- The items of an array after its opening bracket, and the text after its
    closing one. The bound is on the number of items. -/
def readItems (value : List Char → Option (Value × List Char)) :
    Nat → List Char → Option (List Value × List Char)
  | 0, _ => none
  | bound + 1, cs => do
    match ← skipLayout? false cs with
    | ']' :: rest => return ([], rest)
    | cs =>
      let (v, rest) ← value cs
      match ← skipLayout? false rest with
      | ']' :: rest => return ([v], rest)
      | ',' :: rest =>
        let (vs, rest) ← readItems value bound rest
        return (v :: vs, rest)
      | _ => none

/-- The pairs of an inline table that is not empty, and the text after its
    closing brace. The bound is on the number of pairs. -/
def readInlinePairs (value : List Char → Option (Value × List Char)) :
    Nat → List Char → Option (List Pair × List Char)
  | 0, _ => none
  | bound + 1, cs => do
    let (p, rest) ← readPair value cs
    match skipBlanks rest with
    | '\x7d' :: rest => return ([p], rest)
    | ',' :: rest =>
      let (ps, rest) ← readInlinePairs value bound rest
      return (p :: ps, rest)
    | _ => none

/-- The pairs of an inline table after its opening brace, and the text after its
    closing one. -/
def readInlineTable (value : List Char → Option (Value × List Char)) (cs : List Char) :
    Option (Value × List Char) :=
  match skipBlanks cs with
  | '\x7d' :: rest => some (.table [], rest)
  | cs => do
    let (pairs, rest) ← readInlinePairs value (cs.length + 1) cs
    let entries ← fill pairs []
    return (.table (finishEntries entries), rest)

/-- A value that holds no other values, and the text after it. -/
def readScalar (cs : List Char) : Option (Value × List Char) :=
  match cs with
  | '"' :: _ | '\'' :: _ => (readString cs).map fun (s, rest) => (.string s, rest)
  | 't' :: 'r' :: 'u' :: 'e' :: rest => some (.boolean true, rest)
  | 'f' :: 'a' :: 'l' :: 's' :: 'e' :: rest => some (.boolean false, rest)
  | cs =>
    match Calendar.readMoment cs with
    | some (text, rest) => some (.moment text, rest)
    | none => readNumber cs

/-- A value in which arrays and inline tables nest at most to the given depth,
    and the text after it. -/
def readValue : Nat → List Char → Option (Value × List Char)
  | 0, '[' :: _ => none
  | 0, '\x7b' :: _ => none
  | depth + 1, '[' :: rest =>
    (readItems (readValue depth) (rest.length + 1) rest).map fun (vs, rest) => (.array vs, rest)
  | depth + 1, '\x7b' :: rest => readInlineTable (readValue depth) rest
  | _, cs => readScalar cs

/-- The header of a section. -/
structure Header where
  /-- Whether the section is one item of an array of tables. -/
  isItem : Bool
  /-- The parts of the key before the last one. -/
  path : List String
  /-- The last part of the key. -/
  key : String

/-- A header and the text after it. -/
def readHeader : List Char → Option (Header × List Char)
  | '[' :: '[' :: rest => do
    let (path, key, rest) ← readKey depthLimit rest
    match rest with
    | ']' :: ']' :: rest => return (⟨true, path, key⟩, rest)
    | _ => none
  | '[' :: rest => do
    let (path, key, rest) ← readKey depthLimit rest
    match rest with
    | ']' :: rest => return (⟨false, path, key⟩, rest)
    | _ => none
  | _ => none

/-- A section with its header. -/
structure Section where
  header : Header
  pairs : List Pair

/-- The pairs before the first header, and the sections after it. The bound is
    on the number of lines. -/
def readLines : Nat → List Char → Option (List Pair × List Section)
  | 0, _ => none
  | bound + 1, cs =>
    match skipBlanks cs with
    | [] => some ([], [])
    | '[' :: rest => do
      let (header, rest) ← readHeader ('[' :: rest)
      let rest ← afterLine? rest
      let (pairs, sections) ← readLines bound rest
      return ([], ⟨header, pairs⟩ :: sections)
    | c :: rest =>
      if c = '#' ∨ c = '\n' ∨ c = '\r' then do
        let rest ← afterLine? (c :: rest)
        readLines bound rest
      else do
        let (pair, rest) ← readPair (readValue depthLimit) (c :: rest)
        let rest ← afterLine? rest
        let (pairs, sections) ← readLines bound rest
        return (pair :: pairs, sections)

/-- Adds a section to the document. -/
def addSection (document : Entries) (s : Section) : Option Entries :=
  if s.header.isItem then document.addTableItem s.header.path s.header.key (fill s.pairs)
  else document.addTable s.header.path s.header.key (fill s.pairs)

/-- The text without the byte order mark that it may begin with. -/
def skipByteOrderMark : List Char → List Char
  | c :: rest => if c.toNat = 0xFEFF then rest else c :: rest
  | [] => []

/-- The table of a document, if the text is one. -/
def parse (s : String) : Option Table := do
  let cs := skipByteOrderMark s.toList
  let (pairs, sections) ← readLines (cs.length + 1) cs
  let top ← fill pairs []
  let document ← sections.foldlM addSection top
  return finishEntries document

end LeasePool.Toml

/-!
# Blanks, comments and line ends in TOML

A line ends with a line feed, with or without a carriage return before it, or
with the document. Blanks within a line are the space and the tab. A comment
runs from its sign to the end of the line and holds no control character but
the tab.
-/

namespace LeasePool.Toml

/-- Whether a character is a blank within a line. -/
def isBlank (c : Char) : Bool := c == ' ' || c == '\t'

/-- Whether a character may stand in a comment: no control character but the
    tab. -/
def isCommentChar (c : Char) : Bool := c == '\t' || (32 ≤ c.toNat && c.toNat != 127)

/-- The text from its first character that is not a blank. -/
def skipBlanks (cs : List Char) : List Char := cs.dropWhile isBlank

/-- The text without its leading comment, if it has one. -/
def skipComment : List Char → List Char
  | '#' :: rest => rest.dropWhile isCommentChar
  | cs => cs

/-- What follows the line end that a text begins with. -/
def afterLineEnd? : List Char → Option (List Char)
  | [] => some []
  | '\n' :: rest => some rest
  | '\r' :: '\n' :: rest => some rest
  | _ => none

/-- What follows a line of which only blanks and a comment are left. -/
def afterLine? (cs : List Char) : Option (List Char) :=
  afterLineEnd? (skipComment (skipBlanks cs))

/-- The text from its first character that is neither a blank, nor a line end,
    nor in a comment; a comment must be closed by a line end. The flag says
    whether the text begins inside a comment. -/
def skipLayout? : Bool → List Char → Option (List Char)
  | false, [] => some []
  | true, [] => none
  | _, '\n' :: rest => skipLayout? false rest
  | _, '\r' :: '\n' :: rest => skipLayout? false rest
  | true, c :: rest => if isCommentChar c then skipLayout? true rest else none
  | false, c :: rest =>
    if isBlank c then skipLayout? false rest
    else if c = '#' then skipLayout? true rest
    else some (c :: rest)

/-- The text from its first character that is neither a blank nor a line end. -/
def skipSpace : List Char → List Char
  | '\r' :: '\n' :: rest => skipSpace rest
  | c :: rest => if isBlank c ∨ c = '\n' then skipSpace rest else c :: rest
  | [] => []

end LeasePool.Toml

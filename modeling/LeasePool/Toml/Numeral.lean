import LeasePool.Text.Digits
import LeasePool.Toml.Value

/-!
# TOML numbers

An integer is decimal with an optional sign and no leading zero, or
hexadecimal, octal or binary without a sign; it fits into 64 bits with sign. A
float has a fraction, an exponent or both, or is infinity or no number; a
positive one that is too large for the format is refused. Single underscores
may stand between digits.

A reader takes the characters that are left and returns what it found with the
characters after it.
-/

namespace LeasePool.Toml

/-- The digits of which a text begins with at least one, with single
    underscores between them left out, and the text after them. -/
def readDigits (isDigit : Char → Bool) : List Char → Option (List Char × List Char)
  | c :: '_' :: rest =>
    if isDigit c then (readDigits isDigit rest).map fun (ds, rest) => (c :: ds, rest) else none
  | c :: rest =>
    if isDigit c then
      match readDigits isDigit rest with
      | some (ds, rest) => some (c :: ds, rest)
      | none => some ([c], rest)
    else none
  | [] => none

/-- Whether a character is a digit below the base. -/
def isDigitOf (base : Nat) (c : Char) : Bool :=
  match Text.hexValue? c with
  | some v => v < base
  | none => false

/-- The number that digits write in a base. -/
def numberOf (base : Nat) (digits : List Char) : Nat :=
  digits.foldl (fun n c => n * base + (Text.hexValue? c).getD 0) 0

/-- An optional sign, and the text after it: whether it is a minus. -/
def readSign : List Char → Bool × List Char
  | '+' :: rest => (false, rest)
  | '-' :: rest => (true, rest)
  | cs => (false, cs)

/-- The digits of a decimal integer without its sign: a zero alone, or digits
    that do not begin with zero. -/
def readDecimal : List Char → Option (List Char × List Char)
  | '0' :: rest => some (['0'], rest)
  | cs => readDigits Char.isDigit cs

/-- An integer that fits into 64 bits with sign. -/
def int64? (n : Int) : Option Value :=
  if -9223372036854775808 ≤ n ∧ n ≤ 9223372036854775807 then some (.integer n) else none

/-- An integer in a base other than ten, after its mark. -/
def readBased (base : Nat) (cs : List Char) : Option (Value × List Char) := do
  let (digits, rest) ← readDigits (isDigitOf base) cs
  let n ← int64? (numberOf base digits)
  return (n, rest)

/-- An integer. -/
def readInteger : List Char → Option (Value × List Char)
  | '0' :: 'x' :: rest => readBased 16 rest
  | '0' :: 'o' :: rest => readBased 8 rest
  | '0' :: 'b' :: rest => readBased 2 rest
  | cs => do
    let (negative, rest) := readSign cs
    let (digits, rest) ← readDecimal rest
    let n : Int := numberOf 10 digits
    let n ← int64? (if negative then -n else n)
    return (n, rest)

/-- The digits of an optional fraction after its point, or `none` if the text
    has no point. -/
def readFraction : List Char → Option (List Char × List Char)
  | '.' :: rest => readDigits Char.isDigit rest
  | _ => none

/-- An exponent after its mark, or `none` if the text has no mark. -/
def readExponent : List Char → Option (Int × List Char)
  | c :: rest =>
    if c = 'e' ∨ c = 'E' then do
      let (negative, rest) := readSign rest
      let (digits, rest) ← readDigits Char.isDigit rest
      let n : Int := numberOf 10 digits
      return (if negative then -n else n, rest)
    else none
  | [] => none

/-- Whether `digits * 10 ^ exponent` is nearer to infinity than to the largest
    number of the format with 53 digits and an exponent of eleven bits. Numbers
    far from that bound are told by their order of magnitude alone. -/
def overflows (digits : List Char) (exponent : Int) : Bool :=
  let significant := digits.dropWhile (· == '0')
  let magnitude : Int := significant.length + exponent
  if significant.isEmpty ∨ magnitude < 300 then false
  else if 320 < magnitude then true
  else
    let n := numberOf 10 significant
    let bound := Nat.pow 2 1024 - Nat.pow 2 970
    if 0 ≤ exponent then decide (bound ≤ n * Nat.pow 10 exponent.toNat)
    else decide (bound * Nat.pow 10 (-exponent).toNat ≤ n)

/-- A float that is written in digits. -/
def readDecimalFloat (cs : List Char) : Option (Value × List Char) := do
  let (negative, rest) := readSign cs
  let (whole, rest) ← readDecimal rest
  let (fraction, exponent, rest) ← match readFraction rest with
    | some (fraction, rest) =>
      match readExponent rest with
      | some (exponent, rest) => some (fraction, exponent, rest)
      | none => some (fraction, 0, rest)
    | none => (readExponent rest).map fun (exponent, rest) => ([], exponent, rest)
  if !negative && overflows (whole ++ fraction) (exponent - fraction.length) then none
  else return (.float (String.ofList (cs.take (cs.length - rest.length))), rest)

/-- Infinity or no number, with an optional sign. -/
def readSpecialFloat (cs : List Char) : Option (Value × List Char) :=
  match readSign cs with
  | (negative, 'i' :: 'n' :: 'f' :: rest) =>
    some (.float (if negative then "-inf" else "inf"), rest)
  | (_, 'n' :: 'a' :: 'n' :: rest) => some (.float "nan", rest)
  | _ => none

/-- A number. -/
def readNumber (cs : List Char) : Option (Value × List Char) :=
  readDecimalFloat cs <|> readSpecialFloat cs <|> readInteger cs

end LeasePool.Toml

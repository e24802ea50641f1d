import LeasePool.Text.Digits

/-!
# Dates and times in TOML

A date is a day of the calendar, with the day within its month and leap years
observed; a time has hours below 24, minutes below 60 and seconds up to 60. A
date may be followed by a time, and that by its distance from universal time.
The normalised text has upper-case marks, no more than nine and no trailing
digits of a fraction, and a plus sign where there is no distance at all.
-/

namespace LeasePool.Toml.Calendar

/-- The number that the first `count` characters write, all of them digits,
    and the text after them. -/
def readFixed (count : Nat) (cs : List Char) : Option (Nat × List Char) :=
  let digits := cs.take count
  if digits.length = count ∧ digits.all Char.isDigit then
    some (Nat.ofDigitChars 10 digits 0, cs.drop count)
  else none

/-- What follows a given character. -/
def expect? (c : Char) : List Char → Option (List Char)
  | d :: rest => if d = c then some rest else none
  | [] => none

/-- Whether a year has a leap day. -/
def isLeapYear (year : Nat) : Bool := year % 4 == 0 && (year % 100 != 0 || year % 400 == 0)

/-- The number of days of a month. -/
def daysIn (year month : Nat) : Nat :=
  if month = 2 then if isLeapYear year then 29 else 28
  else if month = 4 ∨ month = 6 ∨ month = 9 ∨ month = 11 then 30
  else 31

/-- A date in its normalised text, and the text after it. -/
def readDate (cs : List Char) : Option (List Char × List Char) := do
  let (year, rest) ← readFixed 4 cs
  let rest ← expect? '-' rest
  let (month, rest) ← readFixed 2 rest
  let rest ← expect? '-' rest
  let (day, rest) ← readFixed 2 rest
  if 1 ≤ month ∧ month ≤ 12 ∧ 1 ≤ day ∧ day ≤ daysIn year month then
    return (Text.padded 4 year ++ '-' :: Text.padded 2 month ++ '-' :: Text.padded 2 day, rest)
  else none

/-- The fraction of a second in its normalised text, and the text after it;
    `none` if a point has no digit after it. -/
def readFraction : List Char → Option (List Char × List Char)
  | '.' :: rest =>
    let digits := rest.takeWhile Char.isDigit
    if digits.isEmpty then none
    else some (Text.fraction (digits.take 9), rest.dropWhile Char.isDigit)
  | cs => some ([], cs)

/-- A time of day in its normalised text, and the text after it. -/
def readTime (cs : List Char) : Option (List Char × List Char) := do
  let (hour, rest) ← readFixed 2 cs
  let rest ← expect? ':' rest
  let (minute, rest) ← readFixed 2 rest
  let rest ← expect? ':' rest
  let (second, rest) ← readFixed 2 rest
  if hour < 24 ∧ minute < 60 ∧ second ≤ 60 then
    let (fraction, rest) ← readFraction rest
    let time := Text.padded 2 hour ++ ':' :: Text.padded 2 minute ++ ':' :: Text.padded 2 second
    return (time ++ fraction, rest)
  else none

/-- The hours and minutes of a distance from universal time. -/
def readDistance (cs : List Char) : Option (Nat × Nat × List Char) := do
  let (hour, rest) ← readFixed 2 cs
  let rest ← expect? ':' rest
  let (minute, rest) ← readFixed 2 rest
  if hour < 24 ∧ minute < 60 then return (hour, minute, rest) else none

/-- An optional distance from universal time in its normalised text, and the
    text after it. -/
def readOffset : List Char → Option (List Char × List Char)
  | [] => some ([], [])
  | c :: rest =>
    if c = 'Z' ∨ c = 'z' then some (['Z'], rest)
    else if c = '+' ∨ c = '-' then do
      let (hour, minute, rest) ← readDistance rest
      let sign := if c = '-' ∧ (hour, minute) ≠ (0, 0) then '-' else '+'
      return (sign :: Text.padded 2 hour ++ ':' :: Text.padded 2 minute, rest)
    else some ([], c :: rest)

/-- The time that follows a date, with its distance from universal time. -/
def readTimeOfDate : List Char → Option (List Char × List Char)
  | c :: rest =>
    if c = 'T' ∨ c = 't' ∨ c = ' ' then do
      let (time, rest) ← readTime rest
      let (offset, rest) ← readOffset rest
      return ('T' :: time ++ offset, rest)
    else none
  | [] => none

/-- A date, a time or both in normalised text, and the text after it. -/
def readMoment (cs : List Char) : Option (String × List Char) :=
  match readDate cs with
  | some (date, rest) =>
    match readTimeOfDate rest with
    | some (time, rest) => some (String.ofList (date ++ time), rest)
    | none => some (String.ofList date, rest)
  | none => (readTime cs).map fun (time, rest) => (String.ofList time, rest)

end LeasePool.Toml.Calendar

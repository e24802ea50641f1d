/-!
# Digits

Numbers in digits, as several formats of the library write and read them.

* `hexValue?_digitChar`: a hexadecimal digit is read as what it was written for.
-/

namespace LeasePool.Text

/-- The decimal digits of a number, filled up on the left with zeros to a given
    width. -/
def padded (width n : Nat) : List Char :=
  let digits := Nat.toDigits 10 n
  List.replicate (width - digits.length) '0' ++ digits

/-- A decimal fraction with the given digits: its point and its digits without
    the zeros at the end, or nothing at all if there are only zeros. -/
def fraction (digits : List Char) : List Char :=
  match (digits.reverse.dropWhile (· == '0')).reverse with
  | [] => []
  | kept => '.' :: kept

/-- The two lower-case hexadecimal digits of a byte. -/
def hexByte (n : Nat) : List Char := [Nat.digitChar (n / 16), Nat.digitChar (n % 16)]

/-- The value of a hexadecimal digit in either case. -/
def hexValue? (c : Char) : Option Nat :=
  if '0' ≤ c ∧ c ≤ '9' then some (c.toNat - '0'.toNat)
  else if 'a' ≤ c ∧ c ≤ 'f' then some (c.toNat - 'a'.toNat + 10)
  else if 'A' ≤ c ∧ c ≤ 'F' then some (c.toNat - 'A'.toNat + 10)
  else none

theorem hexValue?_digitChar {n : Nat} (h : n < 16) : hexValue? (Nat.digitChar n) = some n := by
  have all : ∀ n, n < 16 → hexValue? (Nat.digitChar n) = some n := by decide
  exact all n h

end LeasePool.Text

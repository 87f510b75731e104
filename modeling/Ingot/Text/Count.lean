/-!
# Counts

A count is written in decimal digits, with a plus sign in front or without.
-/

namespace Ingot.Text

/-- The number that a row of decimal digits writes, if there are only digits. -/
def digitsValue? : Nat → List Char → Option Nat
  | n, [] => some n
  | n, c :: cs => if c.isDigit then digitsValue? (10 * n + (c.toNat - '0'.toNat)) cs else none

/-- The number that a text writes, if it is below a limit. -/
def readCount? (limit : Nat) (text : String) : Option Nat :=
  let digits := match text.toList with
    | '+' :: cs => cs
    | cs => cs
  if digits.isEmpty then none else (digitsValue? 0 digits).filter (· < limit)

end Ingot.Text

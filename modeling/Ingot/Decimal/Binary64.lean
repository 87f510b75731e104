/-!
# Binary floating point numbers and their decimal texts

Numbers of the binary format with 53 bits of precision, as significand and exponent.
`ofDecimal` rounds a decimal to the nearest of them, a tie to the even significand;
`text` writes the fewest digits that read back, without an exponent.
-/

namespace Ingot.Decimal

/-- A number of the 64-bit binary format. -/
inductive Binary64 where
  /-- The number `significand * 2 ^ exponent` with a sign. -/
  | finite (negative : Bool) (significand : Nat) (exponent : Int)
  /-- An infinite number. -/
  | infinite (negative : Bool)
  /-- No number. -/
  | notNumber
  deriving DecidableEq, Repr, Inhabited

namespace Binary64

/-- The least exponent. -/
def leastExponent : Int := -1074

/-- The largest exponent. -/
def largestExponent : Int := 971

/-- One more than the largest significand. -/
def significandLimit : Nat := 9007199254740992

/-- A quotient rounded to the nearest whole number, a tie to the even one. -/
def roundQuotient (num den : Nat) : Nat :=
  let q := num / den
  let r := num % den
  if 2 * r > den ∨ (2 * r = den ∧ q % 2 = 1) then q + 1 else q

/-- The quotient of two numbers after the first one is multiplied by a power. -/
def scaled (base : Nat) (exponent : Int) (num den : Nat) : Nat × Nat :=
  if exponent ≥ 0 then (num * Nat.pow base exponent.toNat, den)
  else (num, den * Nat.pow base (-exponent).toNat)

/-- The quotient of two positive numbers rounded to the nearest number of the format. -/
def ofQuotient (negative : Bool) (num den : Nat) : Binary64 :=
  let guess : Int := max leastExponent ((num.log2 : Int) - den.log2 - 53)
  let rounded (e : Int) : Nat :=
    let (n, d) := scaled 2 (-e) num den
    roundQuotient n d
  let exponent :=
    if rounded guess < significandLimit then guess
    else if rounded (guess + 1) < significandLimit then guess + 1
    else guess + 2
  if exponent > largestExponent then .infinite negative
  else .finite negative (rounded exponent) exponent

/-- The largest decimal exponent of a finite number. -/
def largestDecimal : Int := 309

/-- A decimal exponent of which all numbers round to zero. -/
def leastDecimal : Int := -325

/-- The number nearest to `digits * 10 ^ exponent`. -/
def ofDecimal (negative : Bool) (digits : Nat) (exponent : Int) : Binary64 :=
  let size : Int := (Nat.toDigits 10 digits).length
  if digits = 0 ∨ size + exponent < leastDecimal then .finite negative 0 leastExponent
  else if size + exponent > largestDecimal + 1 then .infinite negative
  else
    let (num, den) := scaled 10 exponent digits 1
    ofQuotient negative num den

/-! ### Text -/

/-- A decimal: the number `digits * 10 ^ exponent`. -/
structure Shortest where
  /-- The digits as a number. -/
  digits : Nat
  /-- The exponent of ten. -/
  exponent : Int

/-- The larger of the two exponents of ten between which a positive quotient lies. -/
def decimalSize (num den : Nat) : Int :=
  let digits (n : Nat) : Int := (Nat.toDigits 10 n).length
  let guess := digits num - digits den
  let (n, d) := scaled 10 (-guess) num den
  if n ≥ d then guess + 1 else guess

/-- The decimal with `count` digits nearest to a positive number, if it reads back. -/
def nearestWith (significand : Nat) (exponent : Int) (count : Nat) : Option Shortest :=
  let (num, den) := scaled 2 exponent significand 1
  let place := decimalSize num den - count
  let (n, d) := scaled 10 (-place) num den
  let down := n / d
  let readsBack (candidate : Nat) : Bool :=
    candidate != 0 &&
      ofDecimal false candidate place == ofQuotient false num den
  let candidates := if 2 * (n % d) ≤ d then [down, down + 1] else [down + 1, down]
  (candidates.find? readsBack).map fun digits => ⟨digits, place⟩

/-- The decimal of fewest digits that reads back as a positive number. -/
def shortest (significand : Nat) (exponent : Int) : Shortest :=
  (((List.range 17).map (· + 1)).findSome? (nearestWith significand exponent)).getD ⟨0, 0⟩

/-- A decimal in positions, without an exponent. -/
def Shortest.text (s : Shortest) : String :=
  let digits := Nat.toDigits 10 s.digits
  if s.exponent ≥ 0 then
    String.ofList (digits ++ List.replicate s.exponent.toNat '0')
  else
    let places := (-s.exponent).toNat
    let padded := List.replicate (places + 1 - digits.length) '0' ++ digits
    let whole := padded.take (padded.length - places)
    let fraction := (padded.drop (padded.length - places)).reverse.dropWhile (· == '0')
    if fraction.isEmpty then String.ofList whole
    else String.ofList (whole ++ '.' :: fraction.reverse)

/-- A number as text: the fewest digits that read back, in positions. -/
def text : Binary64 → String
  | finite negative significand exponent =>
    let magnitude := if significand = 0 then "0" else (shortest significand exponent).text
    if negative then "-" ++ magnitude else magnitude
  | infinite negative => if negative then "-inf" else "inf"
  | notNumber => "NaN"

/-- A number as text that shows a point if the number is finite. -/
def pointedText : Binary64 → String
  | finite negative significand exponent =>
    let plain := text (.finite negative significand exponent)
    if plain.toList.contains '.' then plain else plain ++ ".0"
  | other => text other

end Binary64

end Ingot.Decimal

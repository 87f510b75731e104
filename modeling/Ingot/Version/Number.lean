import Ingot.Version.Fault

/-!
# Versions

A version is three numbers with dots between them, then, behind a hyphen, the identifiers
of a pre-release and, behind a plus sign, the identifiers of a build, both optional.
`parse` reads exactly these texts; numbers have no leading zeros and fit in 64 bits.
-/

namespace Ingot.Version

/-- A version. -/
structure Number where
  /-- The first number. -/
  major : Nat
  /-- The second number. -/
  minor : Nat
  /-- The third number. -/
  patch : Nat
  /-- The identifiers of the pre-release with dots between them; empty for a release. -/
  prerelease : String
  /-- The identifiers of the build with dots between them. -/
  build : String
  deriving DecidableEq, Repr

/-- The largest number of a version. -/
def largestNumber : Nat := 18446744073709551615

/-- The number that a row of digits stands for. -/
def numberOfDigits (digits : List Char) : Nat :=
  digits.foldl (fun n d => 10 * n + (d.toNat - '0'.toNat)) 0

/-- Reads a number. -/
def readNumber (part : Part) (text : List Char) : Except Fault (Nat × List Char) :=
  let digits := text.takeWhile Char.isDigit
  let rest := text.dropWhile Char.isDigit
  match digits, rest with
  | [], [] => .error (.unfinished part)
  | [], c :: _ => .error (.strayCharacter part c)
  | '0' :: _ :: _, _ => .error (.leadingZero part)
  | digits, rest =>
    let n := numberOfDigits digits
    if n > largestNumber then .error (.tooLarge part) else .ok (n, rest)

/-- Reads the dot behind a number. -/
def readDot (part : Part) : List Char → Except Fault (List Char)
  | [] => .error (.unfinished part)
  | '.' :: rest => .ok rest
  | c :: _ => .error (.strayCharacterAfter part c)

/-- A character of an identifier. -/
def isIdentifierPart (c : Char) : Bool := c.isAlphanum || c == '-'

/-- Reads identifiers with dots between them. In a pre-release, one of digits only has no
leading zero. -/
def readIdentifiers (part : Part) (text : List Char) :
    Except Fault (List Char × List Char) :=
  let identifier := text.takeWhile isIdentifierPart
  if identifier.isEmpty then .error (.emptyIdentifier part)
  else if part = .prerelease ∧ identifier.all Char.isDigit ∧ identifier.length > 1
      ∧ identifier.head? = some '0' then .error (.leadingZero part)
  else
    match _h : text.dropWhile isIdentifierPart with
    | '.' :: rest =>
      match readIdentifiers part rest with
      | .error fault => .error fault
      | .ok (more, rest') => .ok (identifier ++ '.' :: more, rest')
    | rest => .ok (identifier, rest)
termination_by text.length
decreasing_by
  have hle : (text.dropWhile isIdentifierPart).length ≤ text.length :=
    (List.dropWhile_suffix _).length_le
  rw [_h] at hle
  simp only [List.length_cons] at hle
  omega

/-- Reads the identifiers behind a mark, if the mark is there. -/
def readMarked (part : Part) (mark : Char) (text : List Char) :
    Except Fault (List Char × List Char) :=
  match text with
  | [] => .ok ([], [])
  | c :: rest => if c = mark then readIdentifiers part rest else .ok ([], text)

/-- The last part that a version has. -/
def lastPart (prerelease build : List Char) : Part :=
  if !build.isEmpty then .build else if !prerelease.isEmpty then .prerelease else .patch

/-- Reads a version. -/
def parse (text : String) : Except Fault Number := do
  if text.isEmpty then throw .empty
  let (major, rest) ← readNumber .major text.toList
  let rest ← readDot .major rest
  let (minor, rest) ← readNumber .minor rest
  let rest ← readDot .minor rest
  let (patch, rest) ← readNumber .patch rest
  let (prerelease, rest) ← readMarked .prerelease '-' rest
  let (build, rest) ← readMarked .build '+' rest
  match rest with
  | [] => pure ⟨major, minor, patch, String.ofList prerelease, String.ofList build⟩
  | c :: _ => throw (.strayCharacterAfter (lastPart prerelease build) c)

end Ingot.Version

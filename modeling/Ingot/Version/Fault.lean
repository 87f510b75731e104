import Ingot.Text.Quoted

/-!
# Faults of versions and requirements

What can be wrong with the text of a version or of a version requirement, and the words
for it.
-/

namespace Ingot.Version

/-- A part of a version. -/
inductive Part where
  /-- The first number. -/
  | major
  /-- The second number. -/
  | minor
  /-- The third number. -/
  | patch
  /-- The identifiers behind a hyphen. -/
  | prerelease
  /-- The identifiers behind a plus sign. -/
  | build
  deriving DecidableEq, Repr

/-- A part in the words of an error message. -/
def Part.describe : Part → String
  | major => "major version number"
  | minor => "minor version number"
  | patch => "patch version number"
  | prerelease => "pre-release identifier"
  | build => "build metadata"

/-- What is wrong with a version or a requirement. -/
inductive Fault where
  /-- There is no text. -/
  | empty
  /-- The text ends inside a part or right behind it. -/
  | unfinished (part : Part)
  /-- A character that cannot start the part. -/
  | strayCharacter (part : Part) (c : Char)
  /-- A character that cannot stand behind the part. -/
  | strayCharacterAfter (part : Part) (c : Char)
  /-- A character behind a comparator that is not the comma before the next one. -/
  | missingComma (part : Part) (c : Char)
  /-- A number of more than one digit that starts with zero. -/
  | leadingZero (part : Part)
  /-- A number of more than 64 bits. -/
  | tooLarge (part : Part)
  /-- No character between two dots, or before the first or behind the last one. -/
  | emptyIdentifier (part : Part)
  /-- A wildcard next to other comparators. -/
  | wildcardNotAlone (wildcard : Char)
  /-- Something behind a wildcard. -/
  | afterWildcard
  /-- More comparators than allowed. -/
  | tooManyComparators
  deriving DecidableEq, Repr

/-- A fault in words. -/
def Fault.message : Fault → String
  | empty => "empty string, expected a semver version"
  | unfinished part => s!"unexpected end of input while parsing {part.describe}"
  | strayCharacter part c =>
    s!"unexpected character {Text.quotedChar c} while parsing {part.describe}"
  | strayCharacterAfter part c =>
    s!"unexpected character {Text.quotedChar c} after {part.describe}"
  | missingComma part c => s!"expected comma after {part.describe}, found {Text.quotedChar c}"
  | leadingZero part => s!"invalid leading zero in {part.describe}"
  | tooLarge part => s!"value of {part.describe} exceeds u64::MAX"
  | emptyIdentifier part => s!"empty identifier segment in {part.describe}"
  | wildcardNotAlone c =>
    s!"wildcard req ({c}) must be the only comparator in the version req"
  | afterWildcard => "unexpected character after wildcard in version req"
  | tooManyComparators => "excessive number of version comparators"

end Ingot.Version

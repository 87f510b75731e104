import Ingot.Version.Number

/-!
# Version requirements

A requirement is a wildcard alone, which any version meets, or comparators with commas
between them. A comparator is an operator and a version of which all but the first number
may be missing or a wildcard.
-/

namespace Ingot.Version

/-- How a version is compared. -/
inductive Comparison where
  /-- The same version. -/
  | exact
  /-- A later version. -/
  | greater
  /-- The same or a later version. -/
  | greaterEq
  /-- An earlier version. -/
  | less
  /-- The same or an earlier version. -/
  | lessEq
  /-- A later version with the same first two numbers. -/
  | tilde
  /-- A later version that keeps its promises. -/
  | caret
  /-- A version with the same numbers before the wildcard. -/
  | wildcard
  deriving DecidableEq, Repr

/-- A comparator: how, and with what. -/
structure Comparator where
  /-- How to compare. -/
  comparison : Comparison
  /-- The first number. -/
  major : Nat
  /-- The second number, if it is given. -/
  minor : Option Nat
  /-- The third number, if it is given. -/
  patch : Option Nat
  /-- The identifiers of the pre-release. -/
  prerelease : String
  deriving DecidableEq, Repr

/-- A requirement: a version meets it if it meets all of its comparators. -/
structure Requirement where
  /-- The comparators. -/
  comparators : List Comparator
  deriving DecidableEq, Repr

/-- The most comparators of a requirement. -/
def comparatorLimit : Nat := 32

/-- A character that stands for any number. -/
def isWildcard (c : Char) : Bool := c == '*' || c == 'x' || c == 'X'

/-- A text without the spaces it starts with. -/
def skipSpaces (text : List Char) : List Char := text.dropWhile (· == ' ')

/-- The comparison that a text starts with, if it starts with one. -/
def readComparison : List Char → Option Comparison × List Char
  | '=' :: rest => (some .exact, rest)
  | '>' :: '=' :: rest => (some .greaterEq, rest)
  | '>' :: rest => (some .greater, rest)
  | '<' :: '=' :: rest => (some .lessEq, rest)
  | '<' :: rest => (some .less, rest)
  | '~' :: rest => (some .tilde, rest)
  | '^' :: rest => (some .caret, rest)
  | rest => (none, rest)

/-- A number behind a dot: missing, a wildcard, or given. -/
inductive Place where
  /-- There is no dot. -/
  | missing
  /-- Any number. -/
  | anything
  /-- This number. -/
  | given (n : Nat)
  deriving DecidableEq, Repr

/-- Reads the number behind a dot, if there is a dot. -/
def readPlace (part : Part) (afterWildcard : Bool) : List Char → Except Fault (Place × List Char)
  | '.' :: c :: rest =>
    if isWildcard c then .ok (.anything, rest)
    else if afterWildcard then .error .afterWildcard
    else (readNumber part (c :: rest)).map fun (n, rest') => (.given n, rest')
  | ['.'] => if afterWildcard then .error .afterWildcard else .error (.unfinished part)
  | rest => .ok (.missing, rest)

/-- The number of a place, if it is given. -/
def Place.number? : Place → Option Nat
  | given n => some n
  | _ => none

/-- Reads a comparator; the answer has its last part and the text behind it. -/
def readComparator (text : List Char) : Except Fault (Comparator × Part × List Char) := do
  let (comparison, rest) := readComparison text
  let (major, rest) ← readNumber .major (skipSpaces rest)
  let (minor, rest) ← readPlace .minor false rest
  let (patch, rest) ← readPlace .patch (minor == .anything) rest
  let comparison := comparison.getD
    (if minor = .anything ∨ patch = .anything then .wildcard else .caret)
  match patch.number? with
  | some _ =>
    let (prerelease, rest) ← readMarked .prerelease '-' rest
    let (build, rest) ← readMarked .build '+' rest
    pure (⟨comparison, major, minor.number?, patch.number?, String.ofList prerelease⟩,
      lastPart prerelease build, skipSpaces rest)
  | none =>
    let last := if patch ≠ .missing then .patch else if minor ≠ .missing then .minor else .major
    pure (⟨comparison, major, minor.number?, none, ""⟩, last, skipSpaces rest)

/-- The fault of a text that is no comparator: a wildcard there stands next to others. -/
def comparatorFault (text : List Char) (fault : Fault) : Fault :=
  match text with
  | c :: rest =>
    let behind := skipSpaces rest
    if isWildcard c ∧ (behind.isEmpty ∨ behind.head? = some ',') then .wildcardNotAlone c
    else fault
  | [] => fault

/-- Reads comparators, at most `room + 1` of them. -/
def readComparators (room : Nat) (text : List Char) : Except Fault (List Comparator) :=
  match readComparator text with
  | .error fault => .error (comparatorFault text fault)
  | .ok (comparator, _, []) => .ok [comparator]
  | .ok (comparator, _, ',' :: rest) =>
    match room with
    | 0 => .error .tooManyComparators
    | room + 1 => (readComparators room (skipSpaces rest)).map (comparator :: ·)
  | .ok (_, part, c :: _) => .error (.missingComma part c)

/-- Reads a requirement. -/
def Requirement.parse (text : String) : Except Fault Requirement :=
  match skipSpaces text.toList with
  | c :: rest =>
    if isWildcard c then
      match skipSpaces rest with
      | [] => .ok ⟨[]⟩
      | ',' :: _ => .error (.wildcardNotAlone c)
      | _ => .error .afterWildcard
    else (readComparators (comparatorLimit - 1) (c :: rest)).map Requirement.mk
  | [] => (readComparators (comparatorLimit - 1) []).map Requirement.mk

end Ingot.Version

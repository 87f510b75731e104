/-!
# Patterns of paths

A pattern stands for the paths that it matches. A star matches any text, a question mark
any character, and brackets any character of a class or any outside of it; two stars that
are a component of their own match any number of directories. All else matches itself.
-/

namespace Ingot.Glob

/-! ### Patterns -/

/-- A range of characters, both ends included. -/
structure Range where
  /-- The first character. -/
  first : Char
  /-- The last character. -/
  last : Char
  deriving DecidableEq, Repr

/-- Whether a character is in one of some ranges. -/
def inRanges (ranges : List Range) (c : Char) : Bool :=
  ranges.any fun r => decide (r.first ≤ c) && decide (c ≤ r.last)

/-- A piece of a pattern. -/
inductive Piece where
  /-- A character that matches itself. -/
  | char (c : Char)
  /-- Any character. -/
  | anyChar
  /-- Any character of a class. -/
  | within (ranges : List Range)
  /-- Any character that is not of a class. -/
  | outside (ranges : List Range)
  /-- Any text. -/
  | anyText
  /-- Any number of directories. -/
  | directories
  deriving DecidableEq, Repr

/-- A pattern is a row of pieces. -/
abbrev Pattern : Type := List Piece

/-! ### Matching -/

/-- Whether a piece matches a single character. -/
def Piece.accepts : Piece → Char → Bool
  | char c, d => c == d
  | anyChar, _ => true
  | within ranges, d => inRanges ranges d
  | outside ranges, d => !inRanges ranges d
  | anyText, _ => false
  | directories, _ => false

/-- A text and all that is left of it when characters are taken from its front. -/
def suffixes : List Char → List (List Char)
  | [] => [[]]
  | c :: text => (c :: text) :: suffixes text

/-- What stands behind each slash of a text. -/
def behindSlashes : List Char → List (List Char)
  | [] => []
  | c :: text => if c = '/' then text :: behindSlashes text else behindSlashes text

/-- Whether the pieces of a pattern match a text. -/
def matchesChars : Pattern → List Char → Bool
  | [], text => text.isEmpty
  | .anyText :: pieces, text => (suffixes text).any (matchesChars pieces)
  | .directories :: pieces, text =>
    (text :: behindSlashes text ++ [[]]).any (matchesChars pieces)
  | piece :: pieces, text =>
    match text with
    | [] => false
    | c :: text => piece.accepts c && matchesChars pieces text

/-- Whether a pattern matches a path. -/
def Pattern.matchesPath (p : Pattern) (path : String) : Bool := matchesChars p path.toList

/-! ### Reading patterns -/

/-- What is wrong with a pattern. -/
inductive Problem where
  /-- Three stars or more stand together. -/
  | tooManyStars
  /-- Two stars are not a component of their own. -/
  | starsInName
  /-- Brackets are not closed, or there is nothing in them. -/
  | brokenClass
  deriving DecidableEq, Repr

/-- What is wrong with a pattern, in words. -/
def Problem.message : Problem → String
  | tooManyStars => "wildcards are either regular `*` or recursive `**`"
  | starsInName => "recursive wildcards must form a single path component"
  | brokenClass => "invalid range pattern"

/-- A fault of a pattern and the number of characters before it. -/
structure Fault where
  /-- The place of the fault. -/
  position : Nat
  /-- What is wrong. -/
  problem : Problem
  deriving DecidableEq, Repr

/-- A fault in words. -/
def Fault.message (f : Fault) : String :=
  s!"Pattern syntax error near position {f.position}: {f.problem.message}"

/-- The ranges of a class, written as single characters and as two characters with a hyphen
between them. -/
def readRanges : List Char → List Range
  | a :: '-' :: b :: rest => ⟨a, b⟩ :: readRanges rest
  | a :: rest => ⟨a, a⟩ :: readRanges rest
  | [] => []

/-- What stands before the first closing bracket and what stands behind it. -/
def cutAtBracket (cs : List Char) : Option (List Char × List Char) :=
  match cs.dropWhile (· != ']') with
  | [] => none
  | _ :: rest => some (cs.takeWhile (· != ']'), rest)

theorem length_lt_of_cutAtBracket {cs before rest : List Char}
    (h : cutAtBracket cs = some (before, rest)) : rest.length < cs.length := by
  have hle : (cs.dropWhile (· != ']')).length ≤ cs.length :=
    (List.dropWhile_suffix _).length_le
  unfold cutAtBracket at h
  split at h
  · cases h
  · rename_i c r hr
    simp only [Option.some.injEq, Prod.mk.injEq] at h
    rw [hr] at hle
    rw [← h.2]
    simp only [List.length_cons] at hle
    omega

/-- The class that brackets hold, and what stands behind them; `cs` is what stands behind
the opening bracket. The first character of a class may be a closing bracket. -/
def readClass (cs : List Char) : Option (Piece × { rest : List Char // rest.length < cs.length }) :=
  match cs with
  | '!' :: c :: more =>
    match h : cutAtBracket more with
    | some (inside, rest) =>
      some (.outside (readRanges (c :: inside)), ⟨rest, by
        have := length_lt_of_cutAtBracket h
        simp only [List.length_cons]
        omega⟩)
    | none => none
  | c :: more =>
    if c = '!' then none
    else
      match h : cutAtBracket more with
      | some (inside, rest) =>
        some (.within (readRanges (c :: inside)), ⟨rest, by
          have := length_lt_of_cutAtBracket h
          simp only [List.length_cons]
          omega⟩)
      | none => none
  | [] => none

/-- The pieces of a pattern, given how many characters stand before its rest, the last one
of them, and the pieces read so far, the last one first. Of two rows of stars behind
one another only one is kept, unless the first one starts the pattern. -/
def readPieces (position : Nat) (previous : Option Char) (done : List Piece) (cs : List Char) :
    Except Fault Pattern :=
  match cs with
  | [] => .ok done.reverse
  | '?' :: rest => readPieces (position + 1) (some '?') (.anyChar :: done) rest
  | '*' :: '*' :: '*' :: _ => .error ⟨position + 2, .tooManyStars⟩
  | '*' :: '*' :: rest =>
    if previous.any (· != '/') then .error ⟨position - 1, .starsInName⟩
    else
      let done := if done.length > 1 ∧ done.head? = some .directories then done
        else .directories :: done
      match rest with
      | [] => .ok done.reverse
      | c :: rest =>
        if c = '/' then readPieces (position + 3) (some '/') done rest
        else .error ⟨position + 2, .starsInName⟩
  | '*' :: rest => readPieces (position + 1) (some '*') (.anyText :: done) rest
  | '[' :: rest =>
    match readClass rest with
    | none => .error ⟨position, .brokenClass⟩
    | some (piece, ⟨more, _⟩) =>
      readPieces (position + (rest.length - more.length) + 1) (some ']') (piece :: done) more
  | c :: rest => readPieces (position + 1) (some c) (.char c :: done) rest
termination_by cs.length
decreasing_by all_goals (simp only [List.length_cons]; omega)

/-- Reads a pattern. -/
def Pattern.parse (text : String) : Except Fault Pattern := readPieces 0 none [] text.toList

end Ingot.Glob

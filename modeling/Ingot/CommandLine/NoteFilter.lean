import Ingot.Console
import Ingot.Text.Count
import Ingot.Text.Letter

/-!
# Which notes are shown

Notes on the course of the program are shown by their level and by the part of the program
they come from. A filter is a row of directives with commas between them: a level, the name
of a part, or both with an equals sign between them. Of the directives whose part starts
the name of a note's part, the one with the longest name decides.
-/

namespace Ingot.CommandLine

open Console (Level)

/-- A rule for the notes of a part of the program. -/
structure Directive where
  /-- The start of the name of the part. -/
  topic : String
  /-- The rank of the last level that is shown. -/
  limit : Nat
  deriving DecidableEq, Repr

/-- A row of directives. -/
abbrev NoteFilter : Type := List Directive

namespace NoteFilter

/-! ### Reading filters -/

/-- The rank of a level that is written as a number or as a word in any mixture of small
and capital letters. -/
def rank? (text : String) : Option Nat :=
  match (Text.readCount? 18446744073709551616 text).filter (· ≤ 5) with
  | some rank => some rank
  | none =>
    match String.ofList (text.toList.map Char.toLower) with
    | "off" => some 0
    | "error" => some Level.error.rank
    | "warn" => some Level.warn.rank
    | "info" => some Level.info.rank
    | "debug" => some Level.debug.rank
    | "trace" => some Level.trace.rank
    | _ => none

/-- Whether a directive can start with a character. -/
def canStart (c : Char) : Bool :=
  c == '-' || c == ':' || c == '_' || c == '[' || Text.isLetter c || Text.isNumeral c

/-- Reads a directive. One without a level shows all notes of its part; one that is about
spans of the program shows none. -/
def readDirective (text : List Char) : Option Directive :=
  let topic := String.ofList (text.takeWhile fun c => c != '=' && c != '[')
  match text.head?.map canStart, text.dropWhile fun c => c != '=' && c != '[' with
  | some false, _ => none
  | none, _ => some ⟨"", Level.trace.rank⟩
  | some true, [] =>
    match rank? topic with
    | some rank => some ⟨"", rank⟩
    | none => some ⟨topic, Level.trace.rank⟩
  | some true, ['='] => some ⟨topic, Level.trace.rank⟩
  | some true, '=' :: level => (rank? (String.ofList level)).map fun rank => ⟨topic, rank⟩
  | some true, _ => some ⟨topic, 0⟩

/-- The pieces of a row of characters between commas. -/
def atCommas : List Char → List (List Char)
  | [] => [[]]
  | c :: rest =>
    if c = ',' then [] :: atCommas rest
    else
      match atCommas rest with
      | [] => [[c]]
      | piece :: more => (c :: piece) :: more

/-- Reads a filter. One without directives shows errors only. -/
def parse (text : String) : Option NoteFilter := do
  let pieces := (atCommas text.toList).filter fun piece => !piece.isEmpty
  match ← pieces.mapM readDirective with
  | [] => return [⟨"", Level.error.rank⟩]
  | directives => return directives

/-! ### Using filters -/

/-- The directive that decides on the notes of a part: of those that apply the one with the
longest name, and of these the last one. -/
def decisive (filter : NoteFilter) (topic : String) : Option Directive :=
  (filter.filter fun d => d.topic.toList.isPrefixOf topic.toList).foldl
    (fun best d => match best with
      | none => some d
      | some b => if b.topic.utf8ByteSize ≤ d.topic.utf8ByteSize then some d else some b) none

/-- Whether a filter shows the notes of a level and a part. -/
def shows (filter : NoteFilter) (level : Level) (topic : String) : Bool :=
  (filter.decisive topic).any fun d => decide (level.rank ≤ d.limit)

/-- The filter that shows notes up to a level from all parts of this program. -/
def upTo (level : Level) : NoteFilter := [⟨"ion", level.rank⟩]

end NoteFilter

end Ingot.CommandLine

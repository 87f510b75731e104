/-!
# Positions in a source text

A position is a line and a column, both counted from one; columns count characters. A
line feed is the last character of its line. Both are numbers of 32 bits: behind the
largest of them counting goes on with zero.
-/

namespace Ingot.Source

/-- A line and a column of a source text. -/
structure Position where
  /-- The line, counted from one. -/
  line : UInt32
  /-- The column, counted from one, in characters. -/
  column : UInt32
  deriving DecidableEq, Repr, Inhabited

namespace Position

/-- The position of the first character of a text. -/
def start : Position := ⟨1, 1⟩

/-- The position that belongs to no text: that of the end of an empty list of tokens. -/
def nowhere : Position := ⟨0, 0⟩

/-- The position after a character. -/
def after (p : Position) (c : Char) : Position :=
  if c = '\n' then ⟨p.line + 1, 1⟩ else ⟨p.line, p.column + 1⟩

/-- The position after a text. -/
def afterAll (p : Position) (text : List Char) : Position :=
  text.foldl after p

/-- The written form of a position: line and column with a colon between. -/
def text (p : Position) : String := s!"{p.line}:{p.column}"

@[simp] theorem afterAll_nil (p : Position) : p.afterAll [] = p := rfl

@[simp] theorem afterAll_cons (p : Position) (c : Char) (text : List Char) :
    p.afterAll (c :: text) = (p.after c).afterAll text := rfl

end Position

end Ingot.Source

/-!
# Reading from the front of a text

The shape of all readers of TOML: they answer with what they read and with what is left,
which is shorter than what they were given, or with nothing if the text does not start
like that.
-/

namespace Ingot.Toml

/-- What was read from the front of a text, and what is left. -/
abbrev Read (α : Type) (s : List Char) : Type :=
  Option { read : α × List Char // read.2.length < s.length }

namespace Read

variable {α β : Type} {s t : List Char}

/-- What was read, turned into something else. -/
def map (f : α → β) (r : Read α s) : Read β s :=
  match r with
  | none => none
  | some ⟨(a, rest), h⟩ => some ⟨(f a, rest), h⟩

/-- What was read, turned into something else or refused. -/
def filterMap (f : α → Option β) (r : Read α s) : Read β s :=
  match r with
  | none => none
  | some ⟨(a, rest), h⟩ =>
    match f a with
    | none => none
    | some b => some ⟨(b, rest), h⟩

/-- A reading of a text that is not longer, as one of the whole text. -/
def within (r : Read α t) (h : t.length ≤ s.length) : Read α s :=
  match r with
  | none => none
  | some ⟨read, hread⟩ => some ⟨read, Nat.lt_of_lt_of_le hread h⟩

/-- A reading of a text as one of the same text behind a character. -/
def behind (c : Char) (r : Read α t) : Read α (c :: t) := r.within (Nat.le_succ _)

/-- One character, read. -/
def one (a : α) (c : Char) (rest : List Char) : Read α (c :: rest) :=
  some ⟨(a, rest), Nat.lt_succ_self _⟩

end Read

/-! ### Blanks -/

/-- A space or a tab. -/
def isSpace (c : Char) : Bool := c == ' ' || c == '\t'

/-- The spaces and tabs that a text starts with. -/
def spaces (s : List Char) : List Char := s.takeWhile isSpace

/-- A text without the spaces and tabs it starts with. -/
def afterSpaces (s : List Char) : List Char := s.dropWhile isSpace

theorem length_afterSpaces_le (s : List Char) : (afterSpaces s).length ≤ s.length :=
  (List.dropWhile_suffix _).length_le

/-- A text behind the end of line that it starts with, if it starts with one. -/
def afterNewline? : (s : List Char) → Option { rest : List Char // rest.length < s.length }
  | '\n' :: rest => some ⟨rest, Nat.lt_succ_self _⟩
  | '\r' :: '\n' :: rest => some ⟨rest, by simp only [List.length_cons]; omega⟩
  | _ => none

/-- A character that may stand in a comment. -/
def isCommentChar (c : Char) : Bool :=
  c == '\t' || (' ' ≤ c && c ≤ '~') || c.toNat ≥ 0x80

/-- The comment that a text starts with. -/
def comment (s : List Char) : List Char :=
  if s.head? = some '#' then s.takeWhile isCommentChar else []

/-- A text without the comment it starts with. -/
def afterComment (s : List Char) : List Char :=
  if s.head? = some '#' then s.dropWhile isCommentChar else s

theorem length_afterComment_le (s : List Char) : (afterComment s).length ≤ s.length := by
  unfold afterComment
  split
  · exact (List.dropWhile_suffix _).length_le
  · exact Nat.le_refl _

theorem length_nil_le (s : List Char) : ([] : List Char).length ≤ s.length := Nat.zero_le _

/-- Reads what may stand between the parts of an array: blanks, ends of lines, and
comments with the ends of their lines. The answer is that text and what is left. -/
def skipLayout (s : List Char) :
    Option { read : List Char × List Char // read.2.length ≤ s.length } :=
  let blanks := spaces s
  have h₁ := length_afterSpaces_le s
  match h : afterSpaces s with
  | [] => some ⟨(blanks, []), length_nil_le s⟩
  | c :: t =>
    if c = '#' then
      match afterNewline? (afterComment (c :: t)) with
      | none => none
      | some ⟨rest, h₃⟩ =>
        have hlt : rest.length < s.length := by
          have := length_afterComment_le (c :: t); rw [h] at h₁; omega
        match skipLayout rest with
        | none => none
        | some ⟨(more, rest'), h'⟩ =>
          some ⟨(blanks ++ comment (c :: t) ++ '\n' :: more, rest'), by simp only at *; omega⟩
    else
      match afterNewline? (c :: t) with
      | some ⟨rest, h₃⟩ =>
        have hlt : rest.length < s.length := by rw [h] at h₁; omega
        match skipLayout rest with
        | none => none
        | some ⟨(more, rest'), h'⟩ =>
          some ⟨(blanks ++ '\n' :: more, rest'), by simp only at *; omega⟩
      | none =>
        if c = '\r' then none else some ⟨(blanks, c :: t), by rw [h] at h₁; exact h₁⟩
termination_by s.length

end Ingot.Toml

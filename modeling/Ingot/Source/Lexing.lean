import Ingot.Source.Fault
import Ingot.Text.Blank
import Ingot.Text.Letter

/-!
# Cutting a text into tokens

`tokens` cuts a source text into tokens, the longest lexeme first. White space and
comments, which start with two slashes and end with their line, are skipped between
lexemes. A number is a digit followed by digits and underscores; a word is a letter or an
underscore followed by letters, numerals and underscores. No lexeme contains a line feed,
so a lexeme of `n` characters moves the position by `n` columns.
-/

namespace Ingot.Source

open Ingot.Text

/-! ### Trivia -/

/-- Skips white space and comments; the flag says whether a comment is open. The result is
what is left of the text, and its position. -/
def skipTrivia : Bool → Position → List Char → Position × List Char
  | _, p, [] => (p, [])
  | true, p, c :: rest => skipTrivia (c != '\n') (p.after c) rest
  | false, p, c :: rest =>
    if isBlank c then skipTrivia false (p.after c) rest
    else if c = '/' ∧ rest.head? = some '/' then skipTrivia true (p.after c) rest
    else (p, c :: rest)

theorem length_skipTrivia_le (comment : Bool) (p : Position) (text : List Char) :
    (skipTrivia comment p text).2.length ≤ text.length := by
  induction text generalizing comment p with
  | nil => cases comment <;> simp [skipTrivia]
  | cons c rest ih =>
    cases comment with
    | true => simp only [skipTrivia, List.length_cons]; have := ih (c != '\n') (p.after c); omega
    | false =>
      simp only [skipTrivia]
      split
      · have := ih false (p.after c); simp only [List.length_cons]; omega
      · split
        · have := ih true (p.after c); simp only [List.length_cons]; omega
        · simp

/-! ### Lexemes -/

/-- A character that goes on a number. -/
def isNumberPart (c : Char) : Bool := c.isDigit || c == '_'

/-- A character that starts a word. -/
def isWordStart (c : Char) : Bool := isLetter c || c == '_'

/-- A character that goes on a word. -/
def isWordPart (c : Char) : Bool := isLetter c || isNumeral c || c == '_'

/-- The value of a row of decimal digits. -/
def decimalValue (digits : List Char) : Nat :=
  digits.foldl (fun value d => 10 * value + (d.toNat - '0'.toNat)) 0

/-- The largest number a literal may stand for. -/
def largestLiteral : Nat := 2147483647

/-- The largest number of 64 bits with a sign. -/
def largestWord : Nat := 9223372036854775807

/-- The number written by digits, or what is wrong with it. -/
def numberLexeme (digits : List Char) : Except GrammarFault Lexeme :=
  let value := decimalValue digits
  if value > largestWord then .error (.numberTooLarge (String.ofList digits))
  else if value > largestLiteral then .error (.numberOutOfRange (String.ofList digits))
  else .ok (.number value)

/-- The reserved word or the name that a word is. -/
def wordLexeme (word : List Char) : Lexeme :=
  match String.ofList word with
  | "fn" => .fnWord
  | "let" => .letWord
  | "return" => .returnWord
  | text => .name text

/-- The lexeme that starts with a character, and how many of the characters behind it
belong to it. -/
def readLexeme (c : Char) (rest : List Char) : Except GrammarFault (Lexeme × Nat) :=
  match c with
  | '(' => .ok (.leftParen, 0)
  | ')' => .ok (.rightParen, 0)
  | '{' => .ok (.leftBrace, 0)
  | '}' => .ok (.rightBrace, 0)
  | ',' => .ok (.comma, 0)
  | ';' => .ok (.semicolon, 0)
  | ':' => .ok (.colon, 0)
  | '=' => .ok (.equals, 0)
  | '+' => .ok (.plus, 0)
  | '*' => .ok (.star, 0)
  | '/' => .ok (.slash, 0)
  | '%' => .ok (.percent, 0)
  | '-' => if rest.head? = some '>' then .ok (.arrow, 1) else .ok (.minus, 0)
  | c =>
    if c.isDigit then
      let more := rest.takeWhile isNumberPart
      (numberLexeme (c :: more.filter (· != '_'))).map fun lexeme => (lexeme, more.length)
    else if isWordStart c then
      let more := rest.takeWhile isWordPart
      .ok (wordLexeme (c :: more), more.length)
    else .error (.strayCharacter c)

/-! ### Tokens -/

/-- The tokens of a text whose first character stands at a position. -/
def tokensFrom (p : Position) (text : List Char) : Except Fault (List Token) :=
  match _h : skipTrivia false p text with
  | (here, []) => .ok [⟨.finish, here⟩]
  | (here, c :: rest) =>
    match readLexeme c rest with
    | .error fault => .error (.grammar here fault)
    | .ok (lexeme, more) =>
      match tokensFrom ⟨here.line, here.column + 1 + UInt32.ofNat more⟩ (rest.drop more) with
      | .error fault => .error fault
      | .ok tokens => .ok (⟨lexeme, here⟩ :: tokens)
termination_by text.length
decreasing_by
  have hle := length_skipTrivia_le false p text
  rw [_h] at hle
  simp only [List.length_cons] at hle
  simp only [List.length_drop]
  omega

/-- The tokens of a source text. The last of them, and only it, is the end of the text. -/
def tokens (text : String) : Except Fault (List Token) := tokensFrom .start text.toList

end Ingot.Source

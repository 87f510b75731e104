import Ingot.Source.Position

/-!
# Tokens

What a source text is cut into before it is read as a program: names, numbers, the three
reserved words, punctuation and operators, and the end of the text as a token of its own.
-/

namespace Ingot.Source

/-- What a token is, apart from where it stands. -/
inductive Lexeme where
  /-- The end of the text. -/
  | finish
  /-- A name that is no reserved word. -/
  | name (text : String)
  /-- A number. -/
  | number (value : Int)
  /-- The reserved word that starts a function. -/
  | fnWord
  /-- The reserved word that starts a binding. -/
  | letWord
  /-- The reserved word that starts a return statement. -/
  | returnWord
  /-- `(`. -/
  | leftParen
  /-- `)`. -/
  | rightParen
  /-- The opening brace. -/
  | leftBrace
  /-- The closing brace. -/
  | rightBrace
  /-- `,`. -/
  | comma
  /-- `;`. -/
  | semicolon
  /-- `:`. -/
  | colon
  /-- `->`. -/
  | arrow
  /-- `=`. -/
  | equals
  /-- `+`. -/
  | plus
  /-- `-`. -/
  | minus
  /-- `*`. -/
  | star
  /-- `/`. -/
  | slash
  /-- `%`. -/
  | percent
  deriving DecidableEq, Repr, Inhabited

/-- A token: a lexeme and the position of its first character. -/
structure Token where
  /-- What the token is. -/
  lexeme : Lexeme
  /-- Where the token starts. -/
  position : Position
  deriving DecidableEq, Repr, Inhabited

/-- A lexeme in the words of an error message. -/
def Lexeme.describe : Lexeme → String
  | finish => "end of file"
  | name text => s!"identifier `{text}`"
  | number value => s!"integer `{value}`"
  | fnWord => "`fn`"
  | letWord => "`let`"
  | returnWord => "`return`"
  | leftParen => "`(`"
  | rightParen => "`)`"
  | leftBrace => "`\x7b`"
  | rightBrace => "`\x7d`"
  | comma => "`,`"
  | semicolon => "`;`"
  | colon => "`:`"
  | arrow => "`->`"
  | equals => "`=`"
  | plus => "`+`"
  | minus => "`-`"
  | star => "`*`"
  | slash => "`/`"
  | percent => "`%`"

end Ingot.Source

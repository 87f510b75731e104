/-!
# Words and signs of a script

A script of the command language is cut into words and signs. A word is a row of parts:
text that is quoted or not, and variables. Blanks, signs and the ends of lines end a word;
quotes and backslashes take the meaning from the characters behind them.
-/

namespace Ingot.Shell

/-- A part of a word. -/
inductive Part where
  /-- Text; text that is quoted makes a word even if it is empty. -/
  | text (isQuoted : Bool) (s : String)
  /-- The value of a variable. -/
  | value (isQuoted : Bool) (name : String)
  deriving DecidableEq, Repr

/-- A word. -/
abbrev Word : Type := List Part

/-- A word or a sign, and the number of its line. -/
inductive Token where
  /-- A word. -/
  | word (line : Nat) (word : Word)
  /-- A row of the same or related signs; the end of a line is one. -/
  | sign (line : Nat) (text : String)
  /-- The number of a stream, right before a sign for its redirection. -/
  | stream (number : Nat)
  deriving DecidableEq, Repr

/-- What the characters that follow mean. -/
inductive Mode where
  /-- They stand for themselves or are signs. -/
  | plain
  /-- They are inside of single quotes. -/
  | single
  /-- They are inside of double quotes. -/
  | double
  /-- They are a comment. -/
  | comment
  /-- The next one stands for itself. -/
  | escaped (inDouble : Bool)
  /-- A dollar sign stands before them. -/
  | dollar (inDouble : Bool)
  /-- They are the name of a variable. -/
  | name (inDouble : Bool) (done : List Char)
  /-- They are the name of a variable in braces. -/
  | braced (inDouble : Bool) (done : List Char)
  /-- A sign stands before them. -/
  | sign (done : Char)
  deriving DecidableEq, Repr

/-- How far a script is read. -/
structure Reader where
  /-- The tokens so far, the last one first. -/
  tokens : List Token
  /-- The parts of the word that is being read, the last one first, if there is one. -/
  word : Option Word
  /-- What the next characters mean. -/
  mode : Mode
  /-- The number of the line. -/
  line : Nat

namespace Reader

/-- The start of a script. -/
def start : Reader := ⟨[], none, .plain, 1⟩

/-- Whether a sign can be made of a character. -/
def isSign (c : Char) : Bool :=
  c == ';' || c == '&' || c == '|' || c == '<' || c == '>' || c == '(' || c == ')'

/-- Whether a character can be in a name. -/
def isNameChar (c : Char) : Bool := c.isAlphanum || c == '_'

/-- Adds a part to the word. -/
def addPart (r : Reader) (p : Part) : Reader := { r with word := some (p :: r.word.getD []) }

/-- Adds a character to the word. -/
def addChar (r : Reader) (isQuoted : Bool) (c : Char) : Reader :=
  match r.word with
  | some (.text q s :: rest) =>
    if q = isQuoted then { r with word := some (.text q (s.push c) :: rest) }
    else r.addPart (.text isQuoted (String.singleton c))
  | _ => r.addPart (.text isQuoted (String.singleton c))

/-- Ends the word. -/
def endWord (r : Reader) : Reader :=
  match r.word with
  | none => r
  | some parts => { r with tokens := .word r.line parts.reverse :: r.tokens, word := none }

/-- Ends the word before a redirection: a number then is that of a stream. -/
def endBeforeRedirection (r : Reader) : Reader :=
  match r.word with
  | some [.text false s] =>
    match s.toNat? with
    | some n => { r with tokens := .stream n :: r.tokens, word := none }
    | none => r.endWord
  | _ => r.endWord

/-- Adds a sign. -/
def addSign (r : Reader) (text : String) : Reader :=
  { r with tokens := .sign r.line text :: r.tokens, mode := .plain }

/-- The mode in which a part is that stands in double quotes or not. -/
def around (inDouble : Bool) : Mode := if inDouble then .double else .plain

/-- Takes a character that stands for itself or is a sign. -/
def stepPlain (r : Reader) (c : Char) : Reader :=
  let r := { r with mode := .plain }
  if c = '\n' then
    let r := r.endWord.addSign "\n"
    { r with line := r.line + 1 }
  else if c = ' ' ∨ c = '\t' then r.endWord
  else if c = '\'' then { r.addPart (.text true "") with mode := .single }
  else if c = '"' then { r.addPart (.text true "") with mode := .double }
  else if c = '\\' then { r with mode := .escaped false }
  else if c = '$' then { r with mode := .dollar false }
  else if c = '#' ∧ r.word.isNone then { r with mode := .comment }
  else if c = '<' ∨ c = '>' then { r.endBeforeRedirection with mode := .sign c }
  else if isSign c then { r.endWord with mode := .sign c }
  else r.addChar false c

/-- Takes a character inside of double quotes. -/
def stepDouble (r : Reader) (c : Char) : Reader :=
  let r := { r with mode := .double }
  if c = '"' then { r with mode := .plain }
  else if c = '\\' then { r with mode := .escaped true }
  else if c = '$' then { r with mode := .dollar true }
  else if c = '\n' then { r.addChar true c with line := r.line + 1 }
  else r.addChar true c

/-- Takes a character in the mode around a part. -/
def stepAround (r : Reader) (inDouble : Bool) (c : Char) : Reader :=
  if inDouble then r.stepDouble c else r.stepPlain c

/-- Takes a character. -/
def step (r : Reader) (c : Char) : Reader :=
  match r.mode with
  | .plain => r.stepPlain c
  | .double => r.stepDouble c
  | .single =>
    if c = '\'' then { r with mode := .plain }
    else if c = '\n' then { r.addChar true c with line := r.line + 1 }
    else r.addChar true c
  | .comment => if c = '\n' then r.stepPlain c else r
  | .escaped inDouble =>
    let r := { r with mode := around inDouble }
    if c = '\n' then { r with line := r.line + 1 }
    else if inDouble && !(c == '$' || c == '"' || c == '\\' || c.toNat == 96) then
      (r.addChar true '\\').addChar true c
    else r.addChar true c
  | .dollar inDouble =>
    if c = '\x7b' then { r with mode := .braced inDouble [] }
    else if c.isAlpha || c == '_' then { r with mode := .name inDouble [c] }
    else if c.isDigit || c == '#' || c == '*' || c == '@' || c == '$' || c == '?' then
      { r.addPart (.value inDouble (String.singleton c)) with mode := around inDouble }
    else (r.addChar inDouble '$').stepAround inDouble c
  | .name inDouble done =>
    if isNameChar c then { r with mode := .name inDouble (c :: done) }
    else (r.addPart (.value inDouble (String.ofList done.reverse))).stepAround inDouble c
  | .braced inDouble done =>
    if c = '\x7d' then
      { r.addPart (.value inDouble (String.ofList done.reverse)) with mode := around inDouble }
    else { r with mode := .braced inDouble (c :: done) }
  | .sign d =>
    if (c == d && !(c == '(' || c == ')')) || (c == '&' && (d == '<' || d == '>')) then
      r.addSign (String.ofList [d, c])
    else (r.addSign (String.singleton d)).stepPlain c

/-- Ends the script; quotes must be closed. -/
def finish (r : Reader) : Option (List Token) :=
  match r.mode with
  | .plain => some r.endWord.tokens.reverse
  | .comment => some r.endWord.tokens.reverse
  | .sign d => some (r.addSign (String.singleton d)).tokens.reverse
  | .name false done =>
    some (r.addPart (.value false (String.ofList done.reverse))).endWord.tokens.reverse
  | .dollar false => some (r.addChar false '$').endWord.tokens.reverse
  | .escaped false => some (r.addChar true '\\').endWord.tokens.reverse
  | _ => none

end Reader

/-- Cuts a script into words and signs. -/
def tokens (text : String) : Option (List Token) :=
  (text.toList.foldl Reader.step Reader.start).finish

end Ingot.Shell

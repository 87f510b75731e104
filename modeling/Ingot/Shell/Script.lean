import Ingot.Shell.Token

/-!
# Scripts

A script is a row of commands. Simple commands are words with redirections; others are
joined by signs, chosen, or repeated by the words of the command language.
-/

namespace Ingot.Shell

/-- Where a stream leads. -/
inductive Target where
  /-- To a file that is made anew. -/
  | write (path : Word)
  /-- To the end of a file. -/
  | append (path : Word)
  /-- From a file. -/
  | read (path : Word)
  /-- To where another stream leads. -/
  | copy (stream : Nat)
  deriving DecidableEq, Repr

/-- A stream that leads elsewhere. -/
structure Redirection where
  /-- The number of the stream. -/
  stream : Nat
  /-- Where it leads. -/
  target : Target
  deriving DecidableEq, Repr

/-- A command. -/
inductive Script where
  /-- A program or an inner command with its arguments. -/
  | simple (line : Nat) (words : List Word) (redirections : List Redirection)
  /-- One after the other. -/
  | sequence (scripts : List Script)
  /-- The second only if the first succeeds. -/
  | both (first second : Script)
  /-- The second only if the first fails. -/
  | either (first second : Script)
  /-- It succeeds where the other fails. -/
  | negated (script : Script)
  /-- The first two of three: the third is for when the first fails. -/
  | choice (condition yes no : Script)
  /-- Again and again while the condition succeeds, or else while it fails. -/
  | repeated (whileTrue : Bool) (condition body : Script)
  /-- Once for each of some words, or for each argument of the script. -/
  | each (name : String) (words : Option (List Word)) (body : Script)

/-! ### Reading -/

/-- The word that a token is if nothing in it is quoted. -/
def Token.bare? : Token → Option String
  | .word _ [.text false s] => some s
  | _ => none

/-- Whether a token is a sign that ends a command. -/
def Token.isEnd : Token → Bool
  | .sign _ s => s == ";" || s == "\n"
  | _ => false

/-- A row of tokens without the ends of commands at its front. -/
def skipEnds (ts : List Token) : List Token := ts.dropWhile Token.isEnd

/-- The words that end a part of a command. -/
def closers : List String := ["then", "elif", "else", "fi", "do", "done", "\x7d"]

/-- Where a stream leads, given the sign and the word of the redirection. -/
def targetOf? (sign : String) (word : Word) : Option (Nat × Target) :=
  match sign, word with
  | ">", w => some (1, .write w)
  | ">>", w => some (1, .append w)
  | "<", w => some (0, .read w)
  | ">&", [.text false s] => s.toNat?.map fun n => (1, .copy n)
  | "<&", [.text false s] => s.toNat?.map fun n => (0, .copy n)
  | _, _ => none

/-- The words and redirections of a simple command, and what stands behind them. -/
def readSimple : List Token → Option (List Word × List Redirection × List Token)
  | .stream n :: .sign _ s :: .word _ w :: rest => do
    let (_, target) ← targetOf? s w
    let (words, redirections, rest) ← readSimple rest
    return (words, ⟨n, target⟩ :: redirections, rest)
  | .sign l s :: .word m w :: rest =>
    match targetOf? s w with
    | some (n, target) => do
      let (words, redirections, rest) ← readSimple rest
      return (words, ⟨n, target⟩ :: redirections, rest)
    | none => some ([], [], .sign l s :: .word m w :: rest)
  | .word _ w :: rest => do
    let (words, redirections, rest) ← readSimple rest
    return (w :: words, redirections, rest)
  | rest => some ([], [], rest)

/-- The words of a list, and what stands behind it. -/
def readWords : List Token → List Word × List Token
  | .word _ w :: rest => let (words, rest) := readWords rest; (w :: words, rest)
  | rest => ([], rest)

/-- The line of the first token. -/
def lineOf : List Token → Nat
  | .word l _ :: _ => l
  | .sign l _ :: _ => l
  | .stream _ :: rest => lineOf rest
  | [] => 1

/-- Takes a bare word from the front. -/
def expect (word : String) (ts : List Token) : Option (List Token) :=
  match skipEnds ts with
  | t :: rest => if t.bare? = some word then some rest else none
  | [] => none

mutual

/-- Reads commands up to a word that closes them or the end, in at most `depth` steps. -/
def readScript (depth : Nat) (ts : List Token) : Option (Script × List Token) :=
  match depth with
  | 0 => none
  | depth + 1 =>
    match skipEnds ts with
    | [] => some (.sequence [], [])
    | t :: rest =>
      if (t.bare?.any closers.contains) || t == .sign (lineOf [t]) ")" then
        some (.sequence [], t :: rest)
      else do
        let (first, rest) ← readChain depth (t :: rest)
        match rest with
        | [] => return (first, [])
        | t :: more =>
          if t.isEnd then
            let (others, rest) ← readScript depth more
            return (match others with
              | .sequence scripts => .sequence (first :: scripts)
              | script => .sequence [first, script], rest)
          else return (first, t :: more)

/-- Reads commands that are joined by double signs. -/
def readChain (depth : Nat) (ts : List Token) : Option (Script × List Token) :=
  match depth with
  | 0 => none
  | depth + 1 => do
    let (first, rest) ← readCommand depth ts
    readLinks depth first rest

/-- Reads the commands that are joined to one. -/
def readLinks (depth : Nat) (first : Script) (ts : List Token) : Option (Script × List Token) :=
  match depth with
  | 0 => none
  | depth + 1 =>
    match ts with
    | .sign _ "&&" :: rest => do
      let (second, rest) ← readCommand depth (skipEnds rest)
      readLinks depth (.both first second) rest
    | .sign _ "||" :: rest => do
      let (second, rest) ← readCommand depth (skipEnds rest)
      readLinks depth (.either first second) rest
    | rest => some (first, rest)

/-- Reads a command. -/
def readCommand (depth : Nat) (ts : List Token) : Option (Script × List Token) :=
  match depth, ts with
  | 0, _ => none
  | _, [] => none
  | depth + 1, t :: rest =>
    match t.bare? with
    | some "!" => do
      let (script, rest) ← readCommand depth rest
      return (.negated script, rest)
    | some "if" => readChoice depth rest
    | some "while" => readLoop depth true rest
    | some "until" => readLoop depth false rest
    | some "for" => readEach depth rest
    | some "\x7b" => do
      let (script, rest) ← readScript depth rest
      return (script, ← expect "\x7d" rest)
    | _ => do
      let (words, redirections, rest) ← readSimple (t :: rest)
      if words.isEmpty && redirections.isEmpty then none
      else return (.simple (lineOf (t :: rest)) words redirections, rest)

/-- Reads what stands behind `if` or `elif`. -/
def readChoice (depth : Nat) (ts : List Token) : Option (Script × List Token) :=
  match depth with
  | 0 => none
  | depth + 1 => do
    let (condition, rest) ← readScript depth ts
    let (yes, rest) ← readScript depth (← expect "then" rest)
    match skipEnds rest with
    | [] => none
    | t :: rest =>
      match t.bare? with
      | some "fi" => return (.choice condition yes (.sequence []), rest)
      | some "elif" => do
        let (no, rest) ← readChoice depth rest
        return (.choice condition yes no, rest)
      | some "else" => do
        let (no, rest) ← readScript depth rest
        return (.choice condition yes no, ← expect "fi" rest)
      | _ => none

/-- Reads what stands behind `while` or `until`. -/
def readLoop (depth : Nat) (whileTrue : Bool) (ts : List Token) :
    Option (Script × List Token) :=
  match depth with
  | 0 => none
  | depth + 1 => do
    let (condition, rest) ← readScript depth ts
    let (body, rest) ← readScript depth (← expect "do" rest)
    return (.repeated whileTrue condition body, ← expect "done" rest)

/-- Reads what stands behind `for`. -/
def readEach (depth : Nat) (ts : List Token) : Option (Script × List Token) :=
  match depth, ts with
  | 0, _ => none
  | _, [] => none
  | depth + 1, t :: rest => do
    let name ← t.bare?
    let (words, rest) := match skipEnds rest with
      | u :: more =>
        if u.bare? = some "in" then
          let (words, rest) := readWords more
          (some words, rest)
        else (none, u :: more)
      | [] => (none, [])
    let (body, rest) ← readScript depth (← expect "do" rest)
    return (.each name words body, ← expect "done" rest)

end

/-- Reads a script. -/
def Script.parse (text : String) : Option Script := do
  let ts ← tokens text
  match ← readScript (4 * ts.length + 4) ts with
  | (script, []) => some script
  | _ => none

end Ingot.Shell

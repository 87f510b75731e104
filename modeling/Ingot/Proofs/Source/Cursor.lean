import Ingot.Source.Parsing

/-!
# Reading with a cursor

The readers of the language are given the tokens that are left, up to the first end of the text,
and what they leave is shorter by their types. Here the language is read once more with nothing of
that built in: as loops and calls that move a cursor over all tokens there are. The cursor shows the
token it stands at and moves on by one, but never past an end of the text, and a loop goes round
until it is left. How many calls may stand inside one another, the turns of loops among them, is a
number from outside: a pass that needs more has no answer, so one that does not end has none for any
number. Neither has one that looks where there is no token.

The cursor keeps a record of the pass: of the places it was looked at, and of the turns of the loops
that were followed by another turn. It is what can be said of the way in which tokens are read,
besides what they are read as.
-/

namespace Ingot.Source

/-- The loops of a pass. -/
inductive Loop where
  /-- Over the functions of a text. -/
  | functions
  /-- Over the parameters of a function. -/
  | parameters
  /-- Over the statements of a block. -/
  | statements
  /-- Over the products of a sum. -/
  | terms
  /-- Over the factors of a product. -/
  | factors
  /-- Over the arguments of a call. -/
  | arguments
  deriving DecidableEq, Repr

/-- A turn of a loop that is followed by another one. -/
structure Turn where
  /-- The loop. -/
  loop : Loop
  /-- Where the cursor stood at the start of the turn. -/
  start : Nat
  /-- Where the cursor stood at its end. -/
  stop : Nat
  deriving DecidableEq, Repr

/-- A cursor over tokens. -/
structure Cursor where
  /-- All tokens. -/
  tokens : List Token
  /-- The number of tokens in front of the cursor. -/
  index : Nat
  /-- Where the cursor stood when it was looked at, the latest look first. -/
  looks : List Nat
  /-- The turns of loops that were followed by another one, the latest first. -/
  turns : List Turn
  deriving DecidableEq, Repr

/-- A part of a pass: it answers or finds a fault, and leaves a cursor, unless it gives up. -/
abbrev Pass (α : Type) : Type := ExceptT Fault (StateT Cursor Option) α

namespace Pass

/-! ### Single tokens -/

/-- Looks at the token at the cursor. Behind the last token the last one would show again. -/
def peek : Pass Token := fun c =>
  (c.tokens[min c.index (c.tokens.length - 1)]?).map fun t =>
    (.ok t, { c with looks := c.index :: c.looks })

/-- Takes the token at the cursor, which stays at an end of the text. -/
def advance : Pass Token := do
  let t ← peek
  if t.lexeme ≠ .finish then
    modify fun c => { c with index := c.index + 1 }
  return t

/-- Does a given lexeme stand at the cursor? -/
def check (l : Lexeme) : Pass Bool := do
  let t ← peek
  return t.lexeme = l

/-- Takes a given lexeme if it stands at the cursor; the answer says whether it did. -/
def eat (l : Lexeme) : Pass Bool := do
  if ← check l then
    let _ ← advance
    return true
  else return false

/-- Stops at the token at the cursor, which is not what is expected there. -/
def refuse {α : Type} (expected : Expectation) : Pass α := do
  let t ← peek
  throw (.grammar t.position (.unexpected expected t.lexeme))

/-- Takes a given lexeme; the answer is its position. -/
def expect (l : Lexeme) : Pass Position := do
  if ← check l then
    let t ← advance
    return t.position
  else refuse (.lexeme l)

/-- Takes a name; the answer is the name and its position. -/
def expectName : Pass (String × Position) := do
  let t ← peek
  match t.lexeme with
  | .name name =>
    let _ ← advance
    return (name, t.position)
  | _ => refuse .identifier

/-- Takes a type: the name of the only one. -/
def expectType : Pass Unit := do
  let (name, p) ← expectName
  if name = valueType then return () else throw (.grammar p (.unknownType name))

/-- Goes on behind an operator, or answers with what there is if none stands at the cursor. -/
def afterSign (op? : Lexeme → Option BinaryOp) (last : Expr)
    (more : BinaryOp → Position → Pass Expr) : Pass Expr := do
  let t ← peek
  match op? t.lexeme with
  | none => return last
  | some op =>
    let sign ← advance
    more op sign.position

/-! ### Calls and turns of loops -/

/-- There may be no further call inside this one. -/
def giveUp {α : Type} : Pass α := fun _ => none

/-- The place of the cursor. -/
def place : Pass Nat := do
  let c ← get
  return c.index

/-- Enters a turn of a loop into the record, which another one is to follow. -/
def goRound (loop : Loop) (start : Nat) : Pass Unit :=
  modify fun c => { c with turns := ⟨loop, start, c.index⟩ :: c.turns }

/-! ### Expressions -/

mutual

/-- A sum. -/
def sum : Nat → Pass Expr
  | 0 => giveUp
  | n + 1 => do
    let left ← product n
    terms n left

/-- The loop over the products of a sum that stand behind its first ones. -/
def terms : Nat → Expr → Pass Expr
  | 0, _ => giveUp
  | n + 1, left => do
    let start ← place
    afterSign sumOp? left fun op p => do
      let right ← product n
      goRound .terms start
      terms n (.binary op left right p)

/-- A product. -/
def product : Nat → Pass Expr
  | 0 => giveUp
  | n + 1 => do
    let left ← unary n
    factors n left

/-- The loop over the factors of a product that stand behind its first ones. -/
def factors : Nat → Expr → Pass Expr
  | 0, _ => giveUp
  | n + 1, left => do
    let start ← place
    afterSign productOp? left fun op p => do
      let right ← unary n
      goRound .factors start
      factors n (.binary op left right p)

/-- A factor with the minus signs in front of it. -/
def unary : Nat → Pass Expr
  | 0 => giveUp
  | n + 1 => do
    if ← check .minus then
      let sign ← advance
      let operand ← unary n
      return .neg operand sign.position
    else primary n

/-- A factor without a sign. -/
def primary : Nat → Pass Expr
  | 0 => giveUp
  | n + 1 => do
    let t ← peek
    match t.lexeme with
    | .number value =>
      let _ ← advance
      return .number value t.position
    | .name name =>
      let _ ← advance
      if ← eat .leftParen then
        let found ← callArguments n
        let _ ← expect .rightParen
        return .call name found t.position
      else return .var name t.position
    | .leftParen =>
      let _ ← advance
      let inner ← sum n
      let _ ← expect .rightParen
      return inner
    | _ => refuse .expression

/-- The arguments of a call. -/
def callArguments : Nat → Pass (List Expr)
  | 0 => giveUp
  | n + 1 => do
    if ← check .rightParen then return [] else arguments n []

/-- The loop over the arguments of a call that stand behind those that were found. -/
def arguments : Nat → List Expr → Pass (List Expr)
  | 0, _ => giveUp
  | n + 1, found => do
    let start ← place
    let argument ← sum n
    if ← eat .comma then
      goRound .arguments start
      arguments n (found ++ [argument])
    else return found ++ [argument]

end

/-! ### Statements and functions -/

/-- A statement with the semicolon that ends it. -/
def statement (n : Nat) : Pass Statement := do
  let first ← peek
  if ← eat .letWord then
    let (name, _) ← expectName
    let _ ← expect .equals
    let value ← sum n
    let _ ← expect .semicolon
    return .bind name value first.position
  else if ← eat .returnWord then
    let value ← sum n
    let _ ← expect .semicolon
    return .result value first.position
  else
    let value ← sum n
    let _ ← expect .semicolon
    return .effect value

/-- The loop over the statements of a block that stand behind those that were found. -/
def statements : Nat → List Statement → Pass (List Statement)
  | 0, _ => giveUp
  | n + 1, found => do
    let start ← place
    if ← check .rightBrace then return found
    else if ← check .finish then refuse (.lexeme .rightBrace)
    else
      let next ← statement n
      goRound .statements start
      statements n (found ++ [next])

/-- The loop over the parameters of a function that stand behind those that were found. -/
def parameters : Nat → List Parameter → Pass (List Parameter)
  | 0, _ => giveUp
  | n + 1, found => do
    let start ← place
    let (name, p) ← expectName
    let _ ← expect .colon
    expectType
    if ← eat .comma then
      goRound .parameters start
      parameters n (found ++ [⟨name, p⟩])
    else return found ++ [⟨name, p⟩]

/-- The parameters of a function. -/
def functionParameters (n : Nat) : Pass (List Parameter) := do
  if ← check .rightParen then return [] else parameters n []

/-- A function. -/
def function (n : Nat) : Pass Function := do
  let position ← expect .fnWord
  let (name, _) ← expectName
  let _ ← expect .leftParen
  let found ← functionParameters n
  let _ ← expect .rightParen
  let _ ← expect .arrow
  expectType
  let _ ← expect .leftBrace
  let body ← statements n []
  let _ ← expect .rightBrace
  return ⟨name, found, body, position⟩

/-- The loop over the functions of a text that stand behind those that were found. -/
def functions : Nat → List Function → Pass (List Function)
  | 0, _ => giveUp
  | n + 1, found => do
    let start ← place
    if ← check .finish then return found
    else
      let next ← function n
      goRound .functions start
      functions n (found ++ [next])

/-- A whole text. -/
def program (n : Nat) : Pass Program := do
  let found ← functions n []
  return ⟨found⟩

end Pass

/-! ### Passes over tokens -/

/-- The position of the last token, or that of no text. -/
def lastPosition (tokens : List Token) : Position :=
  (tokens.getLast?.map Token.position).getD .nowhere

/-- The tokens, with an end of the text put behind them at the position of the last one, unless the
last one is such an end. -/
def closed (tokens : List Token) : List Token :=
  if tokens.getLast?.map Token.lexeme = some .finish then tokens
  else tokens ++ [⟨.finish, lastPosition tokens⟩]

/-- The pass over the tokens of a text, with up to `n` calls inside one another: what they are read
as, and the cursor with its record. -/
def pass (n : Nat) (tokens : List Token) : Option (Except Fault Program × Cursor) :=
  Pass.program n ⟨closed tokens, 0, [], []⟩

end Ingot.Source

import Ingot.Source.Fault
import Ingot.Source.Tree

/-!
# Reading tokens as a tree

`parse` reads the tokens of a source text as a program, by recursive descent:

    program    := function*
    function   := "fn" name "(" (parameter ("," parameter)*)? ")" "->" type block
    parameter  := name ":" type
    block      := "{" statement* "}"
    statement  := "let" name "=" sum ";" | "return" sum ";" | sum ";"
    sum        := product (("+" | "-") product)*
    product    := unary (("*" | "/" | "%") unary)*
    unary      := "-" unary | number | name | name "(" arguments? ")" | "(" sum ")"
    arguments  := sum ("," sum)*

Operations of one level group to the left. Reading stops at the first end of the text;
tokens behind it are not looked at. Every reader answers with fewer tokens than it was
given, which is why the descent ends.
-/

namespace Ingot.Source

/-! ### Readings -/

/-- The outcome of reading a part of a program: what was read and the tokens behind it,
fewer than `bound` of them, or the fault that stopped the reading. -/
abbrev Reading (α : Type) (bound : Nat) : Type :=
  Except Fault { read : α × List Token // read.2.length < bound }

namespace Reading

variable {α β : Type}

/-- A part that was read, and the tokens behind it. -/
def done (a : α) (rest : List Token) : Reading α (rest.length + 1) :=
  .ok ⟨(a, rest), Nat.lt_succ_self _⟩

/-- A reading under a larger bound. -/
def widen {m n : Nat} (reading : Reading α m) (h : m ≤ n) : Reading α n :=
  match reading with
  | .error fault => .error fault
  | .ok ⟨read, hread⟩ => .ok ⟨read, Nat.lt_of_lt_of_le hread h⟩

/-- What was read, turned into something else. -/
def map {bound : Nat} (f : α → β) (reading : Reading α bound) : Reading β bound :=
  match reading with
  | .error fault => .error fault
  | .ok ⟨(a, rest), h⟩ => .ok ⟨(f a, rest), h⟩

/-- Goes on behind a part that was read, with what may take no further token. -/
def andMaybe {bound : Nat} (reading : Reading α bound)
    (next : (a : α) → (rest : List Token) → rest.length < bound → Reading β (rest.length + 1)) :
    Reading β bound :=
  match reading with
  | .error fault => .error fault
  | .ok ⟨(a, rest), h⟩ => (next a rest h).widen h

/-- Goes on behind a part that was read, with what takes a token or more. -/
def andThen {bound : Nat} (reading : Reading α bound)
    (next : (a : α) → (rest : List Token) → rest.length < bound → Reading β rest.length) :
    Reading β bound :=
  match reading with
  | .error fault => .error fault
  | .ok ⟨(a, rest), h⟩ => (next a rest h).widen (Nat.le_of_lt h)

/-- A reading of tokens as a reading of the same tokens behind one more. -/
def behind {rest : List Token} (t : Token) (reading : Reading α rest.length) :
    Reading α (t :: rest).length :=
  reading.widen (Nat.le_succ _)

/-- A reading without its bound. -/
def outcome {bound : Nat} (reading : Reading α bound) : Except Fault (α × List Token) :=
  match reading with
  | .error fault => .error fault
  | .ok ⟨read, _⟩ => .ok read

@[simp] theorem outcome_done (a : α) (rest : List Token) : (done a rest).outcome = .ok (a, rest) :=
  rfl

@[simp] theorem outcome_widen {m n : Nat} (reading : Reading α m) (h : m ≤ n) :
    (reading.widen h).outcome = reading.outcome := by
  cases reading <;> rfl

end Reading

open Reading

/-! ### Single tokens -/

/-- The fault of a token that is not the expected one; past the last token stands the end
of the text. -/
def unexpected (finish : Position) (expected : Expectation) : List Token → Fault
  | [] => .grammar finish (.unexpected expected .finish)
  | t :: _ => .grammar t.position (.unexpected expected t.lexeme)

/-- Reads one given lexeme; the answer is its position. -/
def readLexemeOf (finish : Position) (expected : Lexeme) :
    (tokens : List Token) → Reading Position tokens.length
  | [] => .error (unexpected finish (.lexeme expected) [])
  | t :: rest =>
    if t.lexeme = expected then done t.position rest
    else .error (unexpected finish (.lexeme expected) (t :: rest))

/-- Reads a name; the answer is the name and its position. -/
def readName (finish : Position) :
    (tokens : List Token) → Reading (String × Position) tokens.length
  | ⟨.name text, p⟩ :: rest => done (text, p) rest
  | tokens => .error (unexpected finish .identifier tokens)

/-- Reads a type: the name of the only one. -/
def readType (finish : Position) (tokens : List Token) : Reading Unit tokens.length :=
  match readName finish tokens with
  | .error fault => .error fault
  | .ok ⟨((name, p), rest), h⟩ =>
    if name = valueType then .ok ⟨((), rest), h⟩ else .error (.grammar p (.unknownType name))

/-! ### Expressions -/

/-- The operation between two terms of a sum. -/
def sumOp? : Lexeme → Option BinaryOp
  | .plus => some .add
  | .minus => some .sub
  | _ => none

/-- The operation between two factors of a product. -/
def productOp? : Lexeme → Option BinaryOp
  | .star => some .mul
  | .slash => some .div
  | .percent => some .rem
  | _ => none

mutual

/-- Reads a sum: one or more products. -/
def readSum (finish : Position) (tokens : List Token) : Reading Expr tokens.length :=
  (readProduct finish tokens).andMaybe fun left rest _ => readSumAfter finish left rest
termination_by 7 * tokens.length + 4

/-- Reads what is left of a sum behind its first terms. -/
def readSumAfter (finish : Position) (left : Expr) (tokens : List Token) :
    Reading Expr (tokens.length + 1) :=
  match tokens with
  | [] => done left []
  | t :: rest =>
    match sumOp? t.lexeme with
    | none => done left (t :: rest)
    | some op =>
      widen ((readProduct finish rest).andMaybe fun right rest' _ =>
        readSumAfter finish (.binary op left right t.position) rest') (Nat.le_add_right _ 2)
termination_by 7 * tokens.length + 3

/-- Reads a product: one or more signed factors. -/
def readProduct (finish : Position) (tokens : List Token) : Reading Expr tokens.length :=
  (readUnary finish tokens).andMaybe fun left rest _ => readProductAfter finish left rest
termination_by 7 * tokens.length + 2

/-- Reads what is left of a product behind its first factors. -/
def readProductAfter (finish : Position) (left : Expr) (tokens : List Token) :
    Reading Expr (tokens.length + 1) :=
  match tokens with
  | [] => done left []
  | t :: rest =>
    match productOp? t.lexeme with
    | none => done left (t :: rest)
    | some op =>
      widen ((readUnary finish rest).andMaybe fun right rest' _ =>
        readProductAfter finish (.binary op left right t.position) rest') (Nat.le_add_right _ 2)
termination_by 7 * tokens.length + 1

/-- Reads a factor and the minus signs in front of it. -/
def readUnary (finish : Position) (tokens : List Token) : Reading Expr tokens.length :=
  match tokens with
  | [] => .error (unexpected finish .expression [])
  | t :: rest =>
    match t.lexeme with
    | .minus => behind t ((readUnary finish rest).map fun operand => .neg operand t.position)
    | .number value => done (.number value t.position) rest
    | .name name =>
      match rest with
      | [] => done (.var name t.position) []
      | t' :: rest' =>
        if t'.lexeme = .leftParen then
          behind t (behind t' ((readArguments finish rest').map fun arguments =>
            .call name arguments t.position))
        else done (.var name t.position) (t' :: rest')
    | .leftParen =>
      behind t ((readSum finish rest).andThen fun inner rest' _ =>
        (readLexemeOf finish .rightParen rest').map fun _ => inner)
    | _ => .error (unexpected finish .expression (t :: rest))
termination_by 7 * tokens.length + 0

/-- Reads the arguments of a call up to the parenthesis that closes them. -/
def readArguments (finish : Position) (tokens : List Token) : Reading (List Expr) tokens.length :=
  match tokens with
  | [] => readMoreArguments finish []
  | t :: rest =>
    if t.lexeme = .rightParen then done [] rest else readMoreArguments finish (t :: rest)
termination_by 7 * tokens.length + 6

/-- Reads one argument of a call or more, up to the parenthesis that closes them. -/
def readMoreArguments (finish : Position) (tokens : List Token) :
    Reading (List Expr) tokens.length :=
  (readSum finish tokens).andThen fun first rest h =>
    match rest with
    | [] => .error (unexpected finish (.lexeme .rightParen) [])
    | t :: rest' =>
      have : rest'.length < tokens.length := Nat.lt_of_succ_lt h
      if t.lexeme = .comma then
        behind t ((readMoreArguments finish rest').map fun more => first :: more)
      else (readLexemeOf finish .rightParen (t :: rest')).map fun _ => [first]
termination_by 7 * tokens.length + 5

end

/-! ### Statements -/

/-- Reads a statement with the semicolon that ends it. -/
def readStatement (finish : Position) (tokens : List Token) : Reading Statement tokens.length :=
  match tokens with
  | [] => .error (unexpected finish .expression [])
  | t :: rest =>
    match t.lexeme with
    | .letWord =>
      behind t ((readName finish rest).andThen fun (name, _) rest₁ _ =>
        (readLexemeOf finish .equals rest₁).andThen fun _ rest₂ _ =>
        (readSum finish rest₂).andThen fun value rest₃ _ =>
        (readLexemeOf finish .semicolon rest₃).map fun _ => .bind name value t.position)
    | .returnWord =>
      behind t ((readSum finish rest).andThen fun value rest₁ _ =>
        (readLexemeOf finish .semicolon rest₁).map fun _ => .result value t.position)
    | _ =>
      (readSum finish (t :: rest)).andThen fun value rest₁ _ =>
        (readLexemeOf finish .semicolon rest₁).map fun _ => .effect value

/-- Reads the statements of a block up to the brace that closes it. -/
def readStatements (finish : Position) (tokens : List Token) :
    Reading (List Statement) tokens.length :=
  match tokens with
  | [] => .error (unexpected finish (.lexeme .rightBrace) [])
  | t :: rest =>
    if t.lexeme = .rightBrace then done [] rest
    else
      (readStatement finish (t :: rest)).andThen fun first rest₁ _ =>
        (readStatements finish rest₁).map fun more => first :: more
termination_by tokens.length
decreasing_by assumption

/-! ### Functions -/

/-- Reads one parameter or more, up to the parenthesis that closes them. -/
def readMoreParameters (finish : Position) (tokens : List Token) :
    Reading (List Parameter) tokens.length :=
  (readName finish tokens).andThen fun (name, p) rest h =>
  (readLexemeOf finish .colon rest).andThen fun _ rest₁ h₁ =>
  (readType finish rest₁).andThen fun _ rest₂ h₂ =>
    match rest₂ with
    | [] => .error (unexpected finish (.lexeme .rightParen) [])
    | t :: rest₃ =>
      have : rest₃.length < tokens.length :=
        Nat.lt_trans (Nat.lt_trans (Nat.lt_of_succ_lt h₂) h₁) h
      if t.lexeme = .comma then
        behind t ((readMoreParameters finish rest₃).map fun more => ⟨name, p⟩ :: more)
      else (readLexemeOf finish .rightParen (t :: rest₃)).map fun _ => [⟨name, p⟩]
termination_by tokens.length

/-- Reads the parameters of a function up to the parenthesis that closes them. -/
def readParameters (finish : Position) (tokens : List Token) :
    Reading (List Parameter) tokens.length :=
  match tokens with
  | [] => readMoreParameters finish []
  | t :: rest =>
    if t.lexeme = .rightParen then done [] rest else readMoreParameters finish (t :: rest)

/-- Reads a function. -/
def readFunction (finish : Position) (tokens : List Token) : Reading Function tokens.length :=
  (readLexemeOf finish .fnWord tokens).andThen fun position rest _ =>
  (readName finish rest).andThen fun (name, _) rest₁ _ =>
  (readLexemeOf finish .leftParen rest₁).andThen fun _ rest₂ _ =>
  (readParameters finish rest₂).andThen fun parameters rest₃ _ =>
  (readLexemeOf finish .arrow rest₃).andThen fun _ rest₄ _ =>
  (readType finish rest₄).andThen fun _ rest₅ _ =>
  (readLexemeOf finish .leftBrace rest₅).andThen fun _ rest₆ _ =>
  (readStatements finish rest₆).map fun body => ⟨name, parameters, body, position⟩

/-- Reads functions up to the end of the tokens. -/
def readFunctions (finish : Position) (tokens : List Token) : Except Fault (List Function) :=
  match tokens with
  | [] => .ok []
  | t :: rest =>
    match readFunction finish (t :: rest) with
    | .error fault => .error fault
    | .ok ⟨(first, rest'), _⟩ =>
      match readFunctions finish rest' with
      | .error fault => .error fault
      | .ok more => .ok (first :: more)
termination_by tokens.length
decreasing_by assumption

/-! ### Programs -/

/-- Is this token something else than the end of the text? -/
def Token.isInner (t : Token) : Bool := t.lexeme != .finish

/-- The position of the first end of the text among tokens; where there is none, that of
the last token, and that of no text where there is no token. -/
def finishPosition (tokens : List Token) : Position :=
  match tokens.find? fun t => !t.isInner with
  | some t => t.position
  | none => (tokens.getLast?.map Token.position).getD .nowhere

/-- Reads the tokens of a source text as a program. -/
def parse (tokens : List Token) : Except Fault Program :=
  match readFunctions (finishPosition tokens) (tokens.takeWhile Token.isInner) with
  | .error fault => .error fault
  | .ok functions => .ok ⟨functions⟩

end Ingot.Source

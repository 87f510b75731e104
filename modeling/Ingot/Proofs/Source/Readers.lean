import Ingot.Proofs.Source.LookingAhead

/-!
# The readers as readers of their parts

Each reader of the language is put together from the readers of smaller parts, as the grammar puts
a phrase together from smaller phrases. These are the equations of that kind, one for each reader,
where it starts with the lexemes that decide what is read. What is to be known of a reader follows
from its equation and from a law of each way to put readers together, so that nothing else has to
look inside of them.
-/

namespace Ingot.Source

open Reader

/-! ### Single tokens -/

/-- The reader of one lexeme. -/
def lexemeReader (expected : Lexeme) : Reader Position :=
  Reader.of fun finish tokens => readLexemeOf finish expected tokens

/-- Where no name is ahead, none is read. -/
theorem readName_stops {tokens : List Token} (h : ¬ ∃ name, ahead tokens = some (.name name))
    (finish : Position) :
    readName finish tokens = .error (unexpected finish .identifier tokens) := by
  unfold readName
  split
  · rename_i text p rest
    exact absurd ⟨text, rfl⟩ h
  · rfl

theorem readType_stops {tokens : List Token} (h : ¬ ∃ name, ahead tokens = some (.name name))
    (finish : Position) :
    Reader.of readType finish tokens = .error (unexpected finish .identifier tokens) := by
  show (readType finish tokens).outcome = _
  rw [readType, readName_stops h finish]
  rfl

/-! ### Expressions -/

/-- The reader of what is left of a sum behind its first terms. -/
def sumAfterReader (left : Expr) : Reader Expr :=
  Reader.of fun finish tokens => readSumAfter finish left tokens

/-- The reader of what is left of a product behind its first factors. -/
def productAfterReader (left : Expr) : Reader Expr :=
  Reader.of fun finish tokens => readProductAfter finish left tokens

theorem of_readSum : Reader.of readSum = (Reader.of readProduct).bind sumAfterReader := by
  funext finish tokens
  unfold Reader.of
  rw [readSum]
  exact Reader.outcome_andMaybe rfl fun _ _ _ => rfl

theorem of_readSumAfter (left : Expr) : sumAfterReader left =
    Reader.afterSign sumOp? (fun op p => (Reader.of readProduct).bind fun right =>
      sumAfterReader (.binary op left right p)) left := by
  funext finish tokens
  show (readSumAfter finish left tokens).outcome = _
  cases tokens with
  | nil =>
    rw [readSumAfter]
    rfl
  | cons t rest =>
    rw [readSumAfter, Reader.afterSign]
    cases sumOp? t.lexeme with
    | none => rfl
    | some op =>
      exact (Reading.outcome_widen _ _).trans (Reader.outcome_andMaybe rfl fun _ _ _ => rfl)

theorem of_readProductAfter (left : Expr) : productAfterReader left =
    Reader.afterSign productOp? (fun op p => (Reader.of readUnary).bind fun right =>
      productAfterReader (.binary op left right p)) left := by
  funext finish tokens
  show (readProductAfter finish left tokens).outcome = _
  cases tokens with
  | nil =>
    rw [readProductAfter]
    rfl
  | cons t rest =>
    rw [readProductAfter, Reader.afterSign]
    cases productOp? t.lexeme with
    | none => rfl
    | some op =>
      exact (Reading.outcome_widen _ _).trans (Reader.outcome_andMaybe rfl fun _ _ _ => rfl)

theorem of_readProduct : Reader.of readProduct = (Reader.of readUnary).bind productAfterReader := by
  funext finish tokens
  unfold Reader.of
  rw [readProduct]
  exact Reader.outcome_andMaybe rfl fun _ _ _ => rfl

/-- The reader of one argument or more, with the parenthesis behind them. -/
theorem readUnary_number (finish : Position) (n : Int) (p : Position) (ts : List Token) :
    Reader.of readUnary finish (⟨.number n, p⟩ :: ts) = .ok (.number n p, ts) := by
  show (readUnary finish (⟨.number n, p⟩ :: ts)).outcome = _
  rw [readUnary]
  rfl

/-- A name in front of which no call starts is a variable. -/
theorem readUnary_var (finish : Position) (name : String) (p : Position) {ts : List Token}
    (h : ahead ts ≠ some .leftParen) :
    Reader.of readUnary finish (⟨.name name, p⟩ :: ts) = .ok (.var name p, ts) := by
  refine IsPrimary.var.read finish fun t ht heq => h ?_
  rw [ahead, ht]
  exact congrArg some heq

theorem readUnary_minus (finish p : Position) (ts : List Token) :
    Reader.of readUnary finish (⟨.minus, p⟩ :: ts) =
      ((Reader.of readUnary).map fun operand => .neg operand p) finish ts := by
  show (readUnary finish (⟨.minus, p⟩ :: ts)).outcome = _
  rw [readUnary]
  exact (Reading.outcome_behind _).trans (Reader.outcome_map rfl)

theorem readUnary_call (finish : Position) (name : String) (p q : Position) (ts : List Token) :
    Reader.of readUnary finish (⟨.name name, p⟩ :: ⟨.leftParen, q⟩ :: ts) =
      ((Reader.of readArguments).map fun arguments => .call name arguments p) finish ts := by
  show (readUnary finish (⟨.name name, p⟩ :: ⟨.leftParen, q⟩ :: ts)).outcome = _
  rw [readUnary]
  simp only [if_true]
  refine (Reading.outcome_behind _).trans ((Reading.outcome_behind _).trans ?_)
  exact Reader.outcome_map rfl

theorem readUnary_paren (finish p : Position) (ts : List Token) :
    Reader.of readUnary finish (⟨.leftParen, p⟩ :: ts) =
      ((Reader.of readSum).bind fun inner => (lexemeReader .rightParen).map fun _ => inner)
        finish ts := by
  show (readUnary finish (⟨.leftParen, p⟩ :: ts)).outcome = _
  rw [readUnary]
  refine (Reading.outcome_behind _).trans ?_
  exact Reader.outcome_andThen rfl fun _ _ _ => Reader.outcome_map rfl

/-- Where no expression starts, none is read. -/
theorem readUnary_stops {tokens : List Token}
    (h : ∀ l, ahead tokens = some l → ¬ StartsExpression l) (finish : Position) :
    Reader.of readUnary finish tokens = .error (unexpected finish .expression tokens) := by
  show (readUnary finish tokens).outcome = _
  cases tokens with
  | nil =>
    rw [readUnary]
    rfl
  | cons t rest =>
    obtain ⟨l, p⟩ := t
    have hl : ¬ StartsExpression l := h l rfl
    rw [readUnary]
    split
    case h_1 heq =>
      obtain rfl : l = .minus := heq
      exact absurd trivial hl
    case h_2 value heq =>
      obtain rfl : l = .number value := heq
      exact absurd trivial hl
    case h_3 name heq =>
      obtain rfl : l = .name name := heq
      exact absurd trivial hl
    case h_4 heq =>
      obtain rfl : l = .leftParen := heq
      exact absurd trivial hl
    case h_5 => rfl
/-- Where no parenthesis closes them, there are arguments. -/
theorem readArguments_more {tokens : List Token} (h : ahead tokens ≠ some .rightParen)
    (finish : Position) :
    Reader.of readArguments finish tokens = Reader.of readMoreArguments finish tokens := by
  show (readArguments finish tokens).outcome = (readMoreArguments finish tokens).outcome
  cases tokens with
  | nil => rw [readArguments]
  | cons t ts => rw [readArguments, if_neg fun heq => h (congrArg some heq)]

/-- The reader of one argument or more, with the parenthesis behind them. -/
theorem of_readMoreArguments : Reader.of readMoreArguments =
    (Reader.of readSum).bind fun first =>
      Reader.afterComma ((Reader.of readMoreArguments).map fun more => first :: more)
        ((lexemeReader .rightParen).map fun _ => [first]) := by
  funext finish tokens
  show (readMoreArguments finish tokens).outcome = _
  rw [readMoreArguments]
  refine Reader.outcome_andThen rfl fun first rest hlt => ?_
  cases rest with
  | nil => rfl
  | cons t rest =>
    simp only [Reader.afterComma]
    split
    · exact (Reading.outcome_behind _).trans (Reader.outcome_map rfl)
    · exact Reader.outcome_map rfl
/-! ### Statements and functions -/

theorem readStatement_bind (finish p : Position) (ts : List Token) :
    Reader.of readStatement finish (⟨.letWord, p⟩ :: ts) =
      ((Reader.of readName).bind fun named => (lexemeReader .equals).bind fun _ =>
        (Reader.of readSum).bind fun value =>
          (lexemeReader .semicolon).map fun _ => Statement.bind named.1 value p) finish ts := by
  refine (Reading.outcome_behind _).trans ?_
  refine Reader.outcome_andThen rfl fun _ _ _ => ?_
  refine Reader.outcome_andThen rfl fun _ _ _ => ?_
  exact Reader.outcome_andThen rfl fun _ _ _ => Reader.outcome_map rfl

theorem readStatement_result (finish p : Position) (ts : List Token) :
    Reader.of readStatement finish (⟨.returnWord, p⟩ :: ts) =
      ((Reader.of readSum).bind fun value =>
        (lexemeReader .semicolon).map fun _ => Statement.result value p) finish ts := by
  refine (Reading.outcome_behind _).trans ?_
  exact Reader.outcome_andThen rfl fun _ _ _ => Reader.outcome_map rfl

/-- Where no reserved word starts a statement, it is an expression on its own. -/
theorem readStatement_effect {tokens : List Token} (hlet : ahead tokens ≠ some .letWord)
    (hreturn : ahead tokens ≠ some .returnWord) (finish : Position) :
    Reader.of readStatement finish tokens =
      ((Reader.of readSum).bind fun value =>
        (lexemeReader .semicolon).map fun _ => Statement.effect value) finish tokens := by
  show (readStatement finish tokens).outcome = _
  cases tokens with
  | nil =>
    have hread : Reader.of readSum finish [] = .error (unexpected finish .expression []) := by
      rw [of_readSum, of_readProduct, Reader.bind, Reader.bind, readUnary_stops (by rintro _ ⟨⟩)]
    rw [Reader.bind, hread]
    rfl
  | cons t ts =>
    rw [readStatement]
    split
    · rename_i heq
      exact absurd (congrArg some heq) hlet
    · rename_i heq
      exact absurd (congrArg some heq) hreturn
    · exact Reader.outcome_andThen rfl fun _ _ _ => Reader.outcome_map rfl

theorem readStatements_nil (finish : Position) : Reader.of readStatements finish [] =
    .error (unexpected finish (.lexeme .rightBrace) []) := by
  show (readStatements finish []).outcome = _
  rw [readStatements]
  rfl

theorem readStatements_cons {t : Token} (h : t.lexeme ≠ .rightBrace) (finish : Position)
    (rest : List Token) :
    Reader.of readStatements finish (t :: rest) = ((Reader.of readStatement).bind fun first =>
      (Reader.of readStatements).map fun more => first :: more) finish (t :: rest) := by
  show (readStatements finish (t :: rest)).outcome = _
  rw [readStatements, if_neg h]
  exact Reader.outcome_andThen rfl fun _ _ _ => Reader.outcome_map rfl

/-- The reader of one parameter or more, with the parenthesis behind them. -/
theorem of_readMoreParameters : Reader.of readMoreParameters =
    (Reader.of readName).bind fun named => (lexemeReader .colon).bind fun _ =>
      (Reader.of readType).bind fun _ =>
        Reader.afterComma
          ((Reader.of readMoreParameters).map fun more => ⟨named.1, named.2⟩ :: more)
          ((lexemeReader .rightParen).map fun _ => [⟨named.1, named.2⟩]) := by
  funext finish tokens
  show (readMoreParameters finish tokens).outcome = _
  rw [readMoreParameters]
  refine Reader.outcome_andThen rfl fun named rest hlt => ?_
  refine Reader.outcome_andThen rfl fun _ rest₁ hlt₁ => ?_
  refine Reader.outcome_andThen rfl fun _ rest₂ hlt₂ => ?_
  cases rest₂ with
  | nil => rfl
  | cons t rest₃ =>
    simp only [Reader.afterComma]
    split
    · exact (Reading.outcome_behind _).trans (Reader.outcome_map rfl)
    · exact Reader.outcome_map rfl

/-- Where no parenthesis closes them, there are parameters. -/
theorem readParameters_more {tokens : List Token} (h : ahead tokens ≠ some .rightParen)
    (finish : Position) :
    Reader.of readParameters finish tokens = Reader.of readMoreParameters finish tokens := by
  show (readParameters finish tokens).outcome = (readMoreParameters finish tokens).outcome
  cases tokens with
  | nil => rfl
  | cons t ts => rw [readParameters, if_neg fun heq => h (congrArg some heq)]

theorem of_readFunction : Reader.of readFunction =
    (lexemeReader .fnWord).bind fun position => (Reader.of readName).bind fun named =>
      (lexemeReader .leftParen).bind fun _ => (Reader.of readParameters).bind fun parameters =>
        (lexemeReader .arrow).bind fun _ => (Reader.of readType).bind fun _ =>
          (lexemeReader .leftBrace).bind fun _ => (Reader.of readStatements).map fun body =>
            ⟨named.1, parameters, body, position⟩ := by
  funext finish tokens
  show (readFunction finish tokens).outcome = _
  rw [readFunction]
  refine Reader.outcome_andThen rfl fun _ _ _ => ?_
  refine Reader.outcome_andThen rfl fun _ _ _ => ?_
  refine Reader.outcome_andThen rfl fun _ _ _ => ?_
  refine Reader.outcome_andThen rfl fun _ _ _ => ?_
  refine Reader.outcome_andThen rfl fun _ _ _ => ?_
  refine Reader.outcome_andThen rfl fun _ _ _ => ?_
  exact Reader.outcome_andThen rfl fun _ _ _ => Reader.outcome_map rfl
/-- The reader of functions up to the end of the tokens. -/
def functionsReader : Reader (List Function) := fun finish tokens =>
  match readFunctions finish tokens with
  | .error fault => .error fault
  | .ok functions => .ok (functions, [])

theorem functionsReader_nil (finish : Position) : functionsReader finish [] = .ok ([], []) := by
  rw [functionsReader, readFunctions]

theorem functionsReader_cons (finish : Position) (t : Token) (rest : List Token) :
    functionsReader finish (t :: rest) = ((Reader.of readFunction).bind fun first =>
      functionsReader.map fun more => first :: more) finish (t :: rest) := by
  rw [functionsReader, readFunctions, Reader.bind, Reader.of]
  rcases readFunction finish (t :: rest) with fault | ⟨⟨first, rest'⟩, hlt⟩
  · rfl
  · simp only [Reading.outcome, Reader.map, Reader.bind, functionsReader]
    rcases readFunctions finish rest' with fault | more
    · rfl
    · rfl

end Ingot.Source

import Ingot.Proofs.Source.Readers

/-!
# Moving tokens

Readers decide by lexemes and only carry positions along. So positions may be replaced by any
others: **what is read from moved tokens is what is read from the tokens, moved** (`parse_moved`),
be it the tree with all of its positions or the fault.

The law is one of two readers, the second of which goes on from what the first has read when that
is moved too (`Reader.Moves`): there is one lemma for each way to put readers together, and then one
for each reader of the language.
-/

namespace Ingot.Source

open Reader

section Moved

variable (move : Position → Position)

/-! ### What is moved -/

/-- A token at another place. -/
def Token.moved (t : Token) : Token := ⟨t.lexeme, move t.position⟩

mutual

/-- An expression with its positions moved. -/
def Expr.moved : Expr → Expr
  | .number n p => .number n (move p)
  | .var name p => .var name (move p)
  | .neg operand p => .neg operand.moved (move p)
  | .binary op left right p => .binary op left.moved right.moved (move p)
  | .call function arguments p => .call function (movedArguments arguments) (move p)

/-- Expressions with their positions moved. -/
def movedArguments : List Expr → List Expr
  | [] => []
  | e :: more => e.moved :: movedArguments more

end

/-- A statement with its positions moved. -/
def Statement.moved : Statement → Statement
  | bind name value p => .bind name (value.moved move) (move p)
  | result value p => .result (value.moved move) (move p)
  | effect value => .effect (value.moved move)

/-- A parameter at another place. -/
def Parameter.moved (x : Parameter) : Parameter := ⟨x.name, move x.position⟩

/-- A function with its positions moved. -/
def Function.moved (f : Function) : Function :=
  ⟨f.name, f.parameters.map (Parameter.moved move), f.body.map (Statement.moved move),
    move f.position⟩

/-- A program with its positions moved. -/
def Program.moved (program : Program) : Program := ⟨program.functions.map (Function.moved move)⟩

/-- A fault at another place. -/
def Fault.moved : Fault → Fault
  | grammar p fault => .grammar (move p) fault
  | meaning p fault => .meaning (move p) fault

/-- What something has come to, with its positions moved. -/
def movedOutcome {α : Type} (g : α → α) : Except Fault α → Except Fault α
  | .error fault => .error (fault.moved move)
  | .ok a => .ok (g a)

@[simp] theorem Expr.position_moved (e : Expr) : (e.moved move).position = move e.position := by
  cases e <;> rfl

@[simp] theorem Statement.position_moved (s : Statement) :
    (s.moved move).position = move s.position := by
  cases s with
  | effect value => exact value.position_moved move
  | _ => rfl

@[simp] theorem length_movedArguments (es : List Expr) :
    (movedArguments move es).length = es.length := by
  induction es with
  | nil => rfl
  | cons e more ih => rw [movedArguments, List.length_cons, List.length_cons, ih]

@[simp] theorem Fault.position_moved (fault : Fault) :
    (fault.moved move).position = move fault.position := by
  cases fault <;> rfl

@[simp] theorem ahead_moved (tokens : List Token) :
    ahead (tokens.map (Token.moved move)) = ahead tokens := by
  cases tokens <;> rfl

theorem unexpected_moved (finish : Position) (expected : Expectation) (tokens : List Token) :
    unexpected (move finish) expected (tokens.map (Token.moved move)) =
      (unexpected finish expected tokens).moved move := by
  cases tokens <;> rfl

/-! ### Readers that may be moved -/

/-- The second reader comes to what the first one does at the tokens, with everything moved. -/
def Reader.Moves {α : Type} (g : α → α) (r r' : Reader α) (tokens : List Token) : Prop :=
  ∀ finish, r' (move finish) (tokens.map (Token.moved move)) =
    movedOutcome move (Prod.map g (List.map (Token.moved move))) (r finish tokens)

end Moved

namespace Reader

/-- What is left behind a part is as bounded as the reading of the part tells. -/
theorem length_lt_of_read {α : Type} {bound : List Token → Nat}
    {read : Position → (tokens : List Token) → Reading α (bound tokens)} {finish : Position}
    {tokens rest : List Token} {a : α} (h : Reader.of read finish tokens = .ok (a, rest)) :
    rest.length < bound tokens := by
  obtain ⟨hlt, -⟩ := Reading.eq_of_outcome h
  exact hlt

section Laws

variable {move : Position → Position} {α β : Type} {g : α → α} {g' : β → β} {r r' : Reader α}
  {tokens : List Token}

/-- Reading on behind a part. -/
theorem Moves.bind {next next' : α → Reader β} (h : r.Moves move g r' tokens)
    (hnext : ∀ finish a rest, r finish tokens = .ok (a, rest) →
      (next a).Moves move g' (next' (g a)) rest) :
    (r.bind next).Moves move g' (r'.bind next') tokens := by
  intro finish
  rw [Reader.bind, Reader.bind, h finish]
  cases hread : r finish tokens with
  | error fault => rfl
  | ok read => exact hnext finish read.1 read.2 hread finish

theorem Moves.map {f f' : α → β} (h : r.Moves move g r' tokens) (hf : ∀ a, f' (g a) = g' (f a)) :
    (r.map f).Moves move g' (r'.map f') tokens := by
  refine h.bind fun finish a rest _ finish' => ?_
  rw [hf]
  rfl

/-- Reading a token first. -/
theorem Moves.cons {t : Token} {rest : List Token} {s s' : Reader α}
    (h : s.Moves move g s' rest) (hr : ∀ finish ts, r finish (t :: ts) = s finish ts)
    (hr' : ∀ finish ts, r' finish (t.moved move :: ts) = s' finish ts) :
    r.Moves move g r' (t :: rest) := by
  intro finish
  rw [List.map_cons, hr, hr']
  exact h finish

/-- Reading a token at once. -/
theorem Moves.done {l : Lexeme} {p : Position} {rest : List Token} {a : α}
    (h : ∀ finish ts, r finish (⟨l, p⟩ :: ts) = .ok (a, ts))
    (h' : ∀ finish ts, r' finish (⟨l, move p⟩ :: ts) = .ok (g a, ts)) :
    r.Moves move g r' (⟨l, p⟩ :: rest) := by
  intro finish
  rw [h]
  exact h' (move finish) _

/-- Stopping where something else is expected. -/
theorem Moves.stop {expected : Expectation}
    (h : ∀ finish, r finish tokens = .error (unexpected finish expected tokens))
    (h' : ∀ finish, r' finish (tokens.map (Token.moved move)) =
      .error (unexpected finish expected (tokens.map (Token.moved move)))) :
    r.Moves move g r' tokens := by
  intro finish
  rw [h, h', unexpected_moved]
  rfl

/-- Readers may be replaced by others that do the same where the same lexeme is ahead. -/
theorem Moves.congr {s s' : Reader α} (h : s.Moves move g s' tokens)
    (hr : ∀ finish ts, ahead ts = ahead tokens → r finish ts = s finish ts)
    (hr' : ∀ finish ts, ahead ts = ahead tokens → r' finish ts = s' finish ts) :
    r.Moves move g r' tokens := by
  intro finish
  rw [hr finish tokens rfl, hr' _ _ (ahead_moved move tokens)]
  exact h finish

theorem Moves.afterComma {more more' last last' : Reader α}
    (hmore : ∀ t rest, tokens = t :: rest → more.Moves move g more' rest)
    (hlast : last.Moves move g last' tokens) :
    (Reader.afterComma more last).Moves move g (Reader.afterComma more' last') tokens := by
  intro finish
  match tokens with
  | [] => exact hlast finish
  | t :: rest =>
    have hlexeme : (t.moved move).lexeme = t.lexeme := rfl
    rw [List.map_cons, Reader.afterComma, Reader.afterComma, hlexeme]
    by_cases hcomma : t.lexeme = .comma
    · rw [if_pos hcomma, if_pos hcomma]
      exact hmore t rest rfl finish
    · rw [if_neg hcomma, if_neg hcomma]
      exact hlast finish

theorem Moves.afterSign {op? : Lexeme → Option BinaryOp}
    {more more' : BinaryOp → Position → Reader α} {last : α} (hmore : ∀ t rest op, tokens = t :: rest →
      (more op t.position).Moves move g (more' op (move t.position)) rest) :
    (Reader.afterSign op? more last).Moves move g (Reader.afterSign op? more' (g last)) tokens := by
  intro finish
  match tokens with
  | [] => rfl
  | t :: rest =>
    have hlexeme : (t.moved move).lexeme = t.lexeme := rfl
    rw [List.map_cons, Reader.afterSign, Reader.afterSign, hlexeme]
    cases op? t.lexeme with
    | none => rfl
    | some op => exact hmore t rest op rfl finish

end Laws

end Reader

section Readers

variable (move : Position → Position)

/-! ### Single tokens -/

theorem lexemeReader_moves (expected : Lexeme) (tokens : List Token) :
    (lexemeReader expected).Moves move move (lexemeReader expected) tokens := by
  cases tokens with
  | nil => exact .stop (fun finish => rfl) fun finish => rfl
  | cons t rest =>
    obtain ⟨l, p⟩ := t
    by_cases heq : l = expected
    · subst heq
      exact .done (fun finish ts => outcome_readLexemeOf finish l p ts)
        fun finish ts => outcome_readLexemeOf finish l (move p) ts
    · exact .stop (fun finish => congrArg Reading.outcome (if_neg heq))
        fun finish => congrArg Reading.outcome (if_neg heq)

/-- The name and the position that were read, moved. -/
def movedName (named : String × Position) : String × Position := (named.1, move named.2)

theorem readName_moves (tokens : List Token) :
    (Reader.of readName).Moves move (movedName move) (Reader.of readName) tokens := by
  by_cases hahead : ∃ name, ahead tokens = some (.name name)
  · obtain ⟨name, hname⟩ := hahead
    obtain ⟨p, rest, rfl⟩ := exists_of_ahead hname
    exact .done (fun finish ts => rfl) fun finish ts => rfl
  · have hahead' : ¬ ∃ name, ahead (tokens.map (Token.moved move)) = some (.name name) := by
      rwa [ahead_moved]
    exact .stop (fun finish => congrArg Reading.outcome (readName_stops hahead finish))
      fun finish => congrArg Reading.outcome (readName_stops hahead' finish)

theorem readType_moves (tokens : List Token) :
    (Reader.of readType).Moves move id (Reader.of readType) tokens := by
  by_cases hahead : ∃ name, ahead tokens = some (.name name)
  · obtain ⟨name, hname⟩ := hahead
    obtain ⟨p, rest, rfl⟩ := exists_of_ahead hname
    by_cases htype : name = valueType
    · subst htype
      exact .done (fun finish ts => rfl) fun finish ts => rfl
    · intro finish
      have hread : ∀ (finish q : Position) (ts : List Token),
          Reader.of readType finish (⟨.name name, q⟩ :: ts) =
            .error (.grammar q (.unknownType name)) := fun finish q ts =>
        congrArg Reading.outcome (if_neg htype)
      rw [hread]
      exact hread (move finish) (move p) _
  · exact .stop (fun finish => readType_stops hahead finish)
      fun finish => readType_stops (by rwa [ahead_moved]) finish

/-! ### Expressions -/

mutual

theorem readSum_moves (tokens : List Token) :
    (Reader.of readSum).Moves move (Expr.moved move) (Reader.of readSum) tokens := by
  rw [of_readSum]
  refine (readProduct_moves tokens).bind fun finish left rest hread => ?_
  have hlt : rest.length < tokens.length := length_lt_of_read hread
  exact sumAfter_moves left rest
termination_by 7 * tokens.length + 4

theorem sumAfter_moves (left : Expr) (tokens : List Token) :
    (sumAfterReader left).Moves move (Expr.moved move) (sumAfterReader (left.moved move))
      tokens := by
  rw [of_readSumAfter left, of_readSumAfter (left.moved move)]
  refine .afterSign fun t rest op htokens => ?_
  have hlt : rest.length < tokens.length := htokens ▸ Nat.lt_succ_self _
  refine (readProduct_moves rest).bind fun finish right rest' hread => ?_
  have hlt' : rest'.length < rest.length := length_lt_of_read hread
  have hmore := sumAfter_moves (.binary op left right t.position) rest'
  rwa [Expr.moved] at hmore
termination_by 7 * tokens.length + 3

theorem readProduct_moves (tokens : List Token) :
    (Reader.of readProduct).Moves move (Expr.moved move) (Reader.of readProduct) tokens := by
  rw [of_readProduct]
  refine (readUnary_moves tokens).bind fun finish left rest hread => ?_
  have hlt : rest.length < tokens.length := length_lt_of_read hread
  exact productAfter_moves left rest
termination_by 7 * tokens.length + 2

theorem productAfter_moves (left : Expr) (tokens : List Token) :
    (productAfterReader left).Moves move (Expr.moved move) (productAfterReader (left.moved move))
      tokens := by
  rw [of_readProductAfter left, of_readProductAfter (left.moved move)]
  refine .afterSign fun t rest op htokens => ?_
  have hlt : rest.length < tokens.length := htokens ▸ Nat.lt_succ_self _
  refine (readUnary_moves rest).bind fun finish right rest' hread => ?_
  have hlt' : rest'.length < rest.length := length_lt_of_read hread
  have hmore := productAfter_moves (.binary op left right t.position) rest'
  rwa [Expr.moved] at hmore
termination_by 7 * tokens.length + 1

theorem readUnary_moves (tokens : List Token) :
    (Reader.of readUnary).Moves move (Expr.moved move) (Reader.of readUnary) tokens := by
  by_cases hstarts : ∀ l, ahead tokens = some l → ¬ StartsExpression l
  · exact .stop (fun finish => readUnary_stops hstarts finish)
      fun finish => readUnary_stops (by rwa [ahead_moved]) finish
  match tokens with
  | [] => exact absurd (fun l hl => nomatch hl) hstarts
  | ⟨l, p⟩ :: rest =>
    cases l with
    | minus =>
      have hoperand : ((Reader.of readUnary).map fun operand => Expr.neg operand p).Moves move
          (Expr.moved move) ((Reader.of readUnary).map fun operand => .neg operand (move p)) rest :=
        (readUnary_moves rest).map fun operand => by rw [Expr.moved]
      exact hoperand.cons (fun finish ts => readUnary_minus finish p ts)
        fun finish ts => readUnary_minus finish (move p) ts
    | number value =>
      exact .done (fun finish ts => readUnary_number finish value p ts)
        fun finish ts => readUnary_number finish value (move p) ts
    | name name =>
      have hvar : ahead rest ≠ some .leftParen → (Reader.of readUnary).Moves move
          (Expr.moved move) (Reader.of readUnary) (⟨.name name, p⟩ :: rest) := by
        intro hparen finish
        rw [readUnary_var finish name p hparen]
        exact readUnary_var (move finish) name (move p) (by rwa [ahead_moved])
      match rest with
      | [] => exact hvar nofun
      | ⟨l, q⟩ :: rest =>
        by_cases hparen : l = .leftParen
        · subst hparen
          have hcall : ((Reader.of readArguments).map fun es => Expr.call name es p).Moves move
              (Expr.moved move) ((Reader.of readArguments).map fun es => .call name es (move p))
              rest :=
            (readArguments_moves rest).map fun es => by rw [Expr.moved]
          intro finish
          rw [readUnary_call]
          exact (readUnary_call (move finish) name (move p) (move q) _).trans (hcall finish)
        · exact hvar fun heq => hparen (Option.some.inj heq)
    | leftParen =>
      have hinner : ((Reader.of readSum).bind fun inner =>
          (lexemeReader .rightParen).map fun _ => inner).Moves move (Expr.moved move)
          ((Reader.of readSum).bind fun inner =>
            (lexemeReader .rightParen).map fun _ => inner) rest :=
        (readSum_moves rest).bind fun _ inner rest' _ =>
          (lexemeReader_moves move .rightParen rest').map fun _ => rfl
      exact hinner.cons (fun finish ts => readUnary_paren finish p ts)
        fun finish ts => readUnary_paren finish (move p) ts
    | _ => exact absurd (fun l hl => Option.some.inj hl ▸ id) hstarts
termination_by 7 * tokens.length + 0

theorem readArguments_moves (tokens : List Token) :
    (Reader.of readArguments).Moves move (movedArguments move) (Reader.of readArguments)
      tokens := by
  by_cases hparen : ahead tokens = some .rightParen
  · obtain ⟨q, rest, rfl⟩ := exists_of_ahead hparen
    exact .done (fun finish ts => IsArguments.none.read finish q)
      fun finish ts => IsArguments.none.read finish (move q)
  · refine (readMoreArguments_moves tokens).congr ?_ ?_
    · exact fun finish ts hts => readArguments_more (hts ▸ hparen) finish
    · exact fun finish ts hts => readArguments_more (hts ▸ hparen) finish
termination_by 7 * tokens.length + 6

theorem readMoreArguments_moves (tokens : List Token) :
    (Reader.of readMoreArguments).Moves move (movedArguments move) (Reader.of readMoreArguments)
      tokens := by
  rw [of_readMoreArguments]
  refine (readSum_moves tokens).bind fun finish first rest hread => .afterComma ?_ ?_
  · intro t rest' hrest
    have hlt : rest'.length < tokens.length := by
      have hbehind : rest.length < tokens.length := length_lt_of_read hread
      rw [hrest, List.length_cons] at hbehind
      omega
    exact (readMoreArguments_moves rest').map fun more => by rw [movedArguments]
  · exact (lexemeReader_moves move .rightParen rest).map fun _ => by
      rw [movedArguments, movedArguments]
termination_by 7 * tokens.length + 5

end

/-! ### Statements and functions -/

theorem readSemicolon_moves (s : Statement) (tokens : List Token) :
    ((lexemeReader .semicolon).map fun _ => s).Moves move (Statement.moved move)
      ((lexemeReader .semicolon).map fun _ => s.moved move) tokens :=
  (lexemeReader_moves move .semicolon tokens).map fun _ => rfl

theorem readStatement_moves (tokens : List Token) :
    (Reader.of readStatement).Moves move (Statement.moved move) (Reader.of readStatement)
      tokens := by
  by_cases hlet : ahead tokens = some .letWord
  · obtain ⟨p, rest, rfl⟩ := exists_of_ahead hlet
    refine Moves.cons ?_ (fun finish ts => readStatement_bind finish p ts)
      fun finish ts => readStatement_bind finish (move p) ts
    refine (readName_moves move rest).bind fun _ named rest₁ _ => ?_
    refine (lexemeReader_moves move .equals rest₁).bind fun _ _ rest₂ _ => ?_
    refine (readSum_moves move rest₂).bind fun _ value rest₃ _ => ?_
    exact readSemicolon_moves move (.bind named.1 value p) rest₃
  by_cases hreturn : ahead tokens = some .returnWord
  · obtain ⟨p, rest, rfl⟩ := exists_of_ahead hreturn
    refine Moves.cons ?_ (fun finish ts => readStatement_result finish p ts)
      fun finish ts => readStatement_result finish (move p) ts
    refine (readSum_moves move rest).bind fun _ value rest₁ _ => ?_
    exact readSemicolon_moves move (.result value p) rest₁
  · have heffect : ∀ finish ts, ahead ts = ahead tokens → Reader.of readStatement finish ts =
        ((Reader.of readSum).bind fun value =>
          (lexemeReader .semicolon).map fun _ => Statement.effect value) finish ts :=
      fun finish ts hts => readStatement_effect (hts ▸ hlet) (hts ▸ hreturn) finish
    refine Moves.congr ?_ heffect heffect
    refine (readSum_moves move tokens).bind fun _ value rest₁ _ => ?_
    exact readSemicolon_moves move (.effect value) rest₁

theorem readStatements_moves (tokens : List Token) :
    (Reader.of readStatements).Moves move (List.map (Statement.moved move))
      (Reader.of readStatements) tokens := by
  cases tokens with
  | nil => exact .stop readStatements_nil readStatements_nil
  | cons t rest =>
    obtain ⟨l, p⟩ := t
    by_cases hbrace : l = .rightBrace
    · subst hbrace
      exact .done (fun finish ts => IsStatements.nil.read finish p ts)
        fun finish ts => IsStatements.nil.read finish (move p) ts
    · have hmore : ∀ finish ts, ahead ts = some l → Reader.of readStatements finish ts =
          ((Reader.of readStatement).bind fun first =>
            (Reader.of readStatements).map fun more => first :: more) finish ts := by
        intro finish ts hts
        obtain ⟨q, ts, rfl⟩ := exists_of_ahead hts
        exact readStatements_cons hbrace finish ts
      refine Moves.congr ?_ hmore hmore
      refine (readStatement_moves move _).bind fun finish first rest₁ hread => ?_
      have hlt : rest₁.length < (⟨l, p⟩ :: rest : List Token).length := length_lt_of_read hread
      exact (readStatements_moves rest₁).map fun more => rfl
termination_by tokens.length
decreasing_by assumption

theorem readMoreParameters_moves (tokens : List Token) :
    (Reader.of readMoreParameters).Moves move (List.map (Parameter.moved move))
      (Reader.of readMoreParameters) tokens := by
  rw [of_readMoreParameters]
  refine (readName_moves move tokens).bind fun _ named rest hname => ?_
  refine (lexemeReader_moves move .colon rest).bind fun _ _ rest₁ hcolon => ?_
  refine (readType_moves move rest₁).bind fun _ _ rest₂ htype => .afterComma ?_ ?_
  · intro t rest₃ hrest
    have hlt : rest₃.length < tokens.length := by
      have hlt₁ : rest.length < tokens.length := length_lt_of_read hname
      have hlt₂ : rest₁.length < rest.length := length_lt_of_read hcolon
      have hlt₃ : rest₂.length < rest₁.length := length_lt_of_read htype
      rw [hrest, List.length_cons] at hlt₃
      omega
    exact (readMoreParameters_moves rest₃).map fun more => rfl
  · exact (lexemeReader_moves move .rightParen rest₂).map fun _ => rfl
termination_by tokens.length
decreasing_by assumption

theorem readParameters_moves (tokens : List Token) :
    (Reader.of readParameters).Moves move (List.map (Parameter.moved move))
      (Reader.of readParameters) tokens := by
  by_cases hparen : ahead tokens = some .rightParen
  · obtain ⟨q, rest, rfl⟩ := exists_of_ahead hparen
    exact .done (fun finish ts => IsParameters.none.read finish q ts)
      fun finish ts => IsParameters.none.read finish (move q) ts
  · refine (readMoreParameters_moves move tokens).congr ?_ ?_
    · exact fun finish ts hts => readParameters_more (hts ▸ hparen) finish
    · exact fun finish ts hts => readParameters_more (hts ▸ hparen) finish

theorem readFunction_moves (tokens : List Token) :
    (Reader.of readFunction).Moves move (Function.moved move) (Reader.of readFunction)
      tokens := by
  rw [of_readFunction]
  refine (lexemeReader_moves move .fnWord tokens).bind fun _ p rest _ => ?_
  refine (readName_moves move rest).bind fun _ named rest₁ _ => ?_
  refine (lexemeReader_moves move .leftParen rest₁).bind fun _ _ rest₂ _ => ?_
  refine (readParameters_moves move rest₂).bind fun _ parameters rest₃ _ => ?_
  refine (lexemeReader_moves move .arrow rest₃).bind fun _ _ rest₄ _ => ?_
  refine (readType_moves move rest₄).bind fun _ _ rest₅ _ => ?_
  refine (lexemeReader_moves move .leftBrace rest₅).bind fun _ _ rest₆ _ => ?_
  exact (readStatements_moves move rest₆).map fun body => rfl

theorem functionsReader_moves (tokens : List Token) :
    functionsReader.Moves move (List.map (Function.moved move)) functionsReader tokens := by
  cases tokens with
  | nil =>
    intro finish
    rw [functionsReader_nil]
    exact functionsReader_nil (move finish)
  | cons t rest =>
    obtain ⟨l, p⟩ := t
    have hmore : ∀ finish ts, ahead ts = some l → functionsReader finish ts =
        ((Reader.of readFunction).bind fun first =>
          functionsReader.map fun more => first :: more) finish ts := by
      intro finish ts hts
      obtain ⟨q, ts, rfl⟩ := exists_of_ahead hts
      exact functionsReader_cons finish _ _
    refine Moves.congr ?_ hmore hmore
    refine (readFunction_moves move _).bind fun finish first rest₁ hread => ?_
    have hlt : rest₁.length < (⟨l, p⟩ :: rest : List Token).length := length_lt_of_read hread
    exact (functionsReader_moves rest₁).map fun more => rfl
termination_by tokens.length
decreasing_by assumption

/-! ### Whole texts -/

/-- Reading a program is reading functions up to the end of the text. -/
theorem parse_eq (tokens : List Token) : parse tokens =
    (functionsReader (finishPosition tokens) (tokens.takeWhile Token.isInner)).map
      fun read => ⟨read.1⟩ := by
  rw [parse, functionsReader]
  cases readFunctions (finishPosition tokens) (tokens.takeWhile Token.isInner) with
  | error fault => rfl
  | ok functions => rfl

theorem finishPosition_moved {tokens : List Token} (h : tokens ≠ []) :
    finishPosition (tokens.map (Token.moved move)) = move (finishPosition tokens) := by
  have hinner : (fun t : Token => !t.isInner) ∘ Token.moved move = fun t => !t.isInner := rfl
  unfold finishPosition
  rw [List.find?_map, hinner, List.getLast?_map, List.getLast?_eq_some_getLast h]
  cases tokens.find? fun t => !t.isInner with
  | none => rfl
  | some t => rfl

/-- **What is read from moved tokens is what is read from the tokens, moved.** -/
theorem parse_moved (tokens : List Token) : parse (tokens.map (Token.moved move)) =
    movedOutcome move (Program.moved move) (parse tokens) := by
  match tokens with
  | [] => rw [List.map_nil, parse_eq, List.takeWhile_nil, functionsReader_nil]; rfl
  | t :: rest =>
    have hinner : Token.isInner ∘ Token.moved move = Token.isInner := rfl
    rw [parse_eq, parse_eq, finishPosition_moved move (List.cons_ne_nil t rest),
      List.takeWhile_map, hinner, functionsReader_moves]
    cases functionsReader (finishPosition (t :: rest))
        ((t :: rest).takeWhile Token.isInner) with
    | error fault => rfl
    | ok read => rfl

end Readers

end Ingot.Source

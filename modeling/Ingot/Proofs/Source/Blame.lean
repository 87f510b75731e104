import Ingot.Proofs.Source.Readers

/-!
# The first token that cannot be right

Every reader of the language decides by one token ahead. If it stops there, then what it has taken
is the beginning of a phrase, and no phrase goes on with that lexeme.

So **the fault of tokens that are not read as a program stands at the token up to which they are the
beginning of a program, and with which they are not** (`parse_blames`).
-/

namespace Ingot.Source

open Reader

/-! ### Single tokens -/

/-- A fault of what is expected stands where the tokens start. -/
theorem stops_of_unexpected {α : Type} {r : Reader α} {next : Option Lexeme}
    (expected : Expectation)
    (h : ∀ finish ts, ahead ts = next → r finish ts = .error (unexpected finish expected ts)) :
    r.Stops [] next := by
  intro finish rest hahead
  rw [List.nil_append, h finish rest hahead]
  cases rest with
  | nil => exact ⟨_, rfl⟩
  | cons t rest => exact ⟨_, rfl⟩

theorem lexemeReader_looksAhead (expected : Lexeme) (tokens : List Token) :
    (lexemeReader expected).LooksAhead (fun front p => front = [⟨expected, p⟩]) tokens := by
  by_cases hahead : ahead tokens = some expected
  · obtain ⟨p, rest, rfl⟩ := exists_of_ahead hahead
    refine .done [⟨expected, p⟩] rfl fun finish rest' _ => ?_
    exact outcome_readLexemeOf finish expected p rest'
  · refine .stop (stops_of_unexpected (.lexeme expected) fun finish ts hts => ?_)
      [⟨expected, .nowhere⟩] .nowhere rfl
    rw [← hts] at hahead
    cases ts with
    | nil => rfl
    | cons t ts =>
      have hread : readLexemeOf finish expected (t :: ts) =
          .error (unexpected finish (.lexeme expected) (t :: ts)) :=
        if_neg fun heq => hahead (congrArg some heq)
      exact congrArg Reading.outcome hread

theorem readName_looksAhead (tokens : List Token) :
    (Reader.of readName).LooksAhead (fun front named => front = [⟨.name named.1, named.2⟩])
      tokens := by
  by_cases hahead : ∃ name, ahead tokens = some (.name name)
  · obtain ⟨name, hname⟩ := hahead
    obtain ⟨p, rest, rfl⟩ := exists_of_ahead hname
    exact .done [⟨.name name, p⟩] rfl fun finish rest' _ => rfl
  · refine .stop (stops_of_unexpected .identifier fun finish ts hts => ?_)
      [⟨.name valueType, .nowhere⟩] (valueType, .nowhere) rfl
    rw [← hts] at hahead
    exact congrArg Reading.outcome (readName_stops hahead finish)

theorem readType_looksAhead (tokens : List Token) :
    (Reader.of readType).LooksAhead (fun front _ => ∃ p, front = [⟨.name valueType, p⟩])
      tokens := by
  have hback : ∃ p, [(⟨.name valueType, .nowhere⟩ : Token)] = [⟨.name valueType, p⟩] := ⟨_, rfl⟩
  by_cases hahead : ∃ name, ahead tokens = some (.name name)
  · obtain ⟨name, hname⟩ := hahead
    obtain ⟨p, rest, rfl⟩ := exists_of_ahead hname
    by_cases htype : name = valueType
    · subst htype
      exact .done [⟨.name valueType, p⟩] ⟨p, rfl⟩ fun finish rest' _ => rfl
    · -- Another name is read, and the fault stands at it.
      refine .stop (fun finish ts hts => ?_) _ () hback
      obtain ⟨q, ts, rfl⟩ := exists_of_ahead hts
      refine ⟨.unknownType name, ?_⟩
      have hread : readType finish (⟨.name name, q⟩ :: ts) =
          .error (.grammar q (.unknownType name)) := if_neg htype
      exact congrArg Reading.outcome hread
  · refine .stop (stops_of_unexpected .identifier fun finish ts hts => ?_) _ () hback
    rw [← hts] at hahead
    exact readType_stops hahead finish

/-! ### Expressions -/

theorem length_le_of_split {tokens front rest : List Token}
    (h : rest = [] ∨ tokens = front ++ rest) : rest.length ≤ tokens.length := by
  rcases h with rfl | rfl
  · exact Nat.zero_le _
  · simp

mutual

theorem readSum_looksAhead (tokens : List Token) : (Reader.of readSum).LooksAhead IsSum tokens := by
  rw [of_readSum]
  refine (readProduct_looksAhead tokens).bind fun front left rest hleft hrest => ?_
  have hlt : rest.length ≤ tokens.length := length_le_of_split hrest
  exact sumAfter_looksAhead front left rest (.product hleft)
termination_by 7 * tokens.length + 4

/-- What is left of a sum makes a longer sum of the one in front of it. -/
theorem sumAfter_looksAhead (front : List Token) (left : Expr) (tokens : List Token)
    (hleft : IsSum front left) :
    (sumAfterReader left).LooksAhead (fun back e => IsSum (front ++ back) e) tokens := by
  rw [of_readSumAfter]
  refine .afterSign ((List.append_nil front).symm ▸ hleft) fun l p rest op htokens hop => ?_
  obtain ⟨rfl, hsign⟩ := isSumOp hop
  have hrest : rest.length < tokens.length := by
    rw [htokens]
    exact Nat.lt_succ_self _
  refine (readProduct_looksAhead rest).bind fun back right rest' hright hsplit => ?_
  have hrest' : rest'.length ≤ rest.length := length_le_of_split hsplit
  refine (sumAfter_looksAhead _ _ rest' (.more hsign hleft hright)).mono fun back' e he => ?_
  rw [List.append_assoc] at he
  exact he
termination_by 7 * tokens.length + 3

theorem readProduct_looksAhead (tokens : List Token) :
    (Reader.of readProduct).LooksAhead IsProduct tokens := by
  rw [of_readProduct]
  refine (readUnary_looksAhead tokens).bind fun front left rest hleft hrest => ?_
  have hlt : rest.length ≤ tokens.length := length_le_of_split hrest
  exact productAfter_looksAhead front left rest (.unary hleft)
termination_by 7 * tokens.length + 2

/-- What is left of a product makes a longer product of the one in front of it. -/
theorem productAfter_looksAhead (front : List Token) (left : Expr) (tokens : List Token)
    (hleft : IsProduct front left) :
    (productAfterReader left).LooksAhead (fun back e => IsProduct (front ++ back) e) tokens := by
  rw [of_readProductAfter]
  refine .afterSign ((List.append_nil front).symm ▸ hleft) fun l p rest op htokens hop => ?_
  obtain ⟨rfl, hsign⟩ := isProductOp hop
  have hrest : rest.length < tokens.length := by
    rw [htokens]
    exact Nat.lt_succ_self _
  refine (readUnary_looksAhead rest).bind fun back right rest' hright hsplit => ?_
  have hrest' : rest'.length ≤ rest.length := length_le_of_split hsplit
  refine (productAfter_looksAhead _ _ rest' (.more hsign hleft hright)).mono fun back' e he => ?_
  rw [List.append_assoc] at he
  exact he
termination_by 7 * tokens.length + 1

theorem readUnary_looksAhead (tokens : List Token) :
    (Reader.of readUnary).LooksAhead IsUnary tokens := by
  -- where nothing starts the reader stops, and a number there would do
  by_cases hstarts : ∀ l, ahead tokens = some l → ¬ StartsExpression l
  · refine .stop (stops_of_unexpected .expression fun finish ts hts => ?_)
      [⟨.number 0, .nowhere⟩] (.number 0 .nowhere) (.primary .number)
    rw [← hts] at hstarts
    exact readUnary_stops hstarts finish
  match tokens with
  | [] => exact absurd (fun l hl => nomatch hl) hstarts
  | ⟨l, p⟩ :: rest =>
    cases l with
    | minus =>
      have hoperand : ((Reader.of readUnary).map fun operand => Expr.neg operand p).LooksAhead
          (fun front e => IsUnary (⟨.minus, p⟩ :: front) e) rest :=
        (readUnary_looksAhead rest).map fun _ _ he => .neg he
      exact hoperand.cons fun finish ts => readUnary_minus finish p ts
    | number value =>
      exact .done [⟨.number value, p⟩] (.primary .number) fun finish rest' _ =>
        readUnary_number finish value p rest'
    | name name =>
      have hvar : ahead rest ≠ some .leftParen →
          (Reader.of readUnary).LooksAhead IsUnary (⟨.name name, p⟩ :: rest) := by
        intro hparen
        refine .done [⟨.name name, p⟩] (.primary .var) fun finish rest' hahead => ?_
        have hparen' : ahead rest' ≠ some .leftParen := hahead.symm ▸ hparen
        exact readUnary_var finish name p hparen'
      match rest with
      | [] => exact hvar nofun
      | ⟨l, q⟩ :: rest =>
        by_cases hparen : l = .leftParen
        · subst hparen
          have hcall : ((Reader.of readArguments).map fun es => Expr.call name es p).LooksAhead
              (fun front e => IsUnary (⟨.name name, p⟩ :: ⟨.leftParen, q⟩ :: front) e) rest := by
            refine (readArguments_looksAhead rest).map ?_
            rintro _ es ⟨ts, r, hes, rfl⟩
            exact .primary (.call hes)
          have hopen : LooksAhead
              (fun finish ts => Reader.of readUnary finish (⟨.name name, p⟩ :: ts))
              (fun front e => IsUnary (⟨.name name, p⟩ :: front) e) (⟨.leftParen, q⟩ :: rest) :=
            hcall.cons fun finish ts => readUnary_call finish name p q ts
          exact hopen.cons fun _ _ => rfl
        · exact hvar fun heq => hparen (Option.some.inj heq)
    | leftParen =>
      have hinner : ((Reader.of readSum).bind fun inner =>
          (lexemeReader .rightParen).map fun _ => inner).LooksAhead
          (fun front e => IsUnary (⟨.leftParen, p⟩ :: front) e) rest := by
        refine (readSum_looksAhead rest).bind fun front inner rest' hinner _ => ?_
        refine (lexemeReader_looksAhead .rightParen rest').map fun back q hback => ?_
        subst hback
        exact .primary (.parens hinner)
      exact hinner.cons fun finish ts => readUnary_paren finish p ts
    | _ => exact absurd (fun l hl => Option.some.inj hl ▸ id) hstarts
termination_by 7 * tokens.length + 0

theorem readArguments_looksAhead (tokens : List Token) :
    (Reader.of readArguments).LooksAhead
      (fun front es => ∃ ts r, IsArguments ts es ∧ front = ts ++ [⟨.rightParen, r⟩]) tokens := by
  by_cases hparen : ahead tokens = some .rightParen
  · obtain ⟨r, rest, rfl⟩ := exists_of_ahead hparen
    refine .done [⟨.rightParen, r⟩] ⟨[], r, .none, rfl⟩ fun finish rest' _ => ?_
    exact IsArguments.none.read finish r
  · have hsome : (Reader.of readMoreArguments).LooksAhead
        (fun front es => ∃ ts r, IsArguments ts es ∧ front = ts ++ [⟨.rightParen, r⟩]) tokens := by
      refine (readMoreArguments_looksAhead tokens).mono ?_
      rintro _ es ⟨ts, r, hes, rfl⟩
      exact ⟨ts, r, .some hes, rfl⟩
    refine hsome.congr fun finish ts hts => readArguments_more ?_ finish
    rw [hts]
    exact hparen
termination_by 7 * tokens.length + 6

theorem readMoreArguments_looksAhead (tokens : List Token) :
    (Reader.of readMoreArguments).LooksAhead
      (fun front es => ∃ ts r, IsMoreArguments ts es ∧ front = ts ++ [⟨.rightParen, r⟩])
      tokens := by
  rw [of_readMoreArguments]
  refine (readSum_looksAhead tokens).bind fun front first rest hfirst hrest => .afterComma ?_ ?_
  · rintro p rest rfl
    have hlt : rest.length < tokens.length := length_le_of_split hrest
    refine (readMoreArguments_looksAhead rest).map ?_
    rintro _ more ⟨ts, r, hmore, rfl⟩
    exact ⟨_, r, .more (p := p) hfirst hmore, by simp⟩
  · refine (lexemeReader_looksAhead .rightParen rest).map ?_
    rintro _ r rfl
    exact ⟨front, r, .last hfirst, rfl⟩
termination_by 7 * tokens.length + 5

end

/-! ### Statements and functions -/

theorem readSemicolon_looksAhead (front : List Token) {a : Statement}
    (h : ∀ s, IsStatement (front ++ [⟨.semicolon, s⟩]) a) (tokens : List Token) :
    ((lexemeReader .semicolon).map fun _ => a).LooksAhead
      (fun back a => IsStatement (front ++ back) a) tokens := by
  refine (lexemeReader_looksAhead .semicolon tokens).map fun back s hback => ?_
  subst hback
  exact h s

theorem readStatement_looksAhead (tokens : List Token) :
    (Reader.of readStatement).LooksAhead IsStatement tokens := by
  by_cases hlet : ahead tokens = some .letWord
  · obtain ⟨p, rest, rfl⟩ := exists_of_ahead hlet
    have hbind : ((Reader.of readName).bind fun named => (lexemeReader .equals).bind fun _ =>
        (Reader.of readSum).bind fun value =>
          (lexemeReader .semicolon).map fun _ => Statement.bind named.1 value p).LooksAhead
        (fun front s => IsStatement (⟨.letWord, p⟩ :: front) s) rest := by
      refine (readName_looksAhead rest).bind fun _ named rest₁ hname _ => ?_
      subst hname
      refine (lexemeReader_looksAhead .equals rest₁).bind fun _ r rest₂ hequals _ => ?_
      subst hequals
      refine (readSum_looksAhead rest₂).bind fun front value rest₃ hvalue _ => ?_
      exact readSemicolon_looksAhead (_ :: _ :: _ :: front) (fun s => .bind hvalue) rest₃
    exact hbind.cons fun finish ts => readStatement_bind finish p ts
  by_cases hreturn : ahead tokens = some .returnWord
  · obtain ⟨p, rest, rfl⟩ := exists_of_ahead hreturn
    have hresult : ((Reader.of readSum).bind fun value =>
        (lexemeReader .semicolon).map fun _ => Statement.result value p).LooksAhead
        (fun front s => IsStatement (⟨.returnWord, p⟩ :: front) s) rest := by
      refine (readSum_looksAhead rest).bind fun front value rest₁ hvalue _ => ?_
      exact readSemicolon_looksAhead (_ :: front) (fun s => .result hvalue) rest₁
    exact hresult.cons fun finish ts => readStatement_result finish p ts
  · have heffect : ((Reader.of readSum).bind fun value =>
        (lexemeReader .semicolon).map fun _ => Statement.effect value).LooksAhead
        IsStatement tokens := by
      refine (readSum_looksAhead tokens).bind fun front value rest₁ hvalue _ => ?_
      exact readSemicolon_looksAhead front (fun s => .effect hvalue) rest₁
    refine heffect.congr fun finish ts hts => ?_
    rw [← hts] at hlet hreturn
    exact readStatement_effect hlet hreturn finish

theorem length_lt_of_split {tokens front rest : List Token}
    (h : rest = [] ∨ tokens = front ++ rest) (hfront : front ≠ []) (htokens : tokens ≠ []) :
    rest.length < tokens.length := by
  rcases h with rfl | rfl
  · exact List.length_pos_iff.2 htokens
  · rw [List.length_append]
    exact Nat.lt_add_of_pos_left (List.length_pos_iff.2 hfront)

theorem readStatements_looksAhead (tokens : List Token) :
    (Reader.of readStatements).LooksAhead
      (fun front statements =>
        ∃ ts p, IsStatements ts statements ∧ front = ts ++ [⟨.rightBrace, p⟩]) tokens := by
  cases tokens with
  | nil =>
    refine .stop (stops_of_unexpected (.lexeme .rightBrace) fun finish ts hts => ?_) _ []
      ⟨[], .nowhere, .nil, rfl⟩
    obtain rfl := eq_nil_of_ahead hts
    exact readStatements_nil finish
  | cons t rest =>
    obtain ⟨l, p⟩ := t
    by_cases hbrace : l = .rightBrace
    · subst hbrace
      refine .done [⟨.rightBrace, p⟩] ⟨[], p, .nil, rfl⟩ fun finish rest' _ => ?_
      exact IsStatements.nil.read finish p rest'
    · have hmore : ((Reader.of readStatement).bind fun first =>
          (Reader.of readStatements).map fun more => first :: more).LooksAhead
          (fun front statements =>
            ∃ ts p, IsStatements ts statements ∧ front = ts ++ [⟨.rightBrace, p⟩])
          (⟨l, p⟩ :: rest) := by
        refine (readStatement_looksAhead _).bind fun front first rest₁ hfirst hrest => ?_
        have hlt : rest₁.length < (⟨l, p⟩ :: rest : List Token).length := by
          obtain ⟨t, ts, rfl, -⟩ := hfirst.head_ne
          exact length_lt_of_split hrest (List.cons_ne_nil _ _) (List.cons_ne_nil _ _)
        refine (readStatements_looksAhead rest₁).map ?_
        rintro _ more ⟨ts, q, hmore, rfl⟩
        exact ⟨front ++ ts, q, .cons hfirst hmore, (List.append_assoc _ _ _).symm⟩
      refine hmore.congr fun finish ts hts => ?_
      obtain ⟨q, ts, rfl⟩ := exists_of_ahead hts
      exact readStatements_cons hbrace finish ts
termination_by tokens.length
decreasing_by assumption

theorem readMoreParameters_looksAhead (tokens : List Token) :
    (Reader.of readMoreParameters).LooksAhead
      (fun front parameters =>
        ∃ ts s, IsMoreParameters ts parameters ∧ front = ts ++ [⟨.rightParen, s⟩]) tokens := by
  rw [of_readMoreParameters]
  refine (readName_looksAhead tokens).bind fun _ named rest hname hrest => ?_
  subst hname
  refine (lexemeReader_looksAhead .colon rest).bind fun _ q rest₁ hcolon hrest₁ => ?_
  subst hcolon
  refine (readType_looksAhead rest₁).bind fun _ _ rest₂ htype hrest₂ => .afterComma ?_ ?_
  · rintro s rest₃ rfl
    obtain ⟨r, rfl⟩ := htype
    have hlt : rest₃.length < tokens.length := by
      have hlt₁ := length_le_of_split hrest
      have hlt₂ := length_le_of_split hrest₁
      have hlt₃ := length_le_of_split hrest₂
      exact Nat.lt_of_lt_of_le hlt₃ (Nat.le_trans hlt₂ hlt₁)
    refine (readMoreParameters_looksAhead rest₃).map ?_
    rintro _ more ⟨ts, s', hmore, rfl⟩
    exact ⟨_, s', .more hmore, rfl⟩
  · obtain ⟨r, rfl⟩ := htype
    refine (lexemeReader_looksAhead .rightParen rest₂).map ?_
    rintro _ s rfl
    exact ⟨_, s, .last, rfl⟩
termination_by tokens.length
decreasing_by assumption

theorem readParameters_looksAhead (tokens : List Token) :
    (Reader.of readParameters).LooksAhead
      (fun front parameters =>
        ∃ ts s, IsParameters ts parameters ∧ front = ts ++ [⟨.rightParen, s⟩]) tokens := by
  by_cases hparen : ahead tokens = some .rightParen
  · obtain ⟨s, rest, rfl⟩ := exists_of_ahead hparen
    refine .done [⟨.rightParen, s⟩] ⟨[], s, .none, rfl⟩ fun finish rest' _ => ?_
    exact IsParameters.none.read finish s rest'
  · have hsome : (Reader.of readMoreParameters).LooksAhead
        (fun front parameters =>
          ∃ ts s, IsParameters ts parameters ∧ front = ts ++ [⟨.rightParen, s⟩]) tokens := by
      refine (readMoreParameters_looksAhead tokens).mono ?_
      rintro _ parameters ⟨ts, s, hparameters, rfl⟩
      exact ⟨ts, s, .some hparameters, rfl⟩
    refine hsome.congr fun finish ts hts => readParameters_more ?_ finish
    rw [hts]
    exact hparen

theorem readFunction_looksAhead (tokens : List Token) :
    (Reader.of readFunction).LooksAhead IsFunction tokens := by
  rw [of_readFunction]
  refine (lexemeReader_looksAhead .fnWord tokens).bind fun _ p rest hword _ => ?_
  subst hword
  refine (readName_looksAhead rest).bind fun _ named rest₁ hname _ => ?_
  subst hname
  refine (lexemeReader_looksAhead .leftParen rest₁).bind fun _ r rest₂ hparen _ => ?_
  subst hparen
  refine (readParameters_looksAhead rest₂).bind fun _ parameters rest₃ hparameters _ => ?_
  obtain ⟨ts, s, hparameters, rfl⟩ := hparameters
  refine (lexemeReader_looksAhead .arrow rest₃).bind fun _ t rest₄ harrow _ => ?_
  subst harrow
  refine (readType_looksAhead rest₄).bind fun _ _ rest₅ htype _ => ?_
  obtain ⟨u, rfl⟩ := htype
  refine (lexemeReader_looksAhead .leftBrace rest₅).bind fun _ v rest₆ hbrace _ => ?_
  subst hbrace
  refine (readStatements_looksAhead rest₆).map ?_
  rintro _ statements ⟨body, w, hstatements, rfl⟩
  have h : IsFunction _ ⟨named.1, parameters, statements, p⟩ :=
    .function (q := named.2) (r := r) (s := s) (t := t) (u := u) (v := v) (w := w)
      hparameters hstatements
  simpa using h

theorem functionsReader_looksAhead (tokens : List Token) :
    functionsReader.LooksAhead IsFunctions tokens := by
  cases tokens with
  | nil =>
    refine .pass .nil fun finish ts hts => ?_
    obtain rfl := eq_nil_of_ahead hts
    exact functionsReader_nil finish
  | cons t rest =>
    obtain ⟨l, p⟩ := t
    have hmore : ((Reader.of readFunction).bind fun first =>
        functionsReader.map fun more => first :: more).LooksAhead IsFunctions (⟨l, p⟩ :: rest) := by
      refine (readFunction_looksAhead _).bind fun front first rest₁ hfirst hrest => ?_
      have hlt : rest₁.length < (⟨l, p⟩ :: rest : List Token).length := by
        obtain ⟨t, ts, rfl⟩ := hfirst.eq_cons
        exact length_lt_of_split hrest (List.cons_ne_nil _ _) (List.cons_ne_nil _ _)
      exact (functionsReader_looksAhead rest₁).map fun _ _ hmore => .cons hfirst hmore
    refine hmore.congr fun finish ts hts => ?_
    obtain ⟨q, ts, rfl⟩ := exists_of_ahead hts
    exact functionsReader_cons finish _ _
termination_by tokens.length
decreasing_by assumption

/-! ### No phrase holds the end of a text -/

/-- A form that derives no end of a text. -/
def Form.Inner : Form → Prop
  | .lexeme l => l ≠ .finish
  | .name => True
  | .number => True
  | .phrase _ => True
  | .seq a b => a.Inner ∧ b.Inner
  | .alt a b => a.Inner ∧ b.Inner
  | .opt a => a.Inner
  | .many a => a.Inner

theorem inner_rule (kind : Phrase) : (rule kind).Inner := by
  cases kind <;> simp [rule, Form.Inner]

theorem Derives.inner {a : Form} {ls : List Lexeme} (h : Derives a ls) (ha : a.Inner) :
    ∀ l ∈ ls, l ≠ .finish := by
  induction h with
  | lexeme l =>
    intro l' hl'
    rw [List.mem_singleton.1 hl']
    exact ha
  | name text => simp
  | number n => simp
  | phrase _ ih => exact ih (inner_rule _)
  | seq _ _ iha ihb =>
    intro l hl
    rcases List.mem_append.1 hl with hl | hl
    · exact iha ha.1 l hl
    · exact ihb ha.2 l hl
  | left _ ih => exact ih ha.1
  | right _ ih => exact ih ha.2
  | none => nofun
  | some _ ih => exact ih ha
  | zero => nofun
  | more _ _ iha ihb =>
    intro l hl
    rcases List.mem_append.1 hl with hl | hl
    · exact iha ha l hl
    · exact ihb ha l hl

theorem IsFunctions.inner {ts : List Token} {functions : List Function}
    (h : IsFunctions ts functions) : ∀ t ∈ ts, t.lexeme ≠ .finish := fun _ ht =>
  h.derives.inner (inner_rule .file) _ (List.mem_map_of_mem ht)

/-! ### Whole texts -/

/-- Tokens that end in the only end of a text among them. -/
def EndsOnce (tokens : List Token) : Prop :=
  ∃ inner p, tokens = inner ++ [⟨.finish, p⟩] ∧ ∀ t ∈ inner, t.lexeme ≠ .finish

/-- The token behind the given ones is the first that cannot be right: the tokens in front of it
can be completed to those of a program, and no tokens that are read as a program start with them
and it. -/
structure IsFirstWrong (tokens before : List Token) (t : Token) : Prop where
  within : before ++ [t] <+: tokens
  completes : ∃ completion program,
    EndsOnce (before ++ completion) ∧ parse (before ++ completion) = .ok program
  excludes : ∀ tokens' program, parse tokens' = .ok program → ¬ before ++ [t] <+: tokens'

theorem IsFirstWrong.length_le {tokens before before' : List Token} {t t' : Token}
    (h : IsFirstWrong tokens before t) (h' : IsFirstWrong tokens before' t') :
    before'.length ≤ before.length := by
  refine Nat.le_of_not_lt fun hlt => ?_
  -- A token in front of the other one could not be wrong.
  obtain ⟨completion, program, -, hread⟩ := h'.completes
  have hwithin : before ++ [t] <+: before' := by
    refine List.prefix_of_prefix_length_le h.within ((List.prefix_append _ _).trans h'.within) ?_
    rw [List.length_append]
    exact hlt
  exact h.excludes _ _ hread (hwithin.trans (List.prefix_append _ _))

/-- There is at most one first wrong token. -/
theorem IsFirstWrong.unique {tokens before before' : List Token} {t t' : Token}
    (h : IsFirstWrong tokens before t) (h' : IsFirstWrong tokens before' t') :
    before = before' ∧ t = t' := by
  have hlength : (before ++ [t]).length = (before' ++ [t']).length := by
    have hle := h.length_le h'
    have hge := h'.length_le h
    simp only [List.length_append, List.length_singleton]
    omega
  have hprefix : before ++ [t] <+: before' ++ [t'] :=
    List.prefix_of_prefix_length_le h.within h'.within (Nat.le_of_eq hlength)
  have heq : before ++ [t] = before' ++ [t'] := hprefix.eq_of_length hlength
  simpa using heq

theorem functionsReader_eq_error {tokens : List Token} {fault : Fault}
    (h : parse tokens = .error fault) :
    functionsReader (finishPosition tokens) (tokens.takeWhile Token.isInner) = .error fault := by
  rw [parse] at h
  rw [functionsReader]
  cases hread : readFunctions (finishPosition tokens) (tokens.takeWhile Token.isInner) with
  | error fault' =>
    rw [hread] at h
    exact congrArg Except.error (Except.error.inj h)
  | ok functions =>
    rw [hread] at h
    cases h

/-- Tokens behind which the reader stops do not start a program with what is ahead there. -/
theorem parse_ne_ok_of_stops {front rest : List Token} {next : Option Lexeme}
    (hfront : ∀ t ∈ front, t.lexeme ≠ .finish) (hstops : functionsReader.Stops front next)
    (hnext : ahead (rest.takeWhile Token.isInner) = next) (program : Program) :
    parse (front ++ rest) ≠ .ok program := by
  intro h
  obtain ⟨g, hg⟩ := hstops (finishPosition (front ++ rest)) _ hnext
  rw [parse, List.takeWhile_append_of_pos fun t ht => isInner_iff.2 (hfront t ht)] at h
  rw [functionsReader] at hg
  cases hread : readFunctions (finishPosition (front ++ rest))
      (front ++ rest.takeWhile Token.isInner) with
  | error fault =>
    rw [hread] at h
    cases h
  | ok functions =>
    rw [hread] at hg
    cases hg

theorem finishPosition_inner {inner : List Token} (h : ∀ t ∈ inner, t.lexeme ≠ .finish)
    (p : Position) : finishPosition (inner ++ [⟨.finish, p⟩]) = p := by
  have hinner : inner.find? (fun t => !t.isInner) = none := by
    refine List.find?_eq_none.2 fun t ht => ?_
    simp [isInner_iff.2 (h t ht)]
  rw [finishPosition, List.find?_append, hinner]
  rfl

/-- **Where tokens are not read as a program, the fault stands at the first token that cannot be
right.** -/
theorem parse_blames (tokens : List Token) (hends : EndsOnce tokens) (fault : Fault)
    (h : parse tokens = .error fault) :
    ∃ before t, IsFirstWrong tokens before t ∧ (∃ g, fault = .grammar t.position g) ∧
      ∀ before' t', IsFirstWrong tokens before' t' → before' = before ∧ t' = t := by
  obtain ⟨inner, p, rfl, hinner⟩ := hends
  have hread := functionsReader_eq_error h
  rw [takeWhile_isInner hinner, finishPosition_inner hinner] at hread
  obtain ⟨front, rest, rfl, ⟨functions, -, hanswers⟩ | ⟨hstops, back, functions, hback⟩⟩ :=
    functionsReader_looksAhead inner
  · rw [hanswers p rest rfl] at hread
    cases hread
  · have hfront : ∀ t ∈ front, t.lexeme ≠ .finish := fun t ht =>
      hinner t (List.mem_append_left _ ht)
    -- The token at which the reader stopped, or else the end of the text.
    have hwrong : ∃ t behind, rest ++ [⟨.finish, p⟩] = t :: behind ∧ t.position = startOf p rest ∧
        ∀ behind', ahead ((t :: behind').takeWhile Token.isInner) = ahead rest := by
      cases rest with
      | nil => exact ⟨⟨.finish, p⟩, [], rfl, rfl, fun _ => rfl⟩
      | cons t rest =>
        refine ⟨t, rest ++ [⟨.finish, p⟩], rfl, rfl, fun behind' => ?_⟩
        have ht : t.isInner = true := isInner_iff.2 (hinner t (by simp))
        rw [List.takeWhile_cons_of_pos ht]
        rfl
    obtain ⟨t, behind, hbehind, hposition, hahead⟩ := hwrong
    have hfirst : IsFirstWrong (front ++ rest ++ [⟨.finish, p⟩]) front t := by
      refine ⟨⟨behind, ?_⟩, ⟨back ++ [⟨.finish, p⟩], ⟨functions⟩, ?_, ?_⟩, ?_⟩
      · rw [List.append_assoc, List.append_assoc, hbehind]
        rfl
      · exact ⟨front ++ back, p, (List.append_assoc _ _ _).symm, hback.inner⟩
      · rw [← List.append_assoc]
        exact (parse_eq_ok_iff hback.inner).2 hback
      · rintro tokens' program hok ⟨behind', rfl⟩
        rw [List.append_assoc] at hok
        exact parse_ne_ok_of_stops hfront hstops (hahead behind') program hok
    refine ⟨front, t, hfirst, ?_, fun before' t' h' => h'.unique hfirst⟩
    obtain ⟨g, hg⟩ := hstops p rest rfl
    rw [hread] at hg
    cases hg
    exact ⟨g, by rw [hposition]⟩

/-- The line `fn f() -> i32 { return 1 }`, which lacks a semicolon, as tokens. -/
def openReturnTokens : List Token :=
  [⟨.fnWord, ⟨1, 1⟩⟩, ⟨.name "f", ⟨1, 4⟩⟩, ⟨.leftParen, ⟨1, 5⟩⟩, ⟨.rightParen, ⟨1, 6⟩⟩,
    ⟨.arrow, ⟨1, 8⟩⟩, ⟨.name "i32", ⟨1, 11⟩⟩, ⟨.leftBrace, ⟨1, 15⟩⟩, ⟨.returnWord, ⟨1, 17⟩⟩,
    ⟨.number 1, ⟨1, 24⟩⟩, ⟨.rightBrace, ⟨1, 26⟩⟩, ⟨.finish, ⟨1, 27⟩⟩]

theorem parse_blames_openReturn :
    EndsOnce openReturnTokens ∧
    parse openReturnTokens =
      .error (.grammar ⟨1, 26⟩ (.unexpected (.lexeme .semicolon) .rightBrace)) ∧
    ∃ before t, IsFirstWrong openReturnTokens before t ∧ t.position = ⟨1, 26⟩ := by
  have hends : EndsOnce openReturnTokens :=
    ⟨openReturnTokens.dropLast, ⟨1, 27⟩, rfl, by decide⟩
  have hread : parse openReturnTokens =
      .error (.grammar ⟨1, 26⟩ (.unexpected (.lexeme .semicolon) .rightBrace)) := by cbv
  obtain ⟨before, t, hfirst, ⟨g, hg⟩, -⟩ := parse_blames openReturnTokens hends _ hread
  exact ⟨hends, hread, before, t, hfirst, (Fault.grammar.inj hg).1.symm⟩

end Ingot.Source

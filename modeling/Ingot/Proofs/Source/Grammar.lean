import Ingot.Source.Parsing

/-!
# The grammar of programs

The grammar twice over. `rule` is the one that the language is documented with, a form for each
kind of phrase, and `Derives` says which lexemes a form derives; it knows nothing of trees.
`IsSum` and its companions say which tokens are a phrase of which tree: operations of one level
group to the left, products bind tighter than sums and signs tighter than products, parentheses
leave no node, and each node stands where its own token stands.

Both are about the same texts: **tokens are those of a program just when the grammar derives
their lexemes** (`exists_isFunctions_iff`).
-/

namespace Ingot.Source

/-! ### Phrases and their trees -/

/-- The lexeme of an operation. -/
def BinaryOp.lexeme : BinaryOp → Lexeme
  | add => .plus
  | sub => .minus
  | mul => .star
  | div => .slash
  | rem => .percent

mutual

/-- Tokens of a sum, with its tree. -/
inductive IsSum : List Token → Expr → Prop where
  /-- A single product. -/
  | product {ts : List Token} {e : Expr} : IsProduct ts e → IsSum ts e
  /-- A sum and one product more. -/
  | more {left right : List Token} {a b : Expr} {op : BinaryOp} {p : Position} :
      op = .add ∨ op = .sub → IsSum left a → IsProduct right b →
      IsSum (left ++ ⟨op.lexeme, p⟩ :: right) (.binary op a b p)

/-- Tokens of a product, with its tree. -/
inductive IsProduct : List Token → Expr → Prop where
  /-- A single factor. -/
  | unary {ts : List Token} {e : Expr} : IsUnary ts e → IsProduct ts e
  /-- A product and one factor more. -/
  | more {left right : List Token} {a b : Expr} {op : BinaryOp} {p : Position} :
      op = .mul ∨ op = .div ∨ op = .rem → IsProduct left a → IsUnary right b →
      IsProduct (left ++ ⟨op.lexeme, p⟩ :: right) (.binary op a b p)

/-- Tokens of a factor with the minus signs in front of it, with its tree. -/
inductive IsUnary : List Token → Expr → Prop where
  /-- The negative of a factor. -/
  | neg {ts : List Token} {e : Expr} {p : Position} :
      IsUnary ts e → IsUnary (⟨.minus, p⟩ :: ts) (.neg e p)
  /-- A factor without a sign. -/
  | primary {ts : List Token} {e : Expr} : IsPrimary ts e → IsUnary ts e

/-- Tokens of a factor without a sign, with its tree. -/
inductive IsPrimary : List Token → Expr → Prop where
  /-- A number. -/
  | number {n : Int} {p : Position} : IsPrimary [⟨.number n, p⟩] (.number n p)
  /-- A variable. -/
  | var {name : String} {p : Position} : IsPrimary [⟨.name name, p⟩] (.var name p)
  /-- A call. -/
  | call {name : String} {ts : List Token} {es : List Expr} {p q r : Position} :
      IsArguments ts es →
      IsPrimary (⟨.name name, p⟩ :: ⟨.leftParen, q⟩ :: (ts ++ [⟨.rightParen, r⟩])) (.call name es p)
  /-- A sum in parentheses. -/
  | parens {ts : List Token} {e : Expr} {q r : Position} :
      IsSum ts e → IsPrimary (⟨.leftParen, q⟩ :: (ts ++ [⟨.rightParen, r⟩])) e

/-- Tokens of the arguments of a call, with their trees. -/
inductive IsArguments : List Token → List Expr → Prop where
  /-- No arguments. -/
  | none : IsArguments [] []
  /-- One argument or more. -/
  | some {ts : List Token} {es : List Expr} : IsMoreArguments ts es → IsArguments ts es

/-- Tokens of one argument or more, with their trees. -/
inductive IsMoreArguments : List Token → List Expr → Prop where
  /-- The last argument. -/
  | last {ts : List Token} {e : Expr} : IsSum ts e → IsMoreArguments ts [e]
  /-- An argument with others behind it. -/
  | more {ts rest : List Token} {e : Expr} {es : List Expr} {p : Position} :
      IsSum ts e → IsMoreArguments rest es →
      IsMoreArguments (ts ++ ⟨.comma, p⟩ :: rest) (e :: es)

end

/-- Tokens of a statement, with its tree. -/
inductive IsStatement : List Token → Statement → Prop where
  /-- A binding. -/
  | bind {name : String} {ts : List Token} {e : Expr} {p q r s : Position} : IsSum ts e →
      IsStatement (⟨.letWord, p⟩ :: ⟨.name name, q⟩ :: ⟨.equals, r⟩ :: (ts ++ [⟨.semicolon, s⟩]))
        (.bind name e p)
  /-- A return statement. -/
  | result {ts : List Token} {e : Expr} {p s : Position} : IsSum ts e →
      IsStatement (⟨.returnWord, p⟩ :: (ts ++ [⟨.semicolon, s⟩])) (.result e p)
  /-- An expression on its own. -/
  | effect {ts : List Token} {e : Expr} {s : Position} : IsSum ts e →
      IsStatement (ts ++ [⟨.semicolon, s⟩]) (.effect e)

/-- Tokens of statements, with their trees. -/
inductive IsStatements : List Token → List Statement → Prop where
  /-- No statements. -/
  | nil : IsStatements [] []
  /-- A statement and others behind it. -/
  | cons {ts rest : List Token} {first : Statement} {more : List Statement} :
      IsStatement ts first → IsStatements rest more → IsStatements (ts ++ rest) (first :: more)

/-- Tokens of one parameter or more, with their trees. -/
inductive IsMoreParameters : List Token → List Parameter → Prop where
  /-- The last parameter. -/
  | last {name : String} {p q r : Position} :
      IsMoreParameters [⟨.name name, p⟩, ⟨.colon, q⟩, ⟨.name valueType, r⟩] [⟨name, p⟩]
  /-- A parameter with others behind it. -/
  | more {name : String} {rest : List Token} {parameters : List Parameter} {p q r s : Position} :
      IsMoreParameters rest parameters →
      IsMoreParameters
        (⟨.name name, p⟩ :: ⟨.colon, q⟩ :: ⟨.name valueType, r⟩ :: ⟨.comma, s⟩ :: rest)
        (⟨name, p⟩ :: parameters)

/-- Tokens of the parameters of a function, with their trees. -/
inductive IsParameters : List Token → List Parameter → Prop where
  /-- No parameters. -/
  | none : IsParameters [] []
  /-- One parameter or more. -/
  | some {ts : List Token} {parameters : List Parameter} :
      IsMoreParameters ts parameters → IsParameters ts parameters

/-- Tokens of a function, with its tree. -/
inductive IsFunction : List Token → Function → Prop where
  /-- The first word, the name, the parameters, the type, and the statements in braces. -/
  | function {name : String} {ts body : List Token} {parameters : List Parameter}
      {statements : List Statement} {p q r s t u v w : Position} :
      IsParameters ts parameters → IsStatements body statements →
      IsFunction (⟨.fnWord, p⟩ :: ⟨.name name, q⟩ :: ⟨.leftParen, r⟩ :: (ts ++
          ⟨.rightParen, s⟩ :: ⟨.arrow, t⟩ :: ⟨.name valueType, u⟩ :: ⟨.leftBrace, v⟩ ::
            (body ++ [⟨.rightBrace, w⟩])))
        ⟨name, parameters, statements, p⟩

/-- Tokens of functions, with their trees. -/
inductive IsFunctions : List Token → List Function → Prop where
  /-- No functions. -/
  | nil : IsFunctions [] []
  /-- A function and others behind it. -/
  | cons {ts rest : List Token} {first : Function} {more : List Function} :
      IsFunction ts first → IsFunctions rest more → IsFunctions (ts ++ rest) (first :: more)

/-! ### What expressions start with -/

/-- A lexeme that an expression starts with. -/
def StartsExpression : Lexeme → Prop
  | .minus => True
  | .number _ => True
  | .name _ => True
  | .leftParen => True
  | _ => False

/-- The first token is one that an expression starts with. -/
def Starts (tokens : List Token) : Prop :=
  ∃ l p rest, tokens = ⟨l, p⟩ :: rest ∧ StartsExpression l

theorem Starts.append {tokens : List Token} (h : Starts tokens) (more : List Token) :
    Starts (tokens ++ more) := by
  obtain ⟨l, p, rest, rfl, hl⟩ := h
  exact ⟨l, p, rest ++ more, rfl, hl⟩

theorem IsPrimary.starts {ts : List Token} {e : Expr} (h : IsPrimary ts e) : Starts ts := by
  cases h with
  | number => exact ⟨_, _, _, rfl, trivial⟩
  | var => exact ⟨_, _, _, rfl, trivial⟩
  | call => exact ⟨_, _, _, rfl, trivial⟩
  | parens => exact ⟨_, _, _, rfl, trivial⟩

theorem IsUnary.starts {ts : List Token} {e : Expr} (h : IsUnary ts e) : Starts ts := by
  cases h with
  | neg => exact ⟨_, _, _, rfl, trivial⟩
  | primary h => exact h.starts

theorem IsProduct.starts {ts : List Token} {e : Expr} : IsProduct ts e → Starts ts
  | .unary h => h.starts
  | .more _ h _ => h.starts.append _

theorem IsSum.starts {ts : List Token} {e : Expr} : IsSum ts e → Starts ts
  | .product h => h.starts
  | .more _ h _ => h.starts.append _

theorem IsMoreArguments.starts {ts : List Token} {es : List Expr} (h : IsMoreArguments ts es) :
    Starts ts := by
  cases h with
  | last h => exact h.starts
  | more h _ => exact h.starts.append _

/-! ### The grammar as it is documented -/

/-- The kinds of phrases. -/
inductive Phrase where
  /-- A whole text. -/
  | file
  /-- A function. -/
  | function
  /-- A parameter. -/
  | param
  /-- The statements of a function in their braces. -/
  | block
  /-- A statement. -/
  | stmt
  /-- A sum. -/
  | expr
  /-- A product. -/
  | term
  /-- A factor with its signs. -/
  | unary
  /-- A factor without a sign. -/
  | primary
  /-- The arguments of a call. -/
  | args

/-- The forms of a grammar. -/
inductive Form where
  /-- A given lexeme. -/
  | lexeme (lexeme : Lexeme)
  /-- Any name. -/
  | name
  /-- Any number. -/
  | number
  /-- A phrase. -/
  | phrase (phrase : Phrase)
  /-- One form and then another. -/
  | seq (first second : Form)
  /-- One form or another. -/
  | alt (first second : Form)
  /-- A form or nothing. -/
  | opt (form : Form)
  /-- A form any number of times. -/
  | many (form : Form)

open Form in
/-- The grammar: the form of each kind of phrase. -/
def rule : Phrase → Form
  | .file => many (phrase .function)
  | .function =>
    seq (lexeme .fnWord) <| seq name <| seq (lexeme .leftParen) <|
      seq (opt (seq (phrase .param) (many (seq (lexeme .comma) (phrase .param))))) <|
      seq (lexeme .rightParen) <| seq (lexeme .arrow) <|
      seq (lexeme (.name valueType)) (phrase .block)
  | .param => seq name <| seq (lexeme .colon) (lexeme (.name valueType))
  | .block => seq (lexeme .leftBrace) <| seq (many (phrase .stmt)) (lexeme .rightBrace)
  | .stmt =>
    alt (seq (lexeme .letWord) <| seq name <| seq (lexeme .equals) <|
        seq (phrase .expr) (lexeme .semicolon)) <|
      alt (seq (lexeme .returnWord) <| seq (phrase .expr) (lexeme .semicolon))
        (seq (phrase .expr) (lexeme .semicolon))
  | .expr =>
    seq (phrase .term) (many (seq (alt (lexeme .plus) (lexeme .minus)) (phrase .term)))
  | .term =>
    seq (phrase .unary) (many (seq (alt (lexeme .star) (alt (lexeme .slash) (lexeme .percent)))
      (phrase .unary)))
  | .unary => alt (seq (lexeme .minus) (phrase .unary)) (phrase .primary)
  | .primary =>
    alt number <| alt name <|
      alt (seq name <| seq (lexeme .leftParen) <| seq (opt (phrase .args)) (lexeme .rightParen)) <|
        seq (lexeme .leftParen) <| seq (phrase .expr) (lexeme .rightParen)
  | .args => seq (phrase .expr) (many (seq (lexeme .comma) (phrase .expr)))

/-- The lexemes that a form derives. -/
inductive Derives : Form → List Lexeme → Prop where
  /-- A lexeme derives itself. -/
  | lexeme (l : Lexeme) : Derives (.lexeme l) [l]
  /-- A name. -/
  | name (text : String) : Derives .name [.name text]
  /-- A number. -/
  | number (n : Int) : Derives .number [.number n]
  /-- A phrase derives what its form derives. -/
  | phrase {kind : Phrase} {ls : List Lexeme} : Derives (rule kind) ls → Derives (.phrase kind) ls
  /-- Both parts, one behind the other. -/
  | seq {a b : Form} {xs ys : List Lexeme} :
      Derives a xs → Derives b ys → Derives (.seq a b) (xs ++ ys)
  /-- The first of two forms. -/
  | left {a b : Form} {ls : List Lexeme} : Derives a ls → Derives (.alt a b) ls
  /-- The second of two forms. -/
  | right {a b : Form} {ls : List Lexeme} : Derives b ls → Derives (.alt a b) ls
  /-- Nothing. -/
  | none {a : Form} : Derives (.opt a) []
  /-- The form that may be left out. -/
  | some {a : Form} {ls : List Lexeme} : Derives a ls → Derives (.opt a) ls
  /-- No times. -/
  | zero {a : Form} : Derives (.many a) []
  /-- Once more. -/
  | more {a : Form} {xs ys : List Lexeme} :
      Derives a xs → Derives (.many a) ys → Derives (.many a) (xs ++ ys)

/-! ### What has a tree is derived -/

/-- A lexeme in front of what the rest of a row derives. -/
theorem Derives.cons {a : Form} {l : Lexeme} {ls : List Lexeme} (h : Derives a ls) :
    Derives (.seq (.lexeme l) a) (l :: ls) := .seq (.lexeme l) h

theorem Derives.name_cons {a : Form} {text : String} {ls : List Lexeme} (h : Derives a ls) :
    Derives (.seq .name a) (.name text :: ls) := .seq (.name text) h

/-- A form any number of times, and then once more. -/
theorem Derives.many_snoc {a : Form} {xs ys : List Lexeme} (h : Derives (.many a) xs)
    (hlast : Derives a ys) : Derives (.many a) (xs ++ ys) := by
  generalize hform : Form.many a = form at h
  induction h with
  | zero =>
    cases hform
    rw [List.nil_append, ← List.append_nil ys]
    exact .more hlast .zero
  | more hfirst _ _ ih =>
    cases hform
    rw [List.append_assoc]
    exact .more hfirst (ih rfl)
  | _ => cases hform

/-- One more behind a row. -/
theorem Derives.row_snoc {a b : Form} {xs ys : List Lexeme} (h : Derives (.seq a (.many b)) xs)
    (hlast : Derives b ys) : Derives (.seq a (.many b)) (xs ++ ys) := by
  cases h with
  | seq hfirst hmany =>
    rw [List.append_assoc]
    exact .seq hfirst (hmany.many_snoc hlast)

/-- A row of a single form. -/
theorem Derives.row_one {a b : Form} {ls : List Lexeme} (h : Derives a ls) :
    Derives (.seq a (.many b)) ls := by
  rw [← List.append_nil ls]
  exact .seq h .zero

/-- One more in front of a row, with a lexeme between. -/
theorem Derives.row_cons {a : Form} {l : Lexeme} {xs ys : List Lexeme} (h : Derives a xs)
    (hrow : Derives (.seq a (.many (.seq (.lexeme l) a))) ys) :
    Derives (.seq a (.many (.seq (.lexeme l) a))) (xs ++ l :: ys) := by
  cases hrow with
  | seq hfirst hmany => exact .seq h (.more hfirst.cons hmany)

theorem Derives.of_phrase {kind : Phrase} {ls : List Lexeme} (h : Derives (.phrase kind) ls) :
    Derives (rule kind) ls := by
  cases h with
  | phrase h => exact h

theorem derives_sumSign {op : BinaryOp} (h : op = .add ∨ op = .sub) :
    Derives (.alt (.lexeme .plus) (.lexeme .minus)) [op.lexeme] := by
  rcases h with rfl | rfl
  · exact .left (.lexeme _)
  · exact .right (.lexeme _)

theorem derives_productSign {op : BinaryOp} (h : op = .mul ∨ op = .div ∨ op = .rem) :
    Derives (.alt (.lexeme .star) (.alt (.lexeme .slash) (.lexeme .percent))) [op.lexeme] := by
  rcases h with rfl | rfl | rfl
  · exact .left (.lexeme _)
  · exact .right (.left (.lexeme _))
  · exact .right (.right (.lexeme _))

mutual

theorem IsSum.derives {ts : List Token} {e : Expr} :
    IsSum ts e → Derives (.phrase .expr) (ts.map Token.lexeme)
  | .product h => .phrase (.row_one h.derives)
  | .more hop hleft hright => by
    rw [List.map_append, List.map_cons]
    have hlast := (derives_sumSign hop).seq hright.derives
    exact .phrase (hleft.derives.of_phrase.row_snoc hlast)

theorem IsProduct.derives {ts : List Token} {e : Expr} :
    IsProduct ts e → Derives (.phrase .term) (ts.map Token.lexeme)
  | .unary h => .phrase (.row_one h.derives)
  | .more hop hleft hright => by
    rw [List.map_append, List.map_cons]
    have hlast := (derives_productSign hop).seq hright.derives
    exact .phrase (hleft.derives.of_phrase.row_snoc hlast)

theorem IsUnary.derives {ts : List Token} {e : Expr} :
    IsUnary ts e → Derives (.phrase .unary) (ts.map Token.lexeme)
  | .neg h => .phrase (.left h.derives.cons)
  | .primary h => .phrase (.right h.derives)

theorem IsPrimary.derives {ts : List Token} {e : Expr} :
    IsPrimary ts e → Derives (.phrase .primary) (ts.map Token.lexeme)
  | .number => .phrase (.left (.number _))
  | .var => .phrase (.right (.left (.name _)))
  | .call h => by
    rw [List.map_cons, List.map_cons, List.map_append]
    exact .phrase (.right (.right (.left (.name_cons (.cons (.seq h.derives (.lexeme _)))))))
  | .parens h => by
    rw [List.map_cons, List.map_append]
    exact .phrase (.right (.right (.right (.cons (.seq h.derives (.lexeme _))))))

theorem IsArguments.derives {ts : List Token} {es : List Expr} :
    IsArguments ts es → Derives (.opt (.phrase .args)) (ts.map Token.lexeme)
  | .none => .none
  | .some h => .some h.derives

theorem IsMoreArguments.derives {ts : List Token} {es : List Expr} :
    IsMoreArguments ts es → Derives (.phrase .args) (ts.map Token.lexeme)
  | .last h => .phrase (.row_one h.derives)
  | .more h hmore => by
    rw [List.map_append, List.map_cons]
    exact .phrase (.row_cons h.derives hmore.derives.of_phrase)

end

theorem IsStatement.derives {ts : List Token} {s : Statement} (h : IsStatement ts s) :
    Derives (.phrase .stmt) (ts.map Token.lexeme) := by
  cases h with
  | bind h =>
    simp only [List.map_cons, List.map_append, List.map_nil]
    exact .phrase (.left (.cons (.name_cons (.cons (h.derives.seq (.lexeme _))))))
  | result h =>
    simp only [List.map_cons, List.map_append, List.map_nil]
    exact .phrase (.right (.left (.cons (h.derives.seq (.lexeme _)))))
  | effect h =>
    simp only [List.map_cons, List.map_append, List.map_nil]
    exact .phrase (.right (.right (h.derives.seq (.lexeme _))))

theorem IsStatements.derives {ts : List Token} {statements : List Statement}
    (h : IsStatements ts statements) : Derives (.many (.phrase .stmt)) (ts.map Token.lexeme) := by
  induction h with
  | nil => exact .zero
  | cons hfirst _ ih =>
    rw [List.map_append]
    exact .more hfirst.derives ih

theorem derives_parameter (name : String) :
    Derives (.phrase .param) [.name name, .colon, .name valueType] :=
  .phrase (.name_cons (.cons (.lexeme _)))

theorem IsMoreParameters.derives {ts : List Token} {parameters : List Parameter}
    (h : IsMoreParameters ts parameters) :
    Derives (.seq (.phrase .param) (.many (.seq (.lexeme .comma) (.phrase .param))))
      (ts.map Token.lexeme) := by
  induction h with
  | last => exact .row_one (derives_parameter _)
  | more _ ih => exact (derives_parameter _).row_cons ih

theorem IsParameters.derives {ts : List Token} {parameters : List Parameter}
    (h : IsParameters ts parameters) :
    Derives (.opt (.seq (.phrase .param) (.many (.seq (.lexeme .comma) (.phrase .param)))))
      (ts.map Token.lexeme) := by
  cases h with
  | none => exact .none
  | some h => exact .some h.derives

theorem IsFunction.derives {ts : List Token} {f : Function} (h : IsFunction ts f) :
    Derives (.phrase .function) (ts.map Token.lexeme) := by
  cases h with
  | function hparameters hbody =>
    simp only [List.map_cons, List.map_append, List.map_nil]
    have hblock : Derives (.phrase .block) _ :=
      .phrase (.cons (hbody.derives.seq (.lexeme .rightBrace)))
    exact .phrase (.cons (.name_cons (.cons
      (hparameters.derives.seq (.cons (.cons (.cons hblock)))))))

theorem IsFunctions.derives {ts : List Token} {functions : List Function}
    (h : IsFunctions ts functions) : Derives (.phrase .file) (ts.map Token.lexeme) := by
  refine .phrase ?_
  induction h with
  | nil => exact .zero
  | cons hfirst _ ih =>
    rw [List.map_append]
    exact .more hfirst.derives ih

/-! ### What is derived has a tree -/

/-- Tokens of a kind of phrase, with some tree. -/
def HasTree : Phrase → List Token → Prop
  | .file, ts => ∃ functions, IsFunctions ts functions
  | .function, ts => ∃ f, IsFunction ts f
  | .param, ts => ∃ name p q r, ts = [⟨.name name, p⟩, ⟨.colon, q⟩, ⟨.name valueType, r⟩]
  | .block, ts => ∃ body statements p q, IsStatements body statements ∧
      ts = ⟨.leftBrace, p⟩ :: (body ++ [⟨.rightBrace, q⟩])
  | .stmt, ts => ∃ s, IsStatement ts s
  | .expr, ts => ∃ e, IsSum ts e
  | .term, ts => ∃ e, IsProduct ts e
  | .unary, ts => ∃ e, IsUnary ts e
  | .primary, ts => ∃ e, IsPrimary ts e
  | .args, ts => ∃ es, IsMoreArguments ts es

/-- Rows of tokens each of which has a property, one behind the other. -/
inductive Rows (P : List Token → Prop) : List Token → Prop where
  /-- No rows. -/
  | nil : Rows P []
  /-- A row and others behind it. -/
  | cons {first rest : List Token} : P first → Rows P rest → Rows P (first ++ rest)

/-- What a form says of tokens, if a kind of phrase says that there is a tree. -/
def Form.Holds : Form → List Token → Prop
  | .lexeme l, ts => ∃ p, ts = [⟨l, p⟩]
  | .name, ts => ∃ text p, ts = [⟨.name text, p⟩]
  | .number, ts => ∃ n p, ts = [⟨.number n, p⟩]
  | .phrase kind, ts => HasTree kind ts
  | .seq a b, ts => ∃ front back, ts = front ++ back ∧ a.Holds front ∧ b.Holds back
  | .alt a b, ts => a.Holds ts ∨ b.Holds ts
  | .opt a, ts => ts = [] ∨ a.Holds ts
  | .many a, ts => Rows a.Holds ts

/-- A sum with more products behind it is a sum. -/
theorem isSum_of_rows {front back : List Token} {e : Expr} (h : IsSum front e)
    (hback : Rows (Form.Holds (.seq (.alt (.lexeme .plus) (.lexeme .minus)) (.phrase .term))) back) :
    ∃ e', IsSum (front ++ back) e' := by
  induction hback generalizing front e with
  | nil => exact ⟨e, (List.append_nil front).symm ▸ h⟩
  | cons hfirst _ ih =>
    obtain ⟨sign, right, rfl, hsign, b, hb⟩ := hfirst
    have hmore : ∃ e', IsSum (front ++ (sign ++ right)) e' := by
      rcases hsign with ⟨p, rfl⟩ | ⟨p, rfl⟩
      · exact ⟨.binary .add e b p, .more (.inl rfl) h hb⟩
      · exact ⟨.binary .sub e b p, .more (.inr rfl) h hb⟩
    obtain ⟨e', he'⟩ := hmore
    rw [← List.append_assoc]
    exact ih he'

/-- A product with more factors behind it is a product. -/
theorem isProduct_of_rows {front back : List Token} {e : Expr} (h : IsProduct front e)
    (hback : Rows (Form.Holds (.seq (.alt (.lexeme .star) (.alt (.lexeme .slash)
      (.lexeme .percent))) (.phrase .unary))) back) : ∃ e', IsProduct (front ++ back) e' := by
  induction hback generalizing front e with
  | nil => exact ⟨e, (List.append_nil front).symm ▸ h⟩
  | cons hfirst _ ih =>
    obtain ⟨sign, right, rfl, hsign, b, hb⟩ := hfirst
    have hmore : ∃ e', IsProduct (front ++ (sign ++ right)) e' := by
      rcases hsign with ⟨p, rfl⟩ | ⟨p, rfl⟩ | ⟨p, rfl⟩
      · exact ⟨.binary .mul e b p, .more (.inl rfl) h hb⟩
      · exact ⟨.binary .div e b p, .more (.inr (.inl rfl)) h hb⟩
      · exact ⟨.binary .rem e b p, .more (.inr (.inr rfl)) h hb⟩
    obtain ⟨e', he'⟩ := hmore
    rw [← List.append_assoc]
    exact ih he'

/-- An argument with more behind it. -/
theorem isMoreArguments_of_rows {front back : List Token} {e : Expr} (h : IsSum front e)
    (hback : Rows (Form.Holds (.seq (.lexeme .comma) (.phrase .expr))) back) :
    ∃ es, IsMoreArguments (front ++ back) es := by
  induction hback generalizing front e with
  | nil => exact ⟨[e], (List.append_nil front).symm ▸ .last h⟩
  | cons hfirst _ ih =>
    obtain ⟨_, right, rfl, ⟨p, rfl⟩, e', he'⟩ := hfirst
    obtain ⟨es, hes⟩ := ih he'
    exact ⟨e :: es, .more h hes⟩

/-- A parameter with more behind it. -/
theorem isMoreParameters_of_rows {front back : List Token} (h : HasTree .param front)
    (hback : Rows (Form.Holds (.seq (.lexeme .comma) (.phrase .param))) back) :
    ∃ parameters, IsMoreParameters (front ++ back) parameters := by
  induction hback generalizing front with
  | nil =>
    obtain ⟨name, p, q, r, rfl⟩ := h
    exact ⟨_, .last⟩
  | cons hfirst _ ih =>
    obtain ⟨_, right, rfl, ⟨s, rfl⟩, hright⟩ := hfirst
    obtain ⟨parameters, hparameters⟩ := ih hright
    obtain ⟨name, p, q, r, rfl⟩ := h
    exact ⟨_, .more hparameters⟩

theorem isStatements_of_rows {ts : List Token} (h : Rows (HasTree .stmt) ts) :
    ∃ statements, IsStatements ts statements := by
  induction h with
  | nil => exact ⟨[], .nil⟩
  | cons hfirst _ ih =>
    obtain ⟨first, hfirst⟩ := hfirst
    obtain ⟨more, hmore⟩ := ih
    exact ⟨first :: more, .cons hfirst hmore⟩

theorem isFunctions_of_rows {ts : List Token} (h : Rows (HasTree .function) ts) :
    ∃ functions, IsFunctions ts functions := by
  induction h with
  | nil => exact ⟨[], .nil⟩
  | cons hfirst _ ih =>
    obtain ⟨first, hfirst⟩ := hfirst
    obtain ⟨more, hmore⟩ := ih
    exact ⟨first :: more, .cons hfirst hmore⟩

/-- Tokens of the form of a kind of phrase have a tree. -/
theorem hasTree_of_holds {kind : Phrase} {ts : List Token} (h : (rule kind).Holds ts) :
    HasTree kind ts := by
  cases kind with
  | file => exact isFunctions_of_rows h
  | function =>
    obtain ⟨_, _, rfl, ⟨p, rfl⟩, _, _, rfl, ⟨name, q, rfl⟩, _, _, rfl, ⟨r, rfl⟩, parameters, _, rfl,
      hparameters, _, _, rfl, ⟨s, rfl⟩, _, _, rfl, ⟨t, rfl⟩, _, _, rfl, ⟨u, rfl⟩, body, statements,
      v, w, hbody, rfl⟩ := h
    rcases hparameters with rfl | ⟨first, back, rfl, hfirst, hback⟩
    · exact ⟨_, .function .none hbody⟩
    · obtain ⟨parameters, hparameters⟩ := isMoreParameters_of_rows hfirst hback
      exact ⟨_, .function (.some hparameters) hbody⟩
  | param =>
    obtain ⟨_, _, rfl, ⟨name, p, rfl⟩, _, _, rfl, ⟨q, rfl⟩, r, rfl⟩ := h
    exact ⟨name, p, q, r, rfl⟩
  | block =>
    obtain ⟨_, _, rfl, ⟨p, rfl⟩, body, _, rfl, hbody, q, rfl⟩ := h
    obtain ⟨statements, hstatements⟩ := isStatements_of_rows hbody
    exact ⟨body, statements, p, q, hstatements, rfl⟩
  | stmt =>
    rcases h with ⟨_, _, rfl, ⟨p, rfl⟩, _, _, rfl, ⟨name, q, rfl⟩, _, _, rfl, ⟨r, rfl⟩, ts, _, rfl,
      ⟨e, he⟩, s, rfl⟩ | ⟨_, _, rfl, ⟨p, rfl⟩, ts, _, rfl, ⟨e, he⟩, s, rfl⟩ |
      ⟨ts, _, rfl, ⟨e, he⟩, s, rfl⟩
    · exact ⟨_, .bind he⟩
    · exact ⟨_, .result he⟩
    · exact ⟨_, .effect he⟩
  | expr =>
    obtain ⟨front, back, rfl, ⟨e, he⟩, hback⟩ := h
    exact isSum_of_rows (.product he) hback
  | term =>
    obtain ⟨front, back, rfl, ⟨e, he⟩, hback⟩ := h
    exact isProduct_of_rows (.unary he) hback
  | unary =>
    rcases h with ⟨_, ts, rfl, ⟨p, rfl⟩, e, he⟩ | ⟨e, he⟩
    · exact ⟨_, .neg he⟩
    · exact ⟨_, .primary he⟩
  | primary =>
    rcases h with ⟨n, p, rfl⟩ | ⟨name, p, rfl⟩ | ⟨_, _, rfl, ⟨name, p, rfl⟩, _, _, rfl, ⟨q, rfl⟩,
      ts, _, rfl, hts, r, rfl⟩ | ⟨_, _, rfl, ⟨p, rfl⟩, ts, _, rfl, ⟨e, he⟩, q, rfl⟩
    · exact ⟨_, .number⟩
    · exact ⟨_, .var⟩
    · rcases hts with rfl | ⟨es, hes⟩
      · exact ⟨_, .call .none⟩
      · exact ⟨_, .call (.some hes)⟩
    · exact ⟨_, .parens he⟩
  | args =>
    obtain ⟨front, back, rfl, ⟨e, he⟩, hback⟩ := h
    exact isMoreArguments_of_rows he hback

theorem Derives.holds {a : Form} {ls : List Lexeme} (h : Derives a ls) {ts : List Token}
    (hts : ts.map Token.lexeme = ls) : a.Holds ts := by
  induction h generalizing ts with
  | lexeme l =>
    obtain ⟨⟨l', p⟩, rfl, rfl⟩ := List.map_eq_singleton_iff.1 hts
    exact ⟨p, rfl⟩
  | name text =>
    obtain ⟨⟨l', p⟩, rfl, hl⟩ := List.map_eq_singleton_iff.1 hts
    cases hl
    exact ⟨text, p, rfl⟩
  | number n =>
    obtain ⟨⟨l', p⟩, rfl, hl⟩ := List.map_eq_singleton_iff.1 hts
    cases hl
    exact ⟨n, p, rfl⟩
  | phrase _ ih => exact hasTree_of_holds (ih hts)
  | seq _ _ iha ihb =>
    obtain ⟨front, back, rfl, hfront, hback⟩ := List.map_eq_append_iff.1 hts
    exact ⟨front, back, rfl, iha hfront, ihb hback⟩
  | left _ ih => exact .inl (ih hts)
  | right _ ih => exact .inr (ih hts)
  | none => exact .inl (List.map_eq_nil_iff.1 hts)
  | some _ ih => exact .inr (ih hts)
  | zero =>
    obtain rfl := List.map_eq_nil_iff.1 hts
    exact .nil
  | more _ _ iha ihb =>
    obtain ⟨front, back, rfl, hfront, hback⟩ := List.map_eq_append_iff.1 hts
    exact .cons (iha hfront) (ihb hback)

/-- **Tokens are those of a program just when the grammar derives their lexemes.** -/
theorem exists_isFunctions_iff (ts : List Token) :
    (∃ functions, IsFunctions ts functions) ↔ Derives (.phrase .file) (ts.map Token.lexeme) :=
  ⟨fun ⟨_, h⟩ => h.derives, fun h => h.holds rfl⟩

end Ingot.Source

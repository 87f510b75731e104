import Ingot.Proofs.Source.MadeOf
import Mathlib.Data.List.Forall2

/-!
# Where statements stand

Where the statements of a program stand can be told from its tokens alone: a function ends at its
right brace, the statements are what stands between its braces, and each of them ends at its
semicolon. So tokens are cut (`statementTokens`), and what the cut gives are the statements of the
tree, one by one (`parse_statementTokens`).

The position of a statement is that of one of its own tokens (`Statement.ownToken`), which is the
first one of a binding or a return statement, but not of each expression on its own: the outermost
node of an operation on two operands stands at its operator, and parentheses leave no node.
-/

namespace Ingot.Source

/-! ### Cutting tokens -/

/-- Cuts tokens behind each one with a given lexeme. -/
def cutBehind (l : Lexeme) : List Token → List (List Token)
  | [] => []
  | t :: rest =>
    if t.lexeme = l then [t] :: cutBehind l rest
    else
      match cutBehind l rest with
      | [] => [[t]]
      | part :: more => (t :: part) :: more

/-- The tokens between the braces of a function. -/
def insideBraces (function : List Token) : List Token :=
  (function.dropWhile fun t => t.lexeme ≠ .leftBrace).tail.dropLast

/-- The tokens of the statements, for each function of a text. -/
def statementTokens (tokens : List Token) : List (List (List Token)) :=
  (cutBehind .rightBrace (tokens.takeWhile Token.isInner)).map fun function =>
    cutBehind .semicolon (insideBraces function)

theorem cutBehind_append {l : Lexeme} {front : List Token} (h : ∀ t ∈ front, t.lexeme ≠ l)
    (p : Position) (rest : List Token) :
    cutBehind l (front ++ ⟨l, p⟩ :: rest) = (front ++ [⟨l, p⟩]) :: cutBehind l rest := by
  induction front with
  | nil => exact if_pos rfl
  | cons t front ih =>
    obtain ⟨ht, hfront⟩ := List.forall_mem_cons.1 h
    rw [List.cons_append, cutBehind, if_neg ht, ih hfront]
    rfl

theorem flatten_cutBehind (l : Lexeme) (tokens : List Token) :
    (cutBehind l tokens).flatten = tokens := by
  induction tokens with
  | nil => rfl
  | cons t rest ih =>
    rw [cutBehind]
    split
    · rw [List.flatten_cons, ih]
      rfl
    · cases hrest : cutBehind l rest with
      | nil =>
        rw [hrest] at ih
        rw [← ih]
        rfl
      | cons part more =>
        rw [hrest] at ih
        rw [← ih]
        rfl

/-- The tokens of a statement are tokens of the text, in their order. -/
theorem sublist_of_mem_statementTokens {tokens part : List Token} {parts : List (List Token)}
    (hparts : parts ∈ statementTokens tokens) (hpart : part ∈ parts) : part.Sublist tokens := by
  obtain ⟨function, hfunction, rfl⟩ := List.mem_map.1 hparts
  have hbody := List.sublist_flatten_of_mem hpart
  have htext := List.sublist_flatten_of_mem hfunction
  rw [flatten_cutBehind] at hbody htext
  have hinside : (insideBraces function).Sublist function :=
    (List.dropLast_sublist _).trans ((List.tail_sublist _).trans (List.dropWhile_sublist _))
  exact hbody.trans (hinside.trans (htext.trans (List.takeWhile_sublist _)))

/-! ### Lexemes that tokens are cut at -/

/-- A lexeme that ends a statement or stands around the statements of a function. -/
def Lexeme.Delimits : Lexeme → Prop
  | .semicolon => True
  | .leftBrace => True
  | .rightBrace => True
  | _ => False

theorem ne_of_not_delimits (l : Lexeme) (hl : l.Delimits) {ts : List Token}
    (h : ∀ t ∈ ts, ¬ t.lexeme.Delimits) : ∀ t ∈ ts, t.lexeme ≠ l :=
  fun t ht heq => h t ht (heq ▸ hl)

theorem BinaryOp.not_delimits (op : BinaryOp) : ¬ op.lexeme.Delimits := by
  cases op <;> exact id

mutual

theorem IsSum.not_delimits {ts : List Token} {e : Expr} :
    IsSum ts e → ∀ t ∈ ts, ¬ t.lexeme.Delimits
  | .product h => h.not_delimits
  | .more _ hleft hright =>
    List.forall_mem_append.2 ⟨hleft.not_delimits,
      List.forall_mem_cons.2 ⟨BinaryOp.not_delimits _, hright.not_delimits⟩⟩

theorem IsProduct.not_delimits {ts : List Token} {e : Expr} :
    IsProduct ts e → ∀ t ∈ ts, ¬ t.lexeme.Delimits
  | .unary h => h.not_delimits
  | .more _ hleft hright =>
    List.forall_mem_append.2 ⟨hleft.not_delimits,
      List.forall_mem_cons.2 ⟨BinaryOp.not_delimits _, hright.not_delimits⟩⟩

theorem IsUnary.not_delimits {ts : List Token} {e : Expr} :
    IsUnary ts e → ∀ t ∈ ts, ¬ t.lexeme.Delimits
  | .neg h => List.forall_mem_cons.2 ⟨id, h.not_delimits⟩
  | .primary h => h.not_delimits

theorem IsPrimary.not_delimits {ts : List Token} {e : Expr} :
    IsPrimary ts e → ∀ t ∈ ts, ¬ t.lexeme.Delimits
  | .number => List.forall_mem_singleton.2 id
  | .var => List.forall_mem_singleton.2 id
  | .call h =>
    List.forall_mem_cons.2 ⟨id, List.forall_mem_cons.2 ⟨id,
      List.forall_mem_append.2 ⟨h.not_delimits, List.forall_mem_singleton.2 id⟩⟩⟩
  | .parens h =>
    List.forall_mem_cons.2 ⟨id,
      List.forall_mem_append.2 ⟨h.not_delimits, List.forall_mem_singleton.2 id⟩⟩

theorem IsArguments.not_delimits {ts : List Token} {es : List Expr} :
    IsArguments ts es → ∀ t ∈ ts, ¬ t.lexeme.Delimits
  | .none => List.forall_mem_nil _
  | .some h => h.not_delimits

theorem IsMoreArguments.not_delimits {ts : List Token} {es : List Expr} :
    IsMoreArguments ts es → ∀ t ∈ ts, ¬ t.lexeme.Delimits
  | .last h => h.not_delimits
  | .more h hmore =>
    List.forall_mem_append.2 ⟨h.not_delimits, List.forall_mem_cons.2 ⟨id, hmore.not_delimits⟩⟩

end

/-- A statement ends at its semicolon, and nothing before is a lexeme that tokens are cut at. -/
theorem IsStatement.exists_semicolon {ts : List Token} {s : Statement} (h : IsStatement ts s) :
    ∃ front p, ts = front ++ [⟨.semicolon, p⟩] ∧ ∀ t ∈ front, ¬ t.lexeme.Delimits := by
  cases h with
  | @bind name ts e p q r s h =>
    refine ⟨⟨.letWord, p⟩ :: ⟨.name name, q⟩ :: ⟨.equals, r⟩ :: ts, s, rfl, ?_⟩
    simp only [List.forall_mem_cons]
    exact ⟨id, id, id, h.not_delimits⟩
  | @result ts e p s h =>
    exact ⟨⟨.returnWord, p⟩ :: ts, s, rfl, List.forall_mem_cons.2 ⟨id, h.not_delimits⟩⟩
  | @effect ts e s h => exact ⟨ts, s, rfl, h.not_delimits⟩

/-- Cutting behind semicolons gives the statements. -/
theorem IsStatements.forall₂_cutBehind {ts : List Token} {statements : List Statement}
    (h : IsStatements ts statements) :
    List.Forall₂ (fun s part => IsStatement part s) statements (cutBehind .semicolon ts) := by
  induction h with
  | nil => exact .nil
  | @cons ts rest first more hfirst _ ih =>
    obtain ⟨front, p, rfl, hfront⟩ := hfirst.exists_semicolon
    rw [List.append_assoc, List.singleton_append,
      cutBehind_append (ne_of_not_delimits .semicolon trivial hfront)]
    exact .cons hfirst ih

/-! ### Functions -/

theorem IsStatements.ne_rightBrace {ts : List Token} {statements : List Statement}
    (h : IsStatements ts statements) : ∀ t ∈ ts, t.lexeme ≠ .rightBrace := by
  induction h with
  | nil => exact List.forall_mem_nil _
  | cons hfirst _ ih =>
    obtain ⟨front, p, rfl, hfront⟩ := hfirst.exists_semicolon
    refine List.forall_mem_append.2 ⟨List.forall_mem_append.2 ⟨?_, ?_⟩, ih⟩
    · exact ne_of_not_delimits .rightBrace trivial hfront
    · exact List.forall_mem_singleton.2 Lexeme.noConfusion

theorem IsMoreParameters.not_delimits {ts : List Token} {parameters : List Parameter}
    (h : IsMoreParameters ts parameters) : ∀ t ∈ ts, ¬ t.lexeme.Delimits := by
  induction h with
  | last => simp [Lexeme.Delimits]
  | more _ ih =>
    simp only [List.forall_mem_cons]
    exact ⟨id, id, id, id, ih⟩

theorem IsParameters.not_delimits {ts : List Token} {parameters : List Parameter}
    (h : IsParameters ts parameters) : ∀ t ∈ ts, ¬ t.lexeme.Delimits := by
  cases h with
  | none => exact List.forall_mem_nil _
  | some h => exact h.not_delimits

/-- A function is what stands in front of its braces, and its statements in them. -/
theorem IsFunction.exists_braces {ts : List Token} {f : Function} (h : IsFunction ts f) :
    ∃ head body p q, ts = head ++ ⟨.leftBrace, p⟩ :: (body ++ [⟨.rightBrace, q⟩]) ∧
      (∀ t ∈ head, ¬ t.lexeme.Delimits) ∧ IsStatements body f.body := by
  cases h with
  | @function name ts body parameters statements p q r s t u v w hparameters hbody =>
    refine ⟨⟨.fnWord, p⟩ :: ⟨.name name, q⟩ :: ⟨.leftParen, r⟩ :: (ts ++
      [⟨.rightParen, s⟩, ⟨.arrow, t⟩, ⟨.name valueType, u⟩]), body, v, w, ?_, ?_, hbody⟩
    · simp only [List.cons_append, List.append_assoc, List.nil_append]
    · simp only [List.forall_mem_cons, List.forall_mem_append]
      exact ⟨id, id, id, hparameters.not_delimits, id, id, id, List.forall_mem_nil _⟩

/-- Cutting behind right braces gives the functions, and each of them holds its statements. -/
theorem IsFunctions.forall₂_cutBehind {ts : List Token} {functions : List Function}
    (h : IsFunctions ts functions) :
    List.Forall₂ (fun f function => IsStatements (insideBraces function) f.body) functions
      (cutBehind .rightBrace ts) := by
  induction h with
  | nil => exact .nil
  | @cons ts rest first more hfirst _ ih =>
    obtain ⟨head, body, p, q, rfl, hhead, hbody⟩ := hfirst.exists_braces
    have hfront : ∀ t ∈ head ++ ⟨.leftBrace, p⟩ :: body, t.lexeme ≠ .rightBrace :=
      List.forall_mem_append.2 ⟨ne_of_not_delimits .rightBrace trivial hhead,
        List.forall_mem_cons.2 ⟨Lexeme.noConfusion, hbody.ne_rightBrace⟩⟩
    have hcut := cutBehind_append hfront q rest
    have hinside :
        insideBraces (head ++ ⟨.leftBrace, p⟩ :: (body ++ [⟨.rightBrace, q⟩])) = body := by
      rw [insideBraces, List.dropWhile_append_of_pos]
      · exact List.dropLast_concat
      · exact fun t ht => decide_eq_true (ne_of_not_delimits .leftBrace trivial hhead t ht)
    -- the first right brace is the one that ends the first function
    simp only [List.append_assoc, List.cons_append, List.nil_append] at hcut ⊢
    rw [hcut]
    exact .cons (hinside.symm ▸ hbody) ih

/-- **The statements of a program are cut out of its tokens, one by one.** -/
theorem parse_statementTokens {tokens : List Token} {program : Program}
    (h : parse tokens = .ok program) :
    List.Forall₂ (fun f parts => List.Forall₂ (fun s part => IsStatement part s) f.body parts)
      program.functions (statementTokens tokens) := by
  unfold parse at h
  split at h
  · cases h
  · rename_i functions hread
    cases h
    have hfunctions := ((readFunctions_iff _).1 hread).forall₂_cutBehind
    refine List.forall₂_map_right_iff.2 (hfunctions.imp fun f function hbody => ?_)
    exact hbody.forall₂_cutBehind

/-! ### Own tokens -/

/-- The own token of the outermost node of an expression. -/
def Expr.ownToken : Expr → Token
  | number n p => ⟨.number n, p⟩
  | var name p => ⟨.name name, p⟩
  | neg _ p => ⟨.minus, p⟩
  | binary op _ _ p => ⟨op.lexeme, p⟩
  | call function _ p => ⟨.name function, p⟩

/-- The own token of a statement: its first word, if it has one, and else that of its expression. -/
def Statement.ownToken : Statement → Token
  | bind _ _ p => ⟨.letWord, p⟩
  | result _ p => ⟨.returnWord, p⟩
  | effect value => value.ownToken

/-- An operation on two operands. -/
def Expr.IsBinary : Expr → Prop
  | binary .. => True
  | _ => False

/-- The outermost node of an expression stands at the first token, which is no parenthesis, and not
between two operands. -/
def Expr.StandsFirst (e : Expr) (first : Token) : Prop :=
  first.lexeme ≠ .leftParen ∧ ¬ e.IsBinary

/-- A statement stands at its first token. -/
def Statement.StandsFirst : Statement → Token → Prop
  | effect value, first => value.StandsFirst first
  | _, _ => True

theorem Expr.ownToken_position (e : Expr) : e.ownToken.position = e.position := by
  cases e <;> rfl

theorem Statement.ownToken_position (s : Statement) : s.ownToken.position = s.position := by
  cases s with
  | effect value => exact value.ownToken_position
  | _ => rfl

theorem Expr.MadeOf.ownToken {P : Token → Prop} {e : Expr} (h : e.MadeOf P) : P e.ownToken := by
  cases e with
  | number => exact h
  | var => exact h
  | neg => exact h.1
  | binary => exact h.1
  | call => exact h.1

theorem IsSum.ownToken_mem {ts : List Token} {e : Expr} (h : IsSum ts e) : e.ownToken ∈ ts :=
  (h.madeOf fun _ ht => ht).ownToken

/-- Of some tokens, one is the first if something holds of the first, and else behind it. -/
def Begins (stands : Token → Prop) (own : Token) (ts : List Token) : Prop :=
  ∃ first rest, ts = first :: rest ∧ (stands first → own = first) ∧ (¬ stands first → own ∈ rest)

section Begins

variable {stands : Token → Prop} {own : Token}

theorem begins_first (h : stands own) (rest : List Token) : Begins stands own (own :: rest) :=
  ⟨own, rest, rfl, fun _ => rfl, fun hnot => absurd h hnot⟩

theorem begins_behind {first : Token} {rest : List Token} (h : ¬ stands first) (hmem : own ∈ rest) :
    Begins stands own (first :: rest) :=
  ⟨first, rest, rfl, fun hfirst => absurd hfirst h, fun _ => hmem⟩

theorem Begins.append {ts : List Token} (h : Begins stands own ts) (more : List Token) :
    Begins stands own (ts ++ more) := by
  obtain ⟨first, rest, rfl, hfirst, hrest⟩ := h
  exact ⟨first, rest ++ more, rfl, hfirst, fun hnot => List.mem_append_left _ (hrest hnot)⟩

theorem Begins.mem {ts : List Token} (h : Begins stands own ts) : own ∈ ts := by
  obtain ⟨first, rest, rfl, hfirst, hrest⟩ := h
  by_cases hstands : stands first
  · exact hfirst hstands ▸ List.mem_cons_self
  · exact List.mem_cons_of_mem _ (hrest hstands)

end Begins

/-- The operator of an operation stands behind the first token of the left operand. -/
theorem begins_binary {left right : List Token} (h : Starts left) (op : BinaryOp) (a b : Expr)
    (p : Position) : Begins (Expr.binary op a b p).StandsFirst (Expr.binary op a b p).ownToken
      (left ++ ⟨op.lexeme, p⟩ :: right) := by
  obtain ⟨l, q, rest, rfl, -⟩ := h
  exact begins_behind (fun hstands => hstands.2 trivial)
    (List.mem_append_right rest List.mem_cons_self)

theorem IsPrimary.begins {ts : List Token} {e : Expr} (h : IsPrimary ts e) :
    Begins e.StandsFirst e.ownToken ts := by
  cases h with
  | number => exact begins_first ⟨Lexeme.noConfusion, id⟩ _
  | var => exact begins_first ⟨Lexeme.noConfusion, id⟩ _
  | call => exact begins_first ⟨Lexeme.noConfusion, id⟩ _
  | parens h =>
    exact begins_behind (fun hstands => hstands.1 rfl) (List.mem_append_left _ h.ownToken_mem)

theorem IsUnary.begins {ts : List Token} {e : Expr} (h : IsUnary ts e) :
    Begins e.StandsFirst e.ownToken ts := by
  cases h with
  | neg => exact begins_first ⟨Lexeme.noConfusion, id⟩ _
  | primary h => exact h.begins

theorem IsProduct.begins {ts : List Token} {e : Expr} (h : IsProduct ts e) :
    Begins e.StandsFirst e.ownToken ts := by
  cases h with
  | unary h => exact h.begins
  | more _ hleft _ => exact begins_binary hleft.starts _ _ _ _

theorem IsSum.begins {ts : List Token} {e : Expr} (h : IsSum ts e) :
    Begins e.StandsFirst e.ownToken ts := by
  cases h with
  | product h => exact h.begins
  | more _ hleft _ => exact begins_binary hleft.starts _ _ _ _

/-- The own token of a statement is its first one, or behind that. -/
theorem IsStatement.begins {ts : List Token} {s : Statement} (h : IsStatement ts s) :
    Begins s.StandsFirst s.ownToken ts := by
  cases h with
  | bind => exact begins_first trivial _
  | result => exact begins_first trivial _
  | effect h => exact h.begins.append _

theorem IsStatement.ownToken_mem {ts : List Token} {s : Statement} (h : IsStatement ts s) :
    s.ownToken ∈ ts :=
  h.begins.mem

end Ingot.Source

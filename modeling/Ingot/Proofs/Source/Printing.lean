import Ingot.Proofs.Source.Grammar

/-!
# Printing trees

`lexemes` writes a tree as a row of lexemes, with parentheses where the grammar needs them and
nowhere else: around an operation that stands in a place of a higher level than its own, where the
places of an operation are its own level on the left and the next one on the right, and that of a
sign is the highest.

Tokens with these lexemes are those of the tree, up to the positions of its nodes
(`exists_isFunctions_of_lexemes`), and **no fewer tokens are** (`length_lexemes_le`).
-/

namespace Ingot.Source

/-! ### Trees without positions -/

mutual

/-- An expression without the positions of its nodes. -/
def Expr.bare : Expr → Expr
  | .number n _ => .number n .nowhere
  | .var name _ => .var name .nowhere
  | .neg operand _ => .neg operand.bare .nowhere
  | .binary op left right _ => .binary op left.bare right.bare .nowhere
  | .call function arguments _ => .call function (bareArguments arguments) .nowhere

/-- Arguments without the positions of their nodes. -/
def bareArguments : List Expr → List Expr
  | [] => []
  | e :: more => e.bare :: bareArguments more

end

/-- A statement without the positions of its nodes. -/
def Statement.bare : Statement → Statement
  | bind name value _ => .bind name value.bare .nowhere
  | result value _ => .result value.bare .nowhere
  | effect value => .effect value.bare

/-- A parameter without its position. -/
def Parameter.bare (x : Parameter) : Parameter := ⟨x.name, .nowhere⟩

/-- A function without the positions of its nodes. -/
def Function.bare (f : Function) : Function :=
  ⟨f.name, f.parameters.map Parameter.bare, f.body.map Statement.bare, .nowhere⟩

/-- A program without the positions of its nodes. -/
def Program.bare (program : Program) : Program := ⟨program.functions.map Function.bare⟩

/-! ### The lexemes of a tree -/

/-- The level of an operation: zero for that of a sum, and one for that of a product. -/
def BinaryOp.level : BinaryOp → Nat
  | add => 0
  | sub => 0
  | mul => 1
  | div => 1
  | rem => 1

/-- Lexemes in parentheses if these are needed. -/
def enclosed (needed : Bool) (ls : List Lexeme) : List Lexeme :=
  if needed then .leftParen :: (ls ++ [.rightParen]) else ls

mutual

/-- The lexemes of an expression in a place of a level. -/
def Expr.lexemes : Expr → Nat → List Lexeme
  | .number n _, _ => [.number n]
  | .var name _, _ => [.name name]
  | .neg operand _, _ => .minus :: operand.lexemes 2
  | .binary op left right _, level =>
    enclosed (op.level < level)
      (left.lexemes op.level ++ op.lexeme :: right.lexemes (op.level + 1))
  | .call function arguments _, _ =>
    .name function :: .leftParen ::
      ([Lexeme.comma].intercalate (argumentLexemes arguments) ++ [.rightParen])

/-- The lexemes of each of the arguments of a call. -/
def argumentLexemes : List Expr → List (List Lexeme)
  | [] => []
  | e :: more => e.lexemes 0 :: argumentLexemes more

end

/-- The lexemes of a statement. -/
def Statement.lexemes : Statement → List Lexeme
  | bind name value _ => .letWord :: .name name :: .equals :: (value.lexemes 0 ++ [.semicolon])
  | result value _ => .returnWord :: (value.lexemes 0 ++ [.semicolon])
  | effect value => value.lexemes 0 ++ [.semicolon]

/-- The lexemes of a parameter. -/
def Parameter.lexemes (x : Parameter) : List Lexeme := [.name x.name, .colon, .name valueType]

/-- The lexemes of a function. -/
def Function.lexemes (f : Function) : List Lexeme :=
  .fnWord :: .name f.name :: .leftParen ::
    ([Lexeme.comma].intercalate (f.parameters.map Parameter.lexemes) ++
      .rightParen :: .arrow :: .name valueType :: .leftBrace ::
        (f.body.flatMap Statement.lexemes ++ [.rightBrace]))

/-- The lexemes of a program. -/
def Program.lexemes (program : Program) : List Lexeme := program.functions.flatMap Function.lexemes

/-! ### Places and levels -/

/-- Tokens of an expression in a place of a level, with its tree. -/
def IsAt : Nat → List Token → Expr → Prop
  | 0 => IsSum
  | 1 => IsProduct
  | _ => IsUnary

theorem IsUnary.isAt {ts : List Token} {e : Expr} (h : IsUnary ts e) (level : Nat) :
    IsAt level ts e := by
  match level with
  | 0 => exact .product (.unary h)
  | 1 => exact .unary h
  | _ + 2 => exact h

theorem IsPrimary.isAt {ts : List Token} {e : Expr} (h : IsPrimary ts e) (level : Nat) :
    IsAt level ts e := (IsUnary.primary h).isAt level

/-- An operation in a place that is not above its level. -/
theorem isAt_binary {op : BinaryOp} {left right : List Token} {a b : Expr} {level : Nat}
    (p : Position) (hlevel : level ≤ op.level) (ha : IsAt op.level left a)
    (hb : IsAt (op.level + 1) right b) :
    IsAt level (left ++ ⟨op.lexeme, p⟩ :: right) (.binary op a b p) := by
  have hsum (hop : op = .add ∨ op = .sub) (ha : IsSum left a) (hb : IsProduct right b) :
      IsAt 0 (left ++ ⟨op.lexeme, p⟩ :: right) (.binary op a b p) := .more hop ha hb
  have hproduct (hop : op = .mul ∨ op = .div ∨ op = .rem) (hlevel : level ≤ 1)
      (ha : IsProduct left a) (hb : IsUnary right b) :
      IsAt level (left ++ ⟨op.lexeme, p⟩ :: right) (.binary op a b p) := by
    match level with
    | 0 => exact .product (.more hop ha hb)
    | 1 => exact .more hop ha hb
  cases op with
  | add => exact Nat.le_zero.1 hlevel ▸ hsum (.inl rfl) ha hb
  | sub => exact Nat.le_zero.1 hlevel ▸ hsum (.inr rfl) ha hb
  | mul => exact hproduct (.inl rfl) hlevel ha hb
  | div => exact hproduct (.inr (.inl rfl)) hlevel ha hb
  | rem => exact hproduct (.inr (.inr rfl)) hlevel ha hb

/-! ### Printed trees have their tree -/

theorem eq_cons_of_map {ts : List Token} {l : Lexeme} {ls : List Lexeme}
    (h : ts.map Token.lexeme = l :: ls) :
    ∃ p rest, ts = ⟨l, p⟩ :: rest ∧ rest.map Token.lexeme = ls := by
  obtain ⟨⟨_, p⟩, rest, rfl, rfl, hrest⟩ := List.map_eq_cons_iff.1 h
  exact ⟨p, rest, rfl, hrest⟩

theorem eq_concat_of_map {ts : List Token} {l : Lexeme} {ls : List Lexeme}
    (h : ts.map Token.lexeme = ls ++ [l]) :
    ∃ front p, ts = front ++ [⟨l, p⟩] ∧ front.map Token.lexeme = ls := by
  obtain ⟨front, back, rfl, hfront, hback⟩ := List.map_eq_append_iff.1 h
  obtain ⟨p, rest, rfl, hrest⟩ := eq_cons_of_map hback
  obtain rfl := List.map_eq_nil_iff.1 hrest
  exact ⟨front, p, rfl, hfront⟩

mutual

/-- Tokens with the lexemes of an expression are those of it, up to positions. -/
theorem exists_isAt (e : Expr) (level : Nat) {ts : List Token}
    (h : ts.map Token.lexeme = e.lexemes level) :
    ∃ e', e'.bare = e.bare ∧ IsAt level ts e' := by
  match e with
  | .number n _ =>
    obtain ⟨p, rest, rfl, hrest⟩ := eq_cons_of_map h
    obtain rfl := List.map_eq_nil_iff.1 hrest
    exact ⟨.number n p, rfl, IsPrimary.number.isAt level⟩
  | .var name _ =>
    obtain ⟨p, rest, rfl, hrest⟩ := eq_cons_of_map h
    obtain rfl := List.map_eq_nil_iff.1 hrest
    exact ⟨.var name p, rfl, IsPrimary.var.isAt level⟩
  | .neg operand _ =>
    obtain ⟨p, rest, rfl, hrest⟩ := eq_cons_of_map h
    obtain ⟨e', he, htree⟩ := exists_isAt operand 2 hrest
    exact ⟨.neg e' p, by rw [Expr.bare, Expr.bare, he], IsUnary.isAt (.neg htree) level⟩
  | .binary op left right _ =>
    have hoperation {level : Nat} {ts : List Token} (hlevel : level ≤ op.level)
        (h : ts.map Token.lexeme =
          left.lexemes op.level ++ op.lexeme :: right.lexemes (op.level + 1)) :
        ∃ e', e'.bare = (Expr.binary op left right .nowhere).bare ∧ IsAt level ts e' := by
      obtain ⟨front, back, rfl, hfront, hback⟩ := List.map_eq_append_iff.1 h
      obtain ⟨p, rest, rfl, hrest⟩ := eq_cons_of_map hback
      obtain ⟨a, ha, hleft⟩ := exists_isAt left op.level hfront
      obtain ⟨b, hb, hright⟩ := exists_isAt right (op.level + 1) hrest
      exact ⟨.binary op a b p, by rw [Expr.bare, Expr.bare, ha, hb],
        isAt_binary p hlevel hleft hright⟩
    rw [Expr.lexemes, enclosed] at h
    split at h
    · obtain ⟨p, rest, rfl, hrest⟩ := eq_cons_of_map h
      obtain ⟨inner, q, rfl, hinner⟩ := eq_concat_of_map hrest
      obtain ⟨e', he, htree⟩ := hoperation (Nat.zero_le _) hinner
      exact ⟨e', he, IsPrimary.isAt (.parens htree) level⟩
    · rename_i hlevel
      exact hoperation (by simpa using hlevel) h
  | .call function arguments _ =>
    obtain ⟨p, rest, rfl, hrest⟩ := eq_cons_of_map h
    obtain ⟨q, back, rfl, hback⟩ := eq_cons_of_map hrest
    obtain ⟨inner, r, rfl, hinner⟩ := eq_concat_of_map hback
    obtain ⟨es, hes, htrees⟩ := exists_isArguments arguments hinner
    exact ⟨.call function es p, by rw [Expr.bare, Expr.bare, hes],
      IsPrimary.isAt (.call htrees) level⟩

theorem exists_isArguments (es : List Expr) {ts : List Token}
    (h : ts.map Token.lexeme = [Lexeme.comma].intercalate (argumentLexemes es)) :
    ∃ es', bareArguments es' = bareArguments es ∧ IsArguments ts es' := by
  match es with
  | [] =>
    obtain rfl := List.map_eq_nil_iff.1 h
    exact ⟨[], rfl, .none⟩
  | [e] =>
    rw [argumentLexemes, argumentLexemes, List.intercalate_singleton] at h
    obtain ⟨e', he, htree⟩ := exists_isAt e 0 h
    exact ⟨[e'], by rw [bareArguments, bareArguments, he]; rfl, .some (.last htree)⟩
  | e :: e₂ :: more =>
    rw [argumentLexemes, argumentLexemes, List.intercalate_cons_cons, List.append_assoc] at h
    obtain ⟨front, back, rfl, hfront, hback⟩ := List.map_eq_append_iff.1 h
    obtain ⟨p, rest, rfl, hrest⟩ := eq_cons_of_map hback
    obtain ⟨e', he, htree⟩ := exists_isAt e 0 hfront
    obtain ⟨es', hes, htrees⟩ := exists_isArguments (e₂ :: more) hrest
    cases htrees with
    | none => cases hes
    | some htrees =>
      exact ⟨e' :: es', by rw [bareArguments, bareArguments, he, hes],
        .some (.more htree htrees)⟩

end

/-! ### Printed programs have their trees -/

theorem exists_isStatement (s : Statement) {ts : List Token}
    (h : ts.map Token.lexeme = s.lexemes) : ∃ s', s'.bare = s.bare ∧ IsStatement ts s' := by
  cases s with
  | bind name value _ =>
    obtain ⟨p, rest₁, rfl, h₁⟩ := eq_cons_of_map h
    obtain ⟨q, rest₂, rfl, h₂⟩ := eq_cons_of_map h₁
    obtain ⟨r, rest₃, rfl, h₃⟩ := eq_cons_of_map h₂
    obtain ⟨inner, t, rfl, hinner⟩ := eq_concat_of_map h₃
    obtain ⟨e, he, htree⟩ := exists_isAt value 0 hinner
    exact ⟨.bind name e p, by rw [Statement.bare, Statement.bare, he], .bind htree⟩
  | result value _ =>
    obtain ⟨p, rest, rfl, hrest⟩ := eq_cons_of_map h
    obtain ⟨inner, t, rfl, hinner⟩ := eq_concat_of_map hrest
    obtain ⟨e, he, htree⟩ := exists_isAt value 0 hinner
    exact ⟨.result e p, by rw [Statement.bare, Statement.bare, he], .result htree⟩
  | effect value =>
    obtain ⟨inner, t, rfl, hinner⟩ := eq_concat_of_map h
    obtain ⟨e, he, htree⟩ := exists_isAt value 0 hinner
    exact ⟨.effect e, by rw [Statement.bare, Statement.bare, he], .effect htree⟩

theorem exists_isStatements (statements : List Statement) {ts : List Token}
    (h : ts.map Token.lexeme = statements.flatMap Statement.lexemes) :
    ∃ statements', statements'.map Statement.bare = statements.map Statement.bare ∧
      IsStatements ts statements' := by
  induction statements generalizing ts with
  | nil =>
    obtain rfl := List.map_eq_nil_iff.1 h
    exact ⟨[], rfl, .nil⟩
  | cons first more ih =>
    rw [List.flatMap_cons] at h
    obtain ⟨front, back, rfl, hfront, hback⟩ := List.map_eq_append_iff.1 h
    obtain ⟨s, hs, htree⟩ := exists_isStatement first hfront
    obtain ⟨statements, hstatements, htrees⟩ := ih hback
    exact ⟨s :: statements, by rw [List.map_cons, List.map_cons, hs, hstatements],
      .cons htree htrees⟩

theorem exists_isMoreParameters (x : Parameter) (more : List Parameter) {ts : List Token}
    (h : ts.map Token.lexeme = [Lexeme.comma].intercalate ((x :: more).map Parameter.lexemes)) :
    ∃ parameters, parameters.map Parameter.bare = (x :: more).map Parameter.bare ∧
      IsMoreParameters ts parameters := by
  induction more generalizing x ts with
  | nil =>
    rw [List.map_cons, List.map_nil, List.intercalate_singleton] at h
    obtain ⟨p, rest₁, rfl, h₁⟩ := eq_cons_of_map h
    obtain ⟨q, rest₂, rfl, h₂⟩ := eq_cons_of_map h₁
    obtain ⟨r, rest₃, rfl, h₃⟩ := eq_cons_of_map h₂
    obtain rfl := List.map_eq_nil_iff.1 h₃
    exact ⟨[⟨x.name, p⟩], rfl, .last⟩
  | cons y more ih =>
    rw [List.map_cons, List.map_cons, List.intercalate_cons_cons, List.append_assoc] at h
    obtain ⟨p, rest₁, rfl, h₁⟩ := eq_cons_of_map h
    obtain ⟨q, rest₂, rfl, h₂⟩ := eq_cons_of_map h₁
    obtain ⟨r, rest₃, rfl, h₃⟩ := eq_cons_of_map h₂
    obtain ⟨s, rest₄, rfl, h₄⟩ := eq_cons_of_map h₃
    obtain ⟨parameters, hparameters, htrees⟩ := ih y h₄
    exact ⟨⟨x.name, p⟩ :: parameters, by rw [List.map_cons, List.map_cons, hparameters]; rfl,
      .more htrees⟩

theorem exists_isParameters (parameters : List Parameter) {ts : List Token}
    (h : ts.map Token.lexeme = [Lexeme.comma].intercalate (parameters.map Parameter.lexemes)) :
    ∃ parameters', parameters'.map Parameter.bare = parameters.map Parameter.bare ∧
      IsParameters ts parameters' := by
  cases parameters with
  | nil =>
    obtain rfl := List.map_eq_nil_iff.1 h
    exact ⟨[], rfl, .none⟩
  | cons x more =>
    obtain ⟨parameters, hparameters, htrees⟩ := exists_isMoreParameters x more h
    exact ⟨parameters, hparameters, .some htrees⟩

theorem exists_isFunction (f : Function) {ts : List Token}
    (h : ts.map Token.lexeme = f.lexemes) : ∃ f', f'.bare = f.bare ∧ IsFunction ts f' := by
  obtain ⟨p, rest₁, rfl, h₁⟩ := eq_cons_of_map h
  obtain ⟨q, rest₂, rfl, h₂⟩ := eq_cons_of_map h₁
  obtain ⟨r, rest₃, rfl, h₃⟩ := eq_cons_of_map h₂
  obtain ⟨front, back, rfl, hfront, hback⟩ := List.map_eq_append_iff.1 h₃
  obtain ⟨s, rest₄, rfl, h₄⟩ := eq_cons_of_map hback
  obtain ⟨t, rest₅, rfl, h₅⟩ := eq_cons_of_map h₄
  obtain ⟨u, rest₆, rfl, h₆⟩ := eq_cons_of_map h₅
  obtain ⟨v, rest₇, rfl, h₇⟩ := eq_cons_of_map h₆
  obtain ⟨inner, w, rfl, hinner⟩ := eq_concat_of_map h₇
  obtain ⟨parameters, hparameters, htrees⟩ := exists_isParameters f.parameters hfront
  obtain ⟨statements, hstatements, htrees'⟩ := exists_isStatements f.body hinner
  exact ⟨⟨f.name, parameters, statements, p⟩,
    by rw [Function.bare, Function.bare, hparameters, hstatements], .function htrees htrees'⟩

/-- **Tokens with the lexemes of functions are those of the functions, up to positions.** -/
theorem exists_isFunctions_of_lexemes (functions : List Function) {ts : List Token}
    (h : ts.map Token.lexeme = functions.flatMap Function.lexemes) :
    ∃ functions', functions'.map Function.bare = functions.map Function.bare ∧
      IsFunctions ts functions' := by
  induction functions generalizing ts with
  | nil =>
    obtain rfl := List.map_eq_nil_iff.1 h
    exact ⟨[], rfl, .nil⟩
  | cons first more ih =>
    rw [List.flatMap_cons] at h
    obtain ⟨front, back, rfl, hfront, hback⟩ := List.map_eq_append_iff.1 h
    obtain ⟨f, hf, htree⟩ := exists_isFunction first hfront
    obtain ⟨functions, hfunctions, htrees⟩ := ih hback
    exact ⟨f :: functions, by rw [List.map_cons, List.map_cons, hf, hfunctions],
      .cons htree htrees⟩

/-! ### No fewer tokens have the same tree -/

mutual

theorem lexemes_bare (e : Expr) (level : Nat) : e.bare.lexemes level = e.lexemes level := by
  match e with
  | .number _ _ => rfl
  | .var _ _ => rfl
  | .neg operand _ => rw [Expr.bare, Expr.lexemes, Expr.lexemes, lexemes_bare operand]
  | .binary _ left right _ =>
    rw [Expr.bare, Expr.lexemes, Expr.lexemes, lexemes_bare left, lexemes_bare right]
  | .call _ arguments _ =>
    rw [Expr.bare, Expr.lexemes, Expr.lexemes, argumentLexemes_bare arguments]

theorem argumentLexemes_bare (es : List Expr) :
    argumentLexemes (bareArguments es) = argumentLexemes es := by
  match es with
  | [] => rfl
  | e :: more =>
    rw [bareArguments, argumentLexemes, argumentLexemes, lexemes_bare e,
      argumentLexemes_bare more]

end

theorem Statement.lexemes_bare (s : Statement) : s.bare.lexemes = s.lexemes := by
  cases s <;> simp only [Statement.bare, Statement.lexemes, Source.lexemes_bare]

theorem Function.lexemes_bare (f : Function) : f.bare.lexemes = f.lexemes := by
  have hparameters : (f.parameters.map Parameter.bare).map Parameter.lexemes =
      f.parameters.map Parameter.lexemes := List.map_map
  have hbody : (f.body.map Statement.bare).flatMap Statement.lexemes =
      f.body.flatMap Statement.lexemes := by
    rw [List.flatMap_map]
    exact congrArg (f.body.flatMap ·) (funext Statement.lexemes_bare)
  rw [Function.lexemes, Function.lexemes, Function.bare, hparameters, hbody]

theorem Program.lexemes_bare (program : Program) : program.bare.lexemes = program.lexemes := by
  rw [Program.lexemes, Program.bare, List.flatMap_map]
  exact congrArg (program.functions.flatMap ·) (funext Function.lexemes_bare)

theorem length_enclosed_mono {needed needed' : Bool} (h : needed = true → needed' = true)
    (ls : List Lexeme) : (enclosed needed ls).length ≤ (enclosed needed' ls).length := by
  cases needed with
  | true => exact Nat.le_of_eq (by rw [h rfl])
  | false =>
    rw [enclosed, enclosed, if_neg Bool.false_ne_true]
    split
    · simp only [List.length_cons, List.length_append]
      omega
    · exact Nat.le_refl _

theorem length_enclosed_le (needed needed' : Bool) (ls : List Lexeme) :
    (enclosed needed ls).length ≤ (enclosed needed' ls).length + 2 := by
  have hplain : ls.length ≤ (enclosed needed' ls).length :=
    length_enclosed_mono (nofun : false = true → _) ls
  rw [enclosed]
  split
  · simp only [List.length_cons, List.length_append, List.length_nil]
    omega
  · omega

/-- An expression has no fewer lexemes in a place of a higher level. -/
theorem length_lexemes_mono (e : Expr) {level level' : Nat} (h : level ≤ level') :
    (e.lexemes level).length ≤ (e.lexemes level').length := by
  cases e with
  | binary op left right =>
    refine length_enclosed_mono (fun hneeded => ?_) _
    exact decide_eq_true (Nat.lt_of_lt_of_le (of_decide_eq_true hneeded) h)
  | _ => exact Nat.le_refl _

/-- A place of whatever level takes at most a pair of parentheses. -/
theorem length_lexemes_le_add (e : Expr) (level : Nat) :
    (e.lexemes level).length ≤ (e.lexemes 0).length + 2 := by
  cases e with
  | binary op left right => exact length_enclosed_le _ _ _
  | _ => exact Nat.le_add_right _ 2

theorem lexemes_sum {op : BinaryOp} (hop : op = .add ∨ op = .sub) (a b : Expr) (p : Position) :
    (Expr.binary op a b p).lexemes 0 = a.lexemes 0 ++ op.lexeme :: b.lexemes 1 := by
  rcases hop with rfl | rfl
  · rfl
  · rfl

theorem lexemes_product {op : BinaryOp} (hop : op = .mul ∨ op = .div ∨ op = .rem) (a b : Expr)
    (p : Position) : (Expr.binary op a b p).lexemes 1 = a.lexemes 1 ++ op.lexeme :: b.lexemes 2 := by
  rcases hop with rfl | rfl | rfl
  · rfl
  · rfl
  · rfl

mutual

theorem IsSum.length_le {ts : List Token} {e : Expr} :
    IsSum ts e → (e.lexemes 0).length ≤ ts.length
  | .product h => Nat.le_trans (length_lexemes_mono _ (Nat.zero_le 1)) h.length_le
  | .more hop hleft hright => by
    rw [lexemes_sum hop, List.length_append, List.length_append]
    exact Nat.add_le_add hleft.length_le (Nat.succ_le_succ hright.length_le)

theorem IsProduct.length_le {ts : List Token} {e : Expr} :
    IsProduct ts e → (e.lexemes 1).length ≤ ts.length
  | .unary h => Nat.le_trans (length_lexemes_mono _ (Nat.le_succ 1)) h.length_le
  | .more hop hleft hright => by
    rw [lexemes_product hop, List.length_append, List.length_append]
    exact Nat.add_le_add hleft.length_le (Nat.succ_le_succ hright.length_le)

theorem IsUnary.length_le {ts : List Token} {e : Expr} :
    IsUnary ts e → (e.lexemes 2).length ≤ ts.length
  | .neg h => Nat.succ_le_succ h.length_le
  | .primary h => h.length_le

theorem IsPrimary.length_le {ts : List Token} {e : Expr} :
    IsPrimary ts e → (e.lexemes 2).length ≤ ts.length
  | .number => Nat.le_refl 1
  | .var => Nat.le_refl 1
  | .call h => by
    rw [Expr.lexemes, List.length_cons, List.length_cons, List.length_cons, List.length_cons,
      List.length_append, List.length_append]
    exact Nat.succ_le_succ (Nat.succ_le_succ (Nat.succ_le_succ h.length_le))
  | .parens h => by
    rw [List.length_cons, List.length_append]
    exact Nat.le_trans (length_lexemes_le_add _ 2) (Nat.add_le_add_right h.length_le 2)

theorem IsArguments.length_le {ts : List Token} {es : List Expr} :
    IsArguments ts es → ([Lexeme.comma].intercalate (argumentLexemes es)).length ≤ ts.length
  | .none => Nat.le_refl 0
  | .some h => h.length_le

theorem IsMoreArguments.length_le {ts : List Token} {es : List Expr} :
    IsMoreArguments ts es → ([Lexeme.comma].intercalate (argumentLexemes es)).length ≤ ts.length
  | .last h => by
    rw [argumentLexemes, argumentLexemes, List.intercalate_singleton]
    exact h.length_le
  | @IsMoreArguments.more _ _ _ es _ h hmore => by
    have hrest := hmore.length_le
    rw [List.length_append, List.length_cons]
    cases es with
    | nil => cases hmore
    | cons e₂ more =>
      rw [argumentLexemes, argumentLexemes, List.intercalate_cons_cons, List.length_append,
        List.length_append, List.length_singleton]
      have hfirst := h.length_le
      rw [argumentLexemes] at hrest
      omega

end

theorem IsStatement.length_le {ts : List Token} {s : Statement} (h : IsStatement ts s) :
    s.lexemes.length ≤ ts.length := by
  cases h with
  | bind h | result h | effect h =>
    have hvalue := h.length_le
    simp only [Statement.lexemes, List.length_cons, List.length_append, List.length_nil]
    omega

theorem IsStatements.length_le {ts : List Token} {statements : List Statement}
    (h : IsStatements ts statements) :
    (statements.flatMap Statement.lexemes).length ≤ ts.length := by
  induction h with
  | nil => exact Nat.le_refl 0
  | cons hfirst _ ih =>
    rw [List.flatMap_cons, List.length_append, List.length_append]
    exact Nat.add_le_add hfirst.length_le ih

theorem IsMoreParameters.length_le {ts : List Token} {parameters : List Parameter}
    (h : IsMoreParameters ts parameters) :
    ([Lexeme.comma].intercalate (parameters.map Parameter.lexemes)).length ≤ ts.length := by
  induction h with
  | last => exact Nat.le_refl 3
  | @more name rest parameters _ _ _ _ hmore ih =>
    cases parameters with
    | nil => cases hmore
    | cons x more =>
      rw [List.map_cons, List.map_cons, List.intercalate_cons_cons, List.append_assoc]
      exact Nat.add_le_add_right ih 4

theorem IsFunction.length_le {ts : List Token} {f : Function} (h : IsFunction ts f) :
    f.lexemes.length ≤ ts.length := by
  cases h with
  | @function _ inner _ parameters _ _ _ _ _ _ _ _ _ hparameters hbody =>
    have hinner : ([Lexeme.comma].intercalate (parameters.map Parameter.lexemes)).length ≤
        inner.length := by
      cases hparameters with
      | none => exact Nat.le_refl 0
      | some h => exact h.length_le
    have := hbody.length_le
    simp only [Function.lexemes, List.length_cons, List.length_append, List.length_nil]
    omega

theorem IsFunctions.length_le {ts : List Token} {functions : List Function}
    (h : IsFunctions ts functions) : (functions.flatMap Function.lexemes).length ≤ ts.length := by
  induction h with
  | nil => exact Nat.le_refl 0
  | cons hfirst _ ih =>
    rw [List.flatMap_cons, List.length_append, List.length_append]
    exact Nat.add_le_add hfirst.length_le ih

/-- **No tokens of a program are fewer than its lexemes**, wherever its nodes stand. -/
theorem Program.length_lexemes_le {program program' : Program} {ts : List Token}
    (h : IsFunctions ts program'.functions) (hbare : program'.bare = program.bare) :
    program.lexemes.length ≤ ts.length := by
  have heq : program.lexemes = program'.lexemes := by
    rw [← program.lexemes_bare, ← program'.lexemes_bare, hbare]
  rw [heq]
  exact h.length_le

end Ingot.Source

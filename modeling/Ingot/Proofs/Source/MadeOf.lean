import Ingot.Proofs.Source.Reading

/-!
# Trees are made of tokens

Every node of a tree has a token of its own: the number, the name, the operator or the
reserved word at whose position it stands. `MadeOf P` says of a tree that all these tokens
have a property `P`. The main result, `parse_madeOf`, is that **a program is made of the
tokens it was read from**, so that what holds of all tokens of a text holds of all names,
numbers and positions of its tree.

The proof follows the phrases: the tree of tokens that all have the property is made of such.
-/

namespace Ingot.Source

/-! ### The tokens of a tree -/

mutual

/-- The own tokens of all nodes of an expression have a property. -/
def Expr.MadeOf (P : Token → Prop) : Expr → Prop
  | .number n p => P ⟨.number n, p⟩
  | .var name p => P ⟨.name name, p⟩
  | .neg operand p => P ⟨.minus, p⟩ ∧ operand.MadeOf P
  | .binary op left right p => P ⟨op.lexeme, p⟩ ∧ left.MadeOf P ∧ right.MadeOf P
  | .call function arguments p => P ⟨.name function, p⟩ ∧ argumentsMadeOf P arguments

/-- The own tokens of all nodes of arguments have a property. -/
def argumentsMadeOf (P : Token → Prop) : List Expr → Prop
  | [] => True
  | argument :: more => argument.MadeOf P ∧ argumentsMadeOf P more

end

/-- The own tokens of a statement have a property. -/
def Statement.MadeOf (P : Token → Prop) : Statement → Prop
  | bind name value p => P ⟨.letWord, p⟩ ∧ (∃ q, P ⟨.name name, q⟩) ∧ value.MadeOf P
  | result value p => P ⟨.returnWord, p⟩ ∧ value.MadeOf P
  | effect value => value.MadeOf P

/-- The own tokens of a function have a property. -/
structure Function.MadeOf (P : Token → Prop) (f : Function) : Prop where
  word : P ⟨.fnWord, f.position⟩
  name : ∃ q, P ⟨.name f.name, q⟩
  parameters : ∀ x ∈ f.parameters, P ⟨.name x.name, x.position⟩
  body : ∀ s ∈ f.body, s.MadeOf P

/-! ### Phrases whose tokens have a property -/

section Phrases

variable {P : Token → Prop}

mutual

theorem IsSum.madeOf {ts : List Token} {e : Expr} : IsSum ts e → (∀ t ∈ ts, P t) → e.MadeOf P
  | .product h, hts => h.madeOf hts
  | .more _ hleft hright, hts => by
    obtain ⟨hl, hr⟩ := List.forall_mem_append.1 hts
    obtain ⟨hown, hr⟩ := List.forall_mem_cons.1 hr
    exact ⟨hown, hleft.madeOf hl, hright.madeOf hr⟩

theorem IsProduct.madeOf {ts : List Token} {e : Expr} :
    IsProduct ts e → (∀ t ∈ ts, P t) → e.MadeOf P
  | .unary h, hts => h.madeOf hts
  | .more _ hleft hright, hts => by
    obtain ⟨hl, hr⟩ := List.forall_mem_append.1 hts
    obtain ⟨hown, hr⟩ := List.forall_mem_cons.1 hr
    exact ⟨hown, hleft.madeOf hl, hright.madeOf hr⟩

theorem IsUnary.madeOf {ts : List Token} {e : Expr} :
    IsUnary ts e → (∀ t ∈ ts, P t) → e.MadeOf P
  | .neg h, hts => by
    obtain ⟨hown, hts⟩ := List.forall_mem_cons.1 hts
    exact ⟨hown, h.madeOf hts⟩
  | .primary h, hts => h.madeOf hts

theorem IsPrimary.madeOf {ts : List Token} {e : Expr} :
    IsPrimary ts e → (∀ t ∈ ts, P t) → e.MadeOf P
  | .number, hts => hts _ List.mem_cons_self
  | .var, hts => hts _ List.mem_cons_self
  | .call h, hts => by
    obtain ⟨hown, hts⟩ := List.forall_mem_cons.1 hts
    obtain ⟨harguments, -⟩ := List.forall_mem_append.1 (List.forall_mem_cons.1 hts).2
    exact ⟨hown, h.madeOf harguments⟩
  | .parens h, hts => h.madeOf (List.forall_mem_append.1 (List.forall_mem_cons.1 hts).2).1

theorem IsArguments.madeOf {ts : List Token} {es : List Expr} :
    IsArguments ts es → (∀ t ∈ ts, P t) → argumentsMadeOf P es
  | .none, _ => trivial
  | .some h, hts => h.madeOf hts

theorem IsMoreArguments.madeOf {ts : List Token} {es : List Expr} :
    IsMoreArguments ts es → (∀ t ∈ ts, P t) → argumentsMadeOf P es
  | .last h, hts => ⟨h.madeOf hts, trivial⟩
  | .more h hmore, hts => by
    obtain ⟨hfirst, hrest⟩ := List.forall_mem_append.1 hts
    exact ⟨h.madeOf hfirst, hmore.madeOf (List.forall_mem_cons.1 hrest).2⟩

end

theorem IsStatement.madeOf {ts : List Token} {s : Statement} (h : IsStatement ts s)
    (hts : ∀ t ∈ ts, P t) : s.MadeOf P := by
  cases h with
  | bind h =>
    obtain ⟨hword, hts⟩ := List.forall_mem_cons.1 hts
    obtain ⟨hname, hts⟩ := List.forall_mem_cons.1 hts
    obtain ⟨hvalue, -⟩ := List.forall_mem_append.1 (List.forall_mem_cons.1 hts).2
    exact ⟨hword, ⟨_, hname⟩, h.madeOf hvalue⟩
  | result h =>
    obtain ⟨hword, hts⟩ := List.forall_mem_cons.1 hts
    exact ⟨hword, h.madeOf (List.forall_mem_append.1 hts).1⟩
  | effect h => exact h.madeOf (List.forall_mem_append.1 hts).1

theorem IsStatements.madeOf {ts : List Token} {statements : List Statement}
    (h : IsStatements ts statements) (hts : ∀ t ∈ ts, P t) : ∀ s ∈ statements, s.MadeOf P := by
  induction h with
  | nil => exact List.forall_mem_nil _
  | cons hfirst _ ih =>
    obtain ⟨hl, hr⟩ := List.forall_mem_append.1 hts
    exact List.forall_mem_cons.2 ⟨hfirst.madeOf hl, ih hr⟩

theorem IsMoreParameters.madeOf {ts : List Token} {parameters : List Parameter}
    (h : IsMoreParameters ts parameters) (hts : ∀ t ∈ ts, P t) :
    ∀ x ∈ parameters, P ⟨.name x.name, x.position⟩ := by
  induction h with
  | last =>
    intro x hx
    obtain rfl := List.mem_singleton.1 hx
    exact hts _ List.mem_cons_self
  | more _ ih =>
    simp only [List.forall_mem_cons] at hts ⊢
    obtain ⟨hown, _, _, _, hrest⟩ := hts
    exact ⟨hown, ih hrest⟩

theorem IsFunction.madeOf {ts : List Token} {function : Function} (h : IsFunction ts function)
    (hts : ∀ t ∈ ts, P t) : function.MadeOf P := by
  cases h with
  | function hparameters hbody =>
    simp only [List.forall_mem_cons, List.forall_mem_append] at hts
    obtain ⟨hword, hname, _, hparts, _, _, _, _, hstatements, _⟩ := hts
    refine ⟨hword, ⟨_, hname⟩, ?_, hbody.madeOf hstatements⟩
    cases hparameters with
    | none => exact List.forall_mem_nil _
    | some h => exact h.madeOf hparts

theorem IsFunctions.madeOf {ts : List Token} {functions : List Function}
    (h : IsFunctions ts functions) (hts : ∀ t ∈ ts, P t) : ∀ f ∈ functions, f.MadeOf P := by
  induction h with
  | nil => exact List.forall_mem_nil _
  | cons hfirst _ ih =>
    obtain ⟨hl, hr⟩ := List.forall_mem_append.1 hts
    exact List.forall_mem_cons.2 ⟨hfirst.madeOf hl, ih hr⟩

end Phrases

/-- **A program is made of the tokens it was read from.** -/
theorem parse_madeOf {P : Token → Prop} {tokens : List Token} (h : ∀ t ∈ tokens, P t)
    {program : Program} (hparse : parse tokens = .ok program) :
    ∀ f ∈ program.functions, f.MadeOf P := by
  unfold parse at hparse
  split at hparse
  · cases hparse
  · rename_i functions hread
    cases hparse
    refine ((readFunctions_iff _).1 hread).madeOf fun t ht => h t ?_
    exact (List.takeWhile_sublist Token.isInner).subset ht

end Ingot.Source

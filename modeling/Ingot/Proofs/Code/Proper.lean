import Ingot.Code.Lowering
import Ingot.Proofs.Outcome
import Ingot.Proofs.Source.Names

/-!
# Proper code

Code is proper if its names are names of the language and its constants are numbers that 32
bits with a sign can hold. Lowering invents neither: **code lowered from a program that was
read from a text is proper** (`lowerFunctions_proper`). That is what keeps the words and the
lines of its text apart.
-/

namespace Ingot.Code

open Source

/-- An operand whose name or number is proper. -/
def Operand.Proper : Operand → Prop
  | constant value => 0 ≤ value ∧ value ≤ largestLiteral
  | parameter name => IsName name
  | temporary _ => True

/-- An instruction whose names and numbers are proper. -/
def Instruction.Proper : Instruction → Prop
  | compute _ _ left right => left.Proper ∧ right.Proper
  | call _ function arguments => IsName function ∧ ∀ o ∈ arguments, o.Proper
  | ret value => value.Proper

/-- Code of a function whose names and numbers are proper. -/
structure FunctionCode.Proper (c : FunctionCode) : Prop where
  name : IsName c.name
  parameters : ∀ name ∈ c.parameters, IsName name
  body : ∀ i ∈ c.body, i.Proper

/-- A scope of proper operands. -/
def Scope.Proper (scope : Scope) : Prop := ∀ name o, scope.lookup name = some o → o.Proper

/-- What was appended so far is proper. -/
def Progress.Proper (p : Progress) : Prop := ∀ i ∈ p.body.toList, i.Proper

theorem Scope.Proper.bind {scope : Scope} {o : Operand} (h : scope.Proper) (ho : o.Proper)
    (name : String) : Scope.Proper ((name, o) :: scope) := by
  intro name' o' ho'
  rw [List.lookup_cons] at ho'
  split at ho'
  · cases ho'
    exact ho
  · exact h name' o' ho'

theorem zero_proper : (Operand.constant 0).Proper := ⟨by decide, by decide⟩

/-! ### Lowering -/

theorem emitTo_proper {instruction : Nat → Instruction} {p p' : Progress} {o : Operand}
    (hp : p.Proper) (hi : (instruction p.temporaries).Proper)
    (h : emitTo instruction p = .ok (o, p')) : o.Proper ∧ p'.Proper := by
  cases h
  refine ⟨trivial, fun i hmem => ?_⟩
  simp only [Array.toList_push, List.mem_append, List.mem_singleton] at hmem
  rcases hmem with hmem | rfl
  · exact hp i hmem
  · exact hi

theorem expectedArity_proper {defined : Arities} {function : String} {supplied expected : Nat}
    {p p' : Progress} (hp : p.Proper)
    (h : expectedArity defined function supplied p = .ok (expected, p')) : p'.Proper := by
  unfold expectedArity at h
  split at h
  · cases h
    exact hp
  · split at h
    · cases h
      exact hp
    · cases h
      exact hp

mutual

theorem lowerExpr_proper {defined : Arities} {scope : Scope} (e : Expr) {p p' : Progress}
    {o : Operand} (he : e.MadeOf fun t => t.lexeme.Proper) (hs : scope.Proper) (hp : p.Proper)
    (h : lowerExpr defined scope e p = .ok (o, p')) : o.Proper ∧ p'.Proper := by
  cases e with
  | number n position =>
    simp only [lowerExpr] at h
    cases h
    exact ⟨he, hp⟩
  | var name position =>
    simp only [lowerExpr] at h
    cases hlook : scope.lookup name with
    | none =>
      rw [hlook] at h
      cases h
    | some o' =>
      rw [hlook] at h
      cases h
      exact ⟨hs name o hlook, hp⟩
  | neg operand position =>
    simp only [lowerExpr] at h
    obtain ⟨o₁, p₁, h₁, hlast⟩ := of_stateT_bind_ok h
    obtain ⟨ho₁, hp₁⟩ := lowerExpr_proper operand he.2 hs hp h₁
    refine emitTo_proper hp₁ ?_ hlast
    exact ⟨zero_proper, ho₁⟩
  | binary op left right position =>
    simp only [lowerExpr] at h
    obtain ⟨l, p₁, h₁, h⟩ := of_stateT_bind_ok h
    obtain ⟨r, p₂, h₂, hlast⟩ := of_stateT_bind_ok h
    obtain ⟨hl, hp₁⟩ := lowerExpr_proper left he.2.1 hs hp h₁
    obtain ⟨hr, hp₂⟩ := lowerExpr_proper right he.2.2 hs hp₁ h₂
    refine emitTo_proper hp₂ ?_ hlast
    exact ⟨hl, hr⟩
  | call function arguments position =>
    simp only [lowerExpr] at h
    obtain ⟨expected, p₁, h₁, h⟩ := of_stateT_bind_ok h
    have hp₁ := expectedArity_proper hp h₁
    by_cases harity : expected = arguments.length
    · rw [if_pos harity] at h
      obtain ⟨operands, p₂, h₂, hlast⟩ := of_stateT_bind_ok h
      obtain ⟨hos, hp₂⟩ := lowerArguments_proper arguments he.2 hs hp₁ h₂
      refine emitTo_proper hp₂ ?_ hlast
      exact ⟨he.1, hos⟩
    · rw [if_neg harity] at h
      cases h

theorem lowerArguments_proper {defined : Arities} {scope : Scope} (es : List Expr)
    {p p' : Progress} {os : List Operand} (he : argumentsMadeOf (fun t => t.lexeme.Proper) es)
    (hs : scope.Proper) (hp : p.Proper) (h : lowerArguments defined scope es p = .ok (os, p')) :
    (∀ o ∈ os, o.Proper) ∧ p'.Proper := by
  cases es with
  | nil =>
    simp only [lowerArguments] at h
    cases h
    exact ⟨by simp, hp⟩
  | cons e more =>
    simp only [lowerArguments] at h
    obtain ⟨o, p₁, h₁, h⟩ := of_stateT_bind_ok h
    obtain ⟨rest, p₂, h₂, h⟩ := of_stateT_bind_ok h
    cases h
    obtain ⟨ho, hp₁⟩ := lowerExpr_proper e he.1 hs hp h₁
    obtain ⟨hos, hp₂⟩ := lowerArguments_proper more he.2 hs hp₁ h₂
    exact ⟨List.forall_mem_cons.2 ⟨ho, hos⟩, hp₂⟩

end

theorem emit_proper {i : Instruction} {p p' : Progress} (hp : p.Proper) (hi : i.Proper)
    (h : emit i p = .ok ((), p')) : p'.Proper := by
  cases h
  intro i' hmem
  simp only [Array.toList_push, List.mem_append, List.mem_singleton] at hmem
  rcases hmem with hmem | rfl
  · exact hp i' hmem
  · exact hi

theorem lowerBody_proper {defined : Arities} (statements : List Statement) {scope : Scope}
    {p p' : Progress} (hst : ∀ s ∈ statements, s.MadeOf fun t => t.lexeme.Proper)
    (hs : scope.Proper) (hp : p.Proper)
    (h : lowerBody defined scope statements p = .ok ((), p')) : p'.Proper := by
  induction statements generalizing scope p with
  | nil =>
    simp only [lowerBody] at h
    refine emit_proper hp ?_ h
    exact zero_proper
  | cons statement more ih =>
    obtain ⟨hfirst, hmore⟩ := List.forall_mem_cons.1 hst
    cases statement with
    | bind name value position =>
      simp only [lowerBody] at h
      obtain ⟨o, p₁, h₁, h⟩ := of_stateT_bind_ok h
      obtain ⟨ho, hp₁⟩ := lowerExpr_proper value hfirst.2.2 hs hp h₁
      exact ih hmore (hs.bind ho name) hp₁ h
    | effect value =>
      simp only [lowerBody] at h
      obtain ⟨o, p₁, h₁, h⟩ := of_stateT_bind_ok h
      obtain ⟨_, hp₁⟩ := lowerExpr_proper value hfirst hs hp h₁
      exact ih hmore hs hp₁ h
    | result value position =>
      simp only [lowerBody] at h
      obtain ⟨o, p₁, h₁, h⟩ := of_stateT_bind_ok h
      obtain ⟨ho, hp₁⟩ := lowerExpr_proper value hfirst.2 hs hp h₁
      obtain ⟨⟨⟩, p₂, h₂, h⟩ := of_stateT_bind_ok h
      cases more with
      | cons behind others => cases h
      | nil =>
        cases h
        refine emit_proper hp₁ ?_ h₂
        exact ho

/-! ### Functions -/

theorem parameterScope_proper {parameters : List Parameter} {scope scope' : Scope}
    (hx : ∀ x ∈ parameters, IsName x.name) (hs : scope.Proper)
    (h : parameterScope scope parameters = .ok scope') : scope'.Proper := by
  induction parameters generalizing scope with
  | nil =>
    cases h
    exact hs
  | cons parameter more ih =>
    obtain ⟨hfirst, hmore⟩ := List.forall_mem_cons.1 hx
    rw [parameterScope] at h
    split at h
    · cases h
    · have hparam : (Operand.parameter parameter.name).Proper := hfirst
      exact ih hmore (hs.bind hparam parameter.name) h

theorem lowerFunction_proper {defined declared declared' : Arities} {f : Source.Function}
    {c : FunctionCode} (hf : f.MadeOf fun t => t.lexeme.Proper)
    (h : lowerFunction defined declared f = .ok (c, declared')) : c.Proper := by
  unfold lowerFunction at h
  obtain ⟨scope, hscope, h⟩ := of_except_bind_ok h
  obtain ⟨⟨⟨⟩, progress⟩, hbody, h⟩ := of_except_bind_ok h
  cases h
  obtain ⟨_, hname⟩ := hf.name
  refine ⟨hname, List.forall_mem_map.2 hf.parameters, ?_⟩
  have hs := parameterScope_proper hf.parameters (fun name o ho => by cases ho) hscope
  exact lowerBody_proper f.body hf.body hs (by simp [Progress.Proper]) hbody

/-- **Code lowered from proper trees is proper.** -/
theorem lowerFunctions_proper {defined : Arities} {functions : List Source.Function}
    {declared declared' : Arities} {codes : List FunctionCode}
    (hf : ∀ f ∈ functions, f.MadeOf fun t => t.lexeme.Proper)
    (h : lowerFunctions defined declared functions = .ok (codes, declared')) :
    ∀ c ∈ codes, c.Proper := by
  induction functions generalizing declared codes with
  | nil =>
    cases h
    simp
  | cons f more ih =>
    obtain ⟨hfirst, hmore⟩ := List.forall_mem_cons.1 hf
    unfold lowerFunctions at h
    obtain ⟨⟨code, declared₁⟩, h₁, h⟩ := of_except_bind_ok h
    obtain ⟨⟨codes, declared₂⟩, h₂, h⟩ := of_except_bind_ok h
    cases h
    exact List.forall_mem_cons.2 ⟨lowerFunction_proper hfirst h₁, ih hmore h₂⟩

end Ingot.Code

import Ingot.Proofs.Code.Marks

/-!
# Names of a program in its code

The names in code are, temporaries apart, those that the program has for functions and for
parameters: lowering calls and declares what the program calls, and nothing else
(`lowerFunctions_called`). So **all names in the text that a source is compiled to are identifiers
exactly when the source has only ASCII in its names of functions and parameters**
(`compile_identifiers`).
-/

namespace Ingot.Source

/-! ### The names of programs -/

mutual

/-- The functions that an expression calls. -/
def Expr.calls : Expr → List String
  | .number _ _ => []
  | .var _ _ => []
  | .neg operand _ => operand.calls
  | .binary _ left right _ => left.calls ++ right.calls
  | .call function arguments _ => function :: argumentCalls arguments

/-- The functions that arguments call. -/
def argumentCalls : List Expr → List String
  | [] => []
  | argument :: more => argument.calls ++ argumentCalls more

end

/-- The functions that a statement calls. -/
def Statement.calls : Statement → List String
  | bind _ value _ => value.calls
  | result value _ => value.calls
  | effect value => value.calls

/-- The functions that a function calls. -/
def Function.calls (f : Function) : List String := f.body.flatMap Statement.calls

/-- The names of a program that are written into code: those of functions, of parameters and of the
functions that are called. What is bound in a function has no name in code. -/
def Program.writtenNames (program : Program) : List String :=
  program.functions.flatMap fun f => f.name :: (f.parameters.map Parameter.name ++ f.calls)

mutual

theorem Expr.isName_of_mem_calls (e : Expr) (h : e.MadeOf fun t => t.lexeme.Proper) :
    ∀ name ∈ e.calls, IsName name := by
  cases e with
  | number n position => exact List.forall_mem_nil _
  | var name position => exact List.forall_mem_nil _
  | neg operand position => exact operand.isName_of_mem_calls h.2
  | binary op left right position =>
    exact List.forall_mem_append.2 ⟨left.isName_of_mem_calls h.2.1, right.isName_of_mem_calls h.2.2⟩
  | call function arguments position =>
    exact List.forall_mem_cons.2 ⟨h.1, isName_of_mem_argumentCalls arguments h.2⟩

theorem isName_of_mem_argumentCalls (es : List Expr)
    (h : argumentsMadeOf (fun t => t.lexeme.Proper) es) : ∀ name ∈ argumentCalls es, IsName name := by
  cases es with
  | nil => exact List.forall_mem_nil _
  | cons e more =>
    exact List.forall_mem_append.2
      ⟨e.isName_of_mem_calls h.1, isName_of_mem_argumentCalls more h.2⟩

end

theorem Statement.isName_of_mem_calls {s : Statement} (h : s.MadeOf fun t => t.lexeme.Proper) :
    ∀ name ∈ s.calls, IsName name := by
  cases s with
  | bind name value position => exact value.isName_of_mem_calls h.2.2
  | result value position => exact value.isName_of_mem_calls h.2
  | effect value => exact value.isName_of_mem_calls h

theorem Function.MadeOf.isName_of_mem_calls {f : Function} (h : f.MadeOf fun t => t.lexeme.Proper) :
    ∀ name ∈ f.calls, IsName name := by
  intro name hname
  obtain ⟨s, hs, hname⟩ := List.mem_flatMap.1 hname
  exact Statement.isName_of_mem_calls (h.body s hs) name hname

end Ingot.Source

namespace Ingot.Code

open Source Machine

/-! ### Lowering calls -/

/-- The functions that instructions call. -/
def callsOf (body : List Instruction) : List String :=
  body.filterMap fun i => i.call?.map Prod.fst

/-- The functions that the code so far calls or declares. -/
def Progress.called (p : Progress) : List String :=
  callsOf p.body.toList ++ p.declared.map Prod.fst

theorem called_push (p : Progress) (i : Instruction) (n : ℕ) (g : String) :
    g ∈ Progress.called { p with temporaries := n, body := p.body.push i } ↔
      g ∈ p.called ∨ i.call?.map Prod.fst = some g := by
  simp only [Progress.called, callsOf, Array.toList_push, List.filterMap_append, List.mem_append,
    List.filterMap_cons, List.filterMap_nil]
  cases i.call?.map Prod.fst with
  | none => simp
  | some g' =>
    rw [Option.some.injEq, List.mem_singleton, eq_comm (a := g')]
    exact or_right_comm

theorem called_emitTo {instruction : ℕ → Instruction} {p p' : Progress} {o : Operand}
    (h : emitTo instruction p = .ok (o, p')) (g : String) :
    g ∈ p'.called ↔ g ∈ p.called ∨ (instruction p.temporaries).call?.map Prod.fst = some g := by
  cases h
  exact called_push p _ _ g

/-- At most the function that is asked for is declared. -/
theorem called_expectedArity {defined : Arities} {function : String} {supplied expected : ℕ}
    {p p' : Progress} (h : expectedArity defined function supplied p = .ok (expected, p'))
    (g : String) : g ∈ p'.called ∨ g = function ↔ g ∈ p.called ∨ g = function := by
  unfold expectedArity at h
  split at h
  · cases h
    rfl
  · split at h
    · cases h
      rfl
    · cases h
      simp only [Progress.called, List.map_append, List.mem_append, List.map_cons, List.map_nil,
        List.mem_singleton, or_assoc, or_self]

section Lowering

variable {defined : Arities} {scope : Scope} {p p' : Progress}

mutual

/-- **Lowering an expression calls or declares what the expression calls, and nothing else.** -/
theorem lowerExpr_called (e : Expr) {p p' : Progress} {o : Operand}
    (h : lowerExpr defined scope e p = .ok (o, p')) (g : String) :
    g ∈ p'.called ↔ g ∈ p.called ∨ g ∈ e.calls := by
  cases e with
  | number n position =>
    simp only [lowerExpr] at h
    cases h
    simp [Expr.calls]
  | var name position =>
    simp only [lowerExpr] at h
    cases hlook : scope.lookup name with
    | none =>
      rw [hlook] at h
      cases h
    | some o' =>
      rw [hlook] at h
      cases h
      simp [Expr.calls]
  | neg operand position =>
    simp only [lowerExpr] at h
    obtain ⟨o₁, p₁, h₁, hlast⟩ := of_stateT_bind_ok h
    rw [called_emitTo hlast, lowerExpr_called operand h₁]
    simp [Expr.calls, Instruction.call?]
  | binary op left right position =>
    simp only [lowerExpr] at h
    obtain ⟨l, p₁, h₁, h⟩ := of_stateT_bind_ok h
    obtain ⟨r, p₂, h₂, hlast⟩ := of_stateT_bind_ok h
    rw [called_emitTo hlast, lowerExpr_called right h₂, lowerExpr_called left h₁]
    simp [Expr.calls, Instruction.call?, or_assoc]
  | call function arguments position =>
    simp only [lowerExpr] at h
    obtain ⟨expected, p₁, h₁, h⟩ := of_stateT_bind_ok h
    by_cases harity : expected = arguments.length
    · rw [if_pos harity] at h
      obtain ⟨operands, p₂, h₂, hlast⟩ := of_stateT_bind_ok h
      have hasked := called_expectedArity h₁ g
      rw [called_emitTo hlast, lowerArguments_called arguments h₂]
      simp only [Expr.calls, Instruction.call?, Option.map_some, Option.some.injEq,
        List.mem_cons, eq_comm (a := function)]
      rw [or_right_comm, hasked, or_assoc]
    · rw [if_neg harity] at h
      cases h

theorem lowerArguments_called (es : List Expr) {p p' : Progress} {os : List Operand}
    (h : lowerArguments defined scope es p = .ok (os, p')) (g : String) :
    g ∈ p'.called ↔ g ∈ p.called ∨ g ∈ argumentCalls es := by
  cases es with
  | nil =>
    simp only [lowerArguments] at h
    cases h
    simp [argumentCalls]
  | cons e more =>
    simp only [lowerArguments] at h
    obtain ⟨o, p₁, h₁, h⟩ := of_stateT_bind_ok h
    obtain ⟨rest, p₂, h₂, h⟩ := of_stateT_bind_ok h
    cases h
    rw [lowerArguments_called more h₂, lowerExpr_called e h₁]
    simp [argumentCalls, or_assoc]

end

theorem lowerBody_called (statements : List Statement)
    (h : lowerBody defined scope statements p = .ok ((), p')) (g : String) :
    g ∈ p'.called ↔ g ∈ p.called ∨ g ∈ statements.flatMap Statement.calls := by
  induction statements generalizing scope p with
  | nil =>
    simp only [lowerBody, emit] at h
    cases h
    exact (called_push p _ p.temporaries g).trans (by simp [Instruction.call?])
  | cons statement more ih =>
    rw [List.flatMap_cons, List.mem_append]
    cases statement with
    | bind name value position =>
      simp only [lowerBody] at h
      obtain ⟨o, p₁, h₁, h⟩ := of_stateT_bind_ok h
      rw [ih h, lowerExpr_called value h₁, or_assoc]
      rfl
    | effect value =>
      simp only [lowerBody] at h
      obtain ⟨o, p₁, h₁, h⟩ := of_stateT_bind_ok h
      rw [ih h, lowerExpr_called value h₁, or_assoc]
      rfl
    | result value position =>
      simp only [lowerBody] at h
      obtain ⟨o, p₁, h₁, h⟩ := of_stateT_bind_ok h
      cases more with
      | cons behind others => cases h
      | nil =>
        cases h
        refine (called_push p₁ _ p₁.temporaries g).trans ?_
        rw [lowerExpr_called value h₁]
        simp [Instruction.call?, Statement.calls]

end Lowering

/-- The functions that the code of a function calls, and those declared behind it. -/
theorem lowerFunction_called {defined declared declared' : Arities} {f : Source.Function}
    {c : FunctionCode} (h : lowerFunction defined declared f = .ok (c, declared')) (g : String) :
    g ∈ callsOf c.body ∨ g ∈ declared'.map Prod.fst ↔ g ∈ declared.map Prod.fst ∨ g ∈ f.calls := by
  unfold lowerFunction at h
  obtain ⟨scope, hscope, h⟩ := of_except_bind_ok h
  obtain ⟨⟨⟨⟩, progress⟩, hbody, h⟩ := of_except_bind_ok h
  cases h
  have hcalled := lowerBody_called f.body hbody g
  simpa [Progress.called, callsOf, Source.Function.calls] using hcalled

/-- **Functions in a row call or declare what is called in their sources.** -/
theorem lowerFunctions_called {defined declared declared' : Arities}
    {functions : List Source.Function} {codes : List FunctionCode}
    (h : lowerFunctions defined declared functions = .ok (codes, declared')) (g : String) :
    g ∈ codes.flatMap (fun c => callsOf c.body) ∨ g ∈ declared'.map Prod.fst ↔
      g ∈ declared.map Prod.fst ∨ g ∈ functions.flatMap Source.Function.calls := by
  induction functions generalizing declared codes with
  | nil =>
    cases h
    simp
  | cons f more ih =>
    unfold lowerFunctions at h
    obtain ⟨⟨code, declared₁⟩, h₁, h⟩ := of_except_bind_ok h
    obtain ⟨⟨codes, declared₂⟩, h₂, h⟩ := of_except_bind_ok h
    cases h
    have hfirst := lowerFunction_called h₁ g
    have hrest := ih h₂
    rw [List.flatMap_cons, List.flatMap_cons, List.mem_append, List.mem_append, or_assoc, hrest,
      ← or_assoc, hfirst, or_assoc]

/-- A module calls or declares what its program calls. -/
theorem lower_called {name sourceName : String} {program : Program} {m : ModuleCode}
    (h : lower name sourceName program = .ok m) (g : String) :
    g ∈ m.functions.flatMap (fun c => callsOf c.body) ∨ g ∈ m.declarations.map Declaration.name ↔
      g ∈ program.functions.flatMap Source.Function.calls := by
  unfold lower at h
  obtain ⟨defined, hdefined, h⟩ := of_except_bind_ok h
  obtain ⟨⟨functions, declared⟩, hfunctions, h⟩ := of_except_bind_ok h
  obtain rfl := Except.ok.inj h
  have hcalled := lowerFunctions_called hfunctions g
  have hsorted : ∀ declarations : List Declaration,
      g ∈ (declarations.mergeSort fun a b => decide (a.name ≤ b.name)).map Declaration.name ↔
        g ∈ declarations.map Declaration.name := fun declarations =>
    ((declarations.mergeSort_perm _).map Declaration.name).mem_iff
  dsimp only
  rw [hsorted, List.map_map]
  simpa [Function.comp_def] using hcalled

/-! ### The names of a program in its code -/

/-- The name of a temporary behind its mark. -/
def IsTemporary (name : List Char) : Prop := ∃ index : ℕ, name = 't' :: index.repr.toList

theorem Operand.of_mem_marked {o : Operand} {n : List Char} (h : n ∈ o.marked) :
    IsTemporary n ∨ ∃ x, o = .parameter x ∧ n = 'p' :: '.' :: x.toList := by
  cases o with
  | constant value => cases h
  | parameter name => exact .inr ⟨name, rfl, List.mem_singleton.1 h⟩
  | temporary index => exact .inl ⟨index, List.mem_singleton.1 h⟩

theorem Instruction.of_mem_marked {i : Instruction} {n : List Char} (h : n ∈ i.marked) :
    IsTemporary n ∨ (∃ x, .parameter x ∈ i.operands ∧ n = 'p' :: '.' :: x.toList) ∨
      ∃ g, i.call?.map Prod.fst = some g ∧ n = g.toList := by
  have hoperand : ∀ o ∈ i.operands, n ∈ o.marked →
      IsTemporary n ∨ ∃ x, .parameter x ∈ i.operands ∧ n = 'p' :: '.' :: x.toList := by
    intro o ho hn
    obtain htemporary | ⟨x, rfl, hx⟩ := Operand.of_mem_marked hn
    · exact .inl htemporary
    · exact .inr ⟨x, ho, hx⟩
  cases i with
  | compute target operation left right =>
    rcases List.mem_append.1 h with h | h
    · exact .inl ⟨target, List.mem_singleton.1 h⟩
    · rcases List.mem_append.1 h with h | h
      · exact (hoperand left (by simp [operands]) h).imp_right .inl
      · exact (hoperand right (by simp [operands]) h).imp_right .inl
  | call target function arguments =>
    rcases List.mem_append.1 h with h | h
    · exact .inl ⟨target, List.mem_singleton.1 h⟩
    · rcases List.mem_cons.1 h with h | h
      · exact .inr (.inr ⟨function, rfl, h⟩)
      · obtain ⟨o, ho, hn⟩ := List.mem_flatMap.1 h
        exact (hoperand o ho hn).imp_right .inl
  | ret value => exact (hoperand value (List.mem_singleton.2 rfl) h).imp_right .inl

theorem Instruction.mem_marked_of_call {i : Instruction} {g : String}
    (h : i.call?.map Prod.fst = some g) : g.toList ∈ i.marked := by
  cases i with
  | compute target operation left right => cases h
  | call target function arguments =>
    cases h
    exact List.mem_append_right _ List.mem_cons_self
  | ret value => cases h

theorem mem_callsOf {body : List Instruction} {g : String} :
    g ∈ callsOf body ↔ ∃ i ∈ body, i.call?.map Prod.fst = some g := List.mem_filterMap

section Functions

variable {table : Arities} {f : Source.Function} {c : FunctionCode} (hc : IsCodeOf table f c)

include hc

/-- A name in the code of a function is that of a temporary or one of its source. -/
theorem IsCodeOf.of_mem_marked {n : List Char} (h : n ∈ c.marked) :
    IsTemporary n ∨ n = f.name.toList ∨
      (∃ x ∈ f.parameters.map Parameter.name, n = 'p' :: '.' :: x.toList) ∨
      ∃ g ∈ callsOf c.body, n = g.toList := by
  rcases List.mem_cons.1 h with h | h
  · exact .inr (.inl (hc.name ▸ h))
  · rcases List.mem_append.1 h with h | h
    · obtain ⟨o, ho, hn⟩ := List.mem_flatMap.1 h
      obtain ⟨x, hx, rfl⟩ := List.mem_map.1 ho
      exact .inr (.inr (.inl ⟨x, hc.parameters ▸ hx, List.mem_singleton.1 hn⟩))
    · obtain ⟨i, hi, hn⟩ := List.mem_flatMap.1 h
      obtain ⟨line, hline⟩ := List.getElem?_of_mem hi
      rcases Instruction.of_mem_marked hn with htemporary | ⟨x, hx, rfl⟩ | ⟨g, hg, rfl⟩
      · exact .inl htemporary
      · have hparameter : x ∈ c.parameters := hc.wellFormed.defined line i hline _ hx
        exact .inr (.inr (.inl ⟨x, hc.parameters ▸ hparameter, rfl⟩))
      · exact .inr (.inr (.inr ⟨g, mem_callsOf.2 ⟨i, hi, hg⟩, rfl⟩))

theorem IsCodeOf.name_mem_marked : f.name.toList ∈ c.marked := hc.name ▸ List.mem_cons_self

theorem IsCodeOf.parameter_mem_marked {x : String} (hx : x ∈ f.parameters.map Parameter.name) :
    'p' :: '.' :: x.toList ∈ c.marked := by
  refine List.mem_cons_of_mem _ (List.mem_append_left _ (List.mem_flatMap.2
    ⟨.parameter x, List.mem_map.2 ⟨x, hc.parameters ▸ hx, rfl⟩, List.mem_singleton.2 rfl⟩))

omit hc in
theorem FunctionCode.call_mem_marked {g : String} (hg : g ∈ callsOf c.body) :
    g.toList ∈ c.marked := by
  obtain ⟨i, hi, hcall⟩ := mem_callsOf.1 hg
  exact List.mem_cons_of_mem _ (List.mem_append_right _ (List.mem_flatMap.2
    ⟨i, hi, Instruction.mem_marked_of_call hcall⟩))

end Functions

section Modules

variable {program : Program} {m : ModuleCode}
  (hcodes : List.Forall₂ (IsCodeOf m.table) program.functions m.functions)
  (hcalled : ∀ g, g ∈ m.functions.flatMap (fun c => callsOf c.body) ∨
    g ∈ m.declarations.map Declaration.name ↔ g ∈ program.functions.flatMap Source.Function.calls)

include hcodes hcalled

/-- **A name in the code of a program is that of a temporary or one of the program.** -/
theorem written_of_mem_marked {n : List Char} (h : n ∈ m.marked) : IsTemporary n ∨
    ∃ w ∈ program.writtenNames, n = w.toList ∨ n = 'p' :: '.' :: w.toList := by
  have hcall : ∀ g, g ∈ program.functions.flatMap Source.Function.calls →
      g ∈ program.writtenNames := by
    intro g hg
    obtain ⟨f, hf, hg⟩ := List.mem_flatMap.1 hg
    exact List.mem_flatMap.2 ⟨f, hf, List.mem_cons_of_mem _ (List.mem_append_right _ hg)⟩
  rcases List.mem_append.1 h with h | h
  · obtain ⟨c, hc, hn⟩ := List.mem_flatMap.1 h
    obtain ⟨f, hf, hcode⟩ := exists_of_forall₂ hcodes.flip hc
    rcases hcode.of_mem_marked hn with htemporary | rfl | ⟨x, hx, rfl⟩ | ⟨g, hg, rfl⟩
    · exact .inl htemporary
    · exact .inr ⟨f.name, List.mem_flatMap.2 ⟨f, hf, List.mem_cons_self⟩, .inl rfl⟩
    · exact .inr ⟨x, List.mem_flatMap.2
        ⟨f, hf, List.mem_cons_of_mem _ (List.mem_append_left _ hx)⟩, .inr rfl⟩
    · exact .inr ⟨g, hcall g ((hcalled g).1 (.inl (List.mem_flatMap.2 ⟨c, hc, hg⟩))), .inl rfl⟩
  · obtain ⟨d, hd, rfl⟩ := List.mem_map.1 h
    exact .inr ⟨d.name, hcall _ ((hcalled _).1 (.inr (List.mem_map.2 ⟨d, hd, rfl⟩))), .inl rfl⟩

/-- The names of a program for functions and parameters are in its code. -/
theorem mem_marked_of_written {w : String} (h : w ∈ program.writtenNames) :
    w.toList ∈ m.marked ∨ 'p' :: '.' :: w.toList ∈ m.marked := by
  obtain ⟨f, hf, hw⟩ := List.mem_flatMap.1 h
  obtain ⟨c, hc, hcode⟩ := exists_of_forall₂ hcodes hf
  have hin : ∀ {n : List Char}, n ∈ c.marked → n ∈ m.marked := fun hn =>
    List.mem_append_left _ (List.mem_flatMap.2 ⟨c, hc, hn⟩)
  rcases List.mem_cons.1 hw with rfl | hw
  · exact .inl (hin hcode.name_mem_marked)
  · rcases List.mem_append.1 hw with hw | hw
    · exact .inr (hin (hcode.parameter_mem_marked hw))
    · rcases (hcalled w).2 (List.mem_flatMap.2 ⟨f, hf, hw⟩) with hbody | hdeclared
      · obtain ⟨c', hc', hw⟩ := List.mem_flatMap.1 hbody
        exact .inl (List.mem_append_left _
          (List.mem_flatMap.2 ⟨c', hc', FunctionCode.call_mem_marked hw⟩))
      · obtain ⟨d, hd, rfl⟩ := List.mem_map.1 hdeclared
        exact .inl (List.mem_append_right _ (List.mem_map.2 ⟨d, hd, rfl⟩))

end Modules

theorem isName_of_mem_writtenNames {program : Program}
    (h : ∀ f ∈ program.functions, f.MadeOf fun t => t.lexeme.Proper) :
    ∀ w ∈ program.writtenNames, IsName w := by
  intro w hw
  obtain ⟨f, hf, hw⟩ := List.mem_flatMap.1 hw
  have hmade := h f hf
  rcases List.mem_cons.1 hw with rfl | hw
  · obtain ⟨_, hname⟩ := hmade.name
    exact hname
  · rcases List.mem_append.1 hw with hw | hw
    · obtain ⟨x, hx, rfl⟩ := List.mem_map.1 hw
      exact hmade.parameters x hx
    · exact hmade.isName_of_mem_calls w hw

/-- **The names in the text that a source is compiled to are identifiers exactly when the source
names functions and parameters in ASCII.** Each of them is the name of a temporary, or it is a name
of the source as it stands there. -/
theorem compile_identifiers {name sourceName source : String} {m : ModuleCode}
    (h : compile name sourceName source = .ok m) :
    ∃ ts program, Source.tokens source = .ok ts ∧ Source.parse ts = .ok program ∧
      m.text = m.heading ++ m.contents ∧
      (∀ n ∈ markedNames m.contents.toList, IsTemporary n ∨
        ∃ w ∈ program.writtenNames, n = w.toList ∨ n = 'p' :: '.' :: w.toList) ∧
      ((∀ n ∈ markedNames m.contents.toList, isIdentifier n = true) ↔
        ∀ w ∈ program.writtenNames, IsAscii w) := by
  unfold compile at h
  obtain ⟨ts, htokens, h⟩ := of_except_bind_ok h
  obtain ⟨program, hparse, h⟩ := of_except_bind_ok h
  have hmade := Source.proper_of_parse htokens hparse
  obtain ⟨-, -, -, hcodes⟩ := lower_wellFormed hmade h
  have hcalled := lower_called h
  have hnames := isName_of_mem_writtenNames hmade
  have hmarked : markedNames m.contents.toList = m.marked := by
    refine markedNames_contents (forall_mem_of_forall₂ (fun f c hc => hc.proper) hcodes) ?_
    intro d hd
    have hcall := (hcalled d.name).1 (.inr (List.mem_map.2 ⟨d, hd, rfl⟩))
    obtain ⟨f, hf, hcall⟩ := List.mem_flatMap.1 hcall
    exact (hmade f hf).isName_of_mem_calls d.name hcall
  rw [hmarked]
  refine ⟨ts, program, htokens, hparse, m.text_eq_heading,
    fun n hn => written_of_mem_marked hcodes hcalled hn, ?_, ?_⟩
  · intro hidentifiers w hw
    rcases mem_marked_of_written hcodes hcalled hw with hn | hn
    · exact (isIdentifier_name (hnames w hw)).1 (hidentifiers _ hn)
    · exact (isIdentifier_parameter (hnames w hw)).1 (hidentifiers _ hn)
  · intro hascii n hn
    rcases written_of_mem_marked hcodes hcalled hn with ⟨i, rfl⟩ | ⟨w, hw, rfl | rfl⟩
    · exact isIdentifier_temporary i
    · exact (isIdentifier_name (hnames w hw)).2 (hascii w hw)
    · exact (isIdentifier_parameter (hnames w hw)).2 (hascii w hw)

/-- A function with a parameter that calls another one. -/
theorem compile_identifiers_called : ∃ m ts program,
    compile "m" "m.ion" "fn f(x: i32) -> i32 \x7b return g(x); \x7d" = .ok m ∧
      Source.parse ts = .ok program ∧ ∀ w ∈ program.writtenNames, IsAscii w := by
  have hidentifiers : ((compile "m" "m.ion" "fn f(x: i32) -> i32 \x7b return g(x); \x7d").toOption.map
      fun m => (markedNames m.contents.toList).all isIdentifier) = some true := by
    decide +kernel
  cases h : compile "m" "m.ion" "fn f(x: i32) -> i32 \x7b return g(x); \x7d" with
  | error fault =>
    rw [h] at hidentifiers
    cases hidentifiers
  | ok m =>
    rw [h] at hidentifiers
    obtain ⟨ts, program, -, hparse, -, -, hascii⟩ := compile_identifiers h
    exact ⟨m, ts, program, rfl, hparse,
      hascii.1 (List.all_eq_true.1 (Option.some.inj hidentifiers))⟩

/-- **The names in the text are not always identifiers**: the language has letters that are not
ASCII. -/
theorem not_always_identifiers :
    ¬∀ (name sourceName source : String) (m : ModuleCode),
      compile name sourceName source = .ok m →
        ∀ n ∈ markedNames m.contents.toList, isIdentifier n = true := by
  intro hidentifiers
  have hother : ((compile "main" "main.ion" "fn é() -> i32 \x7b return 0; \x7d").toOption.map
      fun m => (markedNames m.contents.toList).all isIdentifier) = some false := by
    decide +kernel
  cases h : compile "main" "main.ion" "fn é() -> i32 \x7b return 0; \x7d" with
  | error fault =>
    rw [h] at hother
    cases hother
  | ok m =>
    rw [h, Except.toOption, Option.map_some, List.all_eq_true.2 (hidentifiers _ _ _ m h)] at hother
    cases hother

end Ingot.Code

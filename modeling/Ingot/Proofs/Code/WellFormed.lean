import Ingot.Proofs.Meaning.Words

/-!
# Well-formed code

In the code of a function each line but the last sets a temporary, the last one returns, and
what a line works on is a number, a parameter or a temporary that a line before it has set. A
module says of each function that is called with how many parameters it is defined or declared,
and says it once. **What a source text is compiled to is of this form**
(`compile_wellFormed`).

While code is lowered the temporaries are counted by its lines, and the table of functions only
grows (`lowerExpr_sound`).
-/

namespace Ingot.Code

open Source Machine

/-! ### Well-formed code -/

/-- The temporary that an instruction sets. -/
def Instruction.target? : Instruction → Option ℕ
  | compute target _ _ _ => some target
  | call target _ _ => some target
  | ret _ => none

/-- What an instruction works on. -/
def Instruction.operands : Instruction → List Operand
  | compute _ _ left right => [left, right]
  | call _ _ arguments => arguments
  | ret value => [value]

/-- The function that an instruction calls, and the number of its arguments. -/
def Instruction.call? : Instruction → Option (String × ℕ)
  | compute _ _ _ _ => none
  | call _ function arguments => some (function, arguments.length)
  | ret _ => none

/-- The temporaries that are set, in the order of the lines. -/
def FunctionCode.targets (c : FunctionCode) : List ℕ := c.body.filterMap Instruction.target?

/-- What names something in a function: the label of its block, its parameters and its
temporaries. -/
def FunctionCode.localNames (c : FunctionCode) : List String :=
  "%entry" :: (c.parameters.map (fun name => (Operand.parameter name).text) ++
    c.targets.map fun index => (Operand.temporary index).text)

/-- An operand that means something on a line of a function. -/
def FunctionCode.Has (c : FunctionCode) (line : ℕ) : Operand → Prop
  | .constant value => 0 ≤ value ∧ value < 2 ^ 31
  | .parameter name => name ∈ c.parameters
  | .temporary index => ∃ earlier < line, ∃ i : Instruction,
      c.body[earlier]? = some i ∧ i.target? = some index

/-- Code of a function that an assembler takes. -/
structure FunctionCode.WellFormed (c : FunctionCode) : Prop where
  distinct : c.localNames.Nodup
  numbered : c.targets = List.range c.targets.length
  defined : ∀ (line : ℕ) (i : Instruction), c.body[line]? = some i → ∀ o ∈ i.operands, c.Has line o
  ends : ∃ lines value, c.body = lines ++ [.ret value] ∧ ∀ i ∈ lines, ∀ v, i ≠ .ret v

/-- The numbers of parameters with which a module defines or declares a function. -/
def ModuleCode.aritiesOf (m : ModuleCode) (function : String) : List ℕ :=
  ((m.functions.filter fun c => c.name == function).map fun c => c.parameters.length) ++
    (m.declarations.filter fun d => d.name == function).map Declaration.arity

/-- Code of a module that an assembler takes. -/
structure ModuleCode.WellFormed (m : ModuleCode) : Prop where
  blocks : ∀ c ∈ m.functions, c.WellFormed
  sorted : (m.declarations.map Declaration.name).Pairwise (· < ·)
  linked : ∀ c ∈ m.functions, ∀ i ∈ c.body, ∀ function supplied,
    i.call? = some (function, supplied) → m.aritiesOf function = [supplied]

/-! ### Steps of lowering -/

/-- An operand that the next line may work on. -/
def Operand.Usable (parameters : List String) (next : ℕ) : Operand → Prop
  | constant _ => True
  | parameter name => name ∈ parameters
  | temporary index => index < next

theorem Operand.Usable.mono {parameters : List String} {n n' : ℕ} {o : Operand}
    (h : o.Usable parameters n) (hle : n ≤ n') : o.Usable parameters n' := by
  cases o with
  | constant value => trivial
  | parameter name => exact h
  | temporary index => exact Nat.lt_of_lt_of_le h hle

/-- A scope of operands that the next line may work on. -/
def Scope.Usable (parameters : List String) (next : ℕ) (scope : Scope) : Prop :=
  ∀ name o, scope.lookup name = some o → o.Usable parameters next

theorem Scope.Usable.mono {parameters : List String} {n n' : ℕ} {scope : Scope}
    (h : scope.Usable parameters n) (hle : n ≤ n') : scope.Usable parameters n' :=
  fun name o ho => (h name o ho).mono hle

theorem Scope.Usable.bind {parameters : List String} {n : ℕ} {scope : Scope} {o : Operand}
    (h : scope.Usable parameters n) (ho : o.Usable parameters n) (name : String) :
    Scope.Usable parameters n ((name, o) :: scope) := by
  intro name' o' ho'
  rw [List.lookup_cons] at ho'
  split at ho'
  · cases ho'
    exact ho
  · exact h name' o' ho'

/-- The functions with a number of parameters: those that are defined, and those declared so
far. -/
def Progress.table (defined : Arities) (p : Progress) : Arities := defined ++ p.declared

/-- What lowering keeps: each line so far sets the temporary of its number and works on what was
there before it, and the functions it calls are in the table, which has no function twice. -/
structure Progress.Sound (defined : Arities) (parameters : List String) (p : Progress) : Prop where
  counted : p.body.toList.length = p.temporaries
  sets : ∀ (line : ℕ) (i : Instruction), p.body.toList[line]? = some i →
    i.target? = some line ∧ ∀ o ∈ i.operands, o.Usable parameters line
  calls : ∀ i ∈ p.body.toList, ∀ call, i.call? = some call → call ∈ p.table defined
  distinct : ((p.table defined).map Prod.fst).Nodup

/-- Between two points of lowering no temporary was given back and no declaration was dropped. -/
structure Progress.Grows (p p' : Progress) : Prop where
  temporaries : p.temporaries ≤ p'.temporaries
  declared : p.declared <+: p'.declared

theorem Progress.Grows.refl (p : Progress) : p.Grows p := ⟨le_rfl, List.prefix_refl _⟩

theorem Progress.Grows.trans {p p' p'' : Progress} (h : p.Grows p') (h' : p'.Grows p'') :
    p.Grows p'' := ⟨h.temporaries.trans h'.temporaries, h.declared.trans h'.declared⟩

theorem Progress.Grows.mem_table {p p' : Progress} (h : p.Grows p') {defined : Arities}
    {call : String × ℕ} (hcall : call ∈ p.table defined) : call ∈ p'.table defined := by
  rcases List.mem_append.1 hcall with hdefined | hdeclared
  · exact List.mem_append_left _ hdefined
  · exact List.mem_append_right _ (h.declared.subset hdeclared)

section Steps

variable {defined : Arities} {parameters : List String} {p p' : Progress}

/-- A line that sets the next temporary keeps what lowering keeps. -/
theorem Progress.Sound.emitTo {instruction : ℕ → Instruction} {o : Operand}
    (hp : p.Sound defined parameters) (h : emitTo instruction p = .ok (o, p'))
    (htarget : (instruction p.temporaries).target? = some p.temporaries)
    (hoperands : ∀ o ∈ (instruction p.temporaries).operands, o.Usable parameters p.temporaries)
    (hcalls : ∀ call, (instruction p.temporaries).call? = some call → call ∈ p.table defined) :
    o.Usable parameters p'.temporaries ∧ p'.Sound defined parameters ∧ p.Grows p' := by
  cases h
  refine ⟨Nat.lt_succ_self _, ⟨?_, ?_, ?_, hp.distinct⟩, Nat.le_succ _, List.prefix_refl _⟩
  · simp [hp.counted]
  · intro line i hi
    rw [Array.toList_push, List.getElem?_append] at hi
    split at hi
    · exact hp.sets line i hi
    · rename_i hge
      rw [hp.counted] at hi hge
      have hline : line = p.temporaries := by
        have := (List.getElem?_eq_some_iff.1 hi).1
        simp only [List.length_singleton] at this
        omega
      subst hline
      rw [Nat.sub_self] at hi
      cases hi
      exact ⟨htarget, hoperands⟩
  · intro i hi
    rw [Array.toList_push, List.mem_append, List.mem_singleton] at hi
    rcases hi with hi | rfl
    · exact hp.calls i hi
    · exact hcalls

/-- The number of parameters that a function is expected to have is the one in the table. -/
theorem Progress.Sound.expectedArity {function : String} {supplied expected : ℕ}
    (hp : p.Sound defined parameters)
    (h : expectedArity defined function supplied p = .ok (expected, p')) :
    (function, expected) ∈ p'.table defined ∧ p'.temporaries = p.temporaries ∧
      p'.Sound defined parameters ∧ p.Grows p' := by
  unfold Code.expectedArity at h
  split at h
  · rename_i hdefined
    cases h
    exact ⟨List.mem_append_left _ (mem_of_lookup hdefined), rfl, hp, .refl p⟩
  · rename_i hdefined
    split at h
    · rename_i hdeclared
      cases h
      exact ⟨List.mem_append_right _ (mem_of_lookup hdeclared), rfl, hp, .refl p⟩
    · rename_i hdeclared
      cases h
      have hnew : function ∉ (p.table defined).map Prod.fst := by
        rw [Progress.table, List.map_append, List.mem_append, not_or]
        refine ⟨?_, ?_⟩
        · rintro hmem
          obtain ⟨entry, hentry, rfl⟩ := List.mem_map.1 hmem
          simpa using List.lookup_eq_none_iff.1 hdefined entry hentry
        · rintro hmem
          obtain ⟨entry, hentry, rfl⟩ := List.mem_map.1 hmem
          simpa using List.lookup_eq_none_iff.1 hdeclared entry hentry
      have hgrows : p.Grows
          { p with declared := p.declared ++ [(function, supplied)] } :=
        ⟨le_rfl, List.prefix_append _ _⟩
      refine ⟨by simp [Progress.table], rfl, ⟨hp.counted, hp.sets, fun i hi call hcall =>
        hgrows.mem_table (hp.calls i hi call hcall), ?_⟩, hgrows⟩
      rw [Progress.table, ← List.append_assoc, List.map_append, List.nodup_append]
      refine ⟨hp.distinct, by simp, fun name hname other hother => ?_⟩
      obtain rfl : other = function := by simpa using hother
      rintro rfl
      exact hnew hname

mutual

/-- **Lowering an expression keeps what lowering keeps**, and what it answers with may be worked
on from then on. -/
theorem lowerExpr_sound {scope : Scope} (e : Expr) {p p' : Progress} {o : Operand}
    (hs : scope.Usable parameters p.temporaries) (hp : p.Sound defined parameters)
    (h : lowerExpr defined scope e p = .ok (o, p')) :
    o.Usable parameters p'.temporaries ∧ p'.Sound defined parameters ∧ p.Grows p' := by
  cases e with
  | number n position =>
    simp only [lowerExpr] at h
    cases h
    exact ⟨trivial, hp, .refl p⟩
  | var name position =>
    simp only [lowerExpr] at h
    cases hlook : scope.lookup name with
    | none =>
      rw [hlook] at h
      cases h
    | some o' =>
      rw [hlook] at h
      cases h
      exact ⟨hs name o hlook, hp, .refl p⟩
  | neg operand position =>
    simp only [lowerExpr] at h
    obtain ⟨o₁, p₁, h₁, hlast⟩ := of_stateT_bind_ok h
    obtain ⟨ho₁, hp₁, hgrows₁⟩ := lowerExpr_sound operand hs hp h₁
    obtain ⟨ho, hp', hgrows⟩ := hp₁.emitTo hlast rfl
      (List.forall_mem_cons.2 ⟨trivial, List.forall_mem_singleton.2 ho₁⟩)
      (fun call hcall => by cases hcall)
    exact ⟨ho, hp', hgrows₁.trans hgrows⟩
  | binary op left right position =>
    simp only [lowerExpr] at h
    obtain ⟨l, p₁, h₁, h⟩ := of_stateT_bind_ok h
    obtain ⟨r, p₂, h₂, hlast⟩ := of_stateT_bind_ok h
    obtain ⟨hl, hp₁, hgrows₁⟩ := lowerExpr_sound left hs hp h₁
    obtain ⟨hr, hp₂, hgrows₂⟩ := lowerExpr_sound right (hs.mono hgrows₁.temporaries) hp₁ h₂
    obtain ⟨ho, hp', hgrows⟩ := hp₂.emitTo hlast rfl
      (List.forall_mem_cons.2 ⟨hl.mono hgrows₂.temporaries, List.forall_mem_singleton.2 hr⟩)
      (fun call hcall => by cases hcall)
    exact ⟨ho, hp', (hgrows₁.trans hgrows₂).trans hgrows⟩
  | call function arguments position =>
    simp only [lowerExpr] at h
    obtain ⟨expected, p₁, h₁, h⟩ := of_stateT_bind_ok h
    obtain ⟨hmem, htemp, hp₁, hgrows₁⟩ := hp.expectedArity h₁
    by_cases harity : expected = arguments.length
    · rw [if_pos harity] at h
      obtain ⟨operands, p₂, h₂, hlast⟩ := of_stateT_bind_ok h
      obtain ⟨hos, hlen, hp₂, hgrows₂⟩ := lowerArguments_sound arguments (htemp ▸ hs) hp₁ h₂
      obtain ⟨ho, hp', hgrows⟩ := hp₂.emitTo hlast rfl hos fun call hcall => by
        cases hcall
        rw [hlen, ← harity]
        exact hgrows₂.mem_table hmem
      exact ⟨ho, hp', (hgrows₁.trans hgrows₂).trans hgrows⟩
    · rw [if_neg harity] at h
      cases h

theorem lowerArguments_sound {scope : Scope} (es : List Expr) {p p' : Progress}
    {os : List Operand} (hs : scope.Usable parameters p.temporaries)
    (hp : p.Sound defined parameters) (h : lowerArguments defined scope es p = .ok (os, p')) :
    (∀ o ∈ os, o.Usable parameters p'.temporaries) ∧ os.length = es.length ∧
      p'.Sound defined parameters ∧ p.Grows p' := by
  cases es with
  | nil =>
    simp only [lowerArguments] at h
    cases h
    exact ⟨by simp, rfl, hp, .refl p⟩
  | cons e more =>
    simp only [lowerArguments] at h
    obtain ⟨o, p₁, h₁, h⟩ := of_stateT_bind_ok h
    obtain ⟨rest, p₂, h₂, h⟩ := of_stateT_bind_ok h
    cases h
    obtain ⟨ho, hp₁, hgrows₁⟩ := lowerExpr_sound e hs hp h₁
    obtain ⟨hos, hlen, hp₂, hgrows₂⟩ :=
      lowerArguments_sound more (hs.mono hgrows₁.temporaries) hp₁ h₂
    refine ⟨List.forall_mem_cons.2 ⟨ho.mono hgrows₂.temporaries, hos⟩, ?_, hp₂,
      hgrows₁.trans hgrows₂⟩
    rw [List.length_cons, List.length_cons, hlen]

end

/-- The code of a body is what lowering keeps and behind it a line that returns. -/
theorem lowerBody_sound {scope : Scope} (statements : List Statement) {p p' : Progress}
    (hs : scope.Usable parameters p.temporaries) (hp : p.Sound defined parameters)
    (h : lowerBody defined scope statements p = .ok ((), p')) :
    ∃ q value, q.Sound defined parameters ∧ value.Usable parameters q.temporaries ∧
      p.Grows q ∧ p' = { q with body := q.body.push (.ret value) } := by
  induction statements generalizing scope p with
  | nil =>
    simp only [lowerBody, emit] at h
    cases h
    exact ⟨p, .constant 0, hp, trivial, .refl p, rfl⟩
  | cons statement more ih =>
    cases statement with
    | bind name value position =>
      simp only [lowerBody] at h
      obtain ⟨o, p₁, h₁, h⟩ := of_stateT_bind_ok h
      obtain ⟨ho, hp₁, hgrows₁⟩ := lowerExpr_sound value hs hp h₁
      obtain ⟨q, last, hq, hlast, hgrows, rfl⟩ :=
        ih ((hs.mono hgrows₁.temporaries).bind ho name) hp₁ h
      exact ⟨q, last, hq, hlast, hgrows₁.trans hgrows, rfl⟩
    | effect value =>
      simp only [lowerBody] at h
      obtain ⟨o, p₁, h₁, h⟩ := of_stateT_bind_ok h
      obtain ⟨_, hp₁, hgrows₁⟩ := lowerExpr_sound value hs hp h₁
      obtain ⟨q, last, hq, hlast, hgrows, rfl⟩ := ih (hs.mono hgrows₁.temporaries) hp₁ h
      exact ⟨q, last, hq, hlast, hgrows₁.trans hgrows, rfl⟩
    | result value position =>
      simp only [lowerBody] at h
      obtain ⟨o, p₁, h₁, h⟩ := of_stateT_bind_ok h
      obtain ⟨ho, hp₁, hgrows₁⟩ := lowerExpr_sound value hs hp h₁
      cases more with
      | cons behind others => cases h
      | nil =>
        cases h
        exact ⟨p₁, o, hp₁, ho, hgrows₁, rfl⟩

end Steps

/-! ### Functions -/

theorem filterMap_target?_eq {lines : List Instruction}
    (h : ∀ (line : ℕ) (i : Instruction), lines[line]? = some i → i.target? = some line) :
    lines.filterMap Instruction.target? = List.range lines.length := by
  induction lines using List.reverseRecOn with
  | nil => rfl
  | append_singleton lines last ih =>
    have hlast := h lines.length last (by simp)
    have hlines := ih fun line i hi => h line i (by
      rw [List.getElem?_append_left (List.getElem?_eq_some_iff.1 hi).1]
      exact hi)
    rw [List.filterMap_append, hlines, List.filterMap_cons_some hlast, List.filterMap_nil,
      List.length_append, List.length_singleton, List.range_succ]

/-- The names of parameters and temporaries are apart, and none is that of the label. -/
theorem nodup_localNames {c : FunctionCode} (hparameters : c.parameters.Nodup)
    (htargets : c.targets.Nodup) : c.localNames.Nodup := by
  have hlabel : "%entry".toList = '%' :: 'e' :: "ntry".toList := rfl
  refine List.nodup_cons.2 ⟨?_, List.nodup_append.2 ⟨?_, ?_, ?_⟩⟩
  · intro hmem
    rcases List.mem_append.1 hmem with hmem | hmem
    · obtain ⟨name, _, hname⟩ := List.mem_map.1 hmem
      have hchars := congrArg String.toList hname
      rw [toList_text_parameter, hlabel] at hchars
      simp at hchars
    · obtain ⟨index, _, hindex⟩ := List.mem_map.1 hmem
      have hchars := congrArg String.toList hindex
      rw [toList_text_temporary, hlabel] at hchars
      simp at hchars
  · exact hparameters.map text_parameter_injective
  · exact htargets.map fun i j hij => text_temporary_injective hij
  · rintro name hname other hother rfl
    obtain ⟨parameter, _, hparameter⟩ := List.mem_map.1 hname
    obtain ⟨index, _, hindex⟩ := List.mem_map.1 hother
    exact text_parameter_ne_temporary parameter index (hparameter.trans hindex.symm)

theorem Instruction.Proper.operands {i : Instruction} (h : i.Proper) : ∀ o ∈ i.operands, o.Proper := by
  cases i with
  | compute target operation left right =>
    exact List.forall_mem_cons.2 ⟨h.1, List.forall_mem_singleton.2 h.2⟩
  | call target function arguments => exact h.2
  | ret value => exact List.forall_mem_singleton.2 h

/-- Lines that lowering has kept sound, and one behind them that returns, are well-formed code. -/
theorem wellFormed_of_sound {c : FunctionCode} {defined : Arities} {q : Progress} {value : Operand}
    (hc : c.Proper) (hparameters : c.parameters.Nodup) (hq : q.Sound defined c.parameters)
    (hvalue : value.Usable c.parameters q.temporaries)
    (hbody : c.body = q.body.toList ++ [.ret value]) : c.WellFormed := by
  have htargets : c.targets = List.range q.temporaries := by
    rw [FunctionCode.targets, hbody, List.filterMap_append,
      filterMap_target?_eq fun line i hi => (hq.sets line i hi).1, hq.counted]
    simp [Instruction.target?]
  -- the line that returns is the one whose number is that of the next temporary
  have husable : ∀ (line : ℕ) (i : Instruction), c.body[line]? = some i →
      line ≤ q.temporaries ∧ ∀ o ∈ i.operands, o.Usable c.parameters line := by
    intro line i hi
    rw [hbody, List.getElem?_append] at hi
    split at hi
    · rename_i hlt
      rw [hq.counted] at hlt
      exact ⟨hlt.le, (hq.sets line i hi).2⟩
    · rename_i hge
      have hlen := (List.getElem?_eq_some_iff.1 hi).1
      simp only [List.length_singleton] at hlen
      obtain rfl : line = q.temporaries := by
        rw [hq.counted] at hge hlen
        omega
      rw [hq.counted, Nat.sub_self] at hi
      cases hi
      exact ⟨le_rfl, List.forall_mem_singleton.2 hvalue⟩
  refine ⟨nodup_localNames hparameters (htargets ▸ List.nodup_range), ?_, ?_, ?_⟩
  · rw [htargets, List.length_range]
  · intro line i hi o ho
    obtain ⟨hle, hoperands⟩ := husable line i hi
    have hproper := (hc.body i (List.mem_of_getElem? hi)).operands o ho
    have hoperand := hoperands o ho
    cases o with
    | constant n => exact ⟨hproper.1, lt_of_le_of_lt hproper.2 (by decide)⟩
    | parameter name => exact hoperand
    | temporary index =>
      have hindex : index < line := hoperand
      have hlt : index < q.body.toList.length := by
        rw [hq.counted]
        omega
      refine ⟨index, hindex, q.body.toList[index], ?_,
        (hq.sets index _ (List.getElem?_eq_getElem hlt)).1⟩
      rw [hbody, List.getElem?_append_left hlt, List.getElem?_eq_getElem hlt]
  · refine ⟨q.body.toList, value, hbody, ?_⟩
    rintro i hi v rfl
    obtain ⟨line, hline⟩ := List.getElem?_of_mem hi
    cases (hq.sets line _ hline).1

/-- Code of a function whose calls are among those of a table. -/
structure IsCodeOf (table : Arities) (f : Source.Function) (c : FunctionCode) : Prop where
  name : c.name = f.name
  parameters : c.parameters = f.parameters.map Parameter.name
  proper : c.Proper
  wellFormed : c.WellFormed
  calls : ∀ i ∈ c.body, ∀ call, i.call? = some call → call ∈ table

theorem IsCodeOf.mono {table table' : Arities} {f : Source.Function} {c : FunctionCode}
    (h : IsCodeOf table f c) (hsub : table ⊆ table') : IsCodeOf table' f c :=
  ⟨h.name, h.parameters, h.proper, h.wellFormed, fun i hi call hcall =>
    hsub (h.calls i hi call hcall)⟩

theorem lowerFunction_isCodeOf {defined declared declared' : Arities} {f : Source.Function}
    {c : FunctionCode} (hf : f.MadeOf fun t => t.lexeme.Proper)
    (hdistinct : ((defined ++ declared).map Prod.fst).Nodup)
    (h : lowerFunction defined declared f = .ok (c, declared')) :
    IsCodeOf (defined ++ declared') f c ∧ declared <+: declared' ∧
      ((defined ++ declared').map Prod.fst).Nodup := by
  have hproper := lowerFunction_proper hf h
  unfold lowerFunction at h
  obtain ⟨scope, hscope, h⟩ := of_except_bind_ok h
  obtain ⟨⟨⟨⟩, progress⟩, hbody, h⟩ := of_except_bind_ok h
  cases h
  obtain ⟨hnodup, _, hlook⟩ := of_parameterScope_ok hscope
  have hs : scope.Usable (f.parameters.map Parameter.name) 0 := by
    intro name o ho
    obtain ⟨hmem, rfl⟩ := (hlook name o ho).resolve_right (by simp)
    exact hmem
  have hstart : Progress.Sound defined (f.parameters.map Parameter.name) ⟨0, #[], declared⟩ :=
    ⟨rfl, by simp, by simp, hdistinct⟩
  obtain ⟨q, value, hq, hvalue, hgrows, rfl⟩ := lowerBody_sound f.body hs hstart hbody
  refine ⟨⟨rfl, rfl, hproper, ?_, ?_⟩, hgrows.declared, hq.distinct⟩
  · exact wellFormed_of_sound hproper hnodup hq hvalue (by simp)
  · intro i hi
    rw [Array.toList_push, List.mem_append, List.mem_singleton] at hi
    rcases hi with hi | rfl
    · exact hq.calls i hi
    · intro call hcall
      cases hcall

theorem lowerFunctions_isCodeOf {defined declared declared' : Arities}
    {functions : List Source.Function} {codes : List FunctionCode}
    (hf : ∀ f ∈ functions, f.MadeOf fun t => t.lexeme.Proper)
    (hdistinct : ((defined ++ declared).map Prod.fst).Nodup)
    (h : lowerFunctions defined declared functions = .ok (codes, declared')) :
    List.Forall₂ (IsCodeOf (defined ++ declared')) functions codes ∧ declared <+: declared' ∧
      ((defined ++ declared').map Prod.fst).Nodup := by
  induction functions generalizing declared codes with
  | nil =>
    cases h
    exact ⟨.nil, List.prefix_refl _, hdistinct⟩
  | cons f more ih =>
    obtain ⟨hfirst, hmore⟩ := List.forall_mem_cons.1 hf
    unfold lowerFunctions at h
    obtain ⟨⟨code, declared₁⟩, h₁, h⟩ := of_except_bind_ok h
    obtain ⟨⟨codes, declared₂⟩, h₂, h⟩ := of_except_bind_ok h
    cases h
    obtain ⟨hcode, hgrows₁, hdistinct₁⟩ := lowerFunction_isCodeOf hfirst hdistinct h₁
    obtain ⟨hcodes, hgrows₂, hdistinct₂⟩ := ih hmore hdistinct₁ h₂
    have htable := (List.prefix_append_right_inj defined).2 hgrows₂
    exact ⟨.cons (hcode.mono htable.subset) hcodes, hgrows₁.trans hgrows₂, hdistinct₂⟩

/-! ### Modules -/

/-- The table of the functions that are defined has each of them once. -/
theorem of_definedArities_ok {seen defined : Arities} {functions : List Source.Function}
    (h : definedArities seen functions = .ok defined) :
    defined = (functions.map fun f => (f.name, f.arity)).reverse ++ seen ∧
      ((seen.map Prod.fst).Nodup → (defined.map Prod.fst).Nodup) := by
  induction functions generalizing seen with
  | nil =>
    cases h
    exact ⟨rfl, id⟩
  | cons f more ih =>
    rw [definedArities] at h
    split at h
    · cases h
    · rename_i hnew
      obtain ⟨rfl, hnodup⟩ := ih h
      refine ⟨by simp, fun hseen => hnodup ?_⟩
      rw [List.map_cons, List.nodup_cons]
      refine ⟨fun hmem => hnew ?_, hseen⟩
      obtain ⟨entry, hentry, hname⟩ := List.mem_map.1 hmem
      rw [Option.isSome_iff_ne_none, Ne, List.lookup_eq_none_iff]
      intro hnone
      simpa [hname] using hnone entry hentry

/-- What a table without repetition says of a function that is in it. -/
theorem filter_table_eq {table : Arities} {function : String} {arity : ℕ}
    (hdistinct : (table.map Prod.fst).Nodup) (h : (function, arity) ∈ table) :
    (table.filter fun entry => entry.1 == function).map Prod.snd = [arity] := by
  induction table with
  | nil => cases h
  | cons entry table ih =>
    obtain ⟨hnew, hrest⟩ := List.nodup_cons.1 hdistinct
    rcases List.mem_cons.1 h with rfl | h
    · have hnone : table.filter (fun entry => entry.1 == function) = [] := by
        refine List.filter_eq_nil_iff.2 fun other hother hsame => hnew ?_
        have hname : other.1 = function := by simpa using hsame
        exact List.mem_map.2 ⟨other, hother, hname⟩
      rw [List.filter_cons_of_pos (by simp), hnone]
      rfl
    · have hne : entry.1 ≠ function := by
        rintro rfl
        exact hnew (List.mem_map.2 ⟨_, h, rfl⟩)
      rw [List.filter_cons_of_neg (by simpa using hne)]
      exact ih hrest h

/-- The functions that a module defines or declares, with their numbers of parameters. -/
def ModuleCode.table (m : ModuleCode) : Arities :=
  m.functions.map (fun c => (c.name, c.parameters.length)) ++
    m.declarations.map fun d => (d.name, d.arity)

theorem ModuleCode.aritiesOf_eq (m : ModuleCode) (function : String) :
    m.aritiesOf function =
      (m.table.filter fun entry => entry.1 == function).map Prod.snd := by
  simp [ModuleCode.aritiesOf, ModuleCode.table, List.filter_map, Function.comp_def]

theorem map_signature_eq {table : Arities} {functions : List Source.Function}
    {codes : List FunctionCode} (h : List.Forall₂ (IsCodeOf table) functions codes) :
    codes.map (fun c => (c.name, c.parameters.length)) =
      functions.map fun f => (f.name, f.arity) := by
  induction h with
  | nil => rfl
  | cons hfirst _ ih =>
    rw [List.map_cons, List.map_cons, ih, hfirst.name, hfirst.parameters, List.length_map]
    rfl

/-- Declarations of different functions, put in the order of the names. -/
theorem sorted_declarations {declarations : List Declaration}
    (h : (declarations.map Declaration.name).Nodup) :
    ((declarations.mergeSort fun a b => decide (a.name ≤ b.name)).map Declaration.name).Pairwise
      (· < ·) := by
  have hperm := declarations.mergeSort_perm fun a b => decide (a.name ≤ b.name)
  have hsorted : (declarations.mergeSort fun a b => decide (a.name ≤ b.name)).Pairwise
      fun a b => decide (a.name ≤ b.name) = true := by
    refine List.pairwise_mergeSort ?_ ?_ declarations
    · intro a b c hab hbc
      rw [decide_eq_true_eq] at *
      exact le_trans hab hbc
    · intro a b
      rw [Bool.or_eq_true, decide_eq_true_eq, decide_eq_true_eq]
      exact le_total a.name b.name
  have hle : ((declarations.mergeSort fun a b => decide (a.name ≤ b.name)).map
      Declaration.name).Pairwise (· ≤ ·) :=
    List.pairwise_map.2 (hsorted.imp fun hab => of_decide_eq_true hab)
  have hne : ((declarations.mergeSort fun a b => decide (a.name ≤ b.name)).map
      Declaration.name).Nodup := (hperm.map _).nodup_iff.2 h
  exact (hle.and hne).imp fun ⟨hab, hdiffer⟩ => lt_of_le_of_ne hab hdiffer

/-- **What a program is lowered to is well-formed code** of its functions, in their order. -/
theorem lower_wellFormed {name sourceName : String} {program : Program} {m : ModuleCode}
    (hprogram : ∀ f ∈ program.functions, f.MadeOf fun t => t.lexeme.Proper)
    (h : lower name sourceName program = .ok m) :
    m.WellFormed ∧ m.name = name ∧ m.sourceName = sourceName ∧
      List.Forall₂ (IsCodeOf m.table) program.functions m.functions := by
  unfold lower at h
  obtain ⟨defined, hdefined, h⟩ := of_except_bind_ok h
  obtain ⟨⟨functions, declared⟩, hfunctions, h⟩ := of_except_bind_ok h
  obtain rfl := Except.ok.inj h
  obtain ⟨hnames, hnodup⟩ := of_definedArities_ok hdefined
  rw [List.append_nil] at hnames
  obtain ⟨hcodes, _, hdistinct⟩ := lowerFunctions_isCodeOf hprogram
    (by rw [List.append_nil]; exact hnodup List.nodup_nil) hfunctions
  -- the table of the module has what the one that lowering ends with has, in another order
  set declarations := declared.map fun entry : String × ℕ => (⟨entry.1, entry.2⟩ : Declaration)
    with hdeclarations
  have hback : declarations.map (fun d => (d.name, d.arity)) = declared := by
    rw [hdeclarations, List.map_map]
    exact List.map_id declared
  set m : ModuleCode := ⟨name, sourceName, functions,
    declarations.mergeSort fun a b => decide (a.name ≤ b.name)⟩ with hm
  have htable : m.table.Perm (defined ++ declared) := by
    refine List.Perm.append ?_ ?_
    · rw [hnames, map_signature_eq hcodes]
      exact (List.reverse_perm _).symm
    · rw [← hback]
      exact (declarations.mergeSort_perm _).map _
  have hmodule : (m.table.map Prod.fst).Nodup := (htable.map _).nodup_iff.2 hdistinct
  have hall : List.Forall₂ (IsCodeOf m.table) program.functions m.functions :=
    hcodes.imp fun f c hc => hc.mono htable.symm.subset
  refine ⟨⟨?_, sorted_declarations ?_, ?_⟩, rfl, rfl, hall⟩
  · exact forall_mem_of_forall₂ (fun f c hc => hc.wellFormed) hall
  · have hdeclared := (List.nodup_append.1 (List.map_append ▸ hdistinct)).2.1
    rw [hdeclarations, List.map_map]
    exact hdeclared
  · intro c hc i hi function supplied hcall
    have hcalls := forall_mem_of_forall₂ (P := fun c : FunctionCode => ∀ i ∈ c.body, ∀ call,
      i.call? = some call → call ∈ m.table) (fun f c hc => hc.calls) hall
    rw [m.aritiesOf_eq]
    exact filter_table_eq hmodule (hcalls c hc i hi _ hcall)

/-- The text of a module, line by line. -/
theorem ModuleCode.text_eq (m : ModuleCode) :
    m.text = "; ModuleID = '" ++ m.name ++ "'\nsource_filename = \"" ++ m.sourceName ++ "\"\n" ++
      String.join (m.functions.map fun c => "\n" ++ c.text) ++
      (if m.declarations.isEmpty then "" else
        "\n" ++ String.join (m.declarations.map Declaration.text)) := by
  unfold ModuleCode.text
  congr 1

/-- The two lines of names that the text of a module starts with. -/
def ModuleCode.heading (m : ModuleCode) : String :=
  "; ModuleID = '" ++ m.name ++ "'\nsource_filename = \"" ++ m.sourceName ++ "\"\n"

/-- The text of a module behind the two lines of names. -/
def ModuleCode.contents (m : ModuleCode) : String :=
  String.join (m.functions.map fun c => "\n" ++ c.text) ++
    (if m.declarations.isEmpty then "" else
      "\n" ++ String.join (m.declarations.map Declaration.text))

theorem ModuleCode.text_eq_heading (m : ModuleCode) : m.text = m.heading ++ m.contents := by
  unfold heading contents
  exact m.text_eq.trans String.append_assoc

end Ingot.Code

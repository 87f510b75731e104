import Ingot.Proofs.Meaning.Simulation

/-!
# The routines of lowered functions

A function is called with arguments for its parameters, and its code finds them in registers
of their own. The scope of the parameters and these registers agree, so that by
`lowerBody_runs` the routine of a function ends as the function does
(`lowerFunction_implements`), and this for each function of a program
(`lowerFunctions_implements`).
-/

namespace Ingot.Code

open Effect Meaning Meaning.Calling Source Machine

/-- The code of a function as the machine reads it. -/
def FunctionCode.routine (c : FunctionCode) : Routine where
  name := c.name
  parameters := c.parameters.map fun name => (Operand.parameter name).text
  lines := c.body.map Instruction.line

/-! ### Parameters -/

theorem text_parameter_injective :
    Function.Injective fun name => (Operand.parameter name).text := by
  intro a b h
  have h' := congrArg String.toList h
  simp only [toList_text_parameter, List.cons.injEq, true_and, String.toList_inj] at h'
  exact h'

/-- What stands for a name in the scope of parameters: the parameter of that name. -/
theorem of_parameterScope_ok {parameters : List Parameter} {scope scope' : Scope}
    (h : parameterScope scope parameters = .ok scope') :
    (parameters.map Parameter.name).Nodup ∧
      (∀ name ∈ parameters.map Parameter.name, scope.lookup name = none) ∧
      ∀ name o, scope'.lookup name = some o →
        (name ∈ parameters.map Parameter.name ∧ o = .parameter name) ∨
          scope.lookup name = some o := by
  induction parameters generalizing scope with
  | nil =>
    cases h
    exact ⟨List.nodup_nil, by simp, fun name o ho => .inr ho⟩
  | cons parameter more ih =>
    rw [parameterScope] at h
    split at h
    · cases h
    · rename_i hnew
      obtain ⟨hnodup, hnone, hlook⟩ := ih h
      simp only [Bool.not_eq_true, Option.isSome_eq_false_iff, Option.isNone_iff_eq_none] at hnew
      have hout : ∀ name ∈ more.map Parameter.name,
          name ≠ parameter.name ∧ scope.lookup name = none := by
        intro name hname
        have hcons := hnone name hname
        rw [List.lookup_cons] at hcons
        split at hcons
        · cases hcons
        · rename_i hne
          exact ⟨by simpa using hne, hcons⟩
      refine ⟨?_, ?_, ?_⟩
      · rw [List.map_cons, List.nodup_cons]
        exact ⟨fun hmem => (hout _ hmem).1 rfl, hnodup⟩
      · intro name hname
        rcases List.mem_cons.1 hname with rfl | hname
        · exact hnew
        · exact (hout name hname).2
      · intro name o ho
        rcases hlook name o ho with ⟨hmem, rfl⟩ | hcons
        · exact .inl ⟨List.mem_cons_of_mem _ hmem, rfl⟩
        · rw [List.lookup_cons] at hcons
          split at hcons
          · rename_i heq
            cases hcons
            obtain rfl : name = parameter.name := by simpa using heq
            exact .inl ⟨List.mem_cons_self, rfl⟩
          · exact .inr hcons

theorem lookup_zip_map {f : String → String} (hf : Function.Injective f) (names : List String)
    (values : List Int32) (name : String) :
    ((names.map f).zip values).lookup (f name) = (names.zip values).lookup name := by
  induction names generalizing values with
  | nil => rfl
  | cons n names ih =>
    cases values with
    | nil => rfl
    | cons v values =>
      simp only [List.map_cons, List.zip_cons_cons, List.lookup_cons]
      by_cases h : name = n
      · subst h
        simp
      · have hne : (f name == f n) = false := by simpa using fun heq => h (hf heq)
        have hne' : (name == n) = false := by simpa using h
        rw [hne, hne']
        exact ih values

theorem exists_lookup_zip {names : List String} {values : List Int32}
    (hlen : values.length = names.length) {name : String} (hname : name ∈ names) :
    ∃ v, (names.zip values).lookup name = some v := by
  induction names generalizing values with
  | nil => cases hname
  | cons n names ih =>
    cases values with
    | nil => cases hlen
    | cons v values =>
      rw [List.zip_cons_cons, List.lookup_cons]
      by_cases h : name = n
      · exact ⟨v, by simp [h]⟩
      · have hne : (name == n) = false := by simpa using h
        rw [hne]
        exact ih (Nat.succ.inj hlen) ((List.mem_cons.1 hname).resolve_left h)

theorem lookup_zip_eq_none {names : List String} {values : List Int32} {name : String}
    (hname : name ∉ names) : (names.zip values).lookup name = none := by
  rw [List.lookup_eq_none_iff]
  intro p hp
  have hmem : p.1 ∈ names := (List.of_mem_zip hp).1
  simp only [bne_iff_ne, ne_eq]
  rintro rfl
  exact hname hmem

/-- The registers that a function is entered with agree with the scope of its parameters. -/
theorem agrees_parameters {parameters : List Parameter} {scope : Scope}
    (h : parameterScope [] parameters = .ok scope) {arguments : List Int32}
    (hlen : arguments.length = parameters.length) :
    Agrees scope ((parameters.map Parameter.name).zip arguments) 0 fun name =>
      (((parameters.map Parameter.name).map fun name =>
        (Operand.parameter name).text).zip arguments).lookup name := by
  obtain ⟨_, _, hlook⟩ := of_parameterScope_ok h
  have hparam : ∀ name o, scope.lookup name = some o →
      name ∈ parameters.map Parameter.name ∧ o = .parameter name := by
    intro name o ho
    exact (hlook name o ho).resolve_right (by simp)
  refine ⟨?_, ?_, ?_⟩
  · intro name o ho
    obtain ⟨_, rfl⟩ := hparam name o ho
    trivial
  · intro name o ho
    obtain ⟨hmem, rfl⟩ := hparam name o ho
    obtain ⟨v, hv⟩ := exists_lookup_zip (by simpa using hlen) hmem
    refine ⟨v, hv, ?_⟩
    rw [read_text_parameter]
    exact (lookup_zip_map text_parameter_injective _ _ _).trans hv
  · intro i _
    refine lookup_zip_eq_none fun hmem => ?_
    obtain ⟨name, _, hname⟩ := List.mem_map.1 hmem
    exact text_parameter_ne_temporary name i hname

/-! ### Functions -/

/-- Code that is that of a function: for every oracle, all arguments and all earlier calls,
the routine makes the calls of the function and ends as it does. -/
def Implements (f : Source.Function) (c : FunctionCode) : Prop :=
  c.name = f.name ∧ ∀ oracle arguments calls, arguments.length = f.arity →
    outcome (c.routine.run oracle arguments) calls = outcome (f.value oracle arguments) calls ∧
      (outcome (f.value oracle arguments) calls).1 ≠ .error .stuck

theorem lowerFunction_implements {defined declared declared' : Arities} {f : Source.Function}
    {c : FunctionCode} (h : lowerFunction defined declared f = .ok (c, declared')) :
    Implements f c := by
  unfold lowerFunction at h
  obtain ⟨scope, hscope, h⟩ := of_except_bind_ok h
  obtain ⟨⟨⟨⟩, progress⟩, hbody, h⟩ := of_except_bind_ok h
  cases h
  refine ⟨rfl, fun oracle arguments calls hlen => ?_⟩
  obtain ⟨hnodup, _, _⟩ := of_parameterScope_ok hscope
  have hag := agrees_parameters hscope hlen
  obtain ⟨code, happ, hrun⟩ := lowerBody_runs f.body hag.below hbody
  obtain ⟨hends, hstuck⟩ := hrun oracle _ _ calls hag
  have hcode : progress.body.toList = code := by simpa using happ.body
  refine ⟨?_, hstuck⟩
  rw [Routine.run, if_pos]
  · simp only [FunctionCode.routine, hcode]
    exact hends
  · refine ⟨hnodup.map text_parameter_injective, ?_⟩
    rw [hlen]
    simp [FunctionCode.routine, Function.arity]

theorem lowerFunctions_implements {defined : Arities} (functions : List Source.Function)
    {declared declared' : Arities} {codes : List FunctionCode}
    (h : lowerFunctions defined declared functions = .ok (codes, declared')) :
    List.Forall₂ Implements functions codes := by
  induction functions generalizing declared codes with
  | nil =>
    cases h
    exact .nil
  | cons f more ih =>
    unfold lowerFunctions at h
    obtain ⟨⟨code, declared₁⟩, hf, h⟩ := of_except_bind_ok h
    obtain ⟨⟨codes, declared₂⟩, hmore, h⟩ := of_except_bind_ok h
    cases h
    exact .cons (lowerFunction_implements hf) (ih hmore)

end Ingot.Code

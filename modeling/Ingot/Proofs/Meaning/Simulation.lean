import Ingot.Proofs.Meaning.Registers

/-!
# Lowered code runs as its tree is evaluated

Lowering an expression appends instructions and answers with an operand. Run by the machine,
these instructions make the calls of the expression, in its order; then the operand reads as
the value of the expression, or the expression has faulted and so have they. This is
`lowerExpr_runs`, by induction on the expression, at once with the same for arguments. From
it follows, by induction on the statements, that the instructions of a function
**have the outcome of its body** (`lowerBody_runs`), which is never that of being stuck.
-/

namespace Ingot.Code

open Effect Meaning Meaning.Calling Source Machine

/-! ### Instructions as lines -/

/-- An instruction as the machine reads it. -/
def Instruction.line : Instruction → Line
  | compute target operation left right =>
    .compute (Operand.temporary target).text operation.word left.text right.text
  | call target function arguments =>
    .call (Operand.temporary target).text function (arguments.map Operand.text)
  | ret value => .ret value.text

theorem hasQuotient_eq (a b : Int32) : hasQuotient a b = !divisionFaults a b := by
  have hb : (b.toInt = 0) = (b = 0) := propext (by rw [← Int32.toInt_zero, Int32.toInt_inj])
  have hle : a.toInt.tdiv b.toInt ≤ Int32.maxValue.toInt ↔ ¬(a = Int32.minValue ∧ b = -1) := by
    constructor
    · rintro hle ⟨rfl, rfl⟩
      exact absurd hle (by decide)
    · intro hne
      by_cases ha : a = Int32.minValue
      · rw [← Int32.toInt_div_of_ne_right a b fun hb => hne ⟨ha, hb⟩]
        exact Int32.toInt_le _
      · rw [← Int32.toInt_div_of_ne_left a b ha]
        exact Int32.toInt_le _
  rw [Bool.eq_iff_iff]
  simp [hasQuotient, divisionFaults, hb, hle]

/-- What the machine does at the word of an operation is what the operation does to whole
numbers, brought back to 32 bits. -/
theorem operation?_word (op : BinaryOp) :
    operation? (Operation.ofBinary op).word = some op.result? := by
  cases op with
  | add => exact congrArg some (funext₂ fun a b => by simp [BinaryOp.result?, Int32.ofInt_add])
  | sub => exact congrArg some (funext₂ fun a b => by simp [BinaryOp.result?, Int32.ofInt_sub])
  | mul => exact congrArg some (funext₂ fun a b => by simp [BinaryOp.result?, Int32.ofInt_mul])
  | div =>
    refine congrArg some (funext₂ fun a b => ?_)
    rw [BinaryOp.result?, hasQuotient_eq, Int32.ofInt_tdiv a.minValue_le_toInt a.toInt_le
      b.minValue_le_toInt b.toInt_le, Int32.ofInt_toInt, Int32.ofInt_toInt]
    cases divisionFaults a b <;> rfl
  | rem =>
    refine congrArg some (funext₂ fun a b => ?_)
    rw [BinaryOp.result?, hasQuotient_eq, Int32.ofInt_tmod a.minValue_le_toInt a.toInt_le
      b.minValue_le_toInt b.toInt_le, Int32.ofInt_toInt, Int32.ofInt_toInt]
    cases divisionFaults a b <;> rfl

/-! ### Lines that run as a computation -/

/-- From these registers and calls on, lines run as a computation does: where it has a value
they reach registers for which `post` holds of that value, and where it faults so do they. -/
def RunsAs {α : Type} (oracle : Oracle) (lines : List Line) (regs : Registers)
    (calls : List Call) (c : Calling α) (post : α → Registers → Prop) : Prop :=
  match outcome c calls with
  | (.ok a, calls') => ∃ regs', post a regs' ∧ ∀ rest,
      outcome (run oracle (lines ++ rest) regs) calls = outcome (run oracle rest regs') calls'
  | (.error t, calls') => t = .fault ∧ ∀ rest,
      outcome (run oracle (lines ++ rest) regs) calls = (.error .fault, calls')

section RunsAs

variable {α β : Type} {oracle : Oracle} {lines lines' : List Line} {regs : Registers}
  {calls : List Call}

theorem RunsAs.pure {a : α} {post : α → Registers → Prop} (h : post a regs) :
    RunsAs oracle [] regs calls (pure a) post := ⟨regs, h, fun _ => rfl⟩

/-- Lines behind lines run as a computation behind a computation. -/
theorem RunsAs.bind {c : Calling α} {f : α → Calling β} {mid : α → Registers → Prop}
    {post : β → Registers → Prop} (h : RunsAs oracle lines regs calls c mid)
    (h' : ∀ a regs' calls', mid a regs' → RunsAs oracle lines' regs' calls' (f a) post) :
    RunsAs oracle (lines ++ lines') regs calls (c >>= f) post := by
  unfold RunsAs at h ⊢
  rw [outcome_bind]
  rcases hc : outcome c calls with ⟨t | a, calls'⟩
  · rw [hc] at h
    obtain ⟨rfl, hrun⟩ := h
    exact ⟨rfl, fun rest => by rw [List.append_assoc]; exact hrun _⟩
  · rw [hc] at h
    obtain ⟨regs', hmid, hrun⟩ := h
    have h₂ := h' a regs' calls' hmid
    unfold RunsAs at h₂
    simp only
    rcases hf : outcome (f a) calls' with ⟨t | b, calls''⟩
    · rw [hf] at h₂
      obtain ⟨rfl, hrun'⟩ := h₂
      exact ⟨rfl, fun rest => by rw [List.append_assoc, hrun, hrun']⟩
    · rw [hf] at h₂
      obtain ⟨regs'', hpost, hrun'⟩ := h₂
      exact ⟨regs'', hpost, fun rest => by rw [List.append_assoc, hrun, hrun']⟩

theorem RunsAs.mono {c : Calling α} {mid post : α → Registers → Prop}
    (h : RunsAs oracle lines regs calls c mid) (hp : ∀ a regs', mid a regs' → post a regs') :
    RunsAs oracle lines regs calls c post := by
  unfold RunsAs at h ⊢
  split
  · rename_i a calls' hc
    rw [hc] at h
    obtain ⟨regs', hmid, hrun⟩ := h
    exact ⟨regs', hp a regs' hmid, hrun⟩
  · rename_i t calls' hc
    rw [hc] at h
    exact h

/-- A line that computes the next temporary runs as the operation does. -/
theorem runsAs_compute {n : ℕ} (hfree : FreeFrom n regs) (op : BinaryOp) {left right : Operand}
    {a b : Int32} (ha : regs.read left.text = some a) (hb : regs.read right.text = some b) :
    RunsAs oracle [(Instruction.compute n (.ofBinary op) left right).line] regs calls
      (orElse .fault (op.result? a b)) fun v regs' =>
        Extends n (n + 1) regs regs' ∧ regs'.read (Operand.temporary n).text = some v := by
  have hstep : ∀ rest, run oracle
      ((Instruction.compute n (.ofBinary op) left right).line :: rest) regs = (do
        let value ← orElse .fault (op.result? a b)
        let regs ← orElse .stuck (regs.define? (Operand.temporary n).text value)
        run oracle rest regs) := by
    intro rest
    simp only [Instruction.line, run, operation?_word, ha, hb, orElse_some, pure_bind]
  unfold RunsAs
  cases hv : op.result? a b with
  | none =>
    refine ⟨rfl, fun rest => ?_⟩
    rw [List.singleton_append, hstep, hv]
    rfl
  | some v =>
    obtain ⟨regs', hdef, hext, hread⟩ := define?_next hfree v
    refine ⟨regs', ⟨hext, hread⟩, fun rest => ?_⟩
    rw [List.singleton_append, hstep, hv, orElse_some, pure_bind, hdef, orElse_some, pure_bind]

/-- A line that calls a function into the next temporary runs as the call does. -/
theorem runsAs_call {n : ℕ} (hfree : FreeFrom n regs) (function : String)
    {operands : List Operand} {values : List Int32}
    (hvalues : (operands.map Operand.text).mapM regs.read = some values) :
    RunsAs oracle [(Instruction.call n function operands).line] regs calls
      (ask oracle ⟨function, values⟩) fun v regs' =>
        Extends n (n + 1) regs regs' ∧ regs'.read (Operand.temporary n).text = some v := by
  have hstep : ∀ rest, run oracle ((Instruction.call n function operands).line :: rest) regs = (do
        let value ← ask oracle ⟨function, values⟩
        let regs ← orElse .stuck (regs.define? (Operand.temporary n).text value)
        run oracle rest regs) := by
    intro rest
    simp only [Instruction.line, run, hvalues, orElse_some, pure_bind]
  unfold RunsAs
  rw [outcome_ask]
  cases hv : oracle calls ⟨function, values⟩ with
  | none =>
    refine ⟨rfl, fun rest => ?_⟩
    rw [List.singleton_append, hstep]
    exact outcome_bind_of_error (by rw [outcome_ask, hv])
  | some v =>
    obtain ⟨regs', hdef, hext, hread⟩ := define?_next hfree v
    refine ⟨regs', ⟨hext, hread⟩, fun rest => ?_⟩
    rw [List.singleton_append, hstep, outcome_bind_of_ok (a := v) (by rw [outcome_ask, hv]), hdef,
      orElse_some, pure_bind]

end RunsAs

/-! ### What lowering appends -/

/-- Between two points of lowering these instructions were appended, and no temporary was
given back. -/
structure Appends (p p' : Progress) (code : List Instruction) : Prop where
  body : p'.body.toList = p.body.toList ++ code
  temporaries : p.temporaries ≤ p'.temporaries

theorem Appends.refl (p : Progress) : Appends p p [] := ⟨by simp, le_rfl⟩

theorem Appends.trans {p p' p'' : Progress} {code code' : List Instruction}
    (h : Appends p p' code) (h' : Appends p' p'' code') : Appends p p'' (code ++ code') :=
  ⟨by rw [h'.body, h.body, List.append_assoc], h.temporaries.trans h'.temporaries⟩

/-- What `emitTo` does: it takes the next temporary for the instruction that sets it. -/
theorem of_emitTo_ok {instruction : ℕ → Instruction} {p p' : Progress} {o : Operand}
    (h : emitTo instruction p = .ok (o, p')) :
    o = .temporary p.temporaries ∧ p'.temporaries = p.temporaries + 1 ∧
      Appends p p' [instruction p.temporaries] := by
  simp only [emitTo, Except.ok.injEq, Prod.mk.injEq] at h
  obtain ⟨rfl, rfl⟩ := h
  exact ⟨rfl, rfl, ⟨by simp, Nat.le_succ _⟩⟩

/-- Looking up the arity of a function appends nothing and takes no temporary. -/
theorem of_expectedArity_ok {defined : Arities} {function : String} {supplied expected : ℕ}
    {p p' : Progress} (h : expectedArity defined function supplied p = .ok (expected, p')) :
    p'.temporaries = p.temporaries ∧ Appends p p' [] := by
  unfold expectedArity at h
  split at h
  · cases h
    exact ⟨rfl, .refl _⟩
  · split at h
    · cases h
      exact ⟨rfl, .refl _⟩
    · cases h
      exact ⟨rfl, ⟨by simp, le_rfl⟩⟩

/-! ### Expressions -/

/-- Lowering has appended code that runs as a computation does, whatever the values of the
names in scope are, and that keeps what was there before; `holds` says what the registers
hold of the value in the end. -/
def Lowered {α : Type} (scope : Scope) (p p' : Progress) (c : Oracle → Environment → Calling α)
    (holds : α → Registers → Prop) : Prop :=
  ∃ code, Appends p p' code ∧ ∀ oracle env regs calls, Agrees scope env p.temporaries regs →
    RunsAs oracle (code.map Instruction.line) regs calls (c oracle env) fun a regs' =>
      Extends p.temporaries p'.temporaries regs regs' ∧ holds a regs'

/-- Code behind code: the second part may rely on what the first has left. -/
theorem Lowered.bind {α β : Type} {scope : Scope} {p p₁ p' : Progress}
    {c : Oracle → Environment → Calling α} {f : α → Oracle → Environment → Calling β}
    {mid : α → Registers → Prop} {post : β → Registers → Prop}
    (h : Lowered scope p p₁ c mid) {code : List Instruction} (hcode : Appends p₁ p' code)
    (hrun : ∀ a oracle env regs calls, Agrees scope env p₁.temporaries regs → mid a regs →
      RunsAs oracle (code.map Instruction.line) regs calls (f a oracle env) fun b regs' =>
        Extends p₁.temporaries p'.temporaries regs regs' ∧ post b regs') :
    Lowered scope p p' (fun oracle env => c oracle env >>= fun a => f a oracle env) post := by
  obtain ⟨code₁, happ, hrun₁⟩ := h
  refine ⟨code₁ ++ code, happ.trans hcode, fun oracle env regs calls hag => ?_⟩
  rw [List.map_append]
  refine (hrun₁ oracle env regs calls hag).bind fun a regs₁ calls₁ ⟨hext, hmid⟩ => ?_
  refine (hrun a oracle env regs₁ calls₁ (hag.extend happ.temporaries hext) hmid).mono ?_
  rintro b regs' ⟨hext', hpost⟩
  exact ⟨hext.trans happ.temporaries hext', hpost⟩

/-- An operation on two operands, behind the code that the second is from. -/
theorem Lowered.compute {scope : Scope} {p p₁ p₂ p' : Progress} {l r o : Operand}
    {cl cr : Oracle → Environment → Calling Int32} (op : BinaryOp)
    (hl : Lowered scope p p₁ cl fun v regs => regs.read l.text = some v) (hbl : l.Below p₁.temporaries)
    (hr : Lowered scope p₁ p₂ cr fun v regs => regs.read r.text = some v)
    (h : emitTo (.compute · (.ofBinary op) l r) p₂ = .ok (o, p')) :
    o.Below p'.temporaries ∧ Lowered scope p p' (fun oracle env => do
      let a ← cl oracle env
      let b ← cr oracle env
      orElse .fault (op.result? a b)) fun v regs => regs.read o.text = some v := by
  obtain ⟨rfl, htemp, hlast⟩ := of_emitTo_ok h
  obtain ⟨code, happ, hrun⟩ := hr
  refine ⟨by rw [htemp]; exact Nat.lt_succ_self _, hl.bind (happ.trans hlast) ?_⟩
  intro a oracle env regs calls hag ha
  rw [List.map_append]
  refine (hrun oracle env regs calls hag).bind fun b regs₂ calls₂ ⟨hext, hb⟩ => ?_
  have ha₂ : regs₂.read l.text = some a := (hext.keeps l hbl).trans ha
  refine (runsAs_compute hext.free op ha₂ hb).mono ?_
  rintro v regs' ⟨hext', hv⟩
  rw [htemp]
  exact ⟨hext.trans happ.temporaries hext', hv⟩

/-- A call, behind the code that its arguments are from. -/
theorem Lowered.call {scope : Scope} {p p₁ p' : Progress} {operands : List Operand} {o : Operand}
    {cs : Oracle → Environment → Calling (List Int32)} (function : String)
    (hargs : Lowered scope p p₁ cs fun vs regs =>
      (operands.map Operand.text).mapM regs.read = some vs)
    (h : emitTo (.call · function operands) p₁ = .ok (o, p')) :
    o.Below p'.temporaries ∧ Lowered scope p p' (fun oracle env => do
      let values ← cs oracle env
      ask oracle ⟨function, values⟩) fun v regs => regs.read o.text = some v := by
  obtain ⟨rfl, htemp, happ⟩ := of_emitTo_ok h
  refine ⟨by rw [htemp]; exact Nat.lt_succ_self _, hargs.bind happ ?_⟩
  intro values oracle env regs calls hag hvalues
  rw [htemp]
  exact runsAs_call hag.free function hvalues

mutual

/-- **Lowered expressions run as they are evaluated.** -/
theorem lowerExpr_runs {defined : Arities} {scope : Scope} (e : Expr) {p p' : Progress}
    {o : Operand} (hb : scope.Below p.temporaries)
    (h : lowerExpr defined scope e p = .ok (o, p')) :
    o.Below p'.temporaries ∧ Lowered scope p p' (fun oracle env => e.value oracle env)
      fun v regs => regs.read o.text = some v := by
  cases e with
  | number n position =>
    simp only [lowerExpr] at h
    cases h
    refine ⟨trivial, [], .refl p, fun oracle env regs calls hag => ?_⟩
    simp only [Expr.value]
    exact RunsAs.pure ⟨.refl hag.free, read_text_constant regs n⟩
  | var name position =>
    simp only [lowerExpr] at h
    cases hlook : scope.lookup name with
    | none =>
      rw [hlook] at h
      cases h
    | some o' =>
      rw [hlook] at h
      cases h
      refine ⟨hb name o hlook, [], .refl p, fun oracle env regs calls hag => ?_⟩
      obtain ⟨v, hv, hread⟩ := hag.reads name o hlook
      simp only [Expr.value, hv, orElse_some]
      exact RunsAs.pure ⟨.refl hag.free, hread⟩
  | neg operand position =>
    simp only [lowerExpr] at h
    obtain ⟨o₁, p₁, h₁, hlast⟩ := of_stateT_bind_ok h
    have ⟨_, hrun⟩ := lowerExpr_runs operand hb h₁
    -- the zero that the operand is taken from needs no code
    have hzero : Lowered scope p p (fun _ _ => Pure.pure (0 : Int32))
        fun v regs => regs.read (Operand.constant 0).text = some v :=
      ⟨[], .refl p, fun oracle env regs calls hag =>
        RunsAs.pure ⟨.refl hag.free, read_text_constant regs 0⟩⟩
    have hall := hzero.compute .sub trivial hrun hlast
    simp only [pure_bind] at hall
    simp only [Expr.value]
    exact hall
  | binary op left right position =>
    simp only [lowerExpr] at h
    obtain ⟨l, p₁, h₁, h⟩ := of_stateT_bind_ok h
    obtain ⟨r, p₂, h₂, hlast⟩ := of_stateT_bind_ok h
    have ⟨hbl, hl⟩ := lowerExpr_runs left hb h₁
    obtain ⟨_, happ, _⟩ := id hl
    have ⟨_, hr⟩ := lowerExpr_runs right (hb.mono happ.temporaries) h₂
    simp only [Expr.value]
    exact hl.compute op hbl hr hlast
  | call function arguments position =>
    simp only [lowerExpr] at h
    obtain ⟨expected, p₁, h₁, h⟩ := of_stateT_bind_ok h
    obtain ⟨htemp₁, happ₁⟩ := of_expectedArity_ok h₁
    by_cases harity : expected = arguments.length
    · rw [if_pos harity] at h
      obtain ⟨operands, p₂, h₂, hlast⟩ := of_stateT_bind_ok h
      obtain ⟨_, code, happ₂, hrun⟩ := lowerArguments_runs arguments (htemp₁ ▸ hb) h₂
      rw [htemp₁] at hrun
      have hargs : Lowered scope p p₂ (fun oracle env => argumentValues oracle env arguments)
          fun vs regs => (operands.map Operand.text).mapM regs.read = some vs :=
        ⟨code, happ₁.trans happ₂, hrun⟩
      simp only [Expr.value]
      exact hargs.call function hlast
    · rw [if_neg harity] at h
      cases h

/-- Lowered arguments run as they are evaluated. -/
theorem lowerArguments_runs {defined : Arities} {scope : Scope} (es : List Expr)
    {p p' : Progress} {os : List Operand} (hb : scope.Below p.temporaries)
    (h : lowerArguments defined scope es p = .ok (os, p')) :
    (∀ o ∈ os, o.Below p'.temporaries) ∧
      Lowered scope p p' (fun oracle env => argumentValues oracle env es)
        fun vs regs => (os.map Operand.text).mapM regs.read = some vs := by
  cases es with
  | nil =>
    simp only [lowerArguments] at h
    cases h
    refine ⟨by simp, [], .refl p, fun oracle env regs calls hag => ?_⟩
    simp only [argumentValues]
    exact RunsAs.pure ⟨.refl hag.free, rfl⟩
  | cons e more =>
    simp only [lowerArguments] at h
    obtain ⟨o, p₁, h₁, h⟩ := of_stateT_bind_ok h
    obtain ⟨rest, p₂, h₂, h⟩ := of_stateT_bind_ok h
    cases h
    have ⟨hbo, ho⟩ := lowerExpr_runs e hb h₁
    obtain ⟨_, happ₁, _⟩ := id ho
    obtain ⟨hbs, code, happ, hrun⟩ := lowerArguments_runs more (hb.mono happ₁.temporaries) h₂
    refine ⟨?_, ?_⟩
    · intro o' ho'
      rcases List.mem_cons.1 ho' with rfl | ho'
      · exact hbo.mono happ.temporaries
      · exact hbs o' ho'
    · simp only [argumentValues]
      refine ho.bind happ fun a oracle env regs calls hag ha => ?_
      rw [← List.append_nil (code.map Instruction.line)]
      refine (hrun oracle env regs calls hag).bind fun vs regs₂ calls₂ ⟨hext, hvs⟩ => ?_
      refine RunsAs.pure ⟨hext, ?_⟩
      have ha₂ : regs₂.read o.text = some a := (hext.keeps o hbo).trans ha
      simp only [List.map_cons, List.mapM_cons, ha₂, hvs]
      rfl

end

/-! ### Statements and functions -/

/-- From these registers and calls on, lines make the calls of a computation and end as it
does, and neither is stuck. -/
def EndsAs (oracle : Oracle) (lines : List Line) (regs : Registers) (calls : List Call)
    (c : Calling Int32) : Prop :=
  outcome (run oracle lines regs) calls = outcome c calls ∧
    (outcome c calls).1 ≠ .error .stuck

theorem RunsAs.ends {α : Type} {oracle : Oracle} {lines rest : List Line} {regs : Registers}
    {calls : List Call} {c : Calling α} {f : α → Calling Int32} {mid : α → Registers → Prop}
    (h : RunsAs oracle lines regs calls c mid)
    (h' : ∀ a regs' calls', mid a regs' → EndsAs oracle rest regs' calls' (f a)) :
    EndsAs oracle (lines ++ rest) regs calls (c >>= f) := by
  unfold RunsAs at h
  unfold EndsAs
  rw [outcome_bind]
  rcases hc : outcome c calls with ⟨t | a, calls'⟩
  · rw [hc] at h
    obtain ⟨rfl, hrun⟩ := h
    exact ⟨hrun rest, by simp⟩
  · rw [hc] at h
    obtain ⟨regs', hmid, hrun⟩ := h
    obtain ⟨heq, hne⟩ := h' a regs' calls' hmid
    exact ⟨(hrun rest).trans heq, hne⟩

/-- The return instruction ends with the value of its operand. -/
theorem endsAs_ret {oracle : Oracle} {regs : Registers} {calls : List Call} {o : Operand}
    {v : Int32} (hread : regs.read o.text = some v) :
    EndsAs oracle [(Instruction.ret o).line] regs calls (pure v) := by
  have hrun : run oracle [(Instruction.ret o).line] regs = pure v := by
    simp [Instruction.line, run, hread]
  exact ⟨by rw [hrun], by simp⟩

/-- **The code of a body ends as the body does.** -/
theorem lowerBody_runs {defined : Arities} (statements : List Statement) {scope : Scope}
    {p p' : Progress} (hb : scope.Below p.temporaries)
    (h : lowerBody defined scope statements p = .ok ((), p')) :
    ∃ code, Appends p p' code ∧ ∀ oracle env regs calls,
      Agrees scope env p.temporaries regs →
        EndsAs oracle (code.map Instruction.line) regs calls (bodyValue oracle env statements) := by
  -- on the statements; each leaves a scope, values and registers that agree again
  induction statements generalizing scope p with
  | nil =>
    simp only [lowerBody, emit] at h
    cases h
    refine ⟨[.ret (.constant 0)], ⟨by simp, le_rfl⟩, fun oracle env regs calls hag => ?_⟩
    exact endsAs_ret (read_text_constant regs 0)
  | cons statement more ih =>
    cases statement with
    | bind name value position =>
      simp only [lowerBody] at h
      obtain ⟨o, p₁, h₁, h⟩ := of_stateT_bind_ok h
      obtain ⟨hbo, code₁, happ₁, hrun₁⟩ := lowerExpr_runs value hb h₁
      obtain ⟨code, happ, hrun⟩ := ih ((hb.mono happ₁.temporaries).bind hbo name) h
      refine ⟨code₁ ++ code, happ₁.trans happ, fun oracle env regs calls hag => ?_⟩
      rw [List.map_append]
      refine (hrun₁ oracle env regs calls hag).ends fun a regs' calls' ⟨hext, ha⟩ => ?_
      exact hrun oracle _ regs' calls' ((hag.extend happ₁.temporaries hext).bind hbo ha name)
    | effect value =>
      simp only [lowerBody] at h
      obtain ⟨o, p₁, h₁, h⟩ := of_stateT_bind_ok h
      obtain ⟨_, code₁, happ₁, hrun₁⟩ := lowerExpr_runs value hb h₁
      obtain ⟨code, happ, hrun⟩ := ih (hb.mono happ₁.temporaries) h
      refine ⟨code₁ ++ code, happ₁.trans happ, fun oracle env regs calls hag => ?_⟩
      rw [List.map_append]
      refine (hrun₁ oracle env regs calls hag).ends fun a regs' calls' ⟨hext, _⟩ => ?_
      exact hrun oracle env regs' calls' (hag.extend happ₁.temporaries hext)
    | result value position =>
      simp only [lowerBody] at h
      obtain ⟨o, p₁, h₁, h⟩ := of_stateT_bind_ok h
      obtain ⟨_, code₁, happ₁, hrun₁⟩ := lowerExpr_runs value hb h₁
      cases more with
      | cons behind others => cases h
      | nil =>
        cases h
        refine ⟨code₁ ++ [.ret o], happ₁.trans ⟨by simp, le_rfl⟩,
          fun oracle env regs calls hag => ?_⟩
        rw [List.map_append, bodyValue, ← bind_pure (value.value oracle env)]
        exact (hrun₁ oracle env regs calls hag).ends fun a regs' calls' ⟨_, ha⟩ => endsAs_ret ha

end Ingot.Code

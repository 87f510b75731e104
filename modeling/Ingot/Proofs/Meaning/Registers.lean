import Mathlib
import Ingot.Code.Lowering
import Ingot.Proofs.Meaning.Evaluation
import Ingot.Proofs.Meaning.Execution

/-!
# Operands and registers

Lowering counts temporaries and keeps operands in a scope; the machine has names that are
set once and reads texts. This module relates the two. An operand is *below* a number if it
is no temporary from that number on; registers *agree* with a scope if each name of the scope
stands for an operand that reads as the value of the name; and registers are *extended* from
one number of temporaries to another when nothing below the first reads differently.

The last of these composes, and registers that agree with a scope go on to do so when they
are extended. Both rest on texts: different temporaries have different names, and the name of
a parameter is never that of a temporary.
-/

namespace Ingot.Code

open Meaning Machine Source

/-! ### Texts of operands -/

theorem toList_text_temporary (i : ℕ) :
    (Operand.temporary i).text.toList = '%' :: 't' :: i.repr.toList := by
  simp only [Operand.text, String.toList_append]
  rfl

theorem toList_text_parameter (name : String) :
    (Operand.parameter name).text.toList = '%' :: 'p' :: '.' :: name.toList := by
  simp only [Operand.text, String.toList_append]
  rfl

theorem text_temporary_injective {i j : ℕ}
    (h : (Operand.temporary i).text = (Operand.temporary j).text) : i = j := by
  have h' := congrArg String.toList h
  rw [toList_text_temporary, toList_text_temporary] at h'
  simp only [List.cons.injEq, true_and, String.toList_inj] at h'
  exact Nat.repr_injective h'

theorem text_parameter_ne_temporary (name : String) (i : ℕ) :
    (Operand.parameter name).text ≠ (Operand.temporary i).text := by
  intro h
  have h' := congrArg String.toList h
  rw [toList_text_temporary, toList_text_parameter] at h'
  simp only [List.cons.injEq, true_and] at h'
  exact absurd h'.1 (by decide)

theorem head?_text_constant (value : ℤ) :
    (Operand.constant value).text.toList.head? ≠ some '%' := by
  intro h
  rw [Operand.text, Int.toString_eq_repr, Int.repr_eq_if] at h
  split at h
  · rw [Nat.toList_repr] at h
    have hd := Nat.isDigit_of_mem_toDigits (by omega) (by omega) (List.mem_of_mem_head? h)
    exact absurd hd (by decide)
  · rw [String.toList_append] at h
    exact absurd h (by simp)

theorem read_text_constant (regs : Registers) (value : ℤ) :
    regs.read (Operand.constant value).text = some (.ofInt value) := by
  have h := head?_text_constant value
  rw [Registers.read, if_neg h, Operand.text, Int.toString_eq_repr, Int.toInt?_repr]
  rfl

theorem read_text_temporary (regs : Registers) (i : ℕ) :
    regs.read (Operand.temporary i).text = regs (Operand.temporary i).text := by
  rw [Registers.read, toList_text_temporary]
  exact if_pos rfl

theorem read_text_parameter (regs : Registers) (name : String) :
    regs.read (Operand.parameter name).text = regs (Operand.parameter name).text := by
  rw [Registers.read, toList_text_parameter]
  exact if_pos rfl

/-! ### Operands below a number -/

/-- An operand that is no temporary from a number on. -/
def Operand.Below (n : ℕ) : Operand → Prop
  | temporary index => index < n
  | constant _ => True
  | parameter _ => True

theorem Operand.Below.mono {n m : ℕ} {o : Operand} (h : o.Below n) (hnm : n ≤ m) : o.Below m := by
  cases o with
  | temporary index => exact Nat.lt_of_lt_of_le h hnm
  | constant value => trivial
  | parameter name => trivial

/-- A scope of operands below a number. -/
def Scope.Below (n : ℕ) (scope : Scope) : Prop :=
  ∀ name o, scope.lookup name = some o → o.Below n

theorem Scope.Below.mono {scope : Scope} {n m : ℕ} (h : scope.Below n) (hnm : n ≤ m) :
    scope.Below m := fun name o ho => (h name o ho).mono hnm

theorem Scope.Below.bind {scope : Scope} {n : ℕ} {o : Operand} (h : scope.Below n)
    (ho : o.Below n) (name : String) : Scope.Below n ((name, o) :: scope) := by
  intro name' o' ho'
  by_cases hn : name' = name
  · subst hn
    simp only [List.lookup_cons, beq_self_eq_true, Option.some.injEq] at ho'
    exact ho' ▸ ho
  · have hb : (name' == name) = false := by simpa using hn
    simp only [List.lookup_cons, hb] at ho'
    exact h name' o' ho'

/-! ### Registers that are extended -/

/-- From a number on, no temporary is set. -/
def FreeFrom (n : ℕ) (regs : Registers) : Prop :=
  ∀ i, n ≤ i → regs (Operand.temporary i).text = none

/-- Registers when more lines have run: what is below `n` reads as before, and from `m` on no
temporary is set. -/
structure Extends (n m : ℕ) (regs regs' : Registers) : Prop where
  keeps : ∀ o : Operand, o.Below n → regs'.read o.text = regs.read o.text
  free : FreeFrom m regs'

theorem Extends.refl {n : ℕ} {regs : Registers} (h : FreeFrom n regs) : Extends n n regs regs :=
  ⟨fun _ _ => rfl, h⟩

theorem Extends.trans {n m k : ℕ} {regs regs' regs'' : Registers} (hnm : n ≤ m)
    (h : Extends n m regs regs') (h' : Extends m k regs' regs'') : Extends n k regs regs'' :=
  ⟨fun o ho => (h'.keeps o (ho.mono hnm)).trans (h.keeps o ho), h'.free⟩

/-- The next temporary can be set, and nothing below it notices. -/
theorem define?_next {n : ℕ} {regs : Registers} (h : FreeFrom n regs) (v : Int32) :
    ∃ regs', regs.define? (Operand.temporary n).text v = some regs' ∧
      Extends n (n + 1) regs regs' ∧ regs'.read (Operand.temporary n).text = some v := by
  refine ⟨fun name => if name = (Operand.temporary n).text then some v else regs name, ?_, ⟨?_, ?_⟩,
    ?_⟩
  · rw [Registers.define?, h n le_rfl]
  · intro o ho
    cases o with
    | constant value => rw [read_text_constant, read_text_constant]
    | parameter name =>
      rw [read_text_parameter, read_text_parameter]
      exact if_neg (text_parameter_ne_temporary name n)
    | temporary i =>
      rw [read_text_temporary, read_text_temporary]
      refine if_neg fun hi => ?_
      have hin : i < n := ho
      have := text_temporary_injective hi
      omega
  · intro i hi
    have hne : (Operand.temporary i).text ≠ (Operand.temporary n).text := by
      intro hi'
      have := text_temporary_injective hi'
      omega
    exact (if_neg hne).trans (h i (by omega))
  · rw [read_text_temporary]
    exact if_pos rfl

/-! ### Registers that agree with a scope -/

/-- Every name of the scope stands for an operand below `n` that reads as the value of the
name, and from `n` on no temporary is set. -/
structure Agrees (scope : Scope) (env : Environment) (n : ℕ) (regs : Registers) : Prop where
  below : scope.Below n
  reads : ∀ name o, scope.lookup name = some o →
    ∃ v, env.lookup name = some v ∧ regs.read o.text = some v
  free : FreeFrom n regs

theorem Agrees.extend {scope : Scope} {env : Environment} {n m : ℕ} {regs regs' : Registers}
    (h : Agrees scope env n regs) (hnm : n ≤ m) (hr : Extends n m regs regs') :
    Agrees scope env m regs' := by
  refine ⟨h.below.mono hnm, fun name o ho => ?_, hr.free⟩
  obtain ⟨v, hv, hread⟩ := h.reads name o ho
  exact ⟨v, hv, (hr.keeps o (h.below name o ho)).trans hread⟩

/-- A name may be bound to an operand that reads as its value; it shadows what the name stood
for before, on both sides. -/
theorem Agrees.bind {scope : Scope} {env : Environment} {n : ℕ} {regs : Registers} {o : Operand}
    {v : Int32} (h : Agrees scope env n regs) (hb : o.Below n) (ho : regs.read o.text = some v)
    (name : String) : Agrees ((name, o) :: scope) ((name, v) :: env) n regs := by
  refine ⟨h.below.bind hb name, fun name' o' ho' => ?_, h.free⟩
  by_cases hn : name' = name
  · subst hn
    simp only [List.lookup_cons, beq_self_eq_true, Option.some.injEq] at ho'
    subst ho'
    exact ⟨v, by simp, ho⟩
  · have hne : (name' == name) = false := by simpa using hn
    simp only [List.lookup_cons, hne] at ho' ⊢
    exact h.reads name' o' ho'

end Ingot.Code

import Ingot.Proofs.Code.WellFormed

/-!
# Names in the text of code

In the text of code a mark stands before each name, `@` for functions and `%` for what is in a
function, and a name ends at the next break. **The names marked in the text of proper code are those
of its data** (`markedNames_contents`).

A name without quotes has to be an identifier. The language has letters and numerals of all scripts
in its names, an identifier only has those that are ASCII: so a name of the language is an
identifier if it is written in ASCII, and else is none (`isIdentifier_name`).
-/

namespace Ingot.Code

open Source Machine

/-! ### Identifiers -/

/-- A character of an identifier that is no digit. -/
def isIdentifierStart (c : Char) : Bool :=
  c.isAlpha || c == '-' || c == '$' || c == '.' || c == '_'

/-- A character of an identifier. -/
def isIdentifierPart (c : Char) : Bool := isIdentifierStart c || c.isDigit

/-- Whether a name can be written without quotes. -/
def isIdentifier : List Char → Bool
  | [] => false
  | c :: rest => isIdentifierStart c && rest.all isIdentifierPart

theorem val_lt_of_isIdentifierPart {c : Char} (h : isIdentifierPart c = true) : c.val < 128 := by
  simp only [isIdentifierPart, isIdentifierStart, Char.isAlpha, Char.isUpper, Char.isLower,
    Char.isDigit, Bool.or_eq_true, Bool.and_eq_true, decide_eq_true_eq, beq_iff_eq,
    UInt32.le_iff_toNat_le, ge_iff_le] at h
  rw [UInt32.lt_iff_toNat_lt]
  have hupper : 'Z'.val.toNat = 90 := rfl
  have hlower : 'z'.val.toNat = 122 := rfl
  have hdigit : '9'.val.toNat = 57 := rfl
  have hlimit : (128 : UInt32).toNat = 128 := rfl
  rcases h with (((((h | h) | rfl) | rfl) | rfl) | rfl) | h
  · omega
  · omega
  · decide
  · decide
  · decide
  · decide
  · omega

/-- Among the characters of words those of identifiers are the ASCII ones. -/
theorem isIdentifierPart_iff {c : Char} (h : isWordPart c = true) :
    isIdentifierPart c = true ↔ c.val < 128 := by
  refine ⟨val_lt_of_isIdentifierPart, fun hlt => ?_⟩
  simp only [isWordPart, Text.isLetter, Text.isNumeral, if_pos hlt, Bool.or_eq_true] at h
  simp only [isIdentifierPart, isIdentifierStart, Bool.or_eq_true]
  tauto

theorem isIdentifierStart_iff {c : Char} (h : isWordStart c = true) :
    isIdentifierStart c = true ↔ c.val < 128 := by
  refine ⟨fun hs => val_lt_of_isIdentifierPart (by simp [isIdentifierPart, hs]), fun hlt => ?_⟩
  simp only [isWordStart, Text.isLetter, if_pos hlt, Bool.or_eq_true] at h
  simp only [isIdentifierStart, Bool.or_eq_true]
  tauto

/-- A name is written in ASCII. -/
def IsAscii (name : String) : Prop := ∀ c ∈ name.toList, c.val < 128

/-- A name of the language is an identifier if it is written in ASCII, and else is none. -/
theorem isIdentifier_name {name : String} (h : IsName name) :
    isIdentifier name.toList = true ↔ IsAscii name := by
  obtain ⟨c, rest, heq, hstart, hparts⟩ := h.word
  rw [IsAscii, heq, isIdentifier, Bool.and_eq_true, isIdentifierStart_iff hstart,
    List.all_eq_true, List.forall_mem_cons]
  refine and_congr_right fun _ => forall₂_congr fun d hd => isIdentifierPart_iff (hparts d hd)

theorem isIdentifier_parameter {name : String} (h : IsName name) :
    isIdentifier ('p' :: '.' :: name.toList) = true ↔ IsAscii name := by
  rw [isIdentifier, Bool.and_eq_true, List.all_eq_true, List.forall_mem_cons]
  have hp : isIdentifierStart 'p' = true := by decide
  have hdot : isIdentifierPart '.' = true := by decide
  simp only [hp, hdot, true_and]
  exact forall₂_congr fun d hd => isIdentifierPart_iff (h.isWordPart d hd)

theorem isIdentifier_temporary (i : ℕ) : isIdentifier ('t' :: i.repr.toList) = true := by
  rw [isIdentifier, Bool.and_eq_true, List.all_eq_true]
  refine ⟨by decide, fun d hd => ?_⟩
  simp [isIdentifierPart, isDigit_of_mem_repr hd]

/-! ### Marked names -/

/-- A character that no name goes on behind. -/
def endsName (c : Char) : Bool := isBreak c || c == '\n'

/-- A character that a name stands behind. -/
def isMark (c : Char) : Bool := c == '@' || c == '%'

/-- The names behind the marks of a text, in order. -/
def markedNames : List Char → List (List Char)
  | [] => []
  | c :: rest =>
    if isMark c then rest.takeWhile (fun d => !endsName d) :: markedNames rest
    else markedNames rest

theorem isMark_of_endsName {c : Char} (h : endsName c = true) : isMark c = false := by
  simp only [endsName, isBreak, Bool.or_eq_true, beq_iff_eq] at h
  rcases h with (((rfl | rfl) | rfl) | rfl) | rfl <;> decide

theorem takeWhile_append_end {c : Char} (hc : endsName c = true) (a b : List Char) :
    (a ++ c :: b).takeWhile (fun d => !endsName d) = a.takeWhile fun d => !endsName d := by
  induction a with
  | nil => simp [hc]
  | cons d a ih =>
    rw [List.cons_append, List.takeWhile_cons, List.takeWhile_cons, ih]

/-- The names of a text do not depend on what stands behind the end of a name. -/
theorem markedNames_append {c : Char} (hc : endsName c = true) (a b : List Char) :
    markedNames (a ++ c :: b) = markedNames a ++ markedNames b := by
  induction a with
  | nil => simp [markedNames, isMark_of_endsName hc]
  | cons d a ih =>
    rw [List.cons_append, markedNames, markedNames, takeWhile_append_end hc, ih]
    split
    · rfl
    · rfl

theorem markedNames_end {c : Char} (hc : endsName c = true) (b : List Char) :
    markedNames (c :: b) = markedNames b := markedNames_append hc [] b

theorem markedNames_plain {a : List Char} (h : ∀ c ∈ a, isMark c = false) :
    markedNames a = [] := by
  induction a with
  | nil => rfl
  | cons c a ih =>
    obtain ⟨hc, ha⟩ := List.forall_mem_cons.1 h
    rw [markedNames, if_neg (by simp [hc]), ih ha]

/-- A mark and a name. -/
theorem markedNames_marked {c : Char} (hc : isMark c = true) {a : List Char}
    (h : ∀ d ∈ a, isMark d = false ∧ endsName d = false) : markedNames (c :: a) = [a] := by
  rw [markedNames, if_pos hc, markedNames_plain fun d hd => (h d hd).1, List.takeWhile_eq_self_iff.2]
  intro d hd
  simp [(h d hd).2]

theorem not_mark_of_isWordPart {c : Char} (hc : isWordPart c = true) :
    isMark c = false ∧ endsName c = false := by
  obtain ⟨hbreak, hend⟩ := not_break_of_isWordPart hc
  refine ⟨?_, by simp [endsName, hbreak, hend]⟩
  have hne : ∀ d, isWordPart d = false → c ≠ d := by
    rintro d hd rfl
    cases hc.symm.trans hd
  simp [isMark, hne '@' (by decide), hne '%' (by decide)]

theorem isWordPart_of_isDigit {c : Char} (hc : c.isDigit = true) : isWordPart c = true := by
  have hlt : c.val < 128 := val_lt_of_isIdentifierPart (by simp [isIdentifierPart, hc])
  simp [isWordPart, Text.isNumeral, hlt, hc]

/-! ### The names of code -/

/-- The marked name of an operand. -/
def Operand.marked : Operand → List (List Char)
  | constant _ => []
  | parameter name => ['p' :: '.' :: name.toList]
  | temporary index => ['t' :: index.repr.toList]

/-- The marked names of an instruction. -/
def Instruction.marked : Instruction → List (List Char)
  | compute target _ left right => (Operand.temporary target).marked ++ (left.marked ++ right.marked)
  | call target function arguments =>
    (Operand.temporary target).marked ++ function.toList :: arguments.flatMap Operand.marked
  | ret value => value.marked

/-- The marked names of a function. -/
def FunctionCode.marked (c : FunctionCode) : List (List Char) :=
  c.name.toList :: ((c.parameters.map Operand.parameter).flatMap Operand.marked ++
    c.body.flatMap Instruction.marked)

/-- The marked names of a module. -/
def ModuleCode.marked (m : ModuleCode) : List (List Char) :=
  m.functions.flatMap FunctionCode.marked ++ m.declarations.map fun d => d.name.toList

theorem markedNames_operand {o : Operand} (h : o.Proper) : markedNames o.text.toList = o.marked := by
  cases o with
  | constant value =>
    have htext : (Operand.constant value).text = value.toNat.repr := by
      rw [Operand.text, Int.toString_eq_repr, Int.repr_eq_if, if_pos h.1]
    rw [htext]
    exact markedNames_plain fun c hc =>
      (not_mark_of_isWordPart (isWordPart_of_isDigit (isDigit_of_mem_repr hc))).1
  | parameter name =>
    have hname : IsName name := h
    rw [toList_text_parameter]
    refine markedNames_marked rfl ?_
    simp only [List.forall_mem_cons]
    exact ⟨by decide, by decide, fun c hc => not_mark_of_isWordPart (hname.isWordPart c hc)⟩
  | temporary i =>
    rw [toList_text_temporary]
    refine markedNames_marked rfl ?_
    simp only [List.forall_mem_cons]
    exact ⟨by decide,
      fun c hc => not_mark_of_isWordPart (isWordPart_of_isDigit (isDigit_of_mem_repr hc))⟩

theorem markedNames_i32 : markedNames "i32".toList = [] := by decide

theorem markedNames_global {name : String} (h : IsName name) :
    markedNames ("@" ++ name).toList = [name.toList] := by
  rw [toList_marked]
  exact markedNames_marked rfl fun c hc => not_mark_of_isWordPart (h.isWordPart c hc)

theorem markedNames_argumentText {operands : List Operand} (h : ∀ o ∈ operands, o.Proper)
    (rest : List Char) : markedNames ((argumentText operands).toList ++ ')' :: rest) =
      operands.flatMap Operand.marked ++ markedNames rest := by
  induction operands with
  | nil => exact markedNames_end rfl rest
  | cons o more ih =>
    obtain ⟨ho, hmore⟩ := List.forall_mem_cons.1 h
    cases more with
    | nil =>
      rw [toList_argumentText_singleton, List.append_assoc, List.cons_append,
        markedNames_append rfl, markedNames_append rfl, markedNames_i32, markedNames_operand ho]
      simp
    | cons o' more =>
      rw [toList_argumentText_cons, List.append_assoc, List.cons_append, List.append_assoc,
        List.cons_append, List.cons_append, markedNames_append rfl, markedNames_append rfl,
        markedNames_end rfl, markedNames_i32, markedNames_operand ho, ih hmore]
      simp

theorem markedNames_instruction {i : Instruction} (h : i.Proper) (rest : List Char) :
    markedNames (i.text.toList ++ rest) = i.marked ++ markedNames rest := by
  have htemporary : ∀ target, markedNames (Operand.temporary target).text.toList =
      (Operand.temporary target).marked := fun target => markedNames_operand trivial
  rw [toList_text, List.append_assoc, List.singleton_append, markedNames_append rfl]
  congr 1
  cases i with
  | compute target operation left right =>
    have hequals : markedNames "=".toList = [] := by decide
    have hoperation : markedNames operation.word.toList = [] := by cases operation <;> decide
    rw [Instruction.chars, markedNames_end rfl, markedNames_end rfl, markedNames_append rfl,
      markedNames_append rfl, markedNames_append rfl, markedNames_append rfl,
      markedNames_append rfl, markedNames_end rfl, htemporary, hequals, hoperation, markedNames_i32,
      markedNames_operand h.1, markedNames_operand h.2]
    rfl
  | call target function arguments =>
    have hequals : markedNames "=".toList = [] := by decide
    have hcall : markedNames "call".toList = [] := by decide
    rw [Instruction.chars, markedNames_end rfl, markedNames_end rfl, markedNames_append rfl,
      markedNames_append rfl, markedNames_append rfl, markedNames_append rfl,
      markedNames_append rfl, markedNames_argumentText h.2, htemporary, hequals, hcall, markedNames_i32,
      markedNames_global h.1]
    simp [Instruction.marked, markedNames]
  | ret value =>
    have hret : markedNames "ret".toList = [] := by decide
    have hvalue : value.Proper := h
    rw [Instruction.chars, markedNames_end rfl, markedNames_end rfl, markedNames_append rfl,
      markedNames_append rfl, hret, markedNames_i32, markedNames_operand hvalue]
    rfl

theorem markedNames_body {body : List Instruction} (h : ∀ i ∈ body, i.Proper) (rest : List Char) :
    markedNames (body.flatMap (fun i => i.text.toList) ++ rest) =
      body.flatMap Instruction.marked ++ markedNames rest := by
  induction body with
  | nil => rfl
  | cons i more ih =>
    obtain ⟨hi, hmore⟩ := List.forall_mem_cons.1 h
    rw [List.flatMap_cons, List.append_assoc, markedNames_instruction hi, ih hmore,
      List.flatMap_cons, List.append_assoc]

theorem markedNames_function {c : FunctionCode} (h : c.Proper) (rest : List Char) :
    markedNames (c.text.toList ++ rest) = c.marked ++ markedNames rest := by
  have hdefine : markedNames "define".toList = [] := by decide
  have hbrace : markedNames "\x7b".toList = [] := by decide
  have hlabel : markedNames "entry:".toList = [] := by decide
  have hopening : markedNames c.opening =
      c.name.toList :: (c.parameters.map Operand.parameter).flatMap Operand.marked := by
    delta FunctionCode.opening
    rw [markedNames_append rfl, markedNames_append rfl, markedNames_append rfl,
      markedNames_argumentText (proper_parameters h), markedNames_end rfl, hdefine, markedNames_i32, hbrace,
      markedNames_global h.name]
    simp
  have hclose : markedNames ('}' :: '\n' :: rest) = markedNames rest :=
    markedNames_append rfl ['}'] rest
  rw [toList_functionText, List.append_assoc, List.cons_append, markedNames_append rfl,
    List.append_assoc, List.cons_append, markedNames_append rfl, List.append_assoc,
    markedNames_body h.body, List.cons_append, List.singleton_append, hclose, hopening, hlabel]
  simp [FunctionCode.marked]

theorem isMark_types (arity : ℕ) :
    ∀ c ∈ (", ".intercalate (List.replicate arity "i32")).toList, isMark c = false := by
  have hword : ∀ c ∈ "i32".toList, isMark c = false := by simp [isMark]
  have hcomma : ∀ c ∈ ", ".toList, isMark c = false := by simp [isMark]
  induction arity with
  | zero => simp
  | succ arity ih =>
    cases arity with
    | zero => simpa using hword
    | succ arity =>
      rw [List.replicate_succ, List.replicate_succ, String.intercalate_cons_cons,
        ← List.replicate_succ, String.toList_append, String.toList_append]
      simp only [List.forall_mem_append]
      exact ⟨⟨hword, hcomma⟩, ih⟩

theorem markedNames_declaration {d : Declaration} (h : IsName d.name) (rest : List Char) :
    markedNames (d.text.toList ++ rest) = d.name.toList :: markedNames rest := by
  have htext : d.text.toList = "declare".toList ++ ' ' :: ("i32".toList ++ ' ' ::
      (("@" ++ d.name).toList ++ '(' :: ((", ".intercalate (List.replicate d.arity "i32")).toList ++
        ')' :: ['\n']))) := by
    delta Declaration.text
    simp [toString]
  have hdeclare : markedNames "declare".toList = [] := by decide
  rw [htext]
  simp only [List.append_assoc, List.cons_append, List.nil_append]
  rw [markedNames_append rfl, markedNames_append rfl, markedNames_append rfl,
    markedNames_append rfl, markedNames_end rfl, hdeclare, markedNames_i32, markedNames_global h,
    markedNames_plain (isMark_types d.arity)]
  rfl

theorem markedNames_functions {functions : List FunctionCode} (h : ∀ c ∈ functions, c.Proper)
    (rest : List Char) :
    markedNames ((String.join (functions.map fun c => "\n" ++ c.text)).toList ++ rest) =
      functions.flatMap FunctionCode.marked ++ markedNames rest := by
  induction functions with
  | nil => rfl
  | cons c more ih =>
    obtain ⟨hc, hmore⟩ := List.forall_mem_cons.1 h
    have hline : (String.join ((c :: more).map fun c => "\n" ++ c.text)).toList ++ rest =
        '\n' :: (c.text.toList ++
          ((String.join (more.map fun c => "\n" ++ c.text)).toList ++ rest)) := by
      simp [String.toList_join]
    rw [hline, markedNames_end rfl, markedNames_function hc, ih hmore, List.flatMap_cons,
      List.append_assoc]

theorem markedNames_declarations {declarations : List Declaration}
    (h : ∀ d ∈ declarations, IsName d.name) :
    markedNames (String.join (declarations.map Declaration.text)).toList =
      declarations.map fun d => d.name.toList := by
  induction declarations with
  | nil => rfl
  | cons d more ih =>
    obtain ⟨hd, hmore⟩ := List.forall_mem_cons.1 h
    have hline : (String.join ((d :: more).map Declaration.text)).toList =
        d.text.toList ++ (String.join (more.map Declaration.text)).toList := by
      simp [String.toList_join]
    rw [hline, markedNames_declaration hd, ih hmore]
    rfl

/-- **The names marked in the text of a module are those of its code.** -/
theorem markedNames_contents {m : ModuleCode} (hfunctions : ∀ c ∈ m.functions, c.Proper)
    (hdeclarations : ∀ d ∈ m.declarations, IsName d.name) :
    markedNames m.contents.toList = m.marked := by
  rw [ModuleCode.contents, String.toList_append, markedNames_functions hfunctions,
    ModuleCode.marked]
  congr 1
  split
  · rename_i hempty
    rw [List.isEmpty_iff.1 hempty]
    rfl
  · rw [String.toList_append]
    exact (markedNames_end rfl _).trans (markedNames_declarations hdeclarations)

end Ingot.Code

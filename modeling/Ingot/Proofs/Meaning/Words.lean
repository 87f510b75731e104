import Mathlib
import Ingot.Proofs.Code.Proper
import Ingot.Proofs.Meaning.Routines

/-!
# Reading the text of code

The machine reads a line as its words and a text as its lines. A *word* here is a row of
characters none of which stands between words or ends a line. The operands and the names of
proper code are words, so that the machine finds in a line what was written into it, and
**reads the text of a function as its routine** (`read?_text`).
-/

namespace Ingot.Code

open Machine Source

/-! ### Words -/

/-- A row of characters that no break and no end of a line is among. -/
structure IsWord (word : String) : Prop where
  ne_nil : word.toList ≠ []
  noBreak : ∀ c ∈ word.toList, isBreak c = false
  noEnd : '\n' ∉ word.toList

theorem wordsOf_nil : wordsOf [] = [] := rfl

theorem wordsOf_break {c : Char} (hc : isBreak c = true) (rest : List Char) :
    wordsOf (c :: rest) = wordsOf rest := by
  have h : (c :: rest).splitOnP isBreak = [] :: rest.splitOnP isBreak := by
    rw [← List.nil_append (c :: rest),
      List.splitOnP_append_cons_of_forall_mem (by simp) c hc rest]
  rw [wordsOf, h, wordsOf]
  rfl

theorem wordsOf_word {word : String} (h : IsWord word) {c : Char} (hc : isBreak c = true)
    (rest : List Char) : wordsOf (word.toList ++ c :: rest) = word :: wordsOf rest := by
  have hne : word.toList.isEmpty = false := by simpa using h.ne_nil
  rw [wordsOf, List.splitOnP_append_cons_of_forall_mem h.noBreak c hc, List.filter_cons_of_pos,
    List.map_cons, String.ofList_toList, wordsOf]
  simp [hne]

theorem wordsOf_last {word : String} (h : IsWord word) : wordsOf word.toList = [word] := by
  have hne : word.toList.isEmpty = false := by simpa using h.ne_nil
  rw [wordsOf, List.splitOnP_eq_singleton h.noBreak]
  simp [hne]

theorem isWord_of_forall {word : String} (hne : word.toList ≠ [])
    (h : ∀ c ∈ word.toList, isBreak c = false ∧ c ≠ '\n') : IsWord word :=
  ⟨hne, fun c hc => (h c hc).1, fun hmem => (h _ hmem).2 rfl⟩

/-! ### Names and numbers are words -/

/-- Characters of a kind that no break and no end of a line is of. -/
theorem not_break_of {p : Char → Bool} (hp : p ' ' = false ∧ p ',' = false ∧ p '(' = false ∧
    p ')' = false ∧ p '\n' = false) {c : Char} (hc : p c = true) :
    isBreak c = false ∧ c ≠ '\n' := by
  have hne : ∀ d, p d = false → c ≠ d := by
    rintro d hd rfl
    rw [hd] at hc
    cases hc
  obtain ⟨h₁, h₂, h₃, h₄, h₅⟩ := hp
  exact ⟨by simp [isBreak, hne _ h₁, hne _ h₂, hne _ h₃, hne _ h₄], hne _ h₅⟩

theorem not_break_of_isWordPart {c : Char} (hc : isWordPart c = true) :
    isBreak c = false ∧ c ≠ '\n' := not_break_of (by decide) hc

theorem not_break_of_isDigit {c : Char} (hc : c.isDigit = true) :
    isBreak c = false ∧ c ≠ '\n' := not_break_of (by decide) hc

theorem isDigit_of_mem_repr {n : ℕ} {c : Char} (hc : c ∈ n.repr.toList) : c.isDigit = true := by
  rw [Nat.toList_repr] at hc
  exact Nat.isDigit_of_mem_toDigits (by omega) (by omega) hc

theorem isWord_name {name : String} (h : IsName name) : IsWord name :=
  isWord_of_forall h.toList_ne_nil fun c hc => not_break_of_isWordPart (h.isWordPart c hc)

theorem toList_marked (name : String) : ("@" ++ name).toList = '@' :: name.toList := by
  rw [String.toList_append]
  rfl

theorem isWord_marked {name : String} (h : IsName name) : IsWord ("@" ++ name) := by
  refine isWord_of_forall ?_ ?_
  · rw [toList_marked]
    exact List.cons_ne_nil _ _
  · rw [toList_marked]
    exact List.forall_mem_cons.2
      ⟨by decide, fun c hc => not_break_of_isWordPart (h.isWordPart c hc)⟩

/-- **The text of a proper operand is a word.** -/
theorem isWord_operand {o : Operand} (h : o.Proper) : IsWord o.text := by
  cases o with
  | constant value =>
    have htext : (Operand.constant value).text = value.toNat.repr := by
      rw [Operand.text, Int.toString_eq_repr, Int.repr_eq_if, if_pos h.1]
    rw [htext]
    refine isWord_of_forall ?_ fun c hc => not_break_of_isDigit (isDigit_of_mem_repr hc)
    rw [Nat.toList_repr]
    exact Nat.toDigits_ne_nil
  | parameter name =>
    have hname : IsName name := h
    refine isWord_of_forall ?_ ?_
    · rw [toList_text_parameter]
      exact List.cons_ne_nil _ _
    · rw [toList_text_parameter]
      simp only [List.forall_mem_cons]
      exact ⟨by decide, by decide, by decide,
        fun c hc => not_break_of_isWordPart (hname.isWordPart c hc)⟩
  | temporary i =>
    refine isWord_of_forall ?_ ?_
    · rw [toList_text_temporary]
      exact List.cons_ne_nil _ _
    · rw [toList_text_temporary]
      simp only [List.forall_mem_cons]
      exact ⟨by decide, by decide, fun c hc => not_break_of_isDigit (isDigit_of_mem_repr hc)⟩

theorem isWord_operation (op : Operation) : IsWord op.word := by
  cases op <;> exact isWord_of_forall (by decide) (by simp [Operation.word, isBreak])

/-! ### Lines of instructions -/

/-- Operands as words, each behind its type. -/
def operandWords (operands : List Operand) : List String :=
  operands.flatMap fun operand => ["i32", operand.text]

/-- The words of an instruction. -/
def Instruction.words : Instruction → List String
  | compute target operation left right =>
    [(Operand.temporary target).text, "=", operation.word, "i32", left.text, right.text]
  | call target function arguments =>
    (Operand.temporary target).text :: "=" :: "call" :: "i32" :: ("@" ++ function) ::
      operandWords arguments
  | ret value => ["ret", "i32", value.text]

theorem typedWords_operandWords (operands : List Operand) :
    typedWords (operandWords operands) = some (operands.map Operand.text) := by
  induction operands with
  | nil => rfl
  | cons o more ih =>
    show (typedWords (operandWords more)).map (o.text :: ·) = _
    rw [ih]
    rfl

/-- The machine finds the line of an instruction in the words of it. -/
theorem ofWords?_words (i : Instruction) : Line.ofWords? i.words = some i.line := by
  cases i with
  | compute target operation left right => cases operation <;> rfl
  | call target function arguments =>
    have hmark : afterMark? '@' ("@" ++ function) = some function := by
      rw [afterMark?, toList_marked]
      simp
    simp only [Instruction.words, Line.ofWords?, hmark, typedWords_operandWords, Instruction.line]
  | ret value => rfl

/-! ### Characters of lines -/

theorem isWord_i32 : IsWord "i32" := isWord_of_forall (by decide) (by simp [isBreak])

theorem isWord_temporary (i : ℕ) : IsWord (Operand.temporary i).text := isWord_operand trivial

theorem toList_argumentText_singleton (o : Operand) :
    (argumentText [o]).toList = "i32".toList ++ ' ' :: o.text.toList := by
  simp [argumentText]

theorem toList_argumentText_cons (o o' : Operand) (more : List Operand) :
    (argumentText (o :: o' :: more)).toList =
      "i32".toList ++ ' ' :: (o.text.toList ++ ',' :: ' ' :: (argumentText (o' :: more)).toList) := by
  simp [argumentText, String.intercalate_cons_cons]

theorem noEnd_argumentText {operands : List Operand} (h : ∀ o ∈ operands, o.Proper) :
    '\n' ∉ (argumentText operands).toList := by
  induction operands with
  | nil => decide
  | cons o more ih =>
    obtain ⟨ho, hmore⟩ := List.forall_mem_cons.1 h
    have hend := (isWord_operand ho).noEnd
    cases more with
    | nil =>
      rw [toList_argumentText_singleton]
      simpa using hend
    | cons o' more =>
      rw [toList_argumentText_cons]
      simpa [hend] using ih hmore

/-- Operands with their types and commas between them have their words. -/
theorem wordsOf_argumentText {operands : List Operand} (h : ∀ o ∈ operands, o.Proper)
    (rest : List Char) : wordsOf ((argumentText operands).toList ++ ')' :: rest) =
      operandWords operands ++ wordsOf rest := by
  induction operands with
  | nil => exact wordsOf_break rfl rest
  | cons o more ih =>
    obtain ⟨ho, hmore⟩ := List.forall_mem_cons.1 h
    cases more with
    | nil =>
      rw [toList_argumentText_singleton, List.append_assoc, List.cons_append,
        wordsOf_word isWord_i32 rfl, wordsOf_word (isWord_operand ho) rfl]
      rfl
    | cons o' more =>
      rw [toList_argumentText_cons, List.append_assoc, List.cons_append, List.append_assoc,
        List.cons_append, List.cons_append, wordsOf_word isWord_i32 rfl,
        wordsOf_word (isWord_operand ho) rfl, wordsOf_break rfl, ih hmore]
      rfl

/-- The characters of an instruction, without the end of the line. -/
def Instruction.chars : Instruction → List Char
  | compute target operation left right =>
    ' ' :: ' ' :: ((Operand.temporary target).text.toList ++ ' ' :: ("=".toList ++
      ' ' :: (operation.word.toList ++ ' ' :: ("i32".toList ++ ' ' :: (left.text.toList ++
      ',' :: ' ' :: right.text.toList)))))
  | call target function arguments =>
    ' ' :: ' ' :: ((Operand.temporary target).text.toList ++ ' ' :: ("=".toList ++
      ' ' :: ("call".toList ++ ' ' :: ("i32".toList ++ ' ' :: (("@" ++ function).toList ++
      '(' :: ((argumentText arguments).toList ++ [')']))))))
  | ret value =>
    ' ' :: ' ' :: ("ret".toList ++ ' ' :: ("i32".toList ++ ' ' :: value.text.toList))

theorem toList_text (i : Instruction) : i.text.toList = i.chars ++ ['\n'] := by
  -- The equations of definitions with many literals are slow to make; `delta` needs none.
  delta Instruction.text
  cases i with
  | compute target operation left right =>
    simp [Instruction.chars, toList_text_temporary, toString]
  | call target function arguments =>
    simp [Instruction.chars, toList_text_temporary, toString]
  | ret value => simp [Instruction.chars, toString]

theorem noEnd_chars {i : Instruction} (h : i.Proper) : '\n' ∉ i.chars := by
  cases i with
  | compute target operation left right =>
    have h₁ := (isWord_temporary target).noEnd
    have h₂ := (isWord_operation operation).noEnd
    have h₃ := (isWord_operand h.1).noEnd
    have h₄ := (isWord_operand h.2).noEnd
    simp [Instruction.chars, h₁, h₂, h₃, h₄]
  | call target function arguments =>
    have h₁ := (isWord_temporary target).noEnd
    have h₂ := (isWord_name h.1).noEnd
    have h₃ := noEnd_argumentText h.2
    simp [Instruction.chars, h₁, h₂, h₃]
  | ret value =>
    have h₁ : '\n' ∉ value.text.toList := (isWord_operand h).noEnd
    simp [Instruction.chars, h₁]

theorem wordsOf_chars {i : Instruction} (h : i.Proper) : wordsOf i.chars = i.words := by
  have hequals : IsWord "=" := isWord_of_forall (by decide) (by simp [isBreak])
  cases i with
  | compute target operation left right =>
    rw [Instruction.chars, wordsOf_break rfl, wordsOf_break rfl,
      wordsOf_word (isWord_temporary target) rfl, wordsOf_word hequals rfl,
      wordsOf_word (isWord_operation operation) rfl, wordsOf_word isWord_i32 rfl,
      wordsOf_word (isWord_operand h.1) rfl, wordsOf_break rfl, wordsOf_last (isWord_operand h.2)]
    rfl
  | call target function arguments =>
    have hcall : IsWord "call" := isWord_of_forall (by decide) (by simp [isBreak])
    rw [Instruction.chars, wordsOf_break rfl, wordsOf_break rfl,
      wordsOf_word (isWord_temporary target) rfl, wordsOf_word hequals rfl,
      wordsOf_word hcall rfl, wordsOf_word isWord_i32 rfl, wordsOf_word (isWord_marked h.1) rfl,
      wordsOf_argumentText h.2, wordsOf_nil, List.append_nil]
    rfl
  | ret value =>
    have hret : IsWord "ret" := isWord_of_forall (by decide) (by simp [isBreak])
    have hvalue : IsWord value.text := isWord_operand h
    rw [Instruction.chars, wordsOf_break rfl, wordsOf_break rfl, wordsOf_word hret rfl,
      wordsOf_word isWord_i32 rfl, wordsOf_last hvalue]
    rfl

theorem chars_ne_close (i : Instruction) : i.chars ≠ ['}'] := by
  cases i <;> simp [Instruction.chars]

/-! ### Texts of functions -/

theorem splitOn_line {line : List Char} (h : '\n' ∉ line) (rest : List Char) :
    (line ++ '\n' :: rest).splitOn '\n' = line :: rest.splitOn '\n' := by
  rw [List.splitOn_eq_splitOnP, List.splitOn_eq_splitOnP,
    List.splitOnP_append_cons_of_forall_mem _ '\n' (by simp)]
  intro c hc
  simp only [beq_eq_false_iff_ne, ne_eq]
  rintro rfl
  exact h hc

/-- The machine reads the lines of a block up to the brace that closes it. -/
theorem readLines_texts {body : List Instruction} (h : ∀ i ∈ body, i.Proper)
    (rest : List Char) :
    readLines ((body.flatMap (fun i => i.text.toList) ++ '}' :: '\n' :: rest).splitOn '\n') =
      some (body.map Instruction.line) := by
  induction body with
  | nil =>
    have hclose : (['}'] ++ '\n' :: rest).splitOn '\n' = ['}'] :: rest.splitOn '\n' :=
      splitOn_line (by decide) rest
    simp only [List.flatMap_nil, List.nil_append, List.singleton_append] at hclose ⊢
    rw [hclose, readLines, if_pos rfl]
    rfl
  | cons i more ih =>
    obtain ⟨hi, hmore⟩ := List.forall_mem_cons.1 h
    rw [List.flatMap_cons, toList_text, List.append_assoc, List.append_assoc,
      List.singleton_append, splitOn_line (noEnd_chars hi), readLines,
      if_neg (chars_ne_close i), wordsOf_chars hi, ofWords?_words, ih hmore]
    rfl

/-- The characters of the line that opens a function, without its end. -/
def FunctionCode.opening (c : FunctionCode) : List Char :=
  "define".toList ++ ' ' :: ("i32".toList ++ ' ' :: (("@" ++ c.name).toList ++
    '(' :: ((argumentText (c.parameters.map .parameter)).toList ++
    ')' :: ' ' :: "\x7b".toList)))

theorem toList_functionText (c : FunctionCode) :
    c.text.toList = c.opening ++ '\n' :: ("entry:".toList ++
      '\n' :: (c.body.flatMap (fun i => i.text.toList) ++ ['}', '\n'])) := by
  delta FunctionCode.text FunctionCode.opening
  simp [toString, String.toList_join, List.flatMap_map]

theorem proper_parameters {c : FunctionCode} (h : c.Proper) :
    ∀ o ∈ c.parameters.map Operand.parameter, o.Proper :=
  List.forall_mem_map.2 h.parameters

theorem noEnd_opening {c : FunctionCode} (h : c.Proper) : '\n' ∉ c.opening := by
  have h₁ := (isWord_name h.name).noEnd
  have h₂ := noEnd_argumentText (proper_parameters h)
  delta FunctionCode.opening
  simp [h₁, h₂]

theorem wordsOf_opening {c : FunctionCode} (h : c.Proper) :
    wordsOf c.opening = "define" :: "i32" :: ("@" ++ c.name) ::
      (operandWords (c.parameters.map .parameter) ++ ["\x7b"]) := by
  have hdefine : IsWord "define" := isWord_of_forall (by decide) (by simp [isBreak])
  have hbrace : IsWord "\x7b" := isWord_of_forall (by decide) (by simp [isBreak])
  delta FunctionCode.opening
  rw [wordsOf_word hdefine rfl, wordsOf_word isWord_i32 rfl,
    wordsOf_word (isWord_marked h.name) rfl, wordsOf_argumentText (proper_parameters h),
    wordsOf_break rfl, wordsOf_last hbrace]

/-- **The machine reads the text of proper code as its routine.** -/
theorem read?_text {c : FunctionCode} (h : c.Proper) :
    Routine.read? c.text = some c.routine := by
  have hlines := readLines_texts h.body []
  have hmark : afterMark? '@' ("@" ++ c.name) = some c.name := by
    rw [afterMark?, toList_marked]
    simp
  have hparams : typedWords ((operandWords (c.parameters.map .parameter) ++
      ["\x7b"]).dropLast) = some (c.parameters.map fun name => (Operand.parameter name).text) := by
    rw [List.dropLast_concat, typedWords_operandWords, List.map_map]
    rfl
  have hlabel : '\n' ∉ "entry:".toList := by decide
  rw [Routine.read?, toList_functionText, splitOn_line (noEnd_opening h), splitOn_line hlabel]
  simp only [wordsOf_opening h, hlines, hmark, hparams]
  rw [if_pos]
  · rfl
  · simp

end Ingot.Code

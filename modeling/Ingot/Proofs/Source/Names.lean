import Mathlib.Data.List.TakeWhile
import Ingot.Proofs.Outcome
import Ingot.Proofs.Source.MadeOf
import Ingot.Source.Lexing

/-!
# Names and numbers of a text

A name is a word that is not reserved, and a number literal is one that 32 bits with a sign
can hold. All lexemes of a text are of this form (`tokens_proper`), so that **all names and
numbers of a program read from a text are** (`proper_of_parse`).
-/

namespace Ingot.Source

/-- A word of the language that is not reserved. -/
structure IsName (name : String) : Prop where
  word : ∃ c rest, name.toList = c :: rest ∧ isWordStart c = true ∧ ∀ d ∈ rest, isWordPart d = true
  notReserved : name ≠ "fn" ∧ name ≠ "let" ∧ name ≠ "return"

theorem isWordPart_of_isWordStart {c : Char} (h : isWordStart c = true) : isWordPart c = true := by
  simp only [isWordStart, isWordPart, Bool.or_eq_true] at h ⊢
  rcases h with h | h
  · exact .inl (.inl h)
  · exact .inr h

theorem IsName.isWordPart {name : String} (h : IsName name) :
    ∀ c ∈ name.toList, isWordPart c = true := by
  obtain ⟨c, rest, heq, hstart, hparts⟩ := h.word
  rw [heq]
  exact List.forall_mem_cons.2 ⟨isWordPart_of_isWordStart hstart, hparts⟩

theorem IsName.toList_ne_nil {name : String} (h : IsName name) : name.toList ≠ [] := by
  obtain ⟨c, rest, heq, _⟩ := h.word
  rw [heq]
  exact List.cons_ne_nil c rest

/-- A lexeme as a text can have it: names are no reserved words, and numbers fit. -/
def Lexeme.Proper : Lexeme → Prop
  | name text => IsName text
  | number value => 0 ≤ value ∧ value ≤ largestLiteral
  | _ => True

theorem wordLexeme_proper {c : Char} {rest : List Char} (hstart : isWordStart c = true)
    (hparts : ∀ d ∈ rest, isWordPart d = true) : (wordLexeme (c :: rest)).Proper := by
  unfold wordLexeme
  split
  · trivial
  · trivial
  · trivial
  · rename_i hfn hlet hreturn
    exact ⟨⟨c, rest, by simp, hstart, hparts⟩, hfn, hlet, hreturn⟩

theorem wordLexeme_of_isName {name : String} (h : IsName name) :
    wordLexeme name.toList = .name name := by
  obtain ⟨-, hfn, hlet, hreturn⟩ := h
  unfold wordLexeme
  rw [String.ofList_toList]
  split
  · exact absurd rfl hfn
  · exact absurd rfl hlet
  · exact absurd rfl hreturn
  · rfl

theorem numberLexeme_proper {digits : List Char} {lexeme : Lexeme}
    (h : numberLexeme digits = .ok lexeme) : lexeme.Proper := by
  simp only [numberLexeme] at h
  split at h
  · cases h
  · split at h
    · cases h
    · cases h
      exact ⟨by omega, by omega⟩

theorem readLexeme_proper {c : Char} {rest : List Char} {lexeme : Lexeme} {more : Nat}
    (h : readLexeme c rest = .ok (lexeme, more)) : lexeme.Proper := by
  unfold readLexeme at h
  split at h
  case h_14 =>
    split at h
    · obtain ⟨lexeme', hnumber, heq⟩ := of_except_map_ok h
      cases heq
      exact numberLexeme_proper hnumber
    · split at h
      · rename_i hstart
        cases h
        exact wordLexeme_proper hstart fun d hd => List.mem_takeWhile_imp hd
      · cases h
  case h_13 =>
    split at h
    · cases h
      trivial
    · cases h
      trivial
  all_goals
    cases h
    trivial

theorem tokensFrom_proper {p : Position} {text : List Char} {tokens : List Token}
    (h : tokensFrom p text = .ok tokens) : ∀ t ∈ tokens, t.lexeme.Proper := by
  fun_induction tokensFrom p text generalizing tokens with
  | case1 p text here hskip =>
    cases h
    simp [Lexeme.Proper]
  | case2 p text here c rest hskip fault hread => cases h
  | case3 p text here c rest hskip lexeme more hread fault hrest => cases h
  | case4 p text here c rest hskip lexeme more hread found hrest ih =>
    cases h
    exact List.forall_mem_cons.2 ⟨readLexeme_proper hread, ih hrest⟩

/-- **The lexemes of a text are proper.** -/
theorem tokens_proper {text : String} {ts : List Token} (h : tokens text = .ok ts) :
    ∀ t ∈ ts, t.lexeme.Proper := tokensFrom_proper h

/-- The names and numbers of a program that was read from a text are proper. -/
theorem proper_of_parse {text : String} {ts : List Token} {program : Program}
    (htokens : tokens text = .ok ts) (hparse : parse ts = .ok program) :
    ∀ f ∈ program.functions, f.MadeOf fun t => t.lexeme.Proper :=
  parse_madeOf (tokens_proper htokens) hparse

end Ingot.Source

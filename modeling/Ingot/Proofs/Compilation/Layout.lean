import Ingot.Compilation.FrontEnd
import Ingot.Proofs.Code.Moving
import Ingot.Proofs.Source.Layout

/-!
# Layout does not matter

What a text is compiled to depends on its lexemes alone, and so does whether it is rejected, and
why: only the place that is blamed may be another one (`compileText_layout`). Since a layout may be
replaced by another without any change of the lexemes, a text may be laid out in any way.
-/

namespace Ingot.Compilation

open Source Code Text

/-- Two faults that differ at most in the place they tell. -/
inductive SameButPlace : FrontEndFault → FrontEndFault → Prop where
  /-- The source cannot be read. -/
  | unreadable (fault : IoFault) : SameButPlace (.unreadable fault) (.unreadable fault)
  /-- The text does not follow the grammar. -/
  | grammar (p q : Position) (message : String) :
      SameButPlace (.grammar p message) (.grammar q message)
  /-- The text has no meaning. -/
  | meaning (p q : Position) (message : String) :
      SameButPlace (.meaning p message) (.meaning q message)

/-- Faults that are the same when they are moved differ at most in their places. -/
theorem sameButPlace_ofFault {move : Position → Position} {fault fault' : Source.Fault}
    (h : fault.moved move = fault'.moved move) :
    SameButPlace (.ofFault fault) (.ofFault fault') := by
  cases fault with
  | grammar p g =>
    cases fault' with
    | grammar q g' =>
      obtain ⟨-, rfl⟩ := Source.Fault.grammar.inj h
      exact .grammar p q _
    | meaning => cases h
  | meaning p g =>
    cases fault' with
    | grammar => cases h
    | meaning q g' =>
      obtain ⟨-, rfl⟩ := Source.Fault.meaning.inj h
      exact .meaning p q _

/-- Texts with the same lexemes are both compiled, to the same module, or both rejected, for the
same reason. -/
theorem compileText_of_lexemes_eq {text text' : String} {ts ts' : List Token}
    (hread : tokens text = .ok ts) (hread' : tokens text' = .ok ts')
    (h : ts.map Token.lexeme = ts'.map Token.lexeme) (name sourceName : String) :
    Alike SameButPlace Eq (compileText name sourceName text)
      (compileText name sourceName text') := by
  have hsame := lowerTokens_congr name sourceName h
  unfold compileText
  rw [compile_of_tokens hread, compile_of_tokens hread']
  cases hcode : lowerTokens name sourceName ts with
  | error fault =>
    cases hcode' : lowerTokens name sourceName ts' with
    | error fault' =>
      rw [hcode, hcode'] at hsame
      exact .error (sameButPlace_ofFault (Except.error.inj hsame))
    | ok code' =>
      rw [hcode, hcode'] at hsame
      cases hsame
  | ok code =>
    cases hcode' : lowerTokens name sourceName ts' with
    | error fault' =>
      rw [hcode, hcode'] at hsame
      cases hsame
    | ok code' =>
      rw [hcode, hcode'] at hsame
      obtain rfl : code = code' := Except.ok.inj hsame
      exact .ok rfl

/-- **Layout does not matter.** Two texts with the same lexemes are compiled to the same module, or
they are rejected with faults of the same kind and with the same message, whatever the places that
these tell. And a text with another layout at one place, be it white space or comments that end with
their lines, has the same lexemes, and so the same goes for it. -/
theorem compileText_layout (name sourceName text text' : String) :
    (∀ ts ts', tokens text = .ok ts → tokens text' = .ok ts' →
      ts.map Token.lexeme = ts'.map Token.lexeme →
      Alike SameButPlace Eq (compileText name sourceName text)
        (compileText name sourceName text')) ∧
    ∀ ts, tokens text = .ok ts → Relaid text.toList text'.toList →
      (∃ ts', tokens text' = .ok ts' ∧ ts'.map Token.lexeme = ts.map Token.lexeme) ∧
      Alike SameButPlace Eq (compileText name sourceName text)
        (compileText name sourceName text') := by
  constructor
  · intro ts ts' hread hread' hlexemes
    exact compileText_of_lexemes_eq hread hread' hlexemes name sourceName
  · intro ts hread hrelaid
    obtain ⟨ts', hread', hlexemes⟩ := hrelaid.lexemes_eq hread
    exact ⟨⟨ts', hread', hlexemes⟩,
      compileText_of_lexemes_eq hread hread' hlexemes.symm name sourceName⟩

/-- The blank behind the first word may be a comment on a line of its own, and a variable without a
meaning is blamed wherever it stands. -/
theorem compileText_layout_comment :
    (∃ ts, tokens "fn f() -> i32 { return x; }" = .ok ts) ∧
    Relaid "fn f() -> i32 { return x; }".toList "fn\n\t// x\nf() -> i32 { return x; }".toList ∧
    Alike SameButPlace Eq (compileText "m" "m.ion" "fn f() -> i32 { return x; }")
      (compileText "m" "m.ion" "fn\n\t// x\nf() -> i32 { return x; }") := by
  obtain ⟨ts, hread⟩ : ∃ ts, tokens "fn f() -> i32 { return x; }" = .ok ts := ⟨_, by cbv⟩
  obtain ⟨us, hbehind⟩ : ∃ us, tokensFrom .start "f() -> i32 { return x; }".toList = .ok us :=
    ⟨_, by cbv⟩
  have hcomment : '\n' ∉ " x".toList := by decide
  have hlayout : IsLayout "\n\t// x\n".toList :=
    .blank (by decide) (.blank (by decide) (.comment hcomment .nil))
  have hrelaid : Relaid "fn f() -> i32 { return x; }".toList
      "fn\n\t// x\nf() -> i32 { return x; }".toList :=
    Lexeme.Fixed.relaid (l := .fnWord) trivial (by decide) (by decide) hlayout hbehind
  exact ⟨⟨ts, hread⟩, hrelaid, ((compileText_layout "m" "m.ion" _ _).2 ts hread hrelaid).2⟩

end Ingot.Compilation

import Ingot.Proofs.Code.Meaningful
import Ingot.Proofs.Compilation.Places
import Ingot.Proofs.Source.Statements

/-!
# Where statements begin

No two tokens of a text of less than `2 ^ 32` characters have one position, so that the position of
a statement tells its own token. That is its first one, **unless the statement is an expression on its own that starts with a
parenthesis, or that is an operation on two operands** (`statement_position`): then the position is
that of a token further on. With the statement, the fault of what stands behind a return statement
is told at its own token, not always at its beginning (`statement_position_not_first`).
-/

namespace Ingot.Source

/-! ### Positions of tokens -/

/-- Behind a piece that has a lexeme, no position is that of the lexeme. -/
theorem ne_positionBehind {before chars front : List Char} (h : chars ≠ [])
    (hlength : (chars ++ front).length < 2 ^ 32) :
    positionBehind (before ++ chars ++ front) ≠ positionBehind before := by
  intro heq
  rw [List.append_assoc] at heq
  exact h (List.append_eq_nil_iff.1 (eq_nil_of_positionBehind hlength heq)).1

/-- Lexemes of pieces that stand behind a text have different positions, and so has the end behind
them. -/
theorem nodup_positions_tokensOf {pieces : List Piece} (h : ∀ piece ∈ pieces, piece.chars ≠ [])
    (hlength : (charsOf pieces).length < 2 ^ 32) (before : List Char) :
    ((tokensOf before pieces ++ [Token.mk .finish (positionBehind (before ++ charsOf pieces))]).map
      Token.position).Nodup := by
  induction pieces generalizing before with
  | nil => exact List.nodup_singleton _
  | cons piece more ih =>
    obtain ⟨chars, lexeme?⟩ := piece
    obtain ⟨hchars, hmore⟩ := List.forall_mem_cons.1 h
    have hall : charsOf (⟨chars, lexeme?⟩ :: more) = chars ++ charsOf more := List.flatMap_cons
    rw [hall] at hlength ⊢
    have hsum : chars.length + (charsOf more).length < 2 ^ 32 := by
      rwa [← List.length_append]
    have hbehind := ih hmore (by omega) (before ++ chars)
    rw [List.append_assoc before chars] at hbehind
    cases lexeme? with
    | none => exact hbehind
    | some l =>
      refine List.nodup_cons.2 ⟨fun hmem => ?_, hbehind⟩
      obtain ⟨t, ht, hposition⟩ := List.mem_map.1 hmem
      rcases List.mem_append.1 ht with hlexeme | hfinish
      · obtain ⟨front, hprefix, hfront⟩ := position_of_mem_tokensOf hlexeme
        have hshort : (chars ++ front).length < 2 ^ 32 := by
          have hle := hprefix.length_le
          rw [List.length_append]
          omega
        exact ne_positionBehind hchars hshort (hfront.symm.trans hposition)
      · rw [List.mem_singleton.1 hfinish] at hposition
        have hend : positionBehind (before ++ chars ++ charsOf more) = positionBehind before := by
          rw [List.append_assoc]
          exact hposition
        exact ne_positionBehind hchars hlength hend

/-- The tokens of a text have different positions, if it is not so long that these come again. -/
theorem nodup_positions {text : String} {ts : List Token} (h : tokens text = .ok ts)
    (hlength : text.length < 2 ^ 32) : (ts.map Token.position).Nodup := by
  obtain ⟨pieces, hcut, rfl⟩ := exists_cut_of_ok h
  have htext : text.toList = charsOf pieces := by rw [hcut.eq_append, List.append_nil]; rfl
  rw [← String.length_toList, htext] at hlength
  rw [htext]
  exact nodup_positions_tokensOf (fun piece hpiece => (hcut.isPiece piece hpiece).ne_nil) hlength []

/-! ### Statements and their tokens -/

/-- A statement of a program, and its tokens among those that the program was read from: the first
one and those behind it. -/
structure Program.StatementAt (program : Program) (tokens : List Token) (j i : ℕ) (s : Statement)
    (first : Token) (rest : List Token) : Prop where
  inTree : ∃ f, program.functions[j]? = some f ∧ f.body[i]? = some s
  inText : ∃ parts, (statementTokens tokens)[j]? = some parts ∧ parts[i]? = some (first :: rest)

section Statements

variable {program : Program} {ts : List Token} {j i : ℕ} {s : Statement}

/-- Each statement has its tokens. -/
theorem exists_statementAt (hparse : parse ts = .ok program) {f : Function}
    (hf : program.functions[j]? = some f) (hs : f.body[i]? = some s) :
    ∃ first rest, program.StatementAt ts j i s first rest := by
  obtain ⟨parts, hparts, hbody⟩ := exists_getElem?_of_forall₂ (parse_statementTokens hparse) hf
  obtain ⟨part, hpart, hstatement⟩ := exists_getElem?_of_forall₂ hbody hs
  obtain ⟨first, rest, rfl, -⟩ := hstatement.begins
  exact ⟨first, rest, ⟨f, hf, hs⟩, parts, hparts, hpart⟩

variable {first : Token} {rest : List Token}

theorem Program.StatementAt.isStatement (h : program.StatementAt ts j i s first rest)
    (hparse : parse ts = .ok program) : IsStatement (first :: rest) s := by
  obtain ⟨⟨f, hf, hs⟩, parts, hparts, hpart⟩ := h
  obtain ⟨parts', hparts', hbody⟩ := exists_getElem?_of_forall₂ (parse_statementTokens hparse) hf
  obtain rfl := Option.some.inj (hparts.symm.trans hparts')
  obtain ⟨part, hpart', hstatement⟩ := exists_getElem?_of_forall₂ hbody hs
  obtain rfl := Option.some.inj (hpart.symm.trans hpart')
  exact hstatement

/-- The tokens of a statement are tokens of the text. -/
theorem Program.StatementAt.sublist (h : program.StatementAt ts j i s first rest) :
    (first :: rest).Sublist ts := by
  obtain ⟨-, parts, hparts, hpart⟩ := h
  exact sublist_of_mem_statementTokens (List.mem_of_getElem? hparts) (List.mem_of_getElem? hpart)

/-- A statement stands where its own token stands, which is its first one or behind it. -/
theorem Program.StatementAt.position_eq (h : program.StatementAt ts j i s first rest)
    (hparse : parse ts = .ok program) (hstands : s.StandsFirst first) :
    s.position = first.position := by
  obtain ⟨first', rest', heq, hfirst, -⟩ := (h.isStatement hparse).begins
  obtain ⟨rfl, rfl⟩ := List.cons.inj heq
  rw [← s.ownToken_position, hfirst hstands]

theorem Program.StatementAt.standsFirst (h : program.StatementAt ts j i s first rest)
    (hparse : parse ts = .ok program) (hnodup : (ts.map Token.position).Nodup)
    (hposition : s.position = first.position) : s.StandsFirst first := by
  obtain ⟨first', rest', heq, -, hbehind⟩ := (h.isStatement hparse).begins
  obtain ⟨rfl, rfl⟩ := List.cons.inj heq
  have hdistinct := (List.nodup_cons.1 (hnodup.sublist (h.sublist.map Token.position))).1
  rw [← s.ownToken_position] at hposition
  by_contra hnot
  exact hdistinct (hposition ▸ List.mem_map_of_mem (hbehind hnot))

end Statements

/-! ### Unreachable statements -/

/-- What is violated is violated at one of the places. -/
theorem IsFirstViolation.exists_violates {program : Program} {before places : List Place}
    {fault : Fault} (h : IsFirstViolation program before places fault) :
    ∃ before', ∃ place ∈ places, Violates program before' place fault := by
  induction h with
  | here h => exact ⟨_, _, List.mem_cons_self, h⟩
  | later _ _ ih =>
    obtain ⟨before', place, hplace, hviolates⟩ := ih
    exact ⟨before', place, List.mem_cons_of_mem _ hplace, hviolates⟩

end Ingot.Source

namespace Ingot.Code

open Source

/-- A statement that is told to be unreachable stands behind a return statement. -/
theorem exists_unreachable {name sourceName : String} {program : Program} {p : Position}
    (h : lower name sourceName program = .error (.meaning p .unreachable)) :
    ∃ f ∈ program.functions, ∃ earlier s behind, f.body = earlier ++ s :: behind ∧
      (∃ t ∈ earlier, t.isResult = true) ∧ s.position = p := by
  have hfirst := (lower_eq_error_iff name sourceName program _).1 h
  obtain ⟨before, place, hplace, hviolates⟩ := hfirst.exists_violates
  cases hviolates with
  | @statement earlier s t ht hresult =>
    obtain ⟨f, hf, behind, hbody⟩ := statement_mem_places.1 hplace
    exact ⟨f, hf, earlier, s, behind, hbody, ⟨t, ht, hresult⟩, rfl⟩

/-! ### Texts -/

/-- **Where the position of a statement is its beginning.** Let a text be read as a program. Each
statement of each function has its tokens in the text. Its position is that of one of them, and it
is that of the first one if and only if the statement is a binding or a return statement, or neither
starts with a parenthesis nor is an operation on two operands; only in a text of `2 ^ 32` characters
or more can another token stand at the same position by chance. A statement is told to be
unreachable with its position, where it stands behind a return statement. -/
theorem statement_position {text : String} {ts : List Token} {program : Program}
    (hread : tokens text = .ok ts) (hparse : parse ts = .ok program) :
    (∀ j f, program.functions[j]? = some f → ∀ i s, f.body[i]? = some s →
      ∃ first rest, program.StatementAt ts j i s first rest) ∧
    (∀ j i s first rest, program.StatementAt ts j i s first rest →
      IsStatement (first :: rest) s ∧ (first :: rest).Sublist ts ∧
        s.ownToken ∈ first :: rest ∧ s.ownToken.position = s.position ∧
        (s.StandsFirst first → s.position = first.position) ∧
        (text.length < 2 ^ 32 → s.position = first.position → s.StandsFirst first)) ∧
    ∀ name sourceName p, compile name sourceName text = .error (.meaning p .unreachable) →
      ∃ j i s first rest, program.StatementAt ts j i s first rest ∧
        (∃ f t, program.functions[j]? = some f ∧ t ∈ f.body.take i ∧ t.isResult = true) ∧
        s.position = p ∧ (s.StandsFirst first → p = first.position) ∧
        (text.length < 2 ^ 32 → p = first.position → s.StandsFirst first) := by
  refine ⟨fun j f hf i s hs => exists_statementAt hparse hf hs, ?_, ?_⟩
  · intro j i s first rest h
    have hstatement := h.isStatement hparse
    exact ⟨hstatement, h.sublist, hstatement.ownToken_mem, s.ownToken_position,
      h.position_eq hparse, fun hlength => h.standsFirst hparse (nodup_positions hread hlength)⟩
  · intro name sourceName p hcompile
    rw [compile_of_tokens hread, lowerTokens, hparse] at hcompile
    obtain ⟨f, hf, earlier, s, behind, hbody, ⟨t, ht, hresult⟩, rfl⟩ := exists_unreachable hcompile
    obtain ⟨j, hj⟩ := List.getElem?_of_mem hf
    have hs : f.body[earlier.length]? = some s := by
      rw [hbody, List.getElem?_append_right (Nat.le_refl _), Nat.sub_self]
      rfl
    obtain ⟨first, rest, hat⟩ := exists_statementAt hparse hj hs
    have hbefore : t ∈ f.body.take earlier.length := by rwa [hbody, List.take_left]
    exact ⟨j, _, s, first, rest, hat, ⟨f, t, hj, hbefore, hresult⟩, rfl, hat.position_eq hparse,
      fun hlength => hat.standsFirst hparse (nodup_positions hread hlength)⟩

/-- The last statement is in parentheses, and is told to be unreachable where its call stands. -/
theorem statement_position_parens :
    ∃ ts program, tokens "fn f() -> i32 { return 1; (g()); }" = .ok ts ∧ parse ts = .ok program ∧
      ∃ j i s first rest, program.StatementAt ts j i s first rest ∧ s.position = ⟨1, 28⟩ ∧
        (⟨1, 28⟩ = first.position ↔ s.StandsFirst first) := by
  have hcompile : compile "main" "main.ion" "fn f() -> i32 { return 1; (g()); }" =
      .error (.meaning ⟨1, 28⟩ .unreachable) := by cbv
  refine ⟨_, _, by cbv, by cbv, ?_⟩
  obtain ⟨-, -, hunreachable⟩ :=
    @statement_position "fn f() -> i32 { return 1; (g()); }" _ _ (by cbv) (by cbv)
  obtain ⟨j, i, s, first, rest, hat, -, hposition, hstands, honly⟩ := hunreachable _ _ _ hcompile
  exact ⟨j, i, s, first, rest, hat, hposition, honly (by decide), hstands⟩

/-- **The position of a statement is not always its beginning**, and a statement is not always told
to be unreachable there: the last one begins in column 27, and stands at its operator in column
29. -/
theorem statement_position_not_first :
    ∃ ts program s first rest, tokens "fn f() -> i32 { return 1; 2 + 3; }" = .ok ts ∧
      parse ts = .ok program ∧ program.StatementAt ts 0 1 s first rest ∧
      first.position = ⟨1, 27⟩ ∧ s.position = ⟨1, 29⟩ ∧
      compile "main" "main.ion" "fn f() -> i32 { return 1; 2 + 3; }" =
        .error (.meaning ⟨1, 29⟩ .unreachable) := by
  refine ⟨_, _, .effect (.binary .add (.number 2 ⟨1, 27⟩) (.number 3 ⟨1, 31⟩) ⟨1, 29⟩),
    ⟨.number 2, ⟨1, 27⟩⟩, [⟨.plus, ⟨1, 29⟩⟩, ⟨.number 3, ⟨1, 31⟩⟩, ⟨.semicolon, ⟨1, 32⟩⟩],
    by cbv, by cbv, ?_, rfl, rfl, by cbv⟩
  exact ⟨⟨_, rfl, rfl⟩, _, by cbv, rfl⟩

end Ingot.Code

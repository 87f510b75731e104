import Mathlib
import Ingot.Proofs.Source.RoundTrip

/-!
# The pieces of a text

A text is cut from its start into pieces, each the longest that is there: a white-space character,
a comment up to the end of its line, or the spelling of a lexeme. Cutting goes on to the end of the
text, or to the first character that no piece starts with, or to the first number above the limit.

The reader of tokens does just that. **A text has tokens exactly when it can be cut to its end into
pieces whose numbers fit, and the tokens are the lexemes of these pieces, each at the position of
its first character; otherwise the fault stands where the cutting stops** (`tokens_exact`).
-/

namespace Ingot.Source

open Ingot.Text

/-! ### Pieces -/

/-- A lexeme with a single spelling: a reserved word, punctuation or an operator. -/
def Lexeme.Fixed : Lexeme → Prop
  | finish => False
  | name _ => False
  | number _ => False
  | _ => True

/-- The digits of a number without the underscores among them. -/
def plainDigits (cs : List Char) : List Char := cs.filter (· != '_')

/-- The number that digits write in the decimal system, with underscores among them. -/
def writtenNumber (cs : List Char) : ℕ := Nat.ofDigitChars 10 (plainDigits cs) 0

/-- A row of characters of a text, and the lexeme that it is, if it is one. -/
structure Piece where
  /-- The characters. -/
  chars : List Char
  /-- The lexeme; white space and comments are none. -/
  lexeme? : Option Lexeme

/-- What a text is made of. -/
inductive IsPiece : Piece → Prop where
  /-- A white-space character. -/
  | blank {c : Char} : isBlank c = true → IsPiece ⟨[c], none⟩
  /-- Two slashes and anything behind them on the line. -/
  | comment {cs : List Char} : '\n' ∉ cs → IsPiece ⟨'/' :: '/' :: cs, none⟩
  /-- The spelling of a reserved word, of punctuation or of an operator. -/
  | fixed {l : Lexeme} : l.Fixed → IsPiece ⟨l.spelling.toList, some l⟩
  /-- A word that is not reserved. -/
  | name {name : String} : IsName name → IsPiece ⟨name.toList, some (.name name)⟩
  /-- A digit, and digits and underscores behind it. -/
  | number {c : Char} {cs : List Char} : c.isDigit = true → (∀ d ∈ cs, isNumberPart d = true) →
      IsPiece ⟨c :: cs, some (.number (writtenNumber (c :: cs)))⟩

/-- A piece that a text starts with, and no longer piece does. -/
structure Piece.Leads (piece : Piece) (text : List Char) : Prop where
  isPiece : IsPiece piece
  ahead : piece.chars <+: text
  longest : ∀ other, IsPiece other → other.chars <+: text →
    other.chars.length ≤ piece.chars.length

/-- A piece whose number, if it is one, fits in 32 bits with a sign. -/
def Piece.Fits (piece : Piece) : Prop := ∀ n : ℤ, piece.lexeme? = some (.number n) → n < 2 ^ 31

/-- A text is cut from its start into pieces, the longest piece first, and the last list of
characters is left. -/
inductive Cut : List Char → List Piece → List Char → Prop where
  /-- All of the text is left. -/
  | nil {text : List Char} : Cut text [] text
  /-- A piece, and others behind it. -/
  | cons {piece : Piece} {text rest : List Char} {more : List Piece} :
      piece.Leads (piece.chars ++ text) → Cut text more rest →
      Cut (piece.chars ++ text) (piece :: more) rest

/-- A text that starts with no piece, or with a number above the limit. -/
inductive Offends : List Char → GrammarFault → Prop where
  /-- No piece has this character as its first one. -/
  | stray {c : Char} {rest : List Char} : (∀ cs l, ¬ IsPiece ⟨c :: cs, l⟩) →
      Offends (c :: rest) (.strayCharacter c)
  /-- A number that fits in 64 bits with a sign, but not in 32. -/
  | outOfRange {chars rest : List Char} {n : ℤ} :
      Piece.Leads ⟨chars, some (.number n)⟩ (chars ++ rest) → 2 ^ 31 ≤ n → n < 2 ^ 63 →
      Offends (chars ++ rest) (.numberOutOfRange (String.ofList (plainDigits chars)))
  /-- A number that does not fit in 64 bits either. -/
  | tooLarge {chars rest : List Char} {n : ℤ} :
      Piece.Leads ⟨chars, some (.number n)⟩ (chars ++ rest) → 2 ^ 63 ≤ n →
      Offends (chars ++ rest) (.numberTooLarge (String.ofList (plainDigits chars)))

/-! ### Positions -/

/-- The characters of a text behind its last line feed. -/
def lastLine (text : List Char) : List Char := text.reverse.takeWhile (· != '\n')

/-- The position of what stands behind a text: its line is one more than the line feeds, and its
column is one more than the characters behind the last of them, in numbers of 32 bits. -/
def positionBehind (before : List Char) : Position :=
  ⟨1 + UInt32.ofNat (before.count '\n'), 1 + UInt32.ofNat (lastLine before).length⟩

theorem positionBehind_concat (before : List Char) (c : Char) :
    positionBehind (before ++ [c]) = (positionBehind before).after c := by
  unfold positionBehind Position.after lastLine
  by_cases hc : c = '\n'
  · subst hc
    simp [List.count_append, UInt32.ofNat_add, add_assoc]
  · have hcount : [c].count '\n' = 0 := by simp [hc]
    simp [List.count_append, hc, hcount, UInt32.ofNat_add, add_assoc]

/-- Positions are counted one character after the other. -/
theorem afterAll_positionBehind (before text : List Char) :
    (positionBehind before).afterAll text = positionBehind (before ++ text) := by
  induction text generalizing before with
  | nil => rw [List.append_nil, Position.afterAll_nil]
  | cons c text ih =>
    rw [Position.afterAll_cons, ← positionBehind_concat, ih, List.append_assoc]
    rfl

theorem afterAll_of_line {text : List Char} (h : '\n' ∉ text) (p : Position) :
    p.afterAll text = ⟨p.line, p.column + UInt32.ofNat text.length⟩ := by
  induction text generalizing p with
  | nil => simp
  | cons c text ih =>
    rw [List.mem_cons, not_or] at h
    rw [Position.afterAll_cons, ih h.2, Position.after, if_neg (Ne.symm h.1), List.length_cons,
      UInt32.ofNat_add, add_comm (UInt32.ofNat text.length), add_assoc]
    rfl

/-! ### Exact positions -/

/-- The lexemes among pieces, each at the position of its first character, if the pieces stand
behind a text. -/
def tokensOf (before : List Char) : List Piece → List Token
  | [] => []
  | ⟨chars, none⟩ :: more => tokensOf (before ++ chars) more
  | ⟨chars, some l⟩ :: more => ⟨l, positionBehind before⟩ :: tokensOf (before ++ chars) more

/-! ### What is a piece -/

/-- A word is a piece: a reserved word or a name. -/
theorem isPiece_word {c : Char} {more : List Char} (hstart : isWordStart c = true)
    (hmore : ∀ d ∈ more, isWordPart d = true) :
    IsPiece ⟨c :: more, some (wordLexeme (c :: more))⟩ := by
  have hchars : (String.ofList (c :: more)).toList = c :: more := String.toList_ofList
  unfold wordLexeme
  split
  · rename_i hfn
    rw [hfn] at hchars
    rw [← hchars]
    exact .fixed (l := .fnWord) trivial
  · rename_i hlet
    rw [hlet] at hchars
    rw [← hchars]
    exact .fixed (l := .letWord) trivial
  · rename_i hreturn
    rw [hreturn] at hchars
    rw [← hchars]
    exact .fixed (l := .returnWord) trivial
  · rename_i hfn hlet hreturn
    have hpiece := IsPiece.name ⟨⟨c, more, hchars, hstart, hmore⟩, hfn, hlet, hreturn⟩
    rw [hchars] at hpiece
    exact hpiece

theorem isPiece_symbol {c : Char} {l : Lexeme} (hl : l.Fixed) (hc : l.spelling.toList = [c]) :
    IsPiece ⟨[c], some l⟩ := hc ▸ .fixed hl

theorem IsPiece.ne_nil {piece : Piece} (h : IsPiece piece) : piece.chars ≠ [] := by
  cases h with
  | blank => exact List.cons_ne_nil _ _
  | comment => exact List.cons_ne_nil _ _
  | fixed hl =>
    rename_i l
    cases l
    all_goals first | exact hl.elim | exact List.cons_ne_nil _ _
  | name h => exact h.toList_ne_nil
  | number => exact List.cons_ne_nil _ _

/-- The first character of a piece is a piece. -/
theorem IsPiece.head {piece : Piece} (h : IsPiece piece) {c : Char} {cs : List Char}
    (hchars : piece.chars = c :: cs) : ∃ l, IsPiece ⟨[c], l⟩ := by
  have hword (hstart : isWordStart c = true) : ∃ l, IsPiece ⟨[c], l⟩ :=
    ⟨_, isPiece_word hstart (List.forall_mem_nil _)⟩
  cases h with
  | blank hblank =>
    cases hchars
    exact ⟨none, .blank hblank⟩
  | comment =>
    cases hchars
    exact ⟨_, isPiece_symbol (l := .slash) trivial rfl⟩
  | @fixed l hl =>
    cases l
    case finish => exact hl.elim
    case name => exact hl.elim
    case number => exact hl.elim
    case fnWord =>
      cases hchars
      exact hword (by decide)
    case letWord =>
      cases hchars
      exact hword (by decide)
    case returnWord =>
      cases hchars
      exact hword (by decide)
    case arrow =>
      cases hchars
      exact ⟨_, isPiece_symbol (l := .minus) trivial rfl⟩
    all_goals
      cases hchars
      exact ⟨_, .fixed hl⟩
  | name hname =>
    obtain ⟨c', rest, heq, hstart, -⟩ := hname.word
    simp only [heq, List.cons.injEq] at hchars
    obtain ⟨rfl, -⟩ := hchars
    exact hword hstart
  | number hdigit =>
    cases hchars
    exact ⟨_, .number hdigit (List.forall_mem_nil _)⟩

/-- Where a piece stands, a longest one does. -/
theorem IsPiece.exists_leads {piece : Piece} (h : IsPiece piece) {text : List Char}
    (hahead : piece.chars <+: text) : ∃ longest : Piece, longest.Leads text := by
  by_cases hlongest : ∀ other, IsPiece other → other.chars <+: text →
      other.chars.length ≤ piece.chars.length
  · exact ⟨piece, h, hahead, hlongest⟩
  · push Not at hlongest
    obtain ⟨other, hother, hprefix, hlt⟩ := hlongest
    have hle : other.chars.length ≤ text.length := hprefix.length_le
    exact hother.exists_leads hprefix
termination_by text.length - piece.chars.length

/-- A text starts with a longest piece, or its first character is that of no piece. -/
theorem exists_leads_or (c : Char) (rest : List Char) :
    (∃ piece : Piece, piece.Leads (c :: rest)) ∨ ∀ cs l, ¬ IsPiece ⟨c :: cs, l⟩ := by
  by_cases h : ∃ l, IsPiece ⟨[c], l⟩
  · obtain ⟨l, hpiece⟩ := h
    exact .inl (hpiece.exists_leads ⟨rest, rfl⟩)
  · refine .inr fun cs l hpiece => h ?_
    exact hpiece.head rfl

/-! ### What stands behind a longest piece -/

/-- A longest piece does not go on with the next character. -/
theorem Piece.Leads.not_longer {piece : Piece} {d : Char} {text : List Char}
    (h : piece.Leads (piece.chars ++ d :: text)) (l : Option Lexeme) :
    ¬ IsPiece ⟨piece.chars ++ [d], l⟩ := by
  intro hpiece
  have hprefix : piece.chars ++ [d] <+: piece.chars ++ d :: text := ⟨text, by simp⟩
  have hle := h.longest _ hpiece hprefix
  rw [List.length_append, List.length_singleton] at hle
  omega

/-! ### Pieces are read -/

/-- In front of a text, characters on one line are no white space and no comment, and are read as
one lexeme or as a fault. -/
def ReadsAs (chars rest : List Char) (read : Except GrammarFault Lexeme) : Prop :=
  ∃ c more, chars = c :: more ∧ isBlank c = false ∧ ¬ (c = '/' ∧ (more ++ rest).head? = some '/') ∧
    '\n' ∉ chars ∧ readLexeme c (more ++ rest) = read.map fun l => (l, more.length)

section Reading

variable {c : Char} {more rest : List Char} {l : Lexeme}

theorem readsAs_symbol (hblank : isBlank c = false) (hslash : c ≠ '/')
    (hread : ∀ text, readLexeme c text = .ok (l, 0)) : ReadsAs [c] rest (.ok l) := by
  refine ⟨c, [], rfl, hblank, fun h => hslash h.1, ?_, hread _⟩
  rw [List.mem_singleton]
  rintro rfl
  exact absurd hblank (by decide)

theorem readsAs_word (hstart : isWordStart c = true) (hmore : ∀ d ∈ more, isWordPart d = true)
    (hrest : ∀ d, rest.head? = some d → isWordPart d = false) :
    ReadsAs (c :: more) rest (.ok (wordLexeme (c :: more))) := by
  refine ⟨c, more, rfl, not_isBlank_of_isWordStart hstart, ?_, ?_, ?_⟩
  · rintro ⟨rfl, -⟩
    exact absurd hstart (by decide)
  · intro hline
    have hparts : ∀ d ∈ c :: more, isWordPart d = true :=
      List.forall_mem_cons.2 ⟨isWordPart_of_isWordStart hstart, hmore⟩
    exact absurd (hparts '\n' hline) (by decide)
  · unfold readLexeme
    split
    case h_14 =>
      have hdigit : ¬ c.isDigit = true := by simp [not_isDigit_of_isWordStart hstart]
      rw [if_neg hdigit, if_pos hstart, takeWhile_ended hmore hrest]
      rfl
    all_goals exact absurd hstart (by decide)

theorem readsAs_number (hdigit : c.isDigit = true) (hmore : ∀ d ∈ more, isNumberPart d = true)
    (hrest : ∀ d, rest.head? = some d → isNumberPart d = false) :
    ReadsAs (c :: more) rest (numberLexeme (plainDigits (c :: more))) := by
  have hplain : plainDigits (c :: more) = c :: more.filter (· != '_') := by
    refine List.filter_cons_of_pos ?_
    rw [bne_iff_ne]
    rintro rfl
    exact absurd hdigit (by decide)
  refine ⟨c, more, rfl, not_isBlank_of_isDigit hdigit, ?_, ?_, ?_⟩
  · rintro ⟨rfl, -⟩
    exact absurd hdigit (by decide)
  · intro hline
    rcases List.mem_cons.1 hline with rfl | hline
    · exact absurd hdigit (by decide)
    · exact absurd (hmore _ hline) (by decide)
  · unfold readLexeme
    split
    case h_14 => rw [if_pos hdigit, takeWhile_ended hmore hrest, hplain]
    all_goals exact absurd hdigit (by decide)

/-- A number is what its digits write, and it is read if it fits. -/
theorem numberLexeme_plainDigits (chars : List Char) :
    numberLexeme (plainDigits chars) =
      if writtenNumber chars < 2 ^ 31 then .ok (.number (writtenNumber chars))
      else if writtenNumber chars < 2 ^ 63 then
        .error (.numberOutOfRange (String.ofList (plainDigits chars)))
      else .error (.numberTooLarge (String.ofList (plainDigits chars))) := by
  have hvalue : decimalValue (plainDigits chars) = writtenNumber chars := rfl
  unfold numberLexeme
  simp only [hvalue, largestWord, largestLiteral]
  split
  · rw [if_neg (by omega), if_neg (by omega)]
  · split
    · rw [if_neg (by omega), if_pos (by omega)]
    · rw [if_pos (by omega)]

end Reading

/-- A longest word is ended. -/
theorem Piece.Leads.readsAs_word {c : Char} {more rest : List Char} {l : Option Lexeme}
    (h : Piece.Leads ⟨c :: more, l⟩ (c :: more ++ rest)) (hstart : isWordStart c = true)
    (hmore : ∀ d ∈ more, isWordPart d = true) :
    ReadsAs (c :: more) rest (.ok (wordLexeme (c :: more))) := by
  refine Source.readsAs_word hstart hmore ?_
  intro d hd
  cases rest with
  | nil => cases hd
  | cons d' rest =>
    cases hd
    rw [← Bool.not_eq_true]
    intro hpart
    have hparts : ∀ e ∈ more ++ [d], isWordPart e = true :=
      List.forall_mem_append.2 ⟨hmore, List.forall_mem_singleton.2 hpart⟩
    exact h.not_longer _ (isPiece_word hstart hparts)

/-- A longest number is ended. -/
theorem Piece.Leads.readsAs_number {c : Char} {more rest : List Char} {l : Option Lexeme}
    (h : Piece.Leads ⟨c :: more, l⟩ (c :: more ++ rest)) (hdigit : c.isDigit = true)
    (hmore : ∀ d ∈ more, isNumberPart d = true) :
    ReadsAs (c :: more) rest (numberLexeme (plainDigits (c :: more))) := by
  refine Source.readsAs_number hdigit hmore ?_
  intro d hd
  cases rest with
  | nil => cases hd
  | cons d' rest =>
    cases hd
    rw [← Bool.not_eq_true]
    intro hpart
    have hparts : ∀ e ∈ more ++ [d], isNumberPart e = true :=
      List.forall_mem_append.2 ⟨hmore, List.forall_mem_singleton.2 hpart⟩
    exact h.not_longer _ (.number hdigit hparts)

/-- The spelling of a lexeme that is the longest piece is read as the lexeme. -/
theorem Piece.Leads.readsAs_fixed {l : Lexeme} (hl : l.Fixed) {rest : List Char}
    (h : Piece.Leads ⟨l.spelling.toList, some l⟩ (l.spelling.toList ++ rest)) :
    ReadsAs l.spelling.toList rest (.ok l) := by
  cases l with
  | finish => exact hl.elim
  | name => exact hl.elim
  | number => exact hl.elim
  | fnWord => exact h.readsAs_word (by decide) (List.all_eq_true.1 (by decide))
  | letWord => exact h.readsAs_word (by decide) (List.all_eq_true.1 (by decide))
  | returnWord => exact h.readsAs_word (by decide) (List.all_eq_true.1 (by decide))
  | minus =>
    have hend : ¬ rest.head? = some '>' := by
      intro hd
      obtain ⟨rest, rfl⟩ := List.head?_eq_some_iff.1 hd
      exact h.not_longer _ (.fixed (l := .arrow) trivial)
    exact ⟨'-', [], rfl, by decide, fun h => absurd h.1 (by decide), by decide, if_neg hend⟩
  | arrow => exact ⟨'-', ['>'], rfl, by decide, fun h => absurd h.1 (by decide), by decide, rfl⟩
  | slash =>
    have hend : ¬ rest.head? = some '/' := by
      intro hd
      obtain ⟨rest, rfl⟩ := List.head?_eq_some_iff.1 hd
      exact h.not_longer none (.comment List.not_mem_nil)
    exact ⟨'/', [], rfl, by decide, fun h => hend h.2, by decide, rfl⟩
  | _ => exact Source.readsAs_symbol (by decide) (by decide) fun _ => rfl

/-- A longest piece that is a lexeme is read as this lexeme, if it is no number above the limit. -/
theorem Piece.Leads.readsAs {chars rest : List Char} {l : Lexeme}
    (h : Piece.Leads ⟨chars, some l⟩ (chars ++ rest)) (hfits : Piece.Fits ⟨chars, some l⟩) :
    ReadsAs chars rest (.ok l) := by
  have hpiece := h.isPiece
  cases hpiece with
  | fixed hl => exact h.readsAs_fixed hl
  | @name name hname =>
    obtain ⟨c, more, heq, hstart, hmore⟩ := hname.word
    have hword := wordLexeme_of_isName hname
    rw [heq] at h hword ⊢
    rw [← hword]
    exact h.readsAs_word hstart hmore
  | @number c cs hdigit hcs =>
    have hlow : (writtenNumber (c :: cs) : ℤ) < 2 ^ 31 := hfits _ rfl
    have hread := h.readsAs_number hdigit hcs
    rw [numberLexeme_plainDigits, if_pos (by omega)] at hread
    exact hread

/-! ### The steps of cutting -/

/-- A lexeme, and the tokens behind it. -/
theorem ReadsAs.tokensFrom_ok {chars rest : List Char} {l : Lexeme} (h : ReadsAs chars rest (.ok l))
    (p : Position) :
    tokensFrom p (chars ++ rest) = (tokensFrom (p.afterAll chars) rest).map (⟨l, p⟩ :: ·) := by
  obtain ⟨c, more, rfl, hblank, hcomment, hline, hread⟩ := h
  have hcolumn : p.column + 1 + UInt32.ofNat more.length =
      p.column + UInt32.ofNat (c :: more).length := by
    rw [List.length_cons, UInt32.ofNat_add, add_comm (UInt32.ofNat more.length), add_assoc]
    rfl
  rw [List.cons_append, tokensFrom_eq, skipTrivia_of_lexeme hblank hcomment, afterAll_of_line hline]
  simp only [hread, Except.map, List.drop_left, hcolumn]
  cases tokensFrom ⟨p.line, p.column + UInt32.ofNat (c :: more).length⟩ rest with
  | error fault => rfl
  | ok ts => rfl

theorem ReadsAs.tokensFrom_error {chars rest : List Char} {fault : GrammarFault}
    (h : ReadsAs chars rest (.error fault)) (p : Position) :
    tokensFrom p (chars ++ rest) = .error (.grammar p fault) := by
  obtain ⟨c, more, rfl, hblank, hcomment, -, hread⟩ := h
  rw [List.cons_append, tokensFrom_eq, skipTrivia_of_lexeme hblank hcomment]
  simp only [hread, Except.map]

/-- A comment is skipped up to the end of its line or of the text. -/
theorem skipTrivia_comment {cs rest : List Char} (hcs : '\n' ∉ cs)
    (hrest : ∀ d, rest.head? = some d → d = '\n') (p : Position) :
    skipTrivia true p (cs ++ rest) = skipTrivia false (p.afterAll cs) rest := by
  induction cs generalizing p with
  | nil =>
    cases rest with
    | nil => rfl
    | cons d rest =>
      obtain rfl := hrest d rfl
      rw [List.nil_append, Position.afterAll_nil, skipTrivia, skipTrivia, if_pos (by decide)]
      rfl
  | cons c cs ih =>
    rw [List.mem_cons, not_or] at hcs
    have hopen : (c != '\n') = true := bne_iff_ne.2 (Ne.symm hcs.1)
    rw [List.cons_append, skipTrivia, hopen, ih hcs.2, Position.afterAll_cons]

/-- White space and comments leave no token. -/
theorem Piece.Leads.tokensFrom_none {chars rest : List Char}
    (h : Piece.Leads ⟨chars, none⟩ (chars ++ rest)) (p : Position) :
    tokensFrom p (chars ++ rest) = tokensFrom (p.afterAll chars) rest := by
  have hpiece := h.isPiece
  suffices hskip : skipTrivia false p (chars ++ rest) = skipTrivia false (p.afterAll chars) rest by
    rw [tokensFrom_eq, tokensFrom_eq _ rest, hskip]
  cases hpiece with
  | @blank c hblank =>
    rw [List.singleton_append, skipTrivia, if_pos hblank]
    rfl
  | @comment cs hcs =>
    have hrest : ∀ d, rest.head? = some d → d = '\n' := by
      intro d hd
      obtain ⟨rest, rfl⟩ := List.head?_eq_some_iff.1 hd
      by_contra hne
      have hline : '\n' ∉ cs ++ [d] := by simp [hcs, Ne.symm hne]
      exact h.not_longer none (.comment hline)
    have hopen : ('/' != '\n') = true := rfl
    rw [List.cons_append, List.cons_append, skipTrivia, if_neg (by decide),
      if_pos ⟨rfl, rfl⟩, skipTrivia, hopen, skipTrivia_comment hcs hrest]
    rfl

/-- The reader of lexemes rejects a character only if no piece starts with it. -/
theorem isPiece_or_stray (c : Char) (rest : List Char) :
    (∃ l, IsPiece ⟨[c], l⟩) ∨ readLexeme c rest = .error (.strayCharacter c) := by
  have hsymbol {c : Char} (l : Lexeme) (hl : l.Fixed) (hc : l.spelling.toList = [c]) :
      ∃ l, IsPiece ⟨[c], l⟩ := ⟨some l, isPiece_symbol hl hc⟩
  unfold readLexeme
  split
  case h_1 => exact .inl (hsymbol .leftParen trivial rfl)
  case h_2 => exact .inl (hsymbol .rightParen trivial rfl)
  case h_3 => exact .inl (hsymbol .leftBrace trivial rfl)
  case h_4 => exact .inl (hsymbol .rightBrace trivial rfl)
  case h_5 => exact .inl (hsymbol .comma trivial rfl)
  case h_6 => exact .inl (hsymbol .semicolon trivial rfl)
  case h_7 => exact .inl (hsymbol .colon trivial rfl)
  case h_8 => exact .inl (hsymbol .equals trivial rfl)
  case h_9 => exact .inl (hsymbol .plus trivial rfl)
  case h_10 => exact .inl (hsymbol .star trivial rfl)
  case h_11 => exact .inl (hsymbol .slash trivial rfl)
  case h_12 => exact .inl (hsymbol .percent trivial rfl)
  case h_13 => exact .inl (hsymbol .minus trivial rfl)
  case h_14 =>
    split
    · rename_i hdigit
      exact .inl ⟨_, .number hdigit (List.forall_mem_nil _)⟩
    · split
      · rename_i hstart
        exact .inl ⟨_, isPiece_word hstart (List.forall_mem_nil _)⟩
      · exact .inr rfl

/-- A number above the limit is rejected. -/
theorem Piece.Leads.tokensFrom_number {chars rest : List Char} {n : ℤ}
    (h : Piece.Leads ⟨chars, some (.number n)⟩ (chars ++ rest)) (hn : 2 ^ 31 ≤ n) (p : Position) :
    tokensFrom p (chars ++ rest) = .error (.grammar p
      (if n < 2 ^ 63 then .numberOutOfRange (String.ofList (plainDigits chars))
        else .numberTooLarge (String.ofList (plainDigits chars)))) := by
  have hpiece := h.isPiece
  cases hpiece with
  | fixed hl => exact hl.elim
  | @number c cs hdigit hcs =>
    have hread := h.readsAs_number hdigit hcs
    rw [numberLexeme_plainDigits, if_neg (by omega)] at hread
    by_cases hhigh : writtenNumber (c :: cs) < 2 ^ 63
    · rw [if_pos hhigh] at hread
      rw [if_pos (by omega)]
      exact hread.tokensFrom_error p
    · rw [if_neg hhigh] at hread
      rw [if_neg (by omega)]
      exact hread.tokensFrom_error p

/-- What offends is a fault where it stands. -/
theorem Offends.tokensFrom {text : List Char} {fault : GrammarFault} (h : Offends text fault)
    (p : Position) : tokensFrom p text = .error (.grammar p fault) := by
  cases h with
  | @stray c rest hnone =>
    have hblank : isBlank c = false := by
      rw [← Bool.not_eq_true]
      exact fun hblank => hnone _ _ (.blank hblank)
    have hcomment : ¬ (c = '/' ∧ rest.head? = some '/') := by
      rintro ⟨rfl, -⟩
      exact hnone _ _ (.fixed (l := .slash) trivial)
    have hread := (isPiece_or_stray c rest).resolve_left fun ⟨l, hpiece⟩ => hnone _ _ hpiece
    rw [tokensFrom_eq, skipTrivia_of_lexeme hblank hcomment]
    simp only [hread]
  | outOfRange hleads hlow hhigh => rw [hleads.tokensFrom_number hlow, if_pos hhigh]
  | tooLarge hleads hlow =>
    rw [hleads.tokensFrom_number (by omega), if_neg (by omega)]

/-! ### Whole texts -/

/-- A text is its pieces and what is left of it. -/
theorem Cut.eq_append {text rest : List Char} {pieces : List Piece} (h : Cut text pieces rest) :
    text = pieces.flatMap Piece.chars ++ rest := by
  induction h with
  | nil => rfl
  | cons _ _ ih => rw [List.flatMap_cons, List.append_assoc, ← ih]

/-- Pieces whose numbers fit give their lexemes, and reading goes on behind them. -/
theorem Cut.tokensFrom {text rest : List Char} {pieces : List Piece} (h : Cut text pieces rest)
    (hfits : ∀ piece ∈ pieces, piece.Fits) (before : List Char) :
    tokensFrom (positionBehind before) text =
      (tokensFrom (positionBehind (before ++ pieces.flatMap Piece.chars)) rest).map
        (tokensOf before pieces ++ ·) := by
  induction h generalizing before with
  | @nil text =>
    rw [List.flatMap_nil, List.append_nil]
    cases Source.tokensFrom (positionBehind before) text with
    | error fault => rfl
    | ok ts => rfl
  | @cons piece text rest more hleads _ ih =>
    obtain ⟨hfirst, hmore⟩ := List.forall_mem_cons.1 hfits
    have hbehind := ih hmore (before ++ piece.chars)
    rw [List.append_assoc, ← List.flatMap_cons] at hbehind
    obtain ⟨chars, _ | l⟩ := piece
    · rw [hleads.tokensFrom_none, afterAll_positionBehind, hbehind, tokensOf]
    · rw [(hleads.readsAs hfirst).tokensFrom_ok, afterAll_positionBehind]
      simp only [hbehind, tokensOf]
      cases Source.tokensFrom (positionBehind
        (before ++ List.flatMap Piece.chars (⟨chars, some l⟩ :: more))) rest with
      | error fault => rfl
      | ok ts => rfl

/-- Every text can be cut up to its end, or up to what offends. -/
theorem exists_cut (text : List Char) :
    ∃ pieces rest, Cut text pieces rest ∧ (∀ piece ∈ pieces, piece.Fits) ∧
      (rest = [] ∨ ∃ fault, Offends rest fault) := by
  match text with
  | [] => exact ⟨[], [], .nil, List.forall_mem_nil _, .inl rfl⟩
  | c :: text =>
    rcases exists_leads_or c text with ⟨piece, hleads⟩ | hnone
    · obtain ⟨behind, hbehind⟩ := hleads.ahead
      by_cases hfits : piece.Fits
      · have hshorter : behind.length < (c :: text).length := by
          have hpos := List.length_pos_iff.2 hleads.isPiece.ne_nil
          rw [← hbehind, List.length_append]
          omega
        obtain ⟨pieces, rest, hcut, hall, hend⟩ := exists_cut behind
        rw [← hbehind] at hleads ⊢
        exact ⟨piece :: pieces, rest, .cons hleads hcut, List.forall_mem_cons.2 ⟨hfits, hall⟩, hend⟩
      · -- A piece that does not fit is a number above the limit.
        unfold Piece.Fits at hfits
        push Not at hfits
        obtain ⟨n, hnumber, hlow⟩ := hfits
        obtain ⟨chars, lexeme?⟩ := piece
        obtain rfl : lexeme? = some (.number n) := hnumber
        rw [← hbehind] at hleads ⊢
        refine ⟨[], _, .nil, List.forall_mem_nil _, .inr ?_⟩
        by_cases hhigh : n < 2 ^ 63
        · exact ⟨_, .outOfRange hleads (by omega) hhigh⟩
        · exact ⟨_, .tooLarge hleads (by omega)⟩
    · exact ⟨[], _, .nil, List.forall_mem_nil _, .inr ⟨_, .stray hnone⟩⟩
termination_by text.length
decreasing_by assumption

end Ingot.Source

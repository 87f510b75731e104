import Ingot.Proofs.Source.Names
import Ingot.Proofs.Source.Printing

/-!
# Programs and their texts

A program is printed as the spellings of its lexemes with a blank between every two of them. A
spelling with a blank or nothing behind it is cut off as its lexeme (`reads_spelling`), so that a
printed row of lexemes is cut into just these (`tokensFrom_spelled`). With what the grammar says of
printed trees, **a program with names and numbers of the language is read from what it is printed
as, up to positions** (`print_reads`). So no two such programs share a text.
-/

namespace Ingot.Source

open Ingot.Text

/-! ### Spellings -/

/-- How a lexeme is written. -/
def Lexeme.spelling : Lexeme → String
  | finish => ""
  | name text => text
  | number value => toString value
  | fnWord => "fn"
  | letWord => "let"
  | returnWord => "return"
  | leftParen => "("
  | rightParen => ")"
  | leftBrace => "\x7b"
  | rightBrace => "\x7d"
  | comma => ","
  | semicolon => ";"
  | colon => ":"
  | arrow => "->"
  | equals => "="
  | plus => "+"
  | minus => "-"
  | star => "*"
  | slash => "/"
  | percent => "%"

/-- The text of a program: its lexemes, with a blank between every two of them. -/
def Program.print (program : Program) : String :=
  " ".intercalate (program.lexemes.map Lexeme.spelling)

/-! ### Kinds of characters -/

theorem inRanges_iff {ranges : List CodeRange} {code : ℕ} :
    inRanges ranges code = true ↔ ∃ r ∈ ranges, r.1 ≤ code ∧ code ≤ r.2 := by
  simp [inRanges]

/-- No character is of two kinds whose ranges of code points lie apart. -/
theorem not_of_ranges {p q : Char → Bool} {ranges ranges' : List CodeRange}
    (hp : ∀ c, p c = true → inRanges ranges c.toNat = true)
    (hq : ∀ c, q c = true → inRanges ranges' c.toNat = true)
    (hapart : ∀ r ∈ ranges', ∀ s ∈ ranges, s.2 < r.1 ∨ r.2 < s.1) {c : Char} (hc : p c = true) :
    q c = false := by
  rw [← Bool.not_eq_true]
  intro h
  obtain ⟨s, hs, hsc⟩ := inRanges_iff.1 (hp c hc)
  obtain ⟨r, hr, hrc⟩ := inRanges_iff.1 (hq c h)
  have := hapart r hr s hs
  omega

/-- The code points of white space. -/
def blankRanges : List CodeRange :=
  [(0x09, 0x0D), (0x20, 0x20), (0x85, 0x85), (0xA0, 0xA0), (0x1680, 0x1680), (0x2000, 0x200A),
    (0x2028, 0x2029), (0x202F, 0x202F), (0x205F, 0x205F), (0x3000, 0x3000)]

/-- The code points of digits. -/
def digitRanges : List CodeRange := [(0x30, 0x39)]

/-- The code points of what a word starts with. -/
def wordStartRanges : List CodeRange :=
  (0x41, 0x5A) :: (0x5F, 0x5F) :: (0x61, 0x7A) :: letterRanges

theorem inRanges_of_isBlank (c : Char) (h : isBlank c = true) :
    inRanges blankRanges c.toNat = true := by
  simp only [isBlank, Bool.or_eq_true, Bool.and_eq_true, decide_eq_true_eq, beq_iff_eq,
    UInt32.le_iff_toNat_le, ← UInt32.toNat_inj, UInt32.reduceToNat] at h
  simp only [inRanges, blankRanges, List.any_cons, List.any_nil, Bool.or_eq_true,
    Bool.and_eq_true, decide_eq_true_eq, Char.toNat]
  omega

theorem inRanges_of_isDigit (c : Char) (h : c.isDigit = true) :
    inRanges digitRanges c.toNat = true := by
  simp only [Char.isDigit, Bool.and_eq_true, decide_eq_true_eq, ge_iff_le,
    UInt32.le_iff_toNat_le] at h
  exact inRanges_iff.2 ⟨_, List.mem_cons_self, h⟩

theorem inRanges_of_isWordStart (c : Char) (h : isWordStart c = true) :
    inRanges wordStartRanges c.toNat = true := by
  rw [isWordStart, isLetter, Bool.or_eq_true, beq_iff_eq] at h
  rcases h with h | rfl
  · split at h
    · delta Char.isAlpha Char.isUpper Char.isLower at h
      simp only [Bool.or_eq_true, Bool.and_eq_true, decide_eq_true_eq, ge_iff_le,
        UInt32.le_iff_toNat_le] at h
      rcases h with hupper | hlower
      · exact inRanges_iff.2 ⟨(0x41, 0x5A), by simp [wordStartRanges], hupper⟩
      · exact inRanges_iff.2 ⟨(0x61, 0x7A), by simp [wordStartRanges], hlower⟩
    · obtain ⟨r, hr, hcode⟩ := inRanges_iff.1 h
      have hmem : r ∈ wordStartRanges :=
        List.mem_cons_of_mem _ (List.mem_cons_of_mem _ (List.mem_cons_of_mem _ hr))
      exact inRanges_iff.2 ⟨r, hmem, hcode⟩
  · exact inRanges_iff.2 ⟨(0x5F, 0x5F), by simp [wordStartRanges], by decide⟩

theorem not_isBlank_of_isWordStart {c : Char} (h : isWordStart c = true) : isBlank c = false :=
  not_of_ranges inRanges_of_isWordStart inRanges_of_isBlank (by decide +kernel) h

theorem not_isBlank_of_isDigit {c : Char} (h : c.isDigit = true) : isBlank c = false :=
  not_of_ranges inRanges_of_isDigit inRanges_of_isBlank (by decide) h

theorem not_isDigit_of_isWordStart {c : Char} (h : isWordStart c = true) : c.isDigit = false :=
  not_of_ranges inRanges_of_isWordStart inRanges_of_isDigit (by decide +kernel) h

/-! ### Spellings are read -/

/-- A text is at its end, or goes on with a blank. -/
def Apart (rest : List Char) : Prop := ∀ c, rest.head? = some c → c = ' '

theorem apart_nil : Apart [] := by
  rintro c ⟨⟩

theorem apart_blank (text : List Char) : Apart (' ' :: text) := by
  rintro c ⟨⟩
  rfl

/-- A text that stands apart from what is behind it is read as a lexeme. -/
def Reads (text : List Char) (l : Lexeme) : Prop :=
  ∃ c more, text = c :: more ∧ isBlank c = false ∧ ∀ rest, Apart rest →
    ¬ (c = '/' ∧ (more ++ rest).head? = some '/') ∧
      readLexeme c (more ++ rest) = .ok (l, more.length)

/-- A lexeme of a single character other than a slash, whatever stands behind it. -/
theorem reads_symbol {c : Char} {l : Lexeme} (hblank : isBlank c = false) (hslash : c ≠ '/')
    (hread : ∀ rest, readLexeme c rest = .ok (l, 0)) : Reads [c] l :=
  ⟨c, [], rfl, hblank, fun rest _ => ⟨fun h => hslash h.1, hread rest⟩⟩

/-- The characters of a kind that a row goes on with, if the row is ended by one of another kind. -/
theorem takeWhile_ended {p : Char → Bool} {cs rest : List Char} (hcs : ∀ d ∈ cs, p d = true)
    (hrest : ∀ d, rest.head? = some d → p d = false) : (cs ++ rest).takeWhile p = cs := by
  rw [List.takeWhile_append_of_pos hcs]
  cases rest with
  | nil => simp
  | cons d rest => simp [hrest d rfl]

/-- All characters of a kind are taken up to a blank or the end. -/
theorem takeWhile_apart {p : Char → Bool} (hp : p ' ' = false) {more rest : List Char}
    (hmore : ∀ d ∈ more, p d = true) (hrest : Apart rest) :
    (more ++ rest).takeWhile p = more := by
  refine takeWhile_ended hmore fun d hd => ?_
  rw [hrest d hd]
  exact hp

theorem reads_word {c : Char} {more : List Char} (hstart : isWordStart c = true)
    (hmore : ∀ d ∈ more, isWordPart d = true) : Reads (c :: more) (wordLexeme (c :: more)) := by
  refine ⟨c, more, rfl, not_isBlank_of_isWordStart hstart, fun rest hrest => ⟨?_, ?_⟩⟩
  · rintro ⟨rfl, -⟩
    exact absurd hstart (by decide)
  · unfold readLexeme
    split
    case h_14 =>
      rw [if_neg (by simp [not_isDigit_of_isWordStart hstart]), if_pos hstart,
        takeWhile_apart (by decide) hmore hrest]
    all_goals exact absurd hstart (by decide)

theorem reads_digits {c : Char} {more : List Char} (h : ∀ d ∈ c :: more, d.isDigit = true)
    (hvalue : decimalValue (c :: more) ≤ largestLiteral) :
    Reads (c :: more) (.number (decimalValue (c :: more))) := by
  obtain ⟨hc, hmore⟩ := List.forall_mem_cons.1 h
  refine ⟨c, more, rfl, not_isBlank_of_isDigit hc, fun rest hrest => ⟨?_, ?_⟩⟩
  · rintro ⟨rfl, -⟩
    exact absurd hc (by decide)
  · have hparts : ∀ d ∈ more, isNumberPart d = true := fun d hd => by
      rw [isNumberPart, hmore d hd, Bool.true_or]
    have hplain : more.filter (· != '_') = more := by
      refine List.filter_eq_self.2 fun d hd => bne_iff_ne.2 ?_
      rintro rfl
      exact absurd (hmore _ hd) (by decide)
    have hnumber : numberLexeme (c :: more) = .ok (.number (decimalValue (c :: more))) := by
      have hword : largestLiteral ≤ largestWord := by decide
      rw [numberLexeme, if_neg (by omega), if_neg (by omega)]
    unfold readLexeme
    split
    case h_14 =>
      rw [if_pos hc, takeWhile_apart (by decide) hparts hrest]
      simp only [hplain, hnumber]
      rfl
    all_goals exact absurd hc (by decide)

theorem reads_number {value : ℤ} (hvalue : 0 ≤ value ∧ value ≤ largestLiteral) :
    Reads (toString value).toList (.number value) := by
  obtain ⟨n, rfl⟩ := Int.eq_ofNat_of_zero_le hvalue.1
  have hdecimal : decimalValue (Nat.toDigits 10 n) = n :=
    Nat.ofDigitChars_toDigits (by omega) (by omega)
  have htext : (toString (n : ℤ)).toList = Nat.toDigits 10 n := Nat.toList_repr
  have hdigits : ∀ d ∈ Nat.toDigits 10 n, d.isDigit = true := fun d hd =>
    Nat.isDigit_of_mem_toDigits (by omega) (by omega) hd
  rw [htext]
  obtain ⟨c, more, heq⟩ := List.exists_cons_of_ne_nil (Nat.toDigits_ne_nil : Nat.toDigits 10 n ≠ [])
  rw [heq] at hdecimal hdigits ⊢
  have hread := reads_digits hdigits (by omega)
  rw [hdecimal] at hread
  exact hread

theorem reads_name {name : String} (h : IsName name) : Reads name.toList (.name name) := by
  obtain ⟨c, more, heq, hstart, hmore⟩ := h.word
  have hread := reads_word hstart hmore
  rw [← heq, wordLexeme_of_isName h] at hread
  exact hread

/-- A lexeme that a text can have in front of its end. -/
def Lexeme.Written : Lexeme → Prop
  | finish => False
  | l => l.Proper

/-- **The spelling of a lexeme is read as the lexeme.** -/
theorem reads_spelling {l : Lexeme} (h : l.Written) : Reads l.spelling.toList l := by
  cases l with
  | finish => exact h.elim
  | name text => exact reads_name h
  | number value => exact reads_number h
  | fnWord => exact reads_word (c := 'f') (by decide) (List.all_eq_true.1 (by decide))
  | letWord => exact reads_word (c := 'l') (by decide) (List.all_eq_true.1 (by decide))
  | returnWord => exact reads_word (c := 'r') (by decide) (List.all_eq_true.1 (by decide))
  | minus =>
    refine ⟨'-', [], rfl, by decide, fun rest hrest => ⟨fun h => absurd h.1 (by decide), ?_⟩⟩
    have harrow : ¬ rest.head? = some '>' := fun h => absurd (hrest _ h) (by decide)
    exact if_neg harrow
  | arrow => exact ⟨'-', ['>'], rfl, by decide, fun rest _ => ⟨fun h => absurd h.1 (by decide), rfl⟩⟩
  | slash =>
    refine ⟨'/', [], rfl, by decide, fun rest hrest => ⟨?_, rfl⟩⟩
    rintro ⟨-, h⟩
    exact absurd (hrest _ h) (by decide)
  | _ => exact reads_symbol (by decide) (by decide) fun _ => rfl

/-! ### Rows of spellings are cut -/

theorem tokensFrom_eq (p : Position) (text : List Char) :
    tokensFrom p text =
      match skipTrivia false p text with
      | (here, []) => .ok [⟨.finish, here⟩]
      | (here, c :: rest) =>
        match readLexeme c rest with
        | .error fault => .error (.grammar here fault)
        | .ok (lexeme, more) =>
          match tokensFrom ⟨here.line, here.column + 1 + UInt32.ofNat more⟩ (rest.drop more) with
          | .error fault => .error fault
          | .ok tokens => .ok (⟨lexeme, here⟩ :: tokens) := by
  rw [tokensFrom]
  generalize skipTrivia false p text = cut
  rcases cut with ⟨here, _ | ⟨c, rest⟩⟩
  · rfl
  · rfl

theorem tokensFrom_nil (p : Position) : tokensFrom p [] = .ok [⟨.finish, p⟩] := by
  rw [tokensFrom_eq, skipTrivia]

theorem skipTrivia_of_lexeme {c : Char} {text : List Char} (hblank : isBlank c = false)
    (hcomment : ¬ (c = '/' ∧ text.head? = some '/')) (p : Position) :
    skipTrivia false p (c :: text) = (p, c :: text) := by
  rw [skipTrivia, if_neg (by simp [hblank]), if_neg hcomment]

/-- A blank in front of a text moves it by one column. -/
theorem tokensFrom_blank (p : Position) (text : List Char) :
    tokensFrom p (' ' :: text) = tokensFrom (p.after ' ') text := by
  have hskip : skipTrivia false p (' ' :: text) = skipTrivia false (p.after ' ') text := by
    rw [skipTrivia, if_pos (by decide)]
  rw [tokensFrom_eq, tokensFrom_eq _ text, hskip]

/-- The first token of a text, if the ones behind it are known. -/
theorem tokensFrom_reads {front rest : List Char} {l : Lexeme} (hread : Reads front l)
    (hrest : Apart rest) {ls : List Lexeme}
    (htokens : ∀ p, ∃ ts, tokensFrom p rest = .ok ts ∧ ts.map Token.lexeme = ls) (p : Position) :
    ∃ ts, tokensFrom p (front ++ rest) = .ok ts ∧ ts.map Token.lexeme = l :: ls := by
  obtain ⟨c, more, rfl, hblank, hread⟩ := hread
  obtain ⟨hcomment, hlexeme⟩ := hread rest hrest
  obtain ⟨ts, hts, hls⟩ := htokens ⟨p.line, p.column + 1 + UInt32.ofNat more.length⟩
  refine ⟨⟨l, p⟩ :: ts, ?_, by rw [List.map_cons, hls]⟩
  rw [List.cons_append, tokensFrom_eq, skipTrivia_of_lexeme hblank hcomment]
  simp only [hlexeme, List.drop_left, hts]

/-- **Spellings with a blank between every two of them are cut into their lexemes.** -/
theorem tokensFrom_spelled {ls : List Lexeme} (h : ∀ l ∈ ls, l.Written) (p : Position) :
    ∃ ts, tokensFrom p ([' '].intercalate (ls.map fun l => l.spelling.toList)) = .ok ts ∧
      ts.map Token.lexeme = ls ++ [.finish] := by
  have hnil : ∀ p, ∃ ts, tokensFrom p [] = .ok ts ∧ ts.map Token.lexeme = [.finish] := fun p =>
    ⟨[⟨.finish, p⟩], tokensFrom_nil p, rfl⟩
  induction ls generalizing p with
  | nil => exact hnil p
  | cons l more ih =>
    obtain ⟨hfirst, hmore⟩ := List.forall_mem_cons.1 h
    have hread := reads_spelling hfirst
    cases more with
    | nil =>
      rw [List.map_singleton, List.intercalate_singleton, ← List.append_nil l.spelling.toList]
      exact tokensFrom_reads hread apart_nil hnil p
    | cons l₂ more =>
      rw [List.map_cons, List.map_cons, List.intercalate_cons_cons, List.append_assoc]
      refine tokensFrom_reads hread (apart_blank _) (fun q => ?_) p
      rw [tokensFrom_blank]
      exact ih hmore _

/-! ### Programs with the names and numbers of texts -/

theorem forall_mem_intercalate {Q : Lexeme → Prop} {separator : Lexeme} (hseparator : Q separator)
    {rows : List (List Lexeme)} (hrows : ∀ row ∈ rows, ∀ l ∈ row, Q l) :
    ∀ l ∈ [separator].intercalate rows, Q l := by
  induction rows with
  | nil => exact List.forall_mem_nil Q
  | cons row more ih =>
    obtain ⟨hrow, hmore⟩ := List.forall_mem_cons.1 hrows
    cases more with
    | nil =>
      rw [List.intercalate_singleton]
      exact hrow
    | cons row₂ more =>
      rw [List.intercalate_cons_cons, List.append_assoc]
      exact List.forall_mem_append.2 ⟨hrow, List.forall_mem_cons.2 ⟨hseparator, ih hmore⟩⟩

theorem BinaryOp.written (op : BinaryOp) : op.lexeme.Written := by
  cases op <;> exact trivial

theorem written_valueType : (Lexeme.name valueType).Written :=
  ⟨⟨'i', ['3', '2'], rfl, by decide, List.all_eq_true.1 (by decide)⟩, by decide⟩

theorem written_enclosed {needed : Bool} {ls : List Lexeme} (h : ∀ l ∈ ls, l.Written) :
    ∀ l ∈ enclosed needed ls, l.Written := by
  rw [enclosed]
  split
  · simp only [List.forall_mem_cons, List.forall_mem_append]
    exact ⟨trivial, h, trivial, List.forall_mem_nil _⟩
  · exact h

mutual

theorem written_lexemes {e : Expr} (h : e.MadeOf fun t => t.lexeme.Proper) (level : Nat) :
    ∀ l ∈ e.lexemes level, l.Written := by
  match e with
  | .number n _ => exact List.forall_mem_singleton.2 h
  | .var name _ => exact List.forall_mem_singleton.2 h
  | .neg operand _ => exact List.forall_mem_cons.2 ⟨trivial, written_lexemes h.2 2⟩
  | .binary op left right _ =>
    obtain ⟨-, hleft, hright⟩ := h
    refine written_enclosed (List.forall_mem_append.2 ⟨written_lexemes hleft _, ?_⟩)
    exact List.forall_mem_cons.2 ⟨op.written, written_lexemes hright _⟩
  | .call function arguments _ =>
    obtain ⟨hname, harguments⟩ := h
    have hinner : ∀ l ∈ [Lexeme.comma].intercalate (argumentLexemes arguments), l.Written :=
      forall_mem_intercalate trivial (written_argumentLexemes harguments)
    simp only [Expr.lexemes, List.forall_mem_cons, List.forall_mem_append]
    exact ⟨hname, trivial, hinner, trivial, List.forall_mem_nil _⟩

theorem written_argumentLexemes {es : List Expr}
    (h : argumentsMadeOf (fun t => t.lexeme.Proper) es) :
    ∀ row ∈ argumentLexemes es, ∀ l ∈ row, l.Written := by
  match es with
  | [] => exact List.forall_mem_nil _
  | e :: more =>
    exact List.forall_mem_cons.2 ⟨written_lexemes h.1 0, written_argumentLexemes h.2⟩

end

theorem Statement.written {s : Statement} (h : s.MadeOf fun t => t.lexeme.Proper) :
    ∀ l ∈ s.lexemes, l.Written := by
  cases s with
  | bind name value =>
    obtain ⟨-, ⟨_, hname⟩, hvalue⟩ := h
    simp only [Statement.lexemes, List.forall_mem_cons, List.forall_mem_append]
    exact ⟨trivial, hname, trivial, written_lexemes hvalue 0, trivial, List.forall_mem_nil _⟩
  | result value =>
    obtain ⟨-, hvalue⟩ := h
    simp only [Statement.lexemes, List.forall_mem_cons, List.forall_mem_append]
    exact ⟨trivial, written_lexemes hvalue 0, trivial, List.forall_mem_nil _⟩
  | effect value =>
    simp only [Statement.lexemes, List.forall_mem_cons, List.forall_mem_append]
    exact ⟨written_lexemes h 0, trivial, List.forall_mem_nil _⟩

theorem Function.written {f : Function} (h : f.MadeOf fun t => t.lexeme.Proper) :
    ∀ l ∈ f.lexemes, l.Written := by
  have hparameters : ∀ l ∈ [Lexeme.comma].intercalate (f.parameters.map Parameter.lexemes),
      l.Written := by
    refine forall_mem_intercalate trivial (List.forall_mem_map.2 fun x hx => ?_)
    simp only [Parameter.lexemes, List.forall_mem_cons]
    exact ⟨h.parameters x hx, trivial, written_valueType, List.forall_mem_nil _⟩
  have hbody : ∀ l ∈ f.body.flatMap Statement.lexemes, l.Written :=
    List.forall_mem_flatMap.2 fun s hs => Statement.written (h.body s hs)
  obtain ⟨_, hname⟩ := h.name
  simp only [Function.lexemes, List.forall_mem_cons, List.forall_mem_append]
  exact ⟨trivial, hname, trivial, hparameters, trivial, trivial, written_valueType, trivial,
    hbody, trivial, List.forall_mem_nil _⟩

/-- All names of a program are words that are not reserved, and all its numbers fit. -/
def Program.Proper (program : Program) : Prop :=
  ∀ f ∈ program.functions, f.MadeOf fun t => t.lexeme.Proper

theorem Program.Proper.written {program : Program} (h : program.Proper) :
    ∀ l ∈ program.lexemes, l.Written :=
  List.forall_mem_flatMap.2 fun f hf => Function.written (h f hf)

/-! ### Programs are read from what they are printed as -/

theorem Program.toList_print (program : Program) :
    program.print.toList =
      [' '].intercalate (program.lexemes.map fun l => l.spelling.toList) := by
  rw [Program.print, String.toList_intercalate, List.map_map]
  rfl

/-- A program is read from what it is printed as, up to positions. -/
theorem Program.Proper.exists_read {program : Program} (h : program.Proper) :
    ∃ ts program', tokens program.print = .ok ts ∧
      ts.map Token.lexeme = program.lexemes ++ [.finish] ∧ parse ts = .ok program' ∧
      program'.bare = program.bare := by
  obtain ⟨ts, htokens, hlexemes⟩ := tokensFrom_spelled h.written .start
  obtain ⟨inner, p, rfl, hinner⟩ := eq_concat_of_map hlexemes
  obtain ⟨functions, hbare, htrees⟩ := exists_isFunctions_of_lexemes program.functions hinner
  have hfinish : ∀ t ∈ inner, t.lexeme ≠ .finish := by
    intro t ht heq
    have hl := h.written t.lexeme (hinner ▸ List.mem_map_of_mem ht)
    rw [heq] at hl
    exact hl
  refine ⟨_, ⟨functions⟩, ?_, hlexemes, (parse_eq_ok_iff hfinish).2 htrees, ?_⟩
  · rw [tokens, program.toList_print]
    exact htokens
  · rw [Program.bare, hbare, Program.bare]

/-- **A program with names and numbers of the language is cut into its lexemes and read from what
it is printed as, up to positions. No fewer tokens are read as it, and no other such program is
printed the same.** -/
theorem print_reads (program : Program) (h : program.Proper) :
    (∃ ts program', tokens program.print = .ok ts ∧
      ts.map Token.lexeme = program.lexemes ++ [.finish] ∧ parse ts = .ok program' ∧
      program'.bare = program.bare) ∧
    (∀ (inner : List Token) (program' : Program), IsFunctions inner program'.functions →
      program'.bare = program.bare → program.lexemes.length ≤ inner.length) ∧
    ∀ program' : Program, program'.Proper → program'.print = program.print →
      program'.bare = program.bare := by
  refine ⟨h.exists_read, fun _ _ htree hbare => Program.length_lexemes_le htree hbare, ?_⟩
  intro program' h' hprint
  obtain ⟨ts, found, htokens, -, hparse, hbare⟩ := h.exists_read
  obtain ⟨ts', found', htokens', -, hparse', hbare'⟩ := h'.exists_read
  -- One text is cut in one way, and its tokens are read as one program.
  rw [hprint, htokens] at htokens'
  cases htokens'
  rw [hparse] at hparse'
  cases hparse'
  exact hbare'.symm.trans hbare

/-- A function of `x` whose value is a sign in front of a difference, times a call; the difference
has another one on its right. -/
def nestedProgram : Program :=
  ⟨[⟨"f", [⟨"x", .nowhere⟩], [.result (.binary .mul
    (.neg (.binary .sub (.var "x" .nowhere)
      (.binary .sub (.number 3 .nowhere) (.var "x" .nowhere) .nowhere) .nowhere) .nowhere)
    (.call "f" [.var "x" .nowhere] .nowhere) .nowhere) .nowhere], .nowhere⟩]⟩

theorem print_reads_nested :
    nestedProgram.Proper ∧
    nestedProgram.print =
      "fn f ( x : i32 ) -> i32 \x7b return - ( x - ( 3 - x ) ) * f ( x ) ; \x7d" ∧
    (∃ ts program', tokens nestedProgram.print = .ok ts ∧ parse ts = .ok program' ∧
      program'.bare = nestedProgram.bare) ∧
    ∀ (inner : List Token) (program' : Program), IsFunctions inner program'.functions →
      program'.bare = nestedProgram.bare → 28 ≤ inner.length := by
  have hf : IsName "f" := ⟨⟨'f', [], rfl, by decide, List.forall_mem_nil _⟩, by decide⟩
  have hx : IsName "x" := ⟨⟨'x', [], rfl, by decide, List.forall_mem_nil _⟩, by decide⟩
  have hproper : nestedProgram.Proper := by
    refine List.forall_mem_singleton.2 ⟨trivial, ⟨.nowhere, hf⟩, ?_, ?_⟩
    · exact List.forall_mem_singleton.2 hx
    · have hthree : (Lexeme.number 3).Proper := by simp [Lexeme.Proper, largestLiteral]
      exact List.forall_mem_singleton.2
        ⟨trivial, trivial, ⟨trivial, trivial, hx, trivial, hthree, hx⟩, hf, hx, trivial⟩
  obtain ⟨⟨ts, program', htokens, -, hread⟩, hfewest, -⟩ := print_reads nestedProgram hproper
  exact ⟨hproper, by cbv, ⟨ts, program', htokens, hread⟩, hfewest⟩

end Ingot.Source
